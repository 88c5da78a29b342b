import Formula.Token.Literal

/-! # The language of string literals

What stands between the quotes of a string, said without a scanner: plain characters, and pairs
of a backslash and any character.  A pair stands for the character of its escape, or for its
second character where that is the letter of no escape (`Denotes`).

The scanner reads such a text up to the quote behind it, as what it stands for
(`Denotes.body_append`), and it reads nothing else up to a quote (`denotes_of_body`).
-/
namespace Formula
namespace Text
variable {letter c : Char}

/-- The letter of an escape stands for its character. -/
theorem unescape_of_mem (h : (letter, c) ∈ escapes) : unescape letter = c := by
  simp only [escapes, List.mem_cons, Prod.mk.injEq, List.not_mem_nil, or_false] at h
  rcases h with ⟨rfl, rfl⟩ | ⟨rfl, rfl⟩ | ⟨rfl, rfl⟩ | ⟨rfl, rfl⟩ | ⟨rfl, rfl⟩ <;> rfl

/-- What a letter stands for is the character of its escape, or it has none and stands for
itself. -/
theorem unescape_cases (letter : Char) :
    (letter, unescape letter) ∈ escapes ∨
      (∀ c, (letter, c) ∉ escapes) ∧ unescape letter = letter := by
  unfold unescape
  cases found : escapes.lookup letter with
  | some c =>
    obtain ⟨front, behind, same, -⟩ := List.lookup_eq_some_iff.mp found
    rw [same]
    exact .inl (List.mem_append_right _ List.mem_cons_self)
  | none =>
    refine .inr ⟨fun c member => ?_, rfl⟩
    simpa using List.lookup_eq_none_iff.mp found _ member

/-- The letter of no escape stands for itself. -/
theorem unescape_of_not_mem (h : ∀ c, (letter, c) ∉ escapes) : unescape letter = letter := by
  rcases unescape_cases letter with member | ⟨-, itself⟩
  · exact absurd member (h _)
  · exact itself

end Text

namespace Token

/-- What stands between the quotes of a string, and the text that the string stands for. -/
inductive Denotes : List Char → List Char → Prop
  | nil : Denotes [] []
  | plain {c : Char} {inner value : List Char} : c ≠ '"' → c ≠ '\\' → Denotes inner value →
    Denotes (c :: inner) (c :: value)
  | escape {letter c : Char} {inner value : List Char} : (letter, c) ∈ Text.escapes →
    Denotes inner value → Denotes ('\\' :: letter :: inner) (c :: value)
  | itself {letter : Char} {inner value : List Char} : (∀ c, (letter, c) ∉ Text.escapes) →
    Denotes inner value → Denotes ('\\' :: letter :: inner) (letter :: value)

section Literals
variable {text inner value : List Char}

/-- A pair of a backslash and a letter stands for what the letter stands for. -/
theorem Denotes.pair (letter : Char) (h : Denotes inner value) :
    Denotes ('\\' :: letter :: inner) (Text.unescape letter :: value) := by
  rcases Text.unescape_cases letter with member | ⟨missing, itself⟩
  · exact .escape member h
  · rw [itself]
    exact .itself missing h

/-- A plain character is read as itself. -/
theorem Literal.body_plain {c : Char} (quote : c ≠ '"') (backslash : c ≠ '\\')
    (text : List Char) : body (c :: text) = (body text).cons [c] c := by
  rw [body]
  · exact quote
  · rintro rfl
    exact absurd rfl backslash
  · rintro _ _ rfl
    exact absurd rfl backslash

/-- **A string is read up to its closing quote**, as what it stands for. -/
theorem Denotes.body_append (h : Denotes inner value) (behind : List Char) :
    Literal.body (inner ++ '"' :: behind) = .closed inner value behind := by
  induction h with
  | nil => rw [List.nil_append, Literal.body]
  | plain quote backslash _ ih =>
    rw [List.cons_append, Literal.body_plain quote backslash, ih]
    rfl
  | escape member _ ih =>
    rw [List.cons_append, List.cons_append, Literal.body, ih, Text.unescape_of_mem member]
    rfl
  | itself missing _ ih =>
    rw [List.cons_append, List.cons_append, Literal.body, ih, Text.unescape_of_not_mem missing]
    rfl

/-- **Only strings are read up to a closing quote.** -/
theorem denotes_of_body {rest : List Char} (h : Literal.body text = .closed inner value rest) :
    Denotes inner value := by
  fun_induction Literal.body text generalizing inner value with
  | case1 => cases h
  | case2 =>
    cases h
    exact .nil
  | case3 => cases h
  | case4 c rest' ih =>
    obtain ⟨inner', value', closed, rfl, rfl⟩ := Literal.Body.cons_eq_closed h
    exact (ih closed).pair c
  | case5 c rest' quote last escape ih =>
    obtain ⟨inner', value', closed, rfl, rfl⟩ := Literal.Body.cons_eq_closed h
    refine .plain quote ?_ (ih closed)
    rintro rfl
    cases rest' with
    | nil => exact last rfl rfl
    | cons d rest' => exact escape d rest' rfl rfl

/-- A text begins with one string at most. -/
theorem Denotes.unique {inner' value' behind behind' : List Char} (h : Denotes inner value)
    (h' : Denotes inner' value') (same : inner ++ '"' :: behind = inner' ++ '"' :: behind') :
    inner = inner' ∧ value = value' := by
  have read := h.body_append behind
  rw [same, h'.body_append behind'] at read
  cases read
  exact ⟨rfl, rfl⟩

end Literals
end Token
end Formula
