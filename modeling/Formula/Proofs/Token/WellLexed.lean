import Formula.Proofs.Token.NumeralLanguage
import Formula.Token.Scan

/-! # What the tokens of a text are like

Every token that a scan finds is `WellLexed`: a name is a letter with letters and digits
behind it, a number carries a numeral, and a string carries some text.
-/
namespace Formula
namespace Token

/-- A text is a name: an ASCII letter with ASCII letters and digits behind it. -/
def IsName (text : List Char) : Prop :=
  ∃ c rest, text = c :: rest ∧ c.isAlpha = true ∧ ∀ d ∈ rest, d.isAlphanum = true

instance : (text : List Char) → Decidable (IsName text)
  | [] => isFalse (by rintro ⟨_, _, ⟨⟩, -⟩)
  | c :: rest =>
    decidable_of_iff (c.isAlpha && rest.all Char.isAlphanum) <| by
      rw [Bool.and_eq_true, List.all_eq_true]
      constructor
      · exact fun ⟨letter, others⟩ => ⟨c, rest, rfl, letter, others⟩
      · rintro ⟨_, _, ⟨⟩, letter, others⟩
        exact ⟨letter, others⟩

/-- A token is of the shape of its kind. -/
structure WellLexed (t : Token) : Prop where
  name : t.kind = .identifier → IsName t.lexeme.toList
  number : t.kind = .number → ∃ text, t.value = some text ∧ Numeral.IsNumeral text.toList
  string : t.kind = .string → t.value ≠ none

section Scan
variable {source : String} {here start : Position} {text rest : List Char} {c : Char}
  {lexeme : Lexeme}

theorem wellLexed_endAt : WellLexed (endAt source here) :=
  ⟨nofun, nofun, nofun⟩

/-- Punctuation has nothing to be well-formed. -/
theorem Punctuation.kind_of_split? {kind : Kind} {text lexeme rest : List Char}
    (h : split? text = some (kind, lexeme, rest)) :
    kind ≠ .identifier ∧ kind ≠ .number ∧ kind ≠ .string := by
  have fixed := (split?_append h).2.2
  refine ⟨?_, ?_, ?_⟩ <;>
  · rintro rfl
    cases fixed

/-- What is split off where a letter stands is a name. -/
theorem isName_splitName (letter : c.isAlpha = true) :
    IsName (Lexeme.splitName (c :: rest)).1 := by
  have alphanum : c.isAlphanum = true := by simp [Char.isAlphanum, letter]
  refine ⟨c, rest.takeWhile Char.isAlphanum, ?_, letter, List.all_eq_true.mp List.all_takeWhile⟩
  exact List.takeWhile_cons_of_pos alphanum

theorem wellLexed_of_read (h : Lexeme.read c rest = .ok lexeme) :
    WellLexed (lexeme.token source here) := by
  unfold Lexeme.read at h
  split at h
  · next start =>
    cases h
    refine ⟨?_, fun _ => ⟨_, rfl, ?_⟩, ?_⟩
    · rintro ⟨⟩
    · rw [String.toList_ofList]
      exact Numeral.isNumeral_split start
    · rintro ⟨⟩
  · split at h
    · next letter =>
      cases h
      refine ⟨fun _ => ?_, ?_, ?_⟩
      · show IsName (String.ofList (Lexeme.splitName (c :: rest)).1).toList
        rw [String.toList_ofList]
        exact isName_splitName letter
      · rintro ⟨⟩
      · rintro ⟨⟩
    · split at h
      · split at h <;> cases h
        -- The token of a string always has a value, though it may be empty.
        refine ⟨?_, ?_, ?_⟩
        · rintro ⟨⟩
        · rintro ⟨⟩
        · rintro - ⟨⟩
      · split at h
        · next found =>
          cases h
          obtain ⟨no_name, no_number, no_string⟩ := Punctuation.kind_of_split? found
          exact ⟨fun h => absurd h no_name, fun h => absurd h no_number,
            fun h => absurd h no_string⟩
        · cases h

/-- What a scan finds behind a gap. -/
def scanBehind (source : String) : Gap → Scan
  | .unclosed opener stop => ⟨[], stop, some ⟨.unterminatedComment, opener.locate source⟩⟩
  | .closed start [] => ⟨[endAt source start], start, none⟩
  | .closed start (c :: rest) =>
    match Lexeme.read c rest with
    | .error failure =>
      ⟨[], start.after failure.consumed, some ⟨failure.cause, start.locate source⟩⟩
    | .ok lexeme =>
      .cons (lexeme.token source start)
        (scanFrom source (start.after lexeme.text) lexeme.rest)

/-- A scan depends only on what lies behind the first gap. -/
theorem scanFrom_eq_scanBehind (source : String) (here : Position) (text : List Char) :
    scanFrom source here text = scanBehind source (Gap.ofText here text) := by
  rw [scanFrom]
  split
  · next gap => rw [gap, scanBehind]
  · next gap => rw [gap, scanBehind]
  · next gap =>
    rw [gap, scanBehind]
    split <;>
    · next read => rw [read]

/-- Behind a gap a lexeme is read, and then the rest of the text. -/
theorem scanFrom_of_read (gap : Gap.ofText here text = .closed start (c :: rest))
    (read : Lexeme.read c rest = .ok lexeme) :
    scanFrom source here text =
      .cons (lexeme.token source start)
        (scanFrom source (start.after lexeme.text) lexeme.rest) := by
  rw [scanFrom_eq_scanBehind, gap, scanBehind, read]

/-- All tokens that a scan finds are well-formed. -/
theorem wellLexed_of_mem_scanFrom :
    ∀ t ∈ (scanFrom source here text).tokens, WellLexed t := by
  fun_induction scanFrom source here text with
  | case1 => exact fun _ ht => absurd ht List.not_mem_nil
  | case2 here text start h =>
    intro t ht
    cases List.mem_singleton.mp ht
    exact wellLexed_endAt
  | case3 => exact fun _ ht => absurd ht List.not_mem_nil
  | case4 here text start c rest gap lexeme read ih =>
    intro t ht
    rcases List.mem_cons.mp ht with rfl | ht
    · exact wellLexed_of_read read
    · exact ih t ht

end Scan
end Token
end Formula
