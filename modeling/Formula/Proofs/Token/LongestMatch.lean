import Formula.Proofs.Token.Layout
import Formula.Proofs.Token.LiteralLanguage
import Formula.Proofs.Token.Munch

/-! # Every token is as long as it can be

Where a token is found, its lexeme is the longest of its language with which the text goes on
there (`Longest`): a numeral, a name, or the lexeme of some punctuation.  A string goes on to its
closing quote.  And the token carries the value that it should (`IsMunch`).

The languages are said without a scanner.  That the scanner stops nowhere before the end of a
longer lexeme is shown part by part: what is a part of a lexeme, in front of any text, is the
beginning of the part that is split off.
-/
namespace Formula
namespace Token

/-! ## Longest lexemes -/

/-- A text begins with a lexeme of a language, and with no longer one. -/
structure Longest (language : List Char → Prop) (lexeme text : List Char) : Prop where
  member : language lexeme
  begins : lexeme <+: text
  longest : ∀ other, language other → other <+: text → other.length ≤ lexeme.length

/-- A text is the lexeme of some punctuation. -/
def IsMark (text : List Char) : Prop :=
  ∃ kind : Kind, kind.lexeme? = some (String.ofList text)

/-- A text is a string literal that stands for a value. -/
def IsLiteral (text value : List Char) : Prop :=
  ∃ inner, text = '"' :: (inner ++ ['"']) ∧ Denotes inner value

/-- A token is read as far as its kind goes, in front of a text.  Numbers and names have their
lexemes for values, a string has what it stands for, and punctuation has none. -/
def IsMunch (text : List Char) (t : Token) : Prop :=
  match t.kind with
  | .number => Longest Numeral.IsNumeral t.lexeme.toList text ∧ t.value = some t.lexeme
  | .identifier => Longest IsName t.lexeme.toList text ∧ t.value = some t.lexeme
  | .string => ∃ value : String, t.value = some value ∧ IsLiteral t.lexeme.toList value.toList ∧
      t.lexeme.toList <+: text ∧
      ∀ other stands, IsLiteral other stands → other <+: text →
        other = t.lexeme.toList ∧ stands = value.toList
  | .endOfInput => t.lexeme = "" ∧ text = []
  | kind => Longest IsMark t.lexeme.toList text ∧ kind.lexeme? = some t.lexeme ∧ t.value = none

section Longest
variable {text rest lexeme other behind : List Char} {c : Char}

/-- What is all of a sort is the beginning of what is split off of that sort. -/
theorem prefix_takeWhile {sort : Char → Bool} (all : ∀ c ∈ text, sort c = true) :
    text <+: (text ++ rest).takeWhile sort := by
  rw [List.takeWhile_append_of_pos all]
  exact List.prefix_append _ _

/-! ## Numerals -/

namespace Numeral

/-- A mantissa is the beginning of the one that is split off, whatever follows. -/
theorem Mantissa.prefix_splitMantissa {mantissa : List Char} (h : Mantissa mantissa) :
    mantissa <+: (splitMantissa (mantissa ++ rest)).1 := by
  cases h with
  | @pointed whole fraction hwhole hfraction =>
    have digits : splitDigits (whole ++ '.' :: (fraction ++ rest)) =
        (whole, '.' :: (fraction ++ rest)) := by
      refine splitDigits_of_allDigits hwhole ?_
      rintro _ ⟨⟩
      decide
    have fraction : fraction <+: (splitDigits (fraction ++ rest)).1 := prefix_takeWhile hfraction
    rw [List.append_assoc, List.cons_append]
    unfold splitMantissa
    simp only [digits]
    exact (List.prefix_append_right_inj whole).mpr (List.cons_prefix_cons.mpr ⟨rfl, fraction⟩)
  | whole hwhole =>
    have digits : mantissa <+: (splitDigits (mantissa ++ rest)).1 := prefix_takeWhile hwhole
    unfold splitMantissa
    split
    · next found => exact (found ▸ digits).trans (List.prefix_append _ _)
    · next found => exact found ▸ digits

/-- An exponent is the beginning of the one that is split off, whatever follows. -/
theorem Exponent.prefix_splitExponent {exponent : List Char} (h : Exponent exponent) :
    exponent <+: (splitExponent (exponent ++ rest)).1 := by
  cases h with
  | absent => exact List.nil_prefix
  | @present mark sign digits hmark hsign hdigits nonempty =>
    have digits_prefix : digits <+: (splitDigits (digits ++ rest)).1 := prefix_takeWhile hdigits
    have found : (splitDigits (digits ++ rest)).1 ≠ [] := by
      intro empty
      rw [empty] at digits_prefix
      exact nonempty (List.prefix_nil.mp digits_prefix)
    rw [List.cons_append, List.cons_append, splitExponent_of_mark hmark,
      splitSign_of_sign hsign hdigits nonempty, if_neg found]
    exact List.cons_prefix_cons.mpr ⟨rfl, (List.prefix_append_right_inj sign).mpr digits_prefix⟩

/-- A numeral is the beginning of the one that is split off, whatever follows. -/
theorem IsNumeral.prefix_split (h : IsNumeral lexeme) :
    lexeme <+: (split (lexeme ++ rest)).1 := by
  obtain ⟨⟨mantissa, exponent, rfl, hmantissa, hexponent⟩, -⟩ := h
  cases hexponent with
  | absent =>
    rw [List.append_nil]
    exact hmantissa.prefix_splitMantissa.trans (List.prefix_append _ _)
  | @present mark sign digits hmark hsign hdigits nonempty =>
    -- The mark ends the mantissa, so that the exponent is looked for there.
    have ends : ∀ c, (mark :: sign ++ digits ++ rest).head? = some c →
        Text.isDecimalDigit c = false ∧ c ≠ '.' := by
      rintro _ ⟨⟩
      rcases hmark with rfl | rfl <;> decide
    have mantissa := splitMantissa_of_mantissa hmantissa ends
    unfold split
    rw [List.append_assoc, mantissa]
    exact (List.prefix_append_right_inj _).mpr
      (Exponent.present hmark hsign hdigits nonempty).prefix_splitExponent

/-- **The longest numeral is split off.** -/
theorem longest_split (start : startsWith c rest = true) :
    Longest IsNumeral (split (c :: rest)).1 (c :: rest) where
  member := isNumeral_split start
  begins := ⟨_, split_append _⟩
  longest := by
    rintro other numeral ⟨behind, same⟩
    rw [← same]
    exact numeral.prefix_split.length_le

end Numeral

/-! ## Names -/

/-- **The longest name is split off.** -/
theorem longest_splitName (letter : c.isAlpha = true) :
    Longest IsName (Lexeme.splitName (c :: rest)).1 (c :: rest) where
  member := isName_splitName letter
  begins := List.takeWhile_prefix _
  longest := by
    rintro _ ⟨d, others, rfl, first, alphanum⟩ ⟨behind, same⟩
    have all : ∀ e ∈ d :: others, e.isAlphanum = true :=
      List.forall_mem_cons.mpr ⟨by simp [Char.isAlphanum, first], alphanum⟩
    rw [← same]
    exact (prefix_takeWhile all).length_le

/-! ## Punctuation -/

/-- The lexeme of some punctuation is one character, or two that are read as one lexeme. -/
theorem IsMark.cases (h : IsMark lexeme) :
    (∃ c, lexeme = [c]) ∨ ∃ c d kind, lexeme = [c, d] ∧ Punctuation.pair? c d = some kind := by
  obtain ⟨kind, fixed⟩ := h
  have same : lexeme = (String.ofList lexeme).toList := String.toList_ofList.symm
  rw [same]
  generalize String.ofList lexeme = fixedLexeme at fixed
  cases kind <;> cases fixed <;>
    first
    | exact .inl ⟨_, rfl⟩
    | exact .inr ⟨_, _, _, rfl, rfl⟩

/-- **The longest punctuation is split off.** -/
theorem longest_of_split? {kind : Kind} (h : Punctuation.split? text = some (kind, lexeme, rest)) :
    Longest IsMark lexeme text := by
  obtain ⟨nonempty, whole, fixed⟩ := Punctuation.split?_append h
  refine ⟨⟨kind, fixed⟩, ⟨rest, whole⟩, ?_⟩
  rintro other mark ⟨behind, same⟩
  obtain ⟨c, rfl⟩ | ⟨c, d, pair, rfl, found⟩ := mark.cases
  · exact List.length_pos_iff.mpr nonempty
  · rw [← same] at h
    cases (Punctuation.split?_of_pair found).symm.trans h
    exact Nat.le_refl _

/-! ## Strings -/

/-- **A text begins with one string literal at most.** -/
theorem IsLiteral.unique {value value' : List Char} (h : IsLiteral lexeme value)
    (begins : lexeme <+: text) (h' : IsLiteral other value') (begins' : other <+: text) :
    other = lexeme ∧ value' = value := by
  obtain ⟨inner, rfl, denotes⟩ := h
  obtain ⟨inner', rfl, denotes'⟩ := h'
  obtain ⟨behind, rfl⟩ := begins
  obtain ⟨behind', same⟩ := begins'
  have same : inner' ++ '"' :: behind' = inner ++ '"' :: behind := by simpa using same
  obtain ⟨rfl, rfl⟩ := denotes'.unique denotes same
  exact ⟨rfl, rfl⟩

/-! ## Tokens -/

variable {source : String} {here : Position}

theorem isMunch_of_lexeme? {t : Token} (fixed : t.kind.lexeme? = some t.lexeme)
    (longest : Longest IsMark t.lexeme.toList text) (value : t.value = none) : IsMunch text t := by
  unfold IsMunch
  split
  -- The other kinds have no fixed lexeme.
  all_goals first
    | exact ⟨longest, fixed, value⟩
    | next kind => rw [kind] at fixed; cases fixed

/-- **A lexeme is read as far as its kind goes.** -/
theorem isMunch_of_read {found : Lexeme} (h : Lexeme.read c rest = .ok found) :
    IsMunch (c :: rest) (found.token source here) := by
  unfold Lexeme.read at h
  split at h
  · next start =>
    cases h
    refine ⟨?_, rfl⟩
    rw [Lexeme.toList_token]
    exact Numeral.longest_split start
  · split at h
    · next letter =>
      cases h
      refine ⟨?_, rfl⟩
      rw [Lexeme.toList_token]
      exact longest_splitName letter
    · split at h
      · next quote =>
        split at h
        · next inner value behind closed =>
          cases h
          have literal : IsLiteral (c :: inner ++ ['"']) value :=
            ⟨inner, by rw [quote]; rfl, denotes_of_body closed⟩
          have begins : c :: inner ++ ['"'] <+: c :: rest :=
            ⟨behind, by simp [Literal.body_append closed]⟩
          refine ⟨String.ofList value, rfl, ?_⟩
          rw [Lexeme.toList_token, String.toList_ofList]
          exact ⟨literal, begins, fun other stands h' begins' =>
            literal.unique begins h' begins'⟩
        · cases h
      · split at h
        · next kind lexeme behind split =>
          cases h
          refine isMunch_of_lexeme? (Punctuation.split?_append split).2.2 ?_ rfl
          rw [Lexeme.toList_token]
          exact longest_of_split? split
        · cases h

/-- Tokens are found as far as their kinds go, in a text behind another one. -/
theorem isMunch_of_mem_scanFrom {before : List Char} {t : Token}
    (offset : before.length = here.offset) (member : t ∈ (scanFrom source here text).tokens) :
    0 ≤ t.location.offset ∧ IsMunch ((before ++ text).drop t.location.offset.toNat) t := by
  fun_induction scanFrom source here text generalizing before with
  | case1 => cases member
  | case2 here text start found =>
    obtain ⟨gap, rfl, rfl, -, -⟩ := Gap.isGap_of_ofText found
    cases List.mem_singleton.mp member
    refine ⟨Int.natCast_nonneg _, rfl, ?_⟩
    show (before ++ (gap ++ [])).drop (here.after gap).offset = []
    rw [Position.offset_after, ← offset, List.append_nil, ← List.length_append, List.drop_length]
  | case3 => cases member
  | case4 here text start c rest found lexeme read ih =>
    obtain ⟨gap, rfl, rfl, -, -⟩ := Gap.isGap_of_ofText found
    rcases List.mem_cons.mp member with rfl | later
    · refine ⟨Int.natCast_nonneg _, ?_⟩
      have start : (here.after gap).offset = (before ++ gap).length := by
        rw [Position.offset_after, ← offset, List.length_append]
      show IsMunch ((before ++ (gap ++ c :: rest)).drop (here.after gap).offset) _
      rw [start, ← List.append_assoc, List.drop_left]
      exact isMunch_of_read read
    · have whole : before ++ (gap ++ c :: rest) =
          before ++ gap ++ lexeme.text ++ lexeme.rest := by
        rw [← Lexeme.read_append read]
        simp
      rw [whole]
      refine ih ?_ later
      rw [List.length_append, List.length_append, Position.offset_after, Position.offset_after,
        offset]

/-- **Every token is as long as it can be**, and it carries the right value.  At the offset of a
number the text goes on with no longer numeral, at that of a name with no longer name, at that of
punctuation with no longer lexeme of any punctuation, and at that of a string with no other
string literal.  So it is also in front of an error. -/
theorem isMunch_of_mem_scan {name text : String} {t : Token}
    (member : t ∈ (scan name text).tokens) :
    0 ≤ t.location.offset ∧ IsMunch (text.toList.drop t.location.offset.toNat) t :=
  @isMunch_of_mem_scanFrom text.toList _ _ [] t rfl member

/-- Two numbers, a name, a sign and a string stand one directly behind the other. -/
theorem isMunch_of_mem_scan_number :
    let text := "1.5.3e+\"\\\"\\q\""
    let number : Token := ⟨.number, ".3", some ".3", ⟨"", 1, 4, 3⟩⟩
    let string : Token := ⟨.string, "\"\\\"\\q\"", some "\"q", ⟨"", 1, 8, 7⟩⟩
    number ∈ (scan "" text).tokens ∧ string ∈ (scan "" text).tokens ∧
      Longest Numeral.IsNumeral ".3".toList (text.toList.drop 3) ∧
      IsLiteral "\"\\\"\\q\"".toList "\"q".toList := by
  intro text number string
  have scanned : (scan "" text).tokens = [⟨.number, "1.5", some "1.5", ⟨"", 1, 1, 0⟩⟩, number,
      ⟨.identifier, "e", some "e", ⟨"", 1, 6, 5⟩⟩, ⟨.plus, "+", none, ⟨"", 1, 7, 6⟩⟩, string,
      ⟨.endOfInput, "", none, ⟨"", 1, 14, 13⟩⟩] := by
    cbv
  have isNumber : number ∈ (scan "" text).tokens := by simp [scanned]
  have isString : string ∈ (scan "" text).tokens := by simp [scanned]
  obtain ⟨-, longest, -⟩ := isMunch_of_mem_scan isNumber
  obtain ⟨-, value, same, literal, -⟩ := isMunch_of_mem_scan isString
  cases same
  exact ⟨isNumber, isString, longest, literal⟩

end Longest
end Token
end Formula
