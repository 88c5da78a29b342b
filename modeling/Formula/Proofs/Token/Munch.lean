import Formula.Proofs.Token.LiteralLanguage
import Formula.Proofs.Token.NumeralLanguage
import Formula.Text.Blank
import Formula.Token.Lexeme

/-! # A lexeme in front of other text

How far a lexeme goes depends on what stands behind it: on as many as three characters, where
a numeral might have an exponent.  But it does not depend on anything behind a gap.  Where the
text behind a lexeme is cut off by a gap (`Cut`), the same lexeme is read (`read_of_cut`).
-/
namespace Formula

/-! ## Characters with which a gap may begin -/

namespace Text
variable {c : Char}

/-- A character with which a gap may begin. -/
def Separates (c : Char) : Prop :=
  isBlank c = true ∨ c = '('

theorem range_of_isAlpha (h : c.isAlpha = true) :
    65 ≤ c.toNat ∧ c.toNat ≤ 90 ∨ 97 ≤ c.toNat ∧ c.toNat ≤ 122 := by
  simp only [Char.isAlpha, Char.isUpper, Char.isLower, Bool.or_eq_true, Bool.and_eq_true,
    decide_eq_true_eq] at h
  exact h

theorem range_of_isDigit (h : c.isDigit = true) : 48 ≤ c.toNat ∧ c.toNat ≤ 57 := by
  simp only [Char.isDigit, Bool.and_eq_true, decide_eq_true_eq] at h
  exact h

/-- Between the digits and the letters no character is blank. -/
theorem isBlank_of_range (low : 48 ≤ c.toNat) (high : c.toNat ≤ 122) : isBlank c = false := by
  simp only [isBlank, blankRanges, List.any_cons, List.any_nil, Bool.or_false,
    Bool.or_eq_false_iff, Bool.and_eq_false_iff, decide_eq_false_iff_not]
  omega

/-- No digit of any script is blank. -/
theorem isBlank_of_isDecimalDigit (digit : isDecimalDigit c = true) : isBlank c = false := by
  have apart : ∀ base ∈ digitZeros, ∀ range ∈ blankRanges,
      range.2 < base ∨ base + 10 ≤ range.1 := by
    decide
  obtain ⟨base, hbase, digit⟩ := List.any_eq_true.mp digit
  simp only [Bool.and_eq_true, decide_eq_true_eq] at digit
  refine List.any_eq_false.mpr fun range hrange => ?_
  have := apart base hbase range hrange
  simp only [Bool.and_eq_true, decide_eq_true_eq]
  omega

/-- A sort of characters that are not blank has no separators, if it does not have `(`. -/
theorem Separates.not_of {sort : Char → Bool} (h : Separates c) (paren : sort '(' = false)
    (blank : ∀ c, sort c = true → isBlank c = false) : sort c = false := by
  rcases h with isBlank | rfl
  · rw [← Bool.not_eq_true]
    intro other
    simp [blank c other] at isBlank
  · exact paren

theorem Separates.not_decimalDigit (h : Separates c) : isDecimalDigit c = false :=
  h.not_of (by decide) fun _ => isBlank_of_isDecimalDigit

theorem Separates.not_digit (h : Separates c) : c.isDigit = false :=
  h.not_of rfl fun _ digit => isBlank_of_isDecimalDigit (isDecimalDigit_of_isDigit digit)

theorem Separates.not_alphanum (h : Separates c) : c.isAlphanum = false := by
  refine h.not_of rfl fun d alphanum => ?_
  simp only [Char.isAlphanum, Bool.or_eq_true] at alphanum
  rcases alphanum with letter | digit
  · have := range_of_isAlpha letter
    exact isBlank_of_range (by omega) (by omega)
  · have := range_of_isDigit digit
    exact isBlank_of_range (by omega) (by omega)

/-- Separators are none of the other characters that tokens are made of. -/
theorem Separates.ne {d : Char} (h : Separates c) (blank : isBlank d = false) (paren : d ≠ '(') :
    c ≠ d := by
  rintro rfl
  rcases h with isBlank | rfl
  · simp [blank] at isBlank
  · exact paren rfl

end Text

namespace Token
variable {rest rest' text : List Char} {c : Char}

/-- No numeral starts with a letter. -/
theorem Numeral.not_startsWith_of_isAlpha (h : c.isAlpha = true) (behind : List Char) :
    startsWith c behind = false := by
  have no_digit : c.isDigit = false := by
    cases digit : c.isDigit with
    | false => rfl
    | true =>
      have := Text.range_of_isAlpha h
      have := Text.range_of_isDigit digit
      omega
  have no_point : c ≠ '.' := by
    rintro rfl
    exact absurd h (by decide)
  simp [startsWith, no_digit, no_point]

/-! ## Cut texts -/

/-- A text is cut off somewhere, by the end of the text or a gap. -/
def Cut (rest rest' : List Char) : Prop :=
  ∃ kept behind, kept <+: rest ∧ rest' = kept ++ behind ∧
    ∀ c, behind.head? = some c → Text.Separates c

namespace Cut

theorem append (h : Cut rest rest') (front : List Char) : Cut (front ++ rest) (front ++ rest') := by
  obtain ⟨kept, behind, ⟨others, rfl⟩, rfl, separates⟩ := h
  exact ⟨front ++ kept, behind, ⟨others, by simp⟩, by simp, separates⟩

/-- A cut text begins with a separator, or as it did. -/
theorem uncons (h : Cut rest (c :: rest')) :
    Text.Separates c ∨ ∃ behind, rest = c :: behind ∧ Cut behind rest' := by
  obtain ⟨kept, behind, ⟨others, rfl⟩, same, separates⟩ := h
  cases kept with
  | nil => exact .inl (separates c (congrArg List.head? same).symm)
  | cons d kept =>
    obtain ⟨rfl, rfl⟩ := List.cons.inj same
    exact .inr ⟨kept ++ others, rfl, kept, behind, ⟨others, rfl⟩, rfl, separates⟩

/-- What holds of separators holds of the first character of a cut text, if it did before. -/
theorem head {P : Char → Prop} (h : Cut rest rest') (separators : ∀ c, Text.Separates c → P c)
    (first : ∀ c, rest.head? = some c → P c) : ∀ c, rest'.head? = some c → P c := by
  intro c hc
  cases rest' with
  | nil => cases hc
  | cons d rest' =>
    cases hc
    rcases h.uncons with separates | ⟨behind, rfl, -⟩
    · exact separators c separates
    · exact first c rfl

end Cut

/-! ## Numerals and names -/

/-- Characters of a sort without separators are split off alike. -/
theorem span_of_cut {sort : Char → Bool} {found : List Char} (cut : Cut rest rest')
    (separators : ∀ c, Text.Separates c → sort c = false)
    (h : (text.takeWhile sort, text.dropWhile sort) = (found, rest)) :
    ((found ++ rest').takeWhile sort, (found ++ rest').dropWhile sort) = (found, rest') := by
  cases h
  refine Numeral.span_of_all (List.all_eq_true.mp List.all_takeWhile) ?_
  refine cut.head separators fun c hc => ?_
  have stop := List.head?_dropWhile_not sort text
  rw [hc] at stop
  simpa using stop

namespace Numeral

theorem splitDigits_of_cut {digits : List Char} (cut : Cut rest rest')
    (h : splitDigits text = (digits, rest)) : splitDigits (digits ++ rest') = (digits, rest') :=
  span_of_cut cut (fun _ separates => separates.not_decimalDigit) h

/-- In front of the point of a mantissa digits are split off alike, whatever follows it. -/
theorem splitDigits_of_point {whole behind : List Char}
    (h : splitDigits text = (whole, '.' :: behind)) (other : List Char) :
    splitDigits (whole ++ '.' :: other) = (whole, '.' :: other) := by
  have digits := allDigits_splitDigits text
  rw [h] at digits
  refine splitDigits_of_allDigits digits ?_
  rintro _ ⟨⟩
  decide

theorem splitMantissa_of_cut {mantissa : List Char} (cut : Cut rest rest')
    (h : splitMantissa text = (mantissa, rest)) :
    splitMantissa (mantissa ++ rest') = (mantissa, rest') := by
  unfold splitMantissa at h
  split at h
  · next whole behind found =>
    cases h
    have fraction := splitDigits_of_cut cut (Eq.refl (splitDigits behind))
    unfold splitMantissa
    rw [List.append_assoc, List.cons_append, splitDigits_of_point found]
    simp only [fraction]
  · next whole behind noPoint found =>
    cases h
    unfold splitMantissa
    rw [splitDigits_of_cut cut found]
    split
    · next same =>
      cases same
      -- The point is none that was cut off.
      rcases cut.uncons with separates | ⟨behind, rfl, -⟩
      · exact absurd rfl (separates.ne (by decide) (by decide))
      · exact absurd rfl (noPoint behind)
    · next same =>
      cases same
      rfl

theorem splitDigits_eq_nil_iff :
    (splitDigits text).1 = [] ↔ ∀ c, text.head? = some c → Text.isDecimalDigit c = false := by
  cases text with
  | nil => simp [splitDigits]
  | cons c text => simp [splitDigits, List.takeWhile_cons]

/-- A sign is cut off, or it is there as before. -/
theorem cut_splitSign (cut : Cut rest rest') : Cut (splitSign rest).2 (splitSign rest').2 := by
  obtain ⟨kept, behind, ⟨others, rfl⟩, rfl, separates⟩ := cut
  cases kept with
  | nil =>
    have unsigned : splitSign behind = ([], behind) := by
      unfold splitSign
      split
      · exact absurd rfl ((separates '+' rfl).ne (by decide) (by decide))
      · exact absurd rfl ((separates '-' rfl).ne (by decide) (by decide))
      · rfl
    simp only [List.nil_append, unsigned]
    exact ⟨[], behind, List.nil_prefix, rfl, separates⟩
  | cons sign kept =>
    have cut : Cut (kept ++ others) (kept ++ behind) :=
      ⟨kept, behind, List.prefix_append _ _, rfl, separates⟩
    by_cases signed : sign = '+' ∨ sign = '-'
    · rcases signed with rfl | rfl <;> exact cut
    · have unsigned (text : List Char) : splitSign (sign :: text) = ([], sign :: text) := by
        unfold splitSign
        split <;> simp_all
      rw [List.cons_append, List.cons_append, unsigned, unsigned]
      exact cut.append [sign]

/-- An exponent is there if a digit stands behind a mark and perhaps a sign. -/
theorem splitExponent_of_mark {mark : Char} (isMark : mark = 'e' ∨ mark = 'E') :
    splitExponent (mark :: rest) =
      if (splitDigits (splitSign rest).2).1 = [] then ([], mark :: rest)
      else (mark :: (splitSign rest).1 ++ (splitDigits (splitSign rest).2).1,
        (splitDigits (splitSign rest).2).2) := by
  unfold splitExponent
  simp only [if_pos isMark]
  split
  · next found => rw [found, if_pos rfl]
  · next nonempty found =>
    rw [found, if_neg]
    exact fun empty => nonempty empty

theorem splitExponent_of_ne {mark : Char} (other : ¬ (mark = 'e' ∨ mark = 'E')) :
    splitExponent (mark :: rest) = ([], mark :: rest) := by
  unfold splitExponent
  simp only [if_neg other]

/-- A mark without a digit has none where the text is cut off, either. -/
theorem splitExponent_of_cut_nil (cut : Cut rest rest') (h : splitExponent rest = ([], rest)) :
    splitExponent rest' = ([], rest') := by
  cases rest' with
  | nil => rfl
  | cons mark behind' =>
    by_cases isMark : mark = 'e' ∨ mark = 'E'
    · rcases cut.uncons with separates | ⟨behind, rfl, later⟩
      · rcases isMark with rfl | rfl <;> exact absurd rfl (separates.ne (by decide) (by decide))
      · rw [splitExponent_of_mark isMark] at h ⊢
        have none : (splitDigits (splitSign behind).2).1 = [] := by
          by_contra some
          simp [some] at h
        refine if_pos (splitDigits_eq_nil_iff.mpr ?_)
        exact (cut_splitSign later).head (fun _ separates => separates.not_decimalDigit)
          (splitDigits_eq_nil_iff.mp none)
    · exact splitExponent_of_ne isMark

theorem splitSign_cases (text : List Char) :
    (splitSign text).1 = [] ∨ (splitSign text).1 = ['+'] ∨ (splitSign text).1 = ['-'] := by
  unfold splitSign
  split <;> simp

theorem splitExponent_of_cut {exponent : List Char} (cut : Cut rest rest')
    (h : splitExponent text = (exponent, rest)) :
    splitExponent (exponent ++ rest') = (exponent, rest') := by
  have append := splitExponent_append text
  rw [h] at append
  cases exponent with
  | nil =>
    obtain rfl : rest = text := append
    exact splitExponent_of_cut_nil cut h
  | cons mark exponent =>
    obtain rfl : mark :: (exponent ++ rest) = text := append
    by_cases isMark : mark = 'e' ∨ mark = 'E'
    · rw [splitExponent_of_mark isMark] at h
      split at h
      · cases h
      · next nonempty =>
        obtain ⟨digits, behind, found⟩ : ∃ digits behind,
            splitDigits (splitSign (exponent ++ rest)).2 = (digits, behind) := ⟨_, _, rfl⟩
        have sign := splitSign_cases (exponent ++ rest)
        have all := allDigits_splitDigits (splitSign (exponent ++ rest)).2
        rw [found] at h nonempty all
        generalize (splitSign (exponent ++ rest)).1 = sign' at h sign
        simp only [List.cons_append, Prod.mk.injEq, List.cons.injEq, true_and] at h
        obtain ⟨rfl, rfl⟩ := h
        rw [List.cons_append, splitExponent_of_mark isMark,
          splitSign_of_sign sign all nonempty, splitDigits_of_cut cut found, if_neg nonempty]
        rfl
    · rw [splitExponent_of_ne isMark] at h
      cases h

theorem split_of_cut {numeral : List Char} (cut : Cut rest rest')
    (h : split text = (numeral, rest)) : split (numeral ++ rest') = (numeral, rest') := by
  obtain ⟨mantissa, behind, hmantissa⟩ : ∃ m b, splitMantissa text = (m, b) := ⟨_, _, rfl⟩
  obtain ⟨exponent, rest, hexponent⟩ : ∃ e r, splitExponent behind = (e, r) := ⟨_, _, rfl⟩
  simp only [split, hmantissa, hexponent] at h
  cases h
  have append := splitExponent_append behind
  rw [hexponent] at append
  have mantissa := splitMantissa_of_cut (cut.append exponent) (append ▸ hmantissa)
  have exponent := splitExponent_of_cut cut hexponent
  unfold split
  rw [List.append_assoc, mantissa]
  simp only [exponent]

/-- Where a numeral starts one starts also if the text behind it is cut off. -/
theorem startsWith_of_cut {numeral : List Char} (start : startsWith c rest = true)
    (h : split (c :: rest) = (c :: numeral, text)) (other : List Char) :
    startsWith c (numeral ++ other) = true := by
  have isNumeral := isNumeral_split start
  rw [h] at isNumeral
  obtain ⟨d, behind, same, start⟩ := isNumeral.startsWith_append other
  cases same
  exact start

theorem not_startsWith_of_cut (cut : Cut rest rest') (h : startsWith c rest = false) :
    startsWith c rest' = false := by
  simp only [startsWith, Bool.or_eq_false_iff, Bool.and_eq_false_iff, beq_eq_false_iff_ne] at h ⊢
  refine ⟨h.1, h.2.imp_right fun noDigit => ?_⟩
  rw [← Bool.not_eq_true, Option.any_eq_true] at noDigit ⊢
  rintro ⟨d, first, digit⟩
  have := cut.head (fun _ separates => separates.not_digit) (fun e he => by
    rw [← Bool.not_eq_true]
    exact fun digit => noDigit ⟨e, he, digit⟩) d first
  simp [this] at digit

end Numeral

/-! ## Punctuation -/

/-- No punctuation of two characters ends with a separator. -/
theorem Punctuation.pair?_of_separates {d : Char} (separates : Text.Separates d) :
    pair? c d = none := by
  unfold pair?
  split <;> first | rfl | exact absurd rfl (separates.ne (by decide) (by decide))

theorem Punctuation.split?_of_pair {d : Char} {kind : Kind} (h : pair? c d = some kind) :
    split? (c :: d :: rest) = some (kind, [c, d], rest) := by
  simp [split?, h]

theorem Punctuation.split?_of_single {kind : Kind} (h : single? c = some kind)
    (alone : ∀ d, rest.head? = some d → pair? c d = none) :
    split? (c :: rest) = some (kind, [c], rest) := by
  cases rest with
  | nil => simp [split?, h]
  | cons d rest => simp [split?, h, alone d rfl]

theorem Punctuation.split?_of_cut {lexeme : List Char} {kind : Kind} (cut : Cut rest rest')
    (h : split? text = some (kind, lexeme, rest)) :
    split? (lexeme ++ rest') = some (kind, lexeme, rest') := by
  unfold split? at h
  split at h
  · cases h
  · next c =>
    obtain ⟨found, hfound, same⟩ := Option.map_eq_some_iff.mp h
    cases same
    exact split?_of_single hfound (cut.head (fun _ => pair?_of_separates) nofun)
  · next c d behind =>
    split at h
    · next found hfound =>
      cases h
      exact split?_of_pair hfound
    · next alone =>
      obtain ⟨found, hfound, same⟩ := Option.map_eq_some_iff.mp h
      cases same
      refine split?_of_single hfound (cut.head (fun _ => pair?_of_separates) ?_)
      rintro _ ⟨⟩
      exact alone

/-! ## Lexemes -/

/-- **The same lexeme is read where the text behind it is cut off.** -/
theorem Lexeme.read_of_cut {lexeme : Lexeme} (h : read c rest = .ok lexeme)
    (cut : Cut lexeme.rest rest') :
    ∃ piece, lexeme.text = c :: piece ∧
      read c (piece ++ rest') = .ok { lexeme with rest := rest' } := by
  obtain ⟨piece, same, append⟩ : ∃ piece, lexeme.text = c :: piece ∧
      piece ++ lexeme.rest = rest := by
    have whole := read_append h
    cases found : lexeme.text with
    | nil => exact absurd found (text_ne_nil_of_read h)
    | cons d piece =>
      rw [found] at whole
      obtain ⟨rfl, behind⟩ := List.cons.inj whole
      exact ⟨piece, rfl, behind⟩
  refine ⟨piece, same, ?_⟩
  have cut' : Cut rest (piece ++ rest') := append ▸ cut.append piece
  unfold read at h ⊢
  split at h
  · next start =>
    cases h
    have found : Numeral.split (c :: rest) = (c :: piece, (Numeral.split (c :: rest)).2) :=
      Prod.ext same rfl
    have split := Numeral.split_of_cut cut found
    rw [if_pos (Numeral.startsWith_of_cut start found rest'), ← List.cons_append, split, found]
    rfl
  · next start =>
    have start : Numeral.startsWith c (piece ++ rest') = false :=
      Numeral.not_startsWith_of_cut cut' (by simpa using start)
    rw [if_neg (by simp [start])]
    split at h
    · next letter =>
      cases h
      have found : splitName (c :: rest) = (c :: piece, (splitName (c :: rest)).2) :=
        Prod.ext same rfl
      have split : splitName (c :: piece ++ rest') = (c :: piece, rest') :=
        span_of_cut cut (fun _ separates => separates.not_alphanum) found
      rw [if_pos letter, ← List.cons_append, split, found]
      rfl
    · next noLetter =>
      rw [if_neg noLetter]
      split at h
      · next isQuote =>
        split at h
        · next raw value behind closed =>
          cases h
          obtain rfl : raw ++ ['"'] = piece := (List.cons.inj same).2
          have closed := (denotes_of_body closed).body_append rest'
          rw [if_pos isQuote, List.append_assoc, List.singleton_append, closed]
        · cases h
      · next noQuote =>
        split at h
        · next found =>
          cases h
          have split := Punctuation.split?_of_cut cut found
          rw [if_neg noQuote, ← List.cons_append, ← same, split]
        · cases h

end Token
end Formula
