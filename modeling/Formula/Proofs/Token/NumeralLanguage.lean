import Mathlib
import Formula.Token.Numeral

/-! # The language of numerals

What a numeral is, said without a scanner: digits with at most one point among them,
and perhaps an exponent.  As a regular expression it is

    ( d+ '.' d* | '.' d+ | d+ ) ( [eE] [+-]? d+ )?

for the decimal digits `d` of all scripts.  `IsNumeral` has the further condition that a
scanner starts to read a numeral there, by an ASCII digit or a point in front of one.

The scanner reads the longest numeral: it reads a numeral back, if what stands behind it
does not go on (`split_of_isNumeral`), and it reads nothing but numerals
(`isNumeral_split`).
-/
namespace Formula
namespace Token
namespace Numeral

/-! ## Digits, mantissas and exponents -/

/-- A text is made of digits only. -/
def AllDigits (text : List Char) : Prop :=
  ∀ c ∈ text, Text.isDecimalDigit c = true

/-- A text is the mantissa of a numeral. -/
inductive Mantissa : List Char → Prop
  | pointed {whole fraction : List Char} :
    AllDigits whole → AllDigits fraction → whole ≠ [] ∨ fraction ≠ [] →
    Mantissa (whole ++ '.' :: fraction)
  | whole {whole : List Char} : AllDigits whole → whole ≠ [] → Mantissa whole

/-- A text is the exponent of a numeral, or there is none. -/
inductive Exponent : List Char → Prop
  | absent : Exponent []
  | present {mark : Char} {sign digits : List Char} :
    mark = 'e' ∨ mark = 'E' → sign = [] ∨ sign = ['+'] ∨ sign = ['-'] →
    AllDigits digits → digits ≠ [] → Exponent (mark :: sign ++ digits)

/-- A text is a numeral. -/
def IsNumeral (text : List Char) : Prop :=
  (∃ mantissa exponent, text = mantissa ++ exponent ∧ Mantissa mantissa ∧ Exponent exponent) ∧
    ∃ c rest, text = c :: rest ∧ startsWith c rest = true

/-- A text does not go on with a character of numerals. -/
def Ends (rest : List Char) : Prop :=
  ∀ c, rest.head? = some c →
    Text.isDecimalDigit c = false ∧ c ≠ '.' ∧ c ≠ 'e' ∧ c ≠ 'E'

section Splitting
variable {text text' rest rest' mantissa exponent : List Char}

/-! ## Numerals are read back -/

/-- Characters of a sort are split off in front of one that is not of the sort. -/
theorem span_of_all {sort : Char → Bool} (all : ∀ c ∈ text, sort c = true)
    (h : ∀ c, rest.head? = some c → sort c = false) :
    ((text ++ rest).takeWhile sort, (text ++ rest).dropWhile sort) = (text, rest) := by
  have behind : rest.takeWhile sort = [] ∧ rest.dropWhile sort = rest := by
    cases rest with
    | nil => exact ⟨rfl, rfl⟩
    | cons c rest => simp [h c rfl]
  rw [List.takeWhile_append_of_pos all, List.dropWhile_append_of_pos all, behind.1, behind.2,
    List.append_nil]

theorem splitDigits_of_allDigits (digits : AllDigits text)
    (h : ∀ c, rest.head? = some c → Text.isDecimalDigit c = false) :
    splitDigits (text ++ rest) = (text, rest) :=
  span_of_all digits h

theorem splitMantissa_of_mantissa (h : Mantissa mantissa)
    (ends : ∀ c, rest.head? = some c → Text.isDecimalDigit c = false ∧ c ≠ '.') :
    splitMantissa (mantissa ++ rest) = (mantissa, rest) := by
  have no_digit : ∀ c, rest.head? = some c → Text.isDecimalDigit c = false :=
    fun c hc => (ends c hc).1
  unfold splitMantissa
  cases h with
  | @pointed whole fraction hwhole hfraction =>
    have point : ∀ c, ('.' :: (fraction ++ rest)).head? = some c →
        Text.isDecimalDigit c = false := by
      rintro c ⟨⟩
      decide
    rw [List.append_assoc, List.cons_append, splitDigits_of_allDigits hwhole point]
    simp only [splitDigits_of_allDigits hfraction no_digit]
  | whole hwhole =>
    rw [splitDigits_of_allDigits hwhole no_digit]
    split
    · next heq =>
      cases heq
      exact absurd rfl (ends '.' rfl).2
    · next heq =>
      cases heq
      rfl

theorem splitSign_of_sign {sign digits : List Char}
    (h : sign = [] ∨ sign = ['+'] ∨ sign = ['-']) (hdigits : AllDigits digits)
    (nonempty : digits ≠ []) : splitSign (sign ++ digits ++ rest) = (sign, digits ++ rest) := by
  rcases h with rfl | rfl | rfl
  · cases digits with
    | nil => exact absurd rfl nonempty
    | cons c digits =>
      have digit := hdigits c List.mem_cons_self
      unfold splitSign
      split
      · next heq =>
        cases heq
        exact absurd digit (by decide)
      · next heq =>
        cases heq
        exact absurd digit (by decide)
      · rfl
  · rfl
  · rfl

theorem splitExponent_of_exponent (h : Exponent exponent)
    (ends : ∀ c, rest.head? = some c → Text.isDecimalDigit c = false ∧ c ≠ 'e' ∧ c ≠ 'E') :
    splitExponent (exponent ++ rest) = (exponent, rest) := by
  cases h with
  | absent =>
    cases rest with
    | nil => rfl
    | cons c rest =>
      obtain ⟨-, lower, upper⟩ := ends c rfl
      simp [splitExponent, lower, upper]
  | @present mark sign digits hmark hsign hdigits nonempty =>
    have sign : splitSign (sign ++ digits ++ rest) = (sign, digits ++ rest) :=
      splitSign_of_sign hsign hdigits nonempty
    have digits := splitDigits_of_allDigits hdigits fun c hc => (ends c hc).1
    rw [List.cons_append, List.cons_append]
    unfold splitExponent
    simp only [if_pos hmark, sign, digits, List.cons_append]

/-- A numeral is split off in front of what does not go on with it. -/
theorem split_of_isNumeral (h : IsNumeral text) (ends : Ends rest) :
    split (text ++ rest) = (text, rest) := by
  obtain ⟨⟨mantissa, exponent, rfl, hmantissa, hexponent⟩, -⟩ := h
  -- Behind the mantissa stands the mark of the exponent, or what is behind the numeral.
  have behind : ∀ c, (exponent ++ rest).head? = some c →
      Text.isDecimalDigit c = false ∧ c ≠ '.' := by
    intro c hc
    cases hexponent with
    | absent => exact ⟨(ends c hc).1, (ends c hc).2.1⟩
    | present hmark =>
      cases hc
      rcases hmark with rfl | rfl <;> decide
  have mantissa := splitMantissa_of_mantissa hmantissa behind
  have exponent := splitExponent_of_exponent hexponent fun c hc =>
    ⟨(ends c hc).1, (ends c hc).2.2⟩
  unfold split
  rw [List.append_assoc]
  simp only [mantissa, exponent]

/-- The start of a numeral is one with more text behind it. -/
theorem IsNumeral.startsWith_append (h : IsNumeral text) (rest : List Char) :
    ∃ c behind, text ++ rest = c :: behind ∧ startsWith c behind = true := by
  obtain ⟨-, c, behind, rfl, start⟩ := h
  refine ⟨c, behind ++ rest, rfl, ?_⟩
  cases behind with
  | nil => simpa [startsWith] using Or.inl (by simpa [startsWith] using start)
  | cons d behind => exact start

/-- Numerals that two texts start with are the same where they end. -/
theorem IsNumeral.split_unique (h : IsNumeral text) (h' : IsNumeral text')
    (ends : Ends rest) (ends' : Ends rest') (same : text ++ rest = text' ++ rest') :
    text = text' ∧ rest = rest' := by
  have split := split_of_isNumeral h ends
  rw [same, split_of_isNumeral h' ends'] at split
  exact ⟨(congrArg Prod.fst split).symm, (congrArg Prod.snd split).symm⟩

/-- A numeral starts with no sign, quote or bracket. -/
theorem IsNumeral.append_ne_cons (h : IsNumeral text) {c : Char}
    (mark : c = '-' ∨ c = '"' ∨ c = '[') : text ++ rest ≠ c :: rest' := by
  obtain ⟨d, behind, whole, start⟩ := h.startsWith_append rest
  rintro same
  obtain ⟨rfl, rfl⟩ := List.cons.inj (whole.symm.trans same)
  rcases mark with rfl | rfl | rfl <;> exact absurd start (by simp [startsWith])

/-! ## Only numerals are read -/

theorem allDigits_splitDigits (text : List Char) : AllDigits (splitDigits text).1 :=
  List.all_eq_true.mp List.all_takeWhile

/-- A point alone is no mantissa. -/
theorem Mantissa.ne_point (h : Mantissa mantissa) : mantissa ≠ ['.'] := by
  cases h with
  | @pointed whole fraction _ _ nonempty =>
    cases whole with
    | nil => simpa using nonempty
    | cons => simp
  | whole hwhole =>
    rintro rfl
    exact absurd (hwhole '.' List.mem_cons_self) (by decide)

theorem mantissa_splitMantissa {c : Char} (start : startsWith c rest = true) :
    Mantissa (splitMantissa (c :: rest)).1 := by
  have nonempty := splitMantissa_ne_nil start
  have digits := allDigits_splitDigits (c :: rest)
  have append := splitDigits_append (c :: rest)
  unfold splitMantissa at nonempty ⊢
  split
  · next whole behind heq =>
    rw [heq] at digits append
    refine .pointed digits (allDigits_splitDigits behind) ?_
    cases whole with
    | cons => exact .inl (List.cons_ne_nil _ _)
    | nil =>
      cases append
      -- Without digits in front of the point there is one behind it.
      refine .inr fun empty => ?_
      obtain ⟨d, hd, digit⟩ : ∃ d, rest.head? = some d ∧ d.isDigit = true := by
        simpa [startsWith, Option.any_eq_true] using start
      cases rest with
      | nil => cases hd
      | cons d rest =>
        cases hd
        simp [splitDigits, Text.isDecimalDigit_of_isDigit digit] at empty
  · next found behind no_point heq =>
    rw [heq] at digits
    refine .whole digits fun empty => nonempty ?_
    rw [heq]
    split
    · next other => exact absurd other (by simpa using fun h₁ h₂ => no_point _ h₂)
    · next other =>
      cases other
      exact empty

theorem exponent_splitExponent (text : List Char) : Exponent (splitExponent text).1 := by
  unfold splitExponent
  split
  · exact .absent
  · next mark rest =>
    split
    · next hmark =>
      have sign : (splitSign rest).1 = [] ∨ (splitSign rest).1 = ['+'] ∨
          (splitSign rest).1 = ['-'] := by
        unfold splitSign
        split <;> simp
      have digits := allDigits_splitDigits (splitSign rest).2
      dsimp only
      split
      · exact .absent
      · next nonempty heq =>
        rw [heq] at digits
        exact .present hmark sign digits nonempty
    · exact .absent

/-- What is split off where a numeral starts is a numeral. -/
theorem isNumeral_split {c : Char} (start : startsWith c rest = true) :
    IsNumeral (split (c :: rest)).1 := by
  have mantissa := mantissa_splitMantissa start
  refine ⟨⟨_, _, rfl, mantissa, exponent_splitExponent _⟩, ?_⟩
  have append := split_append (c :: rest)
  cases found : (split (c :: rest)).1 with
  | nil => exact absurd found (split_ne_nil start)
  | cons d behind =>
    rw [found] at append
    obtain ⟨rfl, append⟩ := List.cons.inj append
    refine ⟨d, behind, rfl, ?_⟩
    by_cases digit : d.isDigit = true
    · simp [startsWith, digit]
    · -- The numeral starts with a point, so a digit follows it in the mantissa.
      have point : d = '.' ∧ rest.head?.any Char.isDigit = true := by
        simpa [startsWith, digit] using start
      obtain ⟨rfl, next⟩ := point
      cases behind with
      | nil =>
        rcases List.append_eq_singleton_iff.mp found with ⟨empty, -⟩ | ⟨point, -⟩
        · exact absurd empty (splitMantissa_ne_nil start)
        · exact absurd point mantissa.ne_point
      | cons e behind =>
        rw [← append] at next
        simpa [startsWith] using next

/-- A text is a numeral if a scanner reads all of it as one. -/
theorem isNumeral_cons {c : Char} :
    IsNumeral (c :: rest) ↔ startsWith c rest = true ∧ split (c :: rest) = (c :: rest, []) := by
  constructor
  · intro h
    have ends : Ends [] := fun _ hc => nomatch hc
    have whole := split_of_isNumeral h ends
    rw [List.append_nil] at whole
    obtain ⟨-, d, behind, same, start⟩ := h
    cases same
    exact ⟨start, whole⟩
  · rintro ⟨start, whole⟩
    have := isNumeral_split start
    rwa [whole] at this

instance : (text : List Char) → Decidable (IsNumeral text)
  | [] => isFalse (by rintro ⟨-, _, _, ⟨⟩, -⟩)
  | _ :: _ => decidable_of_iff _ isNumeral_cons.symm

end Splitting
end Numeral
end Token
end Formula
