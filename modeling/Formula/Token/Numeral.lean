import Formula.Text.Digit

/-! # Numerals

A numeral is written without a sign: digits with at most one point among them,
and perhaps an exponent.  Splitting a text takes the longest numeral at its
start.  An exponent without digits is none, so that `1e` is the numeral `1` in
front of a name.
-/
namespace Formula
namespace Token
namespace Numeral

/-- Split off the digits at the start of a text. -/
def splitDigits (text : List Char) : List Char × List Char :=
  (text.takeWhile Text.isDecimalDigit, text.dropWhile Text.isDecimalDigit)

/-- Split off digits that may have a point among them or at either end. -/
def splitMantissa (text : List Char) : List Char × List Char :=
  match splitDigits text with
  | (whole, '.' :: rest) =>
    let (fraction, rest) := splitDigits rest
    (whole ++ '.' :: fraction, rest)
  | (whole, rest) => (whole, rest)

/-- Split off the sign of an exponent. -/
def splitSign : List Char → List Char × List Char
  | '+' :: rest => (['+'], rest)
  | '-' :: rest => (['-'], rest)
  | rest => ([], rest)

/-- Split off an exponent.  Nothing is split off unless a digit follows the
mark and the sign. -/
def splitExponent : List Char → List Char × List Char
  | [] => ([], [])
  | mark :: rest =>
    if mark = 'e' ∨ mark = 'E' then
      let (sign, behind) := splitSign rest
      match splitDigits behind with
      | ([], _) => ([], mark :: rest)
      | (digits, behind) => (mark :: sign ++ digits, behind)
    else ([], mark :: rest)

/-- Split off a numeral. -/
def split (text : List Char) : List Char × List Char :=
  let (mantissa, rest) := splitMantissa text
  let (exponent, rest) := splitExponent rest
  (mantissa ++ exponent, rest)

/-- Whether a numeral starts with the character `c` in front of `rest`: an ASCII
digit, or a point in front of one. -/
def startsWith (c : Char) (rest : List Char) : Bool :=
  c.isDigit || (c == '.' && rest.head?.any Char.isDigit)

/-! ## Nothing is lost by splitting -/

theorem splitDigits_append (text : List Char) :
    (splitDigits text).1 ++ (splitDigits text).2 = text :=
  List.takeWhile_append_dropWhile

theorem splitMantissa_append (text : List Char) :
    (splitMantissa text).1 ++ (splitMantissa text).2 = text := by
  have whole := splitDigits_append text
  unfold splitMantissa
  split
  · next rest h =>
    rw [h] at whole
    simpa [splitDigits_append rest] using whole
  · next h => rw [← h]; exact whole

theorem splitSign_append (text : List Char) :
    (splitSign text).1 ++ (splitSign text).2 = text := by
  unfold splitSign
  split <;> rfl

theorem splitExponent_append (text : List Char) :
    (splitExponent text).1 ++ (splitExponent text).2 = text := by
  unfold splitExponent
  split
  · rfl
  · next mark rest =>
    have sign := splitSign_append rest
    have digits := splitDigits_append (splitSign rest).2
    split
    · dsimp only
      split
      · rfl
      · next h => rw [h] at digits; simpa [digits] using sign
    · rfl

theorem split_append (text : List Char) :
    (split text).1 ++ (split text).2 = text := by
  have mantissa := splitMantissa_append text
  have exponent := splitExponent_append (splitMantissa text).2
  simp only [split, List.append_assoc, exponent, mantissa]

/-- Where a numeral starts, the split-off mantissa is not empty. -/
theorem splitMantissa_ne_nil {c : Char} {rest : List Char}
    (h : startsWith c rest = true) : (splitMantissa (c :: rest)).1 ≠ [] := by
  unfold splitMantissa
  split
  · simp
  · next whole behind noPoint hd =>
    rintro (rfl : whole = [])
    by_cases digit : Text.isDecimalDigit c = true
    · simp [splitDigits, digit] at hd
    · have : c.isDigit = false := by
        rw [Bool.eq_false_iff]
        exact fun hc => digit (Text.isDecimalDigit_of_isDigit hc)
      obtain rfl : c = '.' := by
        simp only [startsWith, this, Bool.false_or, Bool.and_eq_true, beq_iff_eq] at h
        exact h.1
      simp only [splitDigits, List.dropWhile_cons, digit, Prod.mk.injEq] at hd
      exact noPoint rest hd.2.symm

theorem split_ne_nil {c : Char} {rest : List Char} (h : startsWith c rest = true) :
    (split (c :: rest)).1 ≠ [] := by
  intro empty
  exact splitMantissa_ne_nil h (List.append_eq_nil_iff.mp empty).1

end Numeral
end Token
end Formula
