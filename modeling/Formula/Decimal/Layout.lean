import Formula.Decimal.Shortest

/-! # Decimal text

How a number of double precision is written: with its shortest decimal, plain or
with an exponent, depending on how large it is.
-/
namespace Formula
namespace Decimal

/-- How decimals are written.  Those whose first digit has an exponent from
`least` to `greatest` are written without exponent.  The exponent of others has
at least `exponentDigits` digits. -/
structure Layout where
  least : Int
  greatest : Int
  exponentDigits : Nat

/-- Four zeros behind the point, sixteen digits in front of it, and exponents of
at least two digits. -/
def Layout.standard : Layout := ⟨-4, 15, 2⟩

/-- The digits of a decimal without the zeros at its end. -/
def significantDigits (n : Nat) : List Char :=
  ((Nat.toDigits 10 n).reverse.dropWhile (· = '0')).reverse

/-- Digits with a point behind the first `places` of them.  Zeros fill the empty
places, and there is at least one digit on both sides of the point. -/
def positional (digits : List Char) (places : Int) : List Char :=
  if places ≤ 0 then '0' :: '.' :: List.replicate (-places).toNat '0' ++ digits
  else
    let whole := digits.take places.toNat
    let fraction := digits.drop places.toNat
    whole ++ List.replicate (places.toNat - whole.length) '0' ++
      '.' :: (if fraction.isEmpty then ['0'] else fraction)

/-- Digits with a point behind the first of them, unless it is the only one, and
with an exponent. -/
def scientific (digits : List Char) (exponent : Int) (exponentDigits : Nat) :
    List Char :=
  let mantissa := match digits with
    | [] => []
    | [d] => [d]
    | d :: ds => d :: '.' :: ds
  let size := Nat.toDigits 10 exponent.natAbs
  mantissa ++ 'e' :: (if exponent < 0 then '-' else '+') ::
    List.replicate (exponentDigits - size.length) '0' ++ size

/-- The text of a positive decimal `n * 10 ^ p`. -/
def Layout.positive (layout : Layout) (n : Nat) (p : Int) : List Char :=
  let exponent := p + (Nat.toDigits 10 n).length - 1
  let digits := significantDigits n
  if layout.least ≤ exponent ∧ exponent ≤ layout.greatest then
    positional digits (exponent + 1)
  else scientific digits exponent layout.exponentDigits

/-- The text of a number of double precision. -/
def Layout.text (layout : Layout) : Binary64 → String
  | .notANumber => "nan"
  | .infinite negative => signed negative ['i', 'n', 'f']
  | .finite negative 0 _ => signed negative ['0', '.', '0']
  | .finite negative m q =>
    let (n, p) := shortest m q
    signed negative (layout.positive n p)
where
  /-- A text behind the sign of a number. -/
  signed (negative : Bool) (text : List Char) : String :=
    String.ofList (if negative then '-' :: text else text)

end Decimal
end Formula
