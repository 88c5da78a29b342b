/-! # Binary numbers of double precision

A number of double precision is given by a word of 64 bits: a sign, eleven bits
of exponent and 52 bits of fraction.  A finite one is a whole number times a
power of two, up to its sign.
-/
namespace Formula
namespace Decimal

/-- What a word of 64 bits stands for. -/
inductive Binary64
  /-- The number `significand * 2 ^ exponent`, or its negative. -/
  | finite (negative : Bool) (significand : Nat) (exponent : Int)
  | infinite (negative : Bool)
  | notANumber
deriving DecidableEq

namespace Binary64

/-- The least exponent. -/
def leastExponent : Int := -1074

/-- The significand that starts a new power of two.  The next number below is
only half as far away as the next one above. -/
def leastNormal : Nat := 1 <<< 52

/-- The number that a word stands for. -/
def ofWord (word : Nat) : Binary64 :=
  let negative := word.testBit 63
  let exponent := (word >>> 52) % 2048
  let fraction := word % leastNormal
  if exponent = 2047 then
    if fraction = 0 then infinite negative else notANumber
  else if exponent = 0 then finite negative fraction leastExponent
  else finite negative (leastNormal + fraction) (leastExponent + exponent - 1)

end Binary64
end Decimal
end Formula
