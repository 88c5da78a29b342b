import Formula.Decimal.Binary64

/-! # Shortest decimals

The numbers of double precision are so far apart that a decimal with few digits
can stand for one of them: every real number nearer to it than to its neighbours
is read back as it.  Among the decimals that are read back as a number, `shortest`
takes those with the fewest digits, and of these the one nearest to the number; of
two that are equally near it takes the even one.

All numbers are kept as fractions of natural numbers with one common denominator.
-/
namespace Formula
namespace Decimal

/-- The reals that are read back as a number: those between `low` and `high`, and
these two as well if the interval is closed.  The number itself is `value`.  All
three are numerators over the denominator `unit`. -/
structure Interval where
  low : Nat
  value : Nat
  high : Nat
  unit : Nat
  closed : Bool

/-- Whether a multiple of the unit is in an interval. -/
def Interval.contains (i : Interval) (n : Nat) : Bool :=
  let x := n * i.unit
  (i.low < x && x < i.high) || (i.closed && (x == i.low || x == i.high))

/-- The power `base ^ n`, and one if `n` is negative. -/
def power (base : Nat) (n : Int) : Nat :=
  base.pow n.toNat

/-- The interval of the number `m * 2 ^ q`, in units of `10 ^ p`.  Its ends are
half way to the neighbours, so it is measured in quarters of the step between
numbers.  The ends belong to it if the significand is even. -/
def interval (m : Nat) (q p : Int) : Interval :=
  let quarter := power 2 (q - 2) * power 10 (-p)
  let below := if m = Binary64.leastNormal ∧ Binary64.leastExponent < q then 1 else 2
  ⟨(4 * m - below) * quarter, 4 * m * quarter, (4 * m + 2) * quarter,
    power 2 (2 - q) * power 10 p, m % 2 == 0⟩

/-- The multiple of the unit in an interval that is nearest to its value. -/
def nearest? (i : Interval) : Option Nat :=
  let n := i.value / i.unit
  let below := i.value - n * i.unit
  let above := (n + 1) * i.unit - i.value
  if i.contains n then
    if i.contains (n + 1) ∧ (above < below ∨ (above = below ∧ n % 2 = 1)) then some (n + 1)
    else some n
  else if i.contains (n + 1) then some (n + 1)
  else none

/-- The exponent of the first decimal digit of `m * 2 ^ q`. -/
def magnitude (m : Nat) (q : Int) : Int :=
  let top := m * power 2 q
  let bottom := power 2 (-q)
  if bottom ≤ top then (Nat.toDigits 10 (top / bottom)).length - 1
  else
    let places := (Nat.toDigits 10 (bottom / top)).length
    if bottom ≤ top * power 10 (places - 1) then 1 - places else -places

/-- The shortest decimal that is read back as `m * 2 ^ q`, as a whole number and
the power of ten that it counts.  Seventeen digits are always enough. -/
def shortest (m : Nat) (q : Int) : Nat × Int :=
  let first := magnitude m q
  let found := (List.range 17).findSome? fun (more : Nat) =>
    let p := first - more
    (nearest? (interval m q p)).map fun n => (n, p)
  found.getD (m, 0)

end Decimal
end Formula
