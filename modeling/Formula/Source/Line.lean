/-! # Lines of a text

The line around an offset, for showing it in a report.
-/
namespace Formula
namespace Source

/-- The place of an offset in a text of `length` characters.  A negative offset
counts from the end, and one that is out of reach is moved to the nearer end. -/
def clampOffset (length : Nat) (offset : Int) : Nat :=
  if offset < 0 then (length + offset).toNat else min offset.toNat length

/-- The line of a text that contains an offset, without the line feed that ends
it and without carriage returns at its end. -/
def lineAt (text : String) (offset : Int) : String :=
  let chars := text.toList
  let place := clampOffset chars.length offset
  let before := ((chars.take place).reverse.takeWhile (· ≠ '\n')).reverse
  let behind := (chars.drop place).takeWhile (· ≠ '\n')
  String.ofList (((before ++ behind).reverse.dropWhile (· = '\r')).reverse)

end Source
end Formula
