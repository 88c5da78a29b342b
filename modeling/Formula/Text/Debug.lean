import Formula.Text.Printable

/-! # Text in debug form

The debug form shows a text on one line and leaves no character invisible.  It
stands between single quotes, or between double quotes when that saves escaping
the single quotes inside.
-/
namespace Formula
namespace Text

/-- The quote around the debug form of a text. -/
def debugQuote (text : List Char) : Char :=
  if '\'' ∈ text ∧ '"' ∉ text then '"' else '\''

/-- The digits of a code point to base sixteen, with leading zeros up to a
width. -/
def hexDigits (width n : Nat) : List Char :=
  let digits := Nat.toDigits 16 n
  List.replicate (width - digits.length) '0' ++ digits

/-- The escape of a character that may not be shown: the shortest of the three
forms with two, four and eight digits that has room for its code point. -/
def debugCode (c : Char) : List Char :=
  if c.toNat < 0x100 then '\\' :: 'x' :: hexDigits 2 c.toNat
  else if c.toNat < 0x10000 then '\\' :: 'u' :: hexDigits 4 c.toNat
  else '\\' :: 'U' :: hexDigits 8 c.toNat

/-- One character of the debug form that stands between `delimiter`s. -/
def debugChar (delimiter c : Char) : List Char :=
  if c = delimiter ∨ c = '\\' then ['\\', c]
  else if c = '\n' then ['\\', 'n']
  else if c = '\r' then ['\\', 'r']
  else if c = '\t' then ['\\', 't']
  else if isPrintable c then [c]
  else debugCode c

/-- The debug form of a text. -/
def debug (text : String) : String :=
  let delimiter := debugQuote text.toList
  String.ofList (delimiter :: text.toList.flatMap (debugChar delimiter) ++ [delimiter])

end Text
end Formula
