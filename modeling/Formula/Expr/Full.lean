import Formula.Expr.Basic
import Formula.Text.Quoted

/-! # Full form

The full form writes an expression as a list in brackets that starts with its
head.  Names, constants and texts are all quoted, so it keeps them apart from
numerals but not from each other.
-/
namespace Formula
namespace Expr

mutual

/-- The full form of an expression. -/
def full : Expr → String
  | symbol name => Text.quote name
  | number text => text
  | string text => Text.quote text
  | singleton name => Text.quote name
  | node op args => "[" ++ Text.quote op.name ++ fullMore args ++ "]"
  | apply head args => "[" ++ head.full ++ fullMore args ++ "]"

/-- The full forms of arguments, with a comma in front of each. -/
def fullMore : List Expr → String
  | [] => ""
  | e :: es => ", " ++ e.full ++ fullMore es

end

end Expr
end Formula
