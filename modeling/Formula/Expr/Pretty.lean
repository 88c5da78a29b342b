import Formula.Expr.Basic
import Formula.Text.Quoted

/-! # Pretty form

The pretty form writes every expression as a head with its arguments in
brackets, also where a formula could use an operator sign: `a + b` becomes
`Plus[a, b]`.  It can be read back.
-/
namespace Formula
namespace Expr

mutual

/-- The pretty form of an expression. -/
def pretty : Expr → String
  | symbol name => name
  | number text => text
  | string text => Text.quote text
  | singleton name => name
  | node op args => op.name ++ "[" ++ prettyArgs args ++ "]"
  | apply head args => head.pretty ++ "[" ++ prettyArgs args ++ "]"

/-- The pretty forms of arguments, divided by commas. -/
def prettyArgs : List Expr → String
  | [] => ""
  | e :: es => e.pretty ++ prettyMore es

/-- The pretty forms of arguments, with a comma in front of each. -/
def prettyMore : List Expr → String
  | [] => ""
  | e :: es => ", " ++ e.pretty ++ prettyMore es

end

end Expr
end Formula
