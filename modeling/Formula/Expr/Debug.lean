import Formula.Expr.Basic
import Formula.Text.Debug

/-! # Expressions in debug form

The debug form of an expression shows how it is built.
-/
namespace Formula
namespace Expr

/-- The debug form of a leaf: its kind, and its one field. -/
def debugLeaf (kind field text : String) : String :=
  kind ++ "(" ++ field ++ "=" ++ Text.debug text ++ ")"

/-- The debug form of an operator with the debug forms of its arguments. -/
def debugNode (op : Operator) (args : List String) : String :=
  op.name ++ "(" ++ String.intercalate ", " args ++ ")"

/-- The debug form of a tuple.  One with a single item keeps a comma, to tell it
from an item in parentheses. -/
def debugTuple : List String → String
  | [item] => "(" ++ item ++ ",)"
  | items => "(" ++ String.intercalate ", " items ++ ")"

/-- The debug form of an application with the debug forms of its head and
arguments. -/
def debugApply (head : String) (args : List String) : String :=
  "Apply(head=" ++ head ++ ", args=" ++ debugTuple args ++ ")"

mutual

/-- The debug form of an expression. -/
def debug : Expr → String
  | symbol name => debugLeaf "Symbol" "name" name
  | number text => debugLeaf "Number" "value" text
  | string text => debugLeaf "String" "value" text
  | singleton name => debugLeaf "Singleton" "name" name
  | node op args => debugNode op (debugArgs args)
  | apply head args => debugApply head.debug (debugArgs args)

/-- The debug forms of arguments. -/
def debugArgs : List Expr → List String
  | [] => []
  | e :: es => e.debug :: debugArgs es

end

end Expr
end Formula
