import Formula.Decimal.Layout
import Formula.Expr.Debug

/-! # Plain values as expressions

A caller may build expressions from plain values.  Truth values, whole numbers,
numbers of double precision and texts become expressions where they are given as
arguments; nothing else does.  Operators and applications may also be filled with
values directly, and then no value is changed: such a datum is an expression only
if it is made of expressions throughout.
-/
namespace Formula

/-- A plain value, an expression, or an operator or application filled with any
of these. -/
inductive Datum
  | null
  | bool (b : Bool)
  | int (n : Int)
  | float (x : Decimal.Binary64)
  | text (s : String)
  | list (items : List Datum)
  | expr (e : Expr)
  | node (op : Operator) (args : List Datum)
  | apply (head : Datum) (args : List Datum)

namespace Datum

/-! ## Debug form -/

mutual

/-- The debug form of a datum. -/
def debug : Datum → String
  | null => "None"
  | bool true => "True"
  | bool false => "False"
  | int n => toString n
  | float x => Decimal.Layout.standard.text x
  | text s => Text.debug s
  | list items => "[" ++ String.intercalate ", " (debugAll items) ++ "]"
  | expr e => e.debug
  | node op args => Expr.debugNode op (debugAll args)
  | apply head args => Expr.debugApply head.debug (debugAll args)

/-- The debug forms of data. -/
def debugAll : List Datum → List String
  | [] => []
  | d :: ds => d.debug :: debugAll ds

end

/-- The name of the type of a datum in reports. -/
def typeName : Datum → String
  | null => "NoneType"
  | bool _ => "bool"
  | int _ => "int"
  | float _ => "float"
  | text _ => "str"
  | list _ => "list"
  | expr (.symbol _) => "Symbol"
  | expr (.number _) => "Number"
  | expr (.string _) => "String"
  | expr (.singleton _) => "Singleton"
  | expr (.node op _) | node op _ => op.name
  | expr (.apply ..) | apply .. => "Apply"

/-! ## Conversion -/

/-- Why a datum cannot be used as an expression. -/
inductive Error
  /-- The datum stands where only expressions may stand. -/
  | notAnExpression (d : Datum)
  /-- The datum cannot be converted. -/
  | inconvertible (d : Datum)
  /-- The datum is no expression, so it cannot be applied to arguments. -/
  | notApplicable (d : Datum)
  /-- A list is in a datum that was to be put into a set. -/
  | listInSet

/-- What a report says of such an error. -/
def Error.message : Error → String
  | notAnExpression d => "not an expression: " ++ d.debug
  | inconvertible d => "cannot convert " ++ d.typeName ++ " to an expression"
  | notApplicable d => "'" ++ d.typeName ++ "' object is not callable"
  | listInSet => "unhashable type: 'list'"

mutual

/-- The expression that a datum is, if it is made of expressions throughout. -/
def toExpr : Datum → Except Error Expr
  | expr e => .ok e
  | node op args => do return .node op (← toExprs args)
  | apply head args => do return .apply (← head.toExpr) (← toExprs args)
  | d => .error (.notAnExpression d)

/-- The expressions that data are. -/
def toExprs : List Datum → Except Error (List Expr)
  | [] => .ok []
  | d :: ds => do return (← d.toExpr) :: (← toExprs ds)

end

/-- A datum as an argument: plain values become expressions. -/
def coerce : Datum → Except Error Datum
  | bool b => .ok (expr (.ofBool b))
  | int n => .ok (expr (.number (toString n)))
  | float x => .ok (expr (.number (Decimal.Layout.standard.text x)))
  | text s => .ok (expr (.string s))
  | null => .error (.inconvertible null)
  | list items => .error (.inconvertible (list items))
  | d => .ok d

/-- The expression that the name `head` with these arguments stands for. -/
def build (head : String) (args : List Datum) : Except Error Datum := do
  let args ← args.mapM coerce
  match Operator.ofName? head with
  | some op => return node op args
  | none => return apply (expr (.symbol head)) args

/-- The application of an expression to arguments. -/
def call (head : Datum) (args : List Datum) : Except Error Datum := do
  match head with
  | expr _ | node .. | apply .. => return apply head (← args.mapM coerce)
  | d => .error (.notApplicable d)

/-! ## Fields -/

/-- Why the fields of a datum cannot be changed. -/
inductive FieldError
  /-- Operators with arguments never change. -/
  | immutableNode (op : Operator)
  /-- The field of an expression cannot be changed. -/
  | frozenField (name : String)
  /-- Plain values have no such field. -/
  | noField (d : Datum) (name : String)

/-- What a report says of such an error. -/
def FieldError.message : FieldError → String
  | immutableNode op => op.name ++ " nodes are immutable"
  | frozenField name => "cannot assign to field " ++ Text.debug name
  | noField d name => "'" ++ d.typeName ++ "' object has no attribute '" ++ name ++ "'"

/-- The error that changing a field of a datum meets. -/
def assignField (d : Datum) (name : String) : FieldError :=
  match d with
  | expr (.node op _) | node op _ => .immutableNode op
  | expr _ | apply .. => .frozenField name
  | d => .noField d name

end Datum
end Formula
