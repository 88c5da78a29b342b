import Formula.Expr.Operator

/-! # Expressions

An expression is a name, a numeral, a text, one of the constants, an operator
with arguments, or any other head with arguments.  Numerals keep their text, so
`1.0` and `1.` are different expressions.
-/
namespace Formula

/-- An expression. -/
inductive Expr
  /-- A name. -/
  | symbol (name : String)
  /-- A numeral, kept as its text. -/
  | number (text : String)
  /-- A text, without its quotes and escapes. -/
  | string (text : String)
  /-- A constant. -/
  | singleton (name : String)
  /-- An operator with its arguments. -/
  | node (op : Operator) (args : List Expr)
  /-- A head that is no operator, with its arguments. -/
  | apply (head : Expr) (args : List Expr)

namespace Expr

/-! ## Equality -/

mutual

/-- Expressions are equal if they are built alike. -/
def decEq : (a b : Expr) → Decidable (a = b)
  | symbol s, symbol t | number s, number t | string s, string t
  | singleton s, singleton t => decidable_of_iff (s = t) (by simp)
  | node op as, node op' bs =>
    haveI := decEqArgs as bs
    decidable_of_iff (op = op' ∧ as = bs) (by simp)
  | apply a as, apply b bs =>
    haveI := decEq a b
    haveI := decEqArgs as bs
    decidable_of_iff (a = b ∧ as = bs) (by simp)
  | symbol _, number _ | symbol _, string _ | symbol _, singleton _
  | symbol _, node .. | symbol _, apply .. | number _, symbol _
  | number _, string _ | number _, singleton _ | number _, node ..
  | number _, apply .. | string _, symbol _ | string _, number _
  | string _, singleton _ | string _, node .. | string _, apply ..
  | singleton _, symbol _ | singleton _, number _ | singleton _, string _
  | singleton _, node .. | singleton _, apply .. | node .., symbol _
  | node .., number _ | node .., string _ | node .., singleton _
  | node .., apply .. | apply .., symbol _ | apply .., number _
  | apply .., string _ | apply .., singleton _ | apply .., node .. =>
    isFalse (by intro h; cases h)

/-- Lists of arguments are equal if they are equal one by one. -/
def decEqArgs : (as bs : List Expr) → Decidable (as = bs)
  | [], [] => isTrue rfl
  | a :: as, b :: bs =>
    haveI := decEq a b
    haveI := decEqArgs as bs
    decidable_of_iff (a = b ∧ as = bs) (by simp)
  | [], _ :: _ | _ :: _, [] => isFalse (by intro h; cases h)

end

instance : DecidableEq Expr := decEq

/-! ## Constants -/

/-- The names of the constants that a formula can write. -/
def constantNames : List String :=
  ["All", "True", "False"]

/-- Everything, as the open end of a span. -/
def everything : Expr := singleton "All"

/-- A truth value. -/
def ofBool : Bool → Expr
  | true => singleton "True"
  | false => singleton "False"

/-! ## Head and arguments -/

/-- The head of an expression that has arguments, or could have some. -/
def head? : Expr → Option Expr
  | symbol _ | number _ | string _ => none
  | singleton name => some (symbol name)
  | node op _ => some (symbol op.name)
  | apply head _ => some head

/-- The arguments of an expression. -/
def args : Expr → List Expr
  | symbol _ | number _ | string _ | singleton _ => []
  | node _ args | apply _ args => args

/-- The expression that the name `head` with these arguments stands for: the
operator of that name, if there is one. -/
def build (head : String) (args : List Expr) : Expr :=
  match Operator.ofName? head with
  | some op => node op args
  | none => apply (symbol head) args

end Expr
end Formula
