import Formula.Expr.Basic

/-! # Expressions with blanks

A number or a string that was given without a value leaves a blank in the
expression: a text that nothing else in it has.  A number with a blank is written
as nothing at all, which cannot be done between brackets, and a string with a
blank cannot be quoted.
-/
namespace Formula
namespace Expr

/-- Why an expression with blanks cannot be written. -/
inductive Unwritable
  /-- An argument is a number without a value. -/
  | number (index : Nat)
  /-- A string has no value. -/
  | string
deriving DecidableEq

/-- Whether an expression is a number without a value. -/
def isBlankNumber (blank : String) (e : Expr) : Bool :=
  e = number blank

/-- Check that no argument is a number without a value. -/
def checkArgs (blank : String) (args : List Expr) : Except Unwritable Unit :=
  match args.findIdx? (isBlankNumber blank) with
  | some index => .error (.number index)
  | none => .ok ()

mutual

/-- Check that an expression can be written, from its first argument to its last
and from the inside out. -/
def checkWritable (blank : String) : Expr → Except Unwritable Unit
  | symbol _ | number _ | singleton _ => .ok ()
  | string text => if text = blank then .error .string else .ok ()
  | node _ args => do
    checkAllWritable blank args
    checkArgs blank args
  | apply head args => do
    checkWritable blank head
    checkAllWritable blank args
    checkArgs blank args

/-- Check that arguments can be written. -/
def checkAllWritable (blank : String) : List Expr → Except Unwritable Unit
  | [] => .ok ()
  | e :: es => do
    checkWritable blank e
    checkAllWritable blank es

end

end Expr
end Formula
