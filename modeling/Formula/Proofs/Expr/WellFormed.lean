import Formula.Expr.Pretty
import Formula.Proofs.Token.WellLexed

/-! # Well-formed expressions

The expressions that a formula can stand for, where the names of operators and constants
stand for them.  Names are names that a text can write, and no constants.  Numbers are
numerals, perhaps with one sign.  What is applied to arguments is a name that is no
operator, or something that has arguments itself.
-/
namespace Formula
namespace Expr

/-- An expression is a head with arguments. -/
def IsApplication : Expr → Prop
  | node .. | apply .. => True
  | symbol _ | number _ | string _ | singleton _ => False

/-- An expression is one that a formula can stand for. -/
inductive WellFormed : Expr → Prop
  | symbol {name : String} :
    Token.IsName name.toList → name ∉ constantNames → WellFormed (.symbol name)
  | number {text : String} : Token.Numeral.IsNumeral text.toList → WellFormed (.number text)
  | negative {text : String} :
    Token.Numeral.IsNumeral text.toList → WellFormed (.number ("-" ++ text))
  | string {text : String} : WellFormed (.string text)
  | singleton {name : String} : name ∈ constantNames → WellFormed (.singleton name)
  | node {op : Operator} {args : List Expr} :
    (∀ a ∈ args, WellFormed a) → WellFormed (.node op args)
  /-- A name with arguments. -/
  | named {name : String} {args : List Expr} :
    Token.IsName name.toList → Operator.ofName? name = none →
    (∀ a ∈ args, WellFormed a) → WellFormed (.apply (.symbol name) args)
  /-- An application with more arguments. -/
  | applied {head : Expr} {args : List Expr} :
    head.IsApplication → WellFormed head → (∀ a ∈ args, WellFormed a) →
    WellFormed (.apply head args)

/-- The names of the operators are names. -/
theorem isName_operator (op : Operator) : Token.IsName op.name.toList := by
  cases op <;> decide

theorem isName_of_mem_constantNames {name : String} (h : name ∈ constantNames) :
    Token.IsName name.toList := by
  simp only [constantNames, List.mem_cons, List.not_mem_nil, or_false] at h
  rcases h with rfl | rfl | rfl <;> decide

end Expr
end Formula
