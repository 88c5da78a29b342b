import Formula.Expr.Basic
import Formula.Grammar.Config
import Formula.Token.Basic

/-! # Signs and powers

How expressions are made of operands with minus signs in front, and of powers.
`-x` is the product of `-1` and `x`, but a minus directly in front of a numeral
may become part of it.  Powers group to the right, and the minus signs in front
of an exponent apply to the whole chain of powers on their right.
-/
namespace Formula
namespace Grammar

/-- The product of minus one and an expression. -/
def minus (e : Expr) : Expr :=
  .node .times [.number "-1", e]

/-- The logical negation of an expression. -/
def negation (e : Expr) : Expr :=
  .node .not [e]

/-- An expression with that many minus signs in front.  `first` is the token
that directly follows the signs: if it is a numeral, and the whole expression is
one too, then the innermost sign becomes part of it. -/
def negate (config : Config) (minuses : Nat) (first : Token) (e : Expr) : Expr :=
  match minuses, e with
  | 0, e => e
  | n + 1, .number text =>
    if config.foldNegativeLiterals ∧ first.kind = .number then
      Nat.repeat minus n (.number ("-" ++ text))
    else Nat.repeat minus (n + 1) (.number text)
  | n + 1, e => Nat.repeat minus (n + 1) e

/-- Whether the innermost of that many minus signs becomes part of the expression
behind them. -/
def folds (config : Config) (minuses : Nat) (first : Token) : Expr → Bool
  | .number _ => minuses != 0 && config.foldNegativeLiterals && first.kind == .number
  | _ => false

/-- An operand behind a power sign: how many minus signs stand in front of it,
the token that follows them, and what it is. -/
structure Exponent where
  minuses : Nat
  first : Token
  operand : Expr

/-- A base with a chain of exponents. -/
def powers (config : Config) (base : Expr) : List Exponent → Expr
  | [] => base
  | e :: es =>
    .node .power [base, negate config e.minuses e.first (powers config e.operand es)]

end Grammar
end Formula
