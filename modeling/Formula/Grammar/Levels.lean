import Formula.Grammar.Brackets
import Formula.Grammar.Signs

/-! # Levels of precedence

What each level of the grammar makes of the tokens at the cursor, as a function
of `call`, the way to apply any rule there.  A level that finds an operator sign
without an operand behind it goes back to before the sign.

The loops count down a bound that is never used up, because every round takes a
token.
-/
namespace Formula
namespace Grammar
variable (input : Input) (call : Rule → ParseM (Option Expr))

/-! ## Levels that group to the left -/

/-- Operands that follow `left` on a level that groups to the left. -/
def foldMore (level operand : Rule) : (bound : Nat) → Expr → ParseM Expr
  | 0, left => return left
  | bound + 1, left => do
    match level.operator? (← peek input).kind with
    | none => return left
    | some op =>
      let mark ← current
      let _ ← advance input
      match ← call operand with
      | none =>
        rewind mark
        return left
      | some right => foldMore level operand bound (.node op [left, right])

/-- A level that groups operands of the next level to the left. -/
def foldLeft (level operand : Rule) : ParseM (Option Expr) := do
  match ← call operand with
  | none => return none
  | some left => some <$> foldMore input call level operand input.bound left

/-- Factors that follow `left`: behind a sign, or side by side with what is in
front.  A factor side by side cannot start with a minus, so `a -b` is a
difference. -/
def productMore : (bound : Nat) → Expr → ParseM Expr
  | 0, left => return left
  | bound + 1, left => do
    let kind := (← peek input).kind
    match Rule.multiplicative.operator? kind with
    | some op =>
      let mark ← current
      let _ ← advance input
      match ← call .unary with
      | none =>
        rewind mark
        return left
      | some right => productMore bound (.node op [left, right])
    | none =>
      if input.config.implicitMultiplication ∧ startsAtom kind then
        match ← call .power with
        | none => return left
        | some right => productMore bound (.node .times [left, right])
      else return left

/-- Products and quotients. -/
def product : ParseM (Option Expr) := do
  match ← call .unary with
  | none => return none
  | some left => some <$> productMore input call input.bound left

/-! ## Levels with signs in front -/

/-- An operand with signs of logical negation in front. -/
def negated : ParseM (Option Expr) := do
  let signs ← acceptMany input .not input.bound
  match ← call .equality with
  | none => return none
  | some operand => return some (Nat.repeat negation signs operand)

/-- Stop if a minus sign would become part of a number without a value. -/
def needValue (minuses : Nat) (first : Token) (e : Expr) : ParseM Unit := do
  if folds input.config minuses first e ∧ first.value = none then throw .valueless

/-- An operand with minus signs in front. -/
def signed : ParseM (Option Expr) := do
  let minuses ← acceptMany input .minus input.bound
  let first ← peek input
  match ← call .power with
  | none => return none
  | some operand =>
    needValue input minuses first operand
    return some (negate input.config minuses first operand)

/-! ## Spans -/

/-- A span: a start, a stop and perhaps a step, with `;;` between them.  Without
a start it starts at one, and without a stop it goes through everything. -/
def span : ParseM (Option Expr) := do
  let start ← call .additive
  if ← check input .span then
    let _ ← advance input
    let stop ← call .additive
    let ends := [start.getD (.number "1"), stop.getD .everything]
    if ← check input .span then
      let mark ← current
      let _ ← advance input
      match ← call .additive with
      | none =>
        rewind mark
        return some (.node .span ends)
      | some step => return some (.node .span (ends ++ [step]))
    else return some (.node .span ends)
  else return start

/-! ## Powers and indices -/

/-- The exponents that follow a base, each with its own minus signs. -/
def exponents : (bound : Nat) → ParseM (List Exponent)
  | 0 => return []
  | bound + 1 => do
    if ← check input .power then
      let mark ← current
      let _ ← advance input
      let minuses ← acceptMany input .minus input.bound
      let first ← peek input
      match ← call .part with
      | none =>
        rewind mark
        return []
      | some operand =>
        let others ← exponents bound
        return ⟨minuses, first, operand⟩ :: others
    else return []

/-- A base with its exponents.  Only behind the last of them there is no power, so
that a minus sign in front could become part of it. -/
def power : ParseM (Option Expr) := do
  match ← call .part with
  | none => return none
  | some base =>
    let chain ← exponents input call input.bound
    if let some last := chain.getLast? then
      needValue input last.minuses last.first last.operand
    return some (powers input.config base chain)

/-- An atom with its indices. -/
def part : ParseM (Option Expr) := do
  match ← call .atom with
  | none => return none
  | some e => some <$> indexed input call input.bound e

/-! ## All rules -/

/-- What a rule makes of the tokens at the cursor, given a way to apply any rule
there. -/
def body : Rule → ParseM (Option Expr)
  | .or => foldLeft input call .or .and
  | .and => foldLeft input call .and .not
  | .not => negated input call
  | .equality => foldLeft input call .equality .relational
  | .relational => foldLeft input call .relational .span
  | .span => span input call
  | .additive => foldLeft input call .additive .multiplicative
  | .multiplicative => product input call
  | .unary => signed input call
  | .power => power input call
  | .part => part input call
  | .atom => atom input call
  | .group => group input call
  | .list => list input call
  | .application => application input call

end Grammar
end Formula
