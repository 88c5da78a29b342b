import Formula.Grammar.State

/-! # Brackets

The parts of a formula in brackets: groups, lists, arguments and indices.  Each
is given as a function of `call`, the way to apply any rule of the grammar at
the cursor.

The loops count down a bound that is never used up, because every round takes a
token.
-/
namespace Formula
namespace Grammar
variable (input : Input) (call : Rule → ParseM (Option Expr))

/-- One more than the number of tokens: more rounds than any loop can make that
takes a token in every round. -/
def Input.bound : Nat :=
  input.tokens.size + 1

/-- One or more expressions with commas between them, up to a closer. -/
def items (closer : Closer) : (bound : Nat) → ParseM (Option (List Expr))
  | 0 => return none
  | bound + 1 => do
    match ← call .or with
    | none => return none
    | some item =>
      if ← accept input .comma then
        match ← items closer bound with
        | none => return none
        | some others => return some (item :: others)
      else if ← close input closer then return some [item]
      else
        expect .comma
        return none

/-- Expressions with commas between them, if there are any, up to a closer. -/
def sequence (closer : Closer) : ParseM (Option (List Expr)) := do
  if ← close input closer then return some []
  else items input call closer input.bound

/-- A bracket at the cursor, with the expressions in it. -/
def bracketed (closer : Closer) : ParseM (Option (List Expr)) := do
  let place ← current
  let opening ← advance input
  if closer = .doubleBracket then
    let _ ← advance input
  nested input place opening (sequence input call closer)

/-- An expression in parentheses, which is that expression. -/
def group : ParseM (Option Expr) := do
  let place ← current
  let opening ← advance input
  nested input place opening do
    match ← call .or with
    | none => return none
    | some e => if ← close input .paren then return some e else return none

/-- A list in braces. -/
def list : ParseM (Option Expr) := do
  match ← bracketed input call .brace with
  | none => return none
  | some elements => return some (.node .list elements)

/-- Whether arguments start at the cursor.  Two opening brackets without a gap
between them are for indices. -/
def opensArguments : ParseM Bool := do
  if ← check input .leftBracket then
    return !pairAt input (← current) .leftBracket
  else return false

/-- The application of an expression to as many lists of arguments as follow. -/
def curried : (bound : Nat) → Expr → ParseM Expr
  | 0, e => return e
  | bound + 1, e => do
    if ← opensArguments input then
      let mark ← current
      match ← bracketed input call .bracket with
      | none =>
        rewind mark
        return e
      | some args => curried bound (.apply e args)
    else return e

/-- The expression that a name with arguments stands for. -/
def namedApplication (config : Config) (name : String) (args : List Expr) : Expr :=
  if config.resolveBuiltins then .build name args else .apply (.symbol name) args

/-- A name with one or more lists of arguments. -/
def application : ParseM (Option Expr) := do
  let name ← advance input
  if ← opensArguments input then
    match ← bracketed input call .bracket with
    | none => return none
    | some args =>
      some <$> curried input call input.bound
        (namedApplication input.config name.lexeme args)
  else return none

/-- The expression that a name without arguments stands for. -/
def namedConstant (config : Config) (name : String) : Expr :=
  if config.resolveBuiltins ∧ name ∈ Expr.constantNames then .singleton name
  else .symbol name

/-- An expression with as many lists of indices as follow. -/
def indexed : (bound : Nat) → Expr → ParseM Expr
  | 0, e => return e
  | bound + 1, e => do
    let mark ← current
    if pairAt input mark .leftBracket then
      match ← bracketed input call .doubleBracket with
      | none =>
        rewind mark
        return e
      | some indices => indexed bound (.node .part (e :: indices))
    else return e

/-- An atom: brackets, a name, a numeral or a text. -/
def atom : ParseM (Option Expr) := do
  let t ← peek input
  match t.kind with
  | .leftParen => call .group
  | .leftBrace => call .list
  | .identifier =>
    match ← call .application with
    | some e => return some e
    | none =>
      let name ← advance input
      return some (namedConstant input.config name.lexeme)
  | .number =>
    let _ ← advance input
    return some (.number (t.value.getD input.blank))
  | .string =>
    let _ ← advance input
    return some (.string (t.value.getD input.blank))
  | _ =>
    expect .expression
    return none

end Grammar
end Formula
