import Formula.Grammar.Levels

/-! # Parsing

The rules of the grammar call each other.  `run` ties them together with a bound
on how many of them may be at work inside each other, the *allowance*: every call
has one less of it than its caller.

A rule never calls itself at the same place, not even through others.  So the
rules at work differ in rule or place, and an allowance of one for each rule at
each place is always enough.
-/
namespace Formula
namespace Grammar
variable (input : Input)

/-- An allowance that no parse of these tokens uses up. -/
def Input.allowance : Nat :=
  Rule.count * input.bound

/-- A modest allowance, which brackets within brackets use up when they are
about seventy deep. -/
def modestAllowance : Nat := 1000

/-- Apply a rule at the cursor, with an allowance for the rules that it calls.
Without any allowance left the tokens are nested too deeply. -/
def run : (allowance : Nat) → Rule → ParseM (Option Expr)
  | 0, _ => do
    let place ← current
    throw (.rejected place ⟨.nestedTooDeeply none, ← peek input⟩)
  | allowance + 1, rule => remembered input rule (body input (run allowance) rule)

/-- Stop with an error that shows at a place. -/
def reject (place : Nat) (cause : ParseError.Cause) : ParseM α := do
  throw (.rejected place ⟨cause, ← tokenAt input place⟩)

/-- Stop at the furthest place where something was needed and missing. -/
def rejectFurthest : ParseM α := do
  let s ← get
  reject input s.furthest (.unexpectedToken s.expected.texts)

/-- Read the tokens from the cursor to the end of the input as one formula, with
an allowance for the rules. -/
def parseWithin (allowance : Nat) : ParseM Expr := do
  match ← run input allowance .or with
  | none => rejectFurthest input
  | some e =>
    if ← check input .endOfInput then return e
    else
      let s ← get
      if s.furthest ≤ s.current then reject input s.current .trailingInput
      else rejectFurthest input

/-- Read the tokens from the cursor to the end of the input as one formula. -/
def parse : ParseM Expr :=
  parseWithin input input.allowance

/-- A text that no part of an expression made of the tokens has: it is longer than
the values of all tokens together, and blank. -/
def unusedText (tokens : List Token) : String :=
  let values := String.join (tokens.filterMap Token.value)
  String.ofList (List.replicate (values.length + 1) ' ')

/-- The formula that a list of tokens is.  The unused text stands for the values
of numbers and strings that have none. -/
def parseTokens (tokens : List Token) (config : Config) : Except Abort Expr :=
  match parse { tokens := tokens.toArray, config, blank := unusedText tokens } .start with
  | .ok e _ => .ok e
  | .error abort _ => .error abort

end Grammar
end Formula
