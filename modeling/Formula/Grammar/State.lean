import Formula.Grammar.Config
import Formula.Grammar.Error
import Formula.Grammar.Expectation
import Formula.Grammar.Memo

/-! # The state of a parse

A parse walks over a list of tokens with a cursor.  It also counts the open
brackets, and it remembers the furthest place where something was needed and
missing, with all that was needed there: from these an error is made when the
tokens are no formula.

A rule that does not apply gives `none`.  A parse that has to stop altogether
aborts; its state is kept even then.
-/
namespace Formula
namespace Grammar

/-- What is parsed, and in which dialect. -/
structure Input where
  tokens : Array Token
  config : Config
  /-- What stands in the expression for a number or a string that was given
  without a value. -/
  blank : String := ""

/-- The state of a parse. -/
structure State where
  /-- The place of the next token. -/
  current : Nat
  /-- How many brackets are open. -/
  depth : Nat
  /-- The furthest place where something was needed and missing. -/
  furthest : Nat
  /-- What was needed at the furthest place. -/
  expected : Expectations
  memo : Memo

/-- The state before the first token. -/
def State.start : State :=
  ⟨0, 0, 0, .empty, .empty⟩

/-- Why a parse stops altogether. -/
inductive Abort
  /-- The tokens are no formula; the error shows at the token at `place`. -/
  | rejected (place : Nat) (error : ParseError)
  /-- The tokens ran out although no token marked the end of the input. -/
  | outOfTokens
  /-- A minus sign would become part of a number that was given without a value. -/
  | valueless
deriving DecidableEq

/-- A step of a parse. -/
abbrev ParseM (α : Type) := EStateM Abort State α

/-! ## The cursor -/

/-- The place of the next token. -/
def current : ParseM Nat :=
  return (← get).current

/-- Go back to a place. -/
def rewind (place : Nat) : ParseM Unit :=
  modify fun s => { s with current := place }

/-- What a rule makes of the tokens, with the cursor back in its place if the
rule does not apply. -/
def attempt (rule : ParseM (Option Expr)) : ParseM (Option Expr) := do
  let start ← current
  match ← rule with
  | some e => return some e
  | none =>
    rewind start
    return none

section Tokens
variable (input : Input)

/-- The token at a place. -/
def tokenAt (place : Nat) : ParseM Token :=
  match input.tokens[place]? with
  | some t => return t
  | none => throw .outOfTokens

/-- The next token. -/
def peek : ParseM Token := do
  tokenAt input (← current)

/-- Whether the next token is of a kind. -/
def check (kind : Token.Kind) : ParseM Bool :=
  return (← peek input).kind == kind

/-- Take the next token.  The cursor never moves beyond the end of the input. -/
def advance : ParseM Token := do
  let t ← peek input
  if t.kind ≠ .endOfInput then modify fun s => { s with current := s.current + 1 }
  return t

/-- Take the next token if it is of a kind. -/
def accept (kind : Token.Kind) : ParseM Bool := do
  if ← check input kind then
    let _ ← advance input
    return true
  else return false

/-- Take tokens of a kind as long as there are some, and count them.  There are
at most `bound`. -/
def acceptMany (kind : Token.Kind) : (bound : Nat) → ParseM Nat
  | 0 => return 0
  | bound + 1 => do
    if ← accept input kind then return (← acceptMany kind bound) + 1
    else return 0

/-- Whether two tokens of one kind stand at a place without a gap between
them. -/
def pairAt (place : Nat) (kind : Token.Kind) : Bool :=
  match input.tokens[place]?, input.tokens[place + 1]? with
  | some first, some second =>
    first.kind == kind && second.kind == kind &&
      second.location.offset == first.endOffset
  | _, _ => false

/-! ## Expectations -/

/-- A state after something was needed at the cursor and missing. -/
def State.expect (s : State) (e : Expectation) : State :=
  if s.furthest < s.current then
    { s with furthest := s.current, expected := Expectations.empty.insert e }
  else if s.current = s.furthest then { s with expected := s.expected.insert e }
  else s

/-- Record that something was needed at the cursor and missing. -/
def expect (e : Expectation) : ParseM Unit :=
  modify fun s => s.expect e

/-- Take the closer of brackets, or record that it was needed. -/
def close (closer : Closer) : ParseM Bool := do
  let closed ←
    if closer = .doubleBracket then
      if pairAt input (← current) closer.kind then
        let _ ← advance input
        let _ ← advance input
        pure true
      else pure false
    else accept input closer.kind
  if closed then return true
  else
    expect (.closer closer)
    return false

/-! ## Nesting -/

/-- Go through a bracketed part with one more bracket open than before.  The
count is as before behind it, also if the parse aborts inside.  The token at
`place` opened the bracket, and it is to blame if that makes too many. -/
def nested (place : Nat) (opening : Token) (body : ParseM α) : ParseM α := fun s =>
  let depth := s.depth + 1
  match input.config.exceededCap? depth with
  | some limit =>
    .error (.rejected place ⟨.nestedTooDeeply (some limit), opening⟩) { s with depth }
  | none =>
    match body { s with depth } with
    | .ok a s' => .ok a { s' with depth := s.depth }
    | .error e s' => .error e { s' with depth := s.depth }

/-! ## Remembering -/

/-- What a rule makes of the tokens at the cursor, from memory if it was there
before. -/
def remembered (rule : Rule) (body : ParseM (Option Expr)) : ParseM (Option Expr) := do
  if input.config.memoize then
    let start ← current
    match (← get).memo.find? rule start with
    | some .inProgress => return none
    | some (.done result stop) =>
      rewind stop
      return result
    | none =>
      modify fun s => { s with memo := s.memo.store rule start .inProgress }
      let result ← attempt body
      modify fun s => { s with memo := s.memo.store rule start (.done result s.current) }
      return result
  else attempt body

end Tokens

end Grammar
end Formula
