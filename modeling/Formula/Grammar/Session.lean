import Formula.Grammar.Parse

/-! # Parsing sessions

A session parses the same tokens as often as one likes, from any place and in any
dialect.  Its state goes on from one parse to the next: the cursor, the furthest
place with its expectations, and all that is remembered.

A place may also be counted back from the end of the tokens, as a negative number.
Such a place comes before all others: what is needed there and missing is not
recorded, and what is remembered there is kept apart.
-/
namespace Formula
namespace Grammar

/-- Tokens with the state of the parses so far.  The cursor of the state itself is
not used. -/
structure Session where
  input : Input
  state : State
  /-- The place of the next token, counted back from the end if it is negative. -/
  cursor : Int
  /-- What is remembered of places counted back from the end. -/
  fromEnd : Memo

namespace Session

/-- A new session. -/
def start (tokens : List Token) (config : Config) : Session :=
  ⟨{ tokens := tokens.toArray, config }, .start, 0, .empty⟩

/-- How many results of rules are remembered. -/
def memoSize (session : Session) : Nat :=
  session.state.memo.size + session.fromEnd.size

/-- Parse from a place to the end of the input. -/
def parseFrom (session : Session) (place : Nat) : Except Abort Expr × Session :=
  match Grammar.parse session.input { session.state with current := place } with
  | .ok e state => (.ok e, { session with state, cursor := state.current })
  | .error abort state => (.error abort, { session with state, cursor := state.current })

/-- The error of a parse that fails at a place counted back from the end: it shows
at the furthest of the other places. -/
def furthestError (session : Session) : Abort :=
  match (rejectFurthest session.input : ParseM Expr) session.state with
  | .ok _ _ => .outOfTokens
  | .error abort _ => abort

/-- Parse from a place that many tokens before the end to the end of the input.
The furthest place is behind all tokens meanwhile, so that no other is recorded. -/
def parseFromEnd (session : Session) (distance : Nat) : Except Abort Expr × Session :=
  let size := session.input.tokens.size
  if size < distance then (.error .outOfTokens, session)
  else
    let place := size - distance
    let state : State :=
      { session.state with current := place, furthest := size, memo := session.fromEnd }
    let continued (state : State) : Session :=
      { session with
        state := { session.state with depth := state.depth }
        cursor := state.current - size
        fromEnd := state.memo }
    match Grammar.parse session.input state with
    | .ok e state => (.ok e, continued state)
    | .error .outOfTokens state => (.error session.furthestError, continued state)
    | .error abort state => (.error abort, continued state)

/-- Parse from the cursor to the end of the input. -/
def parse (session : Session) : Except Abort Expr × Session :=
  match session.cursor with
  | .ofNat place => session.parseFrom place
  | .negSucc n => session.parseFromEnd (n + 1)

/-- Move the cursor to a place. -/
def seek (session : Session) (place : Int) : Session :=
  { session with cursor := place }

/-- Choose another dialect. -/
def configure (session : Session) (config : Config) : Session :=
  { session with input := { session.input with config } }

end Session
end Grammar
end Formula
