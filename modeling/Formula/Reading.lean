import Formula.Expr.Full
import Formula.Expr.Pretty
import Formula.File.Text
import Formula.Grammar.Parse
import Formula.Source.Line
import Formula.Token.Scan

/-! # Reading a text

A text is read in two stages: it is scanned for tokens, and the tokens are parsed
as one formula.  A reading keeps the text with the outcome, so that a failure can
be reported with the line that it is in.
-/
namespace Formula

/-- Why a text is no formula. -/
inductive Failure
  /-- The text is no sequence of tokens. -/
  | lexical (error : LexicalError)
  /-- The tokens are no formula. -/
  | grammatical (abort : Grammar.Abort)

/-- The report of a failure to read a text.  There is none if no token is to
blame, because the parse ran out of tokens or a value was missing. -/
def Failure.diagnostic? (text : String) : Failure → Option Diagnostic
  | lexical e => some (e.diagnostic (Source.lineAt text e.location.offset))
  | grammatical (.rejected _ e) =>
    some (e.diagnostic (Source.lineAt text e.found.location.offset))
  | grammatical .outOfTokens | grammatical .valueless => none

/-- A text that was read, and what came of it. -/
structure Reading where
  name : String
  text : String
  /-- How many tokens the text has, if it is a sequence of tokens. -/
  tokenCount : Option Nat
  /-- How many results of rules were remembered. -/
  memoSize : Nat
  outcome : Except Failure Expr

namespace Reading

/-- Read a text of that name.  The rules get the given allowance, or one that
they do not use up. -/
def ofTextWithin (allowance : Option Nat) (name text : String) (config : Config) :
    Reading :=
  match (Token.scan name text).toExcept with
  | .error e => ⟨name, text, none, 0, .error (.lexical e)⟩
  | .ok tokens =>
    let input : Grammar.Input := { tokens := tokens.toArray, config }
    match Grammar.parseWithin input (allowance.getD input.allowance) .start with
    | .ok e s => ⟨name, text, some tokens.length, s.memo.size, .ok e⟩
    | .error abort s =>
      ⟨name, text, some tokens.length, s.memo.size, .error (.grammatical abort)⟩

/-- Read a text of that name. -/
def ofText (name text : String) (config : Config) : Reading :=
  ofTextWithin none name text config

/-- Read the text in the file at a path, under the name of that path. -/
def ofFile (lookup : File.Lookup) (path : String) (config : Config) :
    Except FileError Reading := do
  return ofText path (← File.readText lookup path) config

/-- The report of a reading that failed. -/
def diagnostic? (r : Reading) : Option Diagnostic :=
  match r.outcome with
  | .ok _ => none
  | .error failure => failure.diagnostic? r.text

end Reading

/-- The name under which a text is read that comes from no file. -/
def unnamed : String := "<string>"

/-- The formula that a text is. -/
def read (text : String) (config : Config) : Except Failure Expr :=
  (Reading.ofText unnamed text config).outcome

end Formula
