import Formula.Diagnostic
import Formula.Token.Basic

/-! # Errors of the grammar

A list of tokens that is not one formula fails at one token: one that no rule
could use, one that follows a complete formula, or one that opens brackets too
deep inside others.
-/
namespace Formula

/-- What keeps a list of tokens from being one formula. -/
inductive ParseError.Cause
  /-- One of the expected things was needed instead of the token. -/
  | unexpectedToken (expected : List String)
  /-- A formula is complete before the token. -/
  | trailingInput
  /-- Brackets are nested too deeply, for the cap or for the space at hand. -/
  | nestedTooDeeply (limit : Option Int)
deriving DecidableEq

/-- An error of the grammar: its cause, and the token at which it shows. -/
structure ParseError where
  cause : ParseError.Cause
  found : Token
deriving DecidableEq

/-- Expected things as a report lists them: each once, in their order, the last
one behind "or".  Where nothing is listed an expression was expected. -/
def describeExpected (expected : List String) : String :=
  let items := (expected.mergeSort fun a b => decide (a ≤ b)).eraseDups
  match items.getLast? with
  | none => "expression"
  | some last =>
    match items.dropLast with
    | [] => last
    | others => String.intercalate ", " others ++ " or " ++ last

namespace ParseError

/-- The code of an error of the grammar. -/
def code (e : ParseError) : String :=
  match e.cause with
  | .unexpectedToken _ => "P001"
  | .trailingInput => "P002"
  | .nestedTooDeeply _ => "P003"

/-- What a report says of an error of the grammar. -/
def message (e : ParseError) : String :=
  match e.cause with
  | .unexpectedToken expected =>
    "expected " ++ describeExpected expected ++ " but found " ++ e.found.describe
  | .trailingInput => "expected end of input but found " ++ e.found.describe
  | .nestedTooDeeply (some limit) =>
    "expression nested more than " ++ toString limit ++ " levels deep"
  | .nestedTooDeeply none => "expression nested too deeply"

/-- What a report advises about an error of the grammar. -/
def help (e : ParseError) : String :=
  match e.cause with
  | .unexpectedToken expected =>
    "The parser expected to see " ++ describeExpected expected ++ " at this position."
  | .trailingInput => "A complete expression was parsed but input remains after it."
  | .nestedTooDeeply (some _) =>
    "Raise ParserConfig.max_nesting_depth to accept deeper input."
  | .nestedTooDeeply none =>
    "The nesting exceeds what the interpreter's recursion limit allows."

/-- The report of an error of the grammar, with the line of source that it is
in. -/
def diagnostic (e : ParseError) (sourceLine : String) : Diagnostic where
  message := e.message
  location := e.found.location
  code := some e.code
  help := some e.help
  sourceLine := sourceLine

end ParseError
end Formula
