import Formula.Diagnostic
import Formula.Text.Printable

/-! # Lexical errors

A text that is not a sequence of tokens fails at one place: at a character that
starts no token, or where a string or a comment opens that is never closed.
-/
namespace Formula

/-- What keeps a text from being a sequence of tokens. -/
inductive LexicalError.Cause
  | invalidCharacter (c : Char)
  | unterminatedString
  | unterminatedComment
deriving DecidableEq

/-- A lexical error: its cause, and the place of the character or of the opening
quote or comment. -/
structure LexicalError where
  cause : LexicalError.Cause
  location : Location
deriving DecidableEq

namespace LexicalError

/-- The name of a code point: at least four digits to base sixteen. -/
def codePoint (c : Char) : String :=
  let digits := (Nat.toDigits 16 c.toNat).map Char.toUpper
  "U+" ++ String.ofList (List.replicate (4 - digits.length) '0' ++ digits)

namespace Cause

/-- The code of a lexical error. -/
def code : Cause → String
  | invalidCharacter _ => "L001"
  | unterminatedString => "L002"
  | unterminatedComment => "L003"

/-- What a report says of a lexical error. -/
def message : Cause → String
  | invalidCharacter c => "no lexeme matches at '" ++ c.toString ++ "'"
  | unterminatedString => "unterminated string literal"
  | unterminatedComment => "unterminated comment"

/-- What a report advises about a lexical error. -/
def help : Cause → String
  | invalidCharacter c =>
    if Text.isPrintable c then
      "The character '" ++ c.toString ++ "' does not start any token."
    else "Non-printable character (Unicode: " ++ codePoint c ++ ") is not allowed."
  | unterminatedString => "String literals must be closed with a matching \" quote."
  | unterminatedComment =>
    "Every '(*' needs a matching '*)', including nested comments."

end Cause

/-- The report of a lexical error, with the line of source that it is in. -/
def diagnostic (e : LexicalError) (sourceLine : String) : Diagnostic where
  message := e.cause.message
  location := e.location
  code := some e.cause.code
  help := some e.cause.help
  sourceLine := sourceLine

end LexicalError
end Formula
