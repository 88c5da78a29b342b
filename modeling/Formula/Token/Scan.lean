import Formula.Token.Basic
import Formula.Token.Error
import Formula.Token.Gap
import Formula.Token.Lexeme

/-! # Scanning a text

A text is scanned from left to right: a gap, a token, a gap, a token, until a
gap ends at the end of the text.  A scan keeps the tokens that it found even
where it fails, and the position where it came to a halt.

`scanFrom` ends because a gap leaves at most the text it was found in and a
lexeme is not empty.
-/
namespace Formula
namespace Token

/-- What scanning a text found.  The tokens of a scan without an error end with
the one that marks the end of the input. -/
structure Scan where
  tokens : List Token
  stop : Position
  error? : Option LexicalError

namespace Scan

/-- Put a token in front of a scan of what follows it. -/
def cons (t : Token) (later : Scan) : Scan :=
  { later with tokens := t :: later.tokens }

/-- The tokens, or the error that kept the scan from finding them all. -/
def toExcept (scan : Scan) : Except LexicalError (List Token) :=
  match scan.error? with
  | some e => .error e
  | none => .ok scan.tokens

end Scan

/-- The token that marks the end of the input. -/
def endAt (source : String) (here : Position) : Token :=
  ⟨.endOfInput, "", none, here.locate source⟩

/-- A lexeme as a token that starts at a position. -/
def Lexeme.token (source : String) (here : Position) (lexeme : Lexeme) : Token where
  kind := lexeme.kind
  lexeme := String.ofList lexeme.text
  value := lexeme.value.map String.ofList
  location := here.locate source

/-- The cause of a lexical error, for a lexeme that cannot be read. -/
def Lexeme.Failure.cause : Failure → LexicalError.Cause
  | invalidCharacter c => .invalidCharacter c
  | unterminatedString _ => .unterminatedString

/-- Scan a text that starts at a position of the source of that name. -/
def scanFrom (source : String) (here : Position) (text : List Char) : Scan :=
  match _ : Gap.ofText here text with
  | .unclosed opener stop =>
    ⟨[], stop, some ⟨.unterminatedComment, opener.locate source⟩⟩
  | .closed start [] => ⟨[endAt source start], start, none⟩
  | .closed start (c :: rest) =>
    match _ : Lexeme.read c rest with
    | .error failure =>
      ⟨[], start.after failure.consumed, some ⟨failure.cause, start.locate source⟩⟩
    | .ok lexeme =>
      .cons (lexeme.token source start)
        (scanFrom source (start.after lexeme.text) lexeme.rest)
termination_by text.length
decreasing_by
  rename_i hgap hread
  have whole := congrArg List.length (Lexeme.read_append hread)
  have found := List.length_pos_iff.mpr (Lexeme.text_ne_nil_of_read hread)
  have gap := Gap.length_le_of_ofText hgap
  simp only [List.length_append, List.length_cons] at whole gap
  omega

/-- Scan a whole text, the source of that name. -/
def scan (source text : String) : Scan :=
  scanFrom source Position.start text.toList

end Token
end Formula
