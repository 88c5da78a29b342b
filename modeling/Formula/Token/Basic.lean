import Formula.Source.Location
import Formula.Token.Kind

/-! # Tokens

A token keeps the piece of text it was read from, the text it stands for, and
the place where it starts.
-/
namespace Formula

/-- A token.  `lexeme` is the piece of text it was read from.  `value` is what
a number, a string or an identifier stands for; punctuation has none. -/
structure Token where
  kind : Token.Kind
  lexeme : String
  value : Option String
  location : Location
deriving DecidableEq

namespace Token

/-- The offset just behind the lexeme. -/
def endOffset (t : Token) : Int :=
  t.location.offset + t.lexeme.length

/-- What a report calls this token. -/
def describe (t : Token) : String :=
  match t.kind with
  | .endOfInput => "end of input"
  | _ => "'" ++ t.lexeme ++ "'"

/-- The kind and the lexeme of a token, and its value where it is another
text. -/
def display (t : Token) : String :=
  let shown := match t.value with
    | some value =>
      if value = t.lexeme then Text.debug t.lexeme
      else Text.debug t.lexeme ++ " -> " ++ Text.debug value
    | none => Text.debug t.lexeme
  t.kind.name ++ "(" ++ shown ++ ")"

/-- The debug form of a token, which shows all its fields. -/
def debug (t : Token) : String :=
  "Token(" ++ t.kind.name ++ ", " ++ Text.debug t.lexeme ++ ", " ++
    (t.value.map Text.debug).getD "None" ++ ", " ++ t.location.debug ++ ")"

end Token
end Formula
