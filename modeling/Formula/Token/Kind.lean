/-! # Kinds of tokens

A text is read as numbers, strings, identifiers and punctuation, and one more
token marks the end of the input.  The kinds of punctuation have a fixed
lexeme each.
-/
namespace Formula
namespace Token

/-- The kinds of tokens. -/
inductive Kind
  | endOfInput
  | number
  | string
  | identifier
  | plus
  | minus
  | times
  | divide
  | power
  | equal
  | notEqual
  | less
  | greater
  | and
  | or
  | not
  | span
  | leftParen
  | rightParen
  | leftBracket
  | rightBracket
  | leftBrace
  | rightBrace
  | comma
deriving DecidableEq

namespace Kind

/-- All kinds, in their order. -/
def all : List Kind :=
  [endOfInput, number, string, identifier, plus, minus, times, divide, power,
    equal, notEqual, less, greater, and, or, not, span, leftParen, rightParen,
    leftBracket, rightBracket, leftBrace, rightBrace, comma]

/-- The place of a kind in that order, counted from one. -/
def ordinal (kind : Kind) : Nat :=
  all.idxOf kind + 1

/-- The name of a kind in the debug form of tokens. -/
def name : Kind → String
  | endOfInput => "EOF"
  | number => "NUMBER"
  | string => "STRING"
  | identifier => "IDENTIFIER"
  | plus => "PLUS"
  | minus => "MINUS"
  | times => "MULTIPLY"
  | divide => "DIVIDE"
  | power => "POWER"
  | equal => "EQUAL"
  | notEqual => "NOT_EQUAL"
  | less => "LESS_THAN"
  | greater => "GREATER_THAN"
  | and => "LOGICAL_AND"
  | or => "LOGICAL_OR"
  | not => "LOGICAL_NOT"
  | span => "SPAN"
  | leftParen => "LEFT_PAREN"
  | rightParen => "RIGHT_PAREN"
  | leftBracket => "LEFT_BRACKET"
  | rightBracket => "RIGHT_BRACKET"
  | leftBrace => "LEFT_BRACE"
  | rightBrace => "RIGHT_BRACE"
  | comma => "COMMA"

/-- The kind of that name. -/
def ofName? (name : String) : Option Kind :=
  all.find? fun kind => kind.name == name

/-- The fixed lexeme of a kind of punctuation. -/
def lexeme? : Kind → Option String
  | endOfInput | number | string | identifier => none
  | plus => "+"
  | minus => "-"
  | times => "*"
  | divide => "/"
  | power => "^"
  | equal => "=="
  | notEqual => "!="
  | less => "<"
  | greater => ">"
  | and => "&&"
  | or => "||"
  | not => "!"
  | span => ";;"
  | leftParen => "("
  | rightParen => ")"
  | leftBracket => "["
  | rightBracket => "]"
  | leftBrace => "\x7b"
  | rightBrace => "\x7d"
  | comma => ","

/-- What a report calls a token of this kind that it wants to see. -/
def description : Kind → String
  | endOfInput => "end of input"
  | number => "number"
  | string => "string"
  | identifier => "identifier"
  | kind => "'" ++ kind.lexeme?.getD "" ++ "'"

/-- No kind is missing from the list of all kinds. -/
theorem mem_all (kind : Kind) : kind ∈ all := by
  cases kind <;> decide

/-- A kind is found again by its name. -/
theorem ofName?_name (kind : Kind) : ofName? kind.name = some kind := by
  cases kind <;> decide +kernel

end Kind
end Token
end Formula
