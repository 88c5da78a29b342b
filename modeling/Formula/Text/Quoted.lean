/-! # Quoted text

A text is written between double quotes, and five characters are written as a
backslash and a letter: the backslash, the double quote, the line feed, the tab
and the carriage return.  Reading is more generous than writing: after a
backslash every character is allowed, and one without a meaning of its own
stands for itself.
-/
namespace Formula
namespace Text

/-- The escapes: the letter written after the backslash, and the character it
stands for.  The backslash comes first, because `escape` works down this list
and must not meet the backslashes that later entries write. -/
def escapes : List (Char × Char) :=
  [('\\', '\\'), ('"', '"'), ('n', '\n'), ('t', '\t'), ('r', '\r')]

/-- The character that a backslash and the letter `c` stand for. -/
def unescape (c : Char) : Char :=
  (escapes.lookup c).getD c

/-- Write every `c` of a text as a backslash and `letter`. -/
def escapeOne (letter c : Char) (text : List Char) : List Char :=
  text.flatMap fun d => if d = c then ['\\', letter] else [d]

/-- Write all five characters of a text with their escapes, one kind after the
other. -/
def escape (text : List Char) : List Char :=
  escapes.foldl (fun text (letter, c) => escapeOne letter c text) text

/-- A text between double quotes, with its escapes. -/
def quote (text : String) : String :=
  "\"" ++ String.ofList (escape text.toList) ++ "\""

end Text
end Formula
