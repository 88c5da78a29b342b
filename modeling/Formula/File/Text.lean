/-! # Text files

A text file holds UTF-8, and its lines may end in any of the usual three ways.
-/
namespace Formula

/-- Why a file cannot be read as text. -/
inductive FileError
  | notFound
  | isDirectory
  | notADirectory
  /-- The file cannot be opened for another reason. -/
  | unreadable (reason : String)
  /-- The file is not UTF-8. -/
  | undecodable
deriving DecidableEq

/-- What a report says of a file that cannot be opened. -/
def FileError.reason : FileError → String
  | notFound => "No such file or directory"
  | isDirectory => "Is a directory"
  | notADirectory => "Not a directory"
  | unreadable reason => reason
  | undecodable => "Not UTF-8"

namespace File

/-- A way to look up the content of a file by its path. -/
abbrev Lookup := String → Except FileError ByteArray

/-- A text with a line feed at the end of every line, where there was a carriage
return or both. -/
def unifyLines : List Char → List Char
  | [] => []
  | '\r' :: '\n' :: rest => '\n' :: unifyLines rest
  | '\r' :: rest => '\n' :: unifyLines rest
  | c :: rest => c :: unifyLines rest

/-- The text that the bytes of a file stand for. -/
def decode (bytes : ByteArray) : Except FileError String :=
  match String.fromUTF8? bytes with
  | some text => .ok (String.ofList (unifyLines text.toList))
  | none => .error .undecodable

/-- The text in the file at a path. -/
def readText (lookup : Lookup) (path : String) : Except FileError String := do
  decode (← lookup path)

/-- No carriage return is left. -/
theorem not_mem_unifyLines (text : List Char) : '\r' ∉ unifyLines text := by
  fun_induction unifyLines text <;> grind

end File
end Formula
