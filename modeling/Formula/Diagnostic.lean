import Formula.Source.Location

/-! # Diagnostics

A diagnostic reports one failure: what went wrong and where, the line of source
around that place, and advice if there is any.  It is shown as a header, an
empty line, the line of source, and a caret below the place.
-/
namespace Formula

/-- A report of one failure. -/
structure Diagnostic where
  message : String
  location : Location
  code : Option String
  help : Option String
  sourceLine : String
deriving DecidableEq

namespace Diagnostic

/-- Where the failure is, and what it is. -/
def header (d : Diagnostic) : String :=
  d.location.label ++ ":" ++ toString d.location.line ++ ":" ++
    toString d.location.column ++ " failure: " ++ d.message

/-- The caret below a column of the source line. -/
def caret (column : Int) : String :=
  String.ofList (List.replicate (column - 1).toNat ' ') ++ "^"

/-- The text of a diagnostic without the advice. -/
def render (d : Diagnostic) : String :=
  d.header ++ "\n\n" ++ d.sourceLine ++ "\n" ++ caret d.location.column

/-- The text of a diagnostic with the advice, if there is any. -/
def renderHelp (d : Diagnostic) : String :=
  match d.help with
  | some help => if help.isEmpty then d.render else d.render ++ "\n  help: " ++ help
  | none => d.render

end Diagnostic
end Formula
