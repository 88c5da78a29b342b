import Formula.Source.Position
import Formula.Text.Debug

/-! # Locations

A location is a place in a named source, as a report shows it.  The numbers of a
location made by reading a text are those of a `Position`; a location may also
be given from outside, and then its numbers are whatever the giver says.
-/
namespace Formula

/-- A place in a named source. -/
structure Location where
  source : String
  line : Int
  column : Int
  offset : Int
deriving DecidableEq

/-- A position of a text as a location in the source of that name. -/
def Position.locate (here : Position) (source : String) : Location :=
  ⟨source, here.line, here.column, here.offset⟩

namespace Location

/-- The name under which a source is reported: what follows the last slash of
its name, or the whole name when nothing follows. -/
def label (l : Location) : String :=
  let base := (l.source.toList.reverse.takeWhile (· ≠ '/')).reverse
  if base.isEmpty then l.source else String.ofList base

/-- Source, line and column, divided by colons. -/
def display (l : Location) : String :=
  l.source ++ ":" ++ toString l.line ++ ":" ++ toString l.column

/-- The debug form of a location, which shows all four fields. -/
def debug (l : Location) : String :=
  "SourceLocation(" ++ Text.debug l.source ++ ", " ++ toString l.line ++ ", " ++
    toString l.column ++ ", " ++ toString l.offset ++ ")"

end Location
end Formula
