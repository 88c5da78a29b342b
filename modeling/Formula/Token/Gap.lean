import Formula.Source.Position
import Formula.Text.Blank

/-! # Gaps between tokens

Between two tokens there may be blank characters and comments.  A comment runs
from `(*` to the matching `*)`, and comments nest.

`Gap.skip` walks over a gap with a counter of open comments.  The counter is
zero outside of comments, and only there a character that is not blank ends the
gap.
-/
namespace Formula
namespace Token

/-- What lies behind a gap. -/
inductive Gap
  /-- The gap ends at `stop`, where `rest` is left of the text. -/
  | closed (stop : Position) (rest : List Char)
  /-- The text ends at `stop`, inside the comment that opens at `opener`. -/
  | unclosed (opener stop : Position)

namespace Gap

/-- Walk over a gap.  `depth` comments are open, and the outermost of them opens
at `opener`. -/
def skip (opener : Position) : Nat → Position → List Char → Gap
  | 0, here, [] => closed here []
  | _ + 1, here, [] => unclosed opener here
  | 0, here, '(' :: '*' :: rest => skip here 1 (here.after ['(', '*']) rest
  | depth + 1, here, '(' :: '*' :: rest =>
    skip opener (depth + 2) (here.after ['(', '*']) rest
  | depth + 1, here, '*' :: ')' :: rest =>
    skip opener depth (here.after ['*', ')']) rest
  | depth + 1, here, c :: rest => skip opener (depth + 1) (here.next c) rest
  | 0, here, c :: rest =>
    if Text.isBlank c then skip opener 0 (here.next c) rest
    else closed here (c :: rest)

/-- The gap that starts at a position. -/
def ofText (here : Position) (text : List Char) : Gap :=
  skip here 0 here text

/-- A gap leaves at most the text it was found in. -/
theorem length_le_of_skip {opener : Position} {depth : Nat} {here stop : Position}
    {text rest : List Char} (h : skip opener depth here text = closed stop rest) :
    rest.length ≤ text.length := by
  fun_induction skip opener depth here text <;> grind

/-- A gap leaves at most the text it was found in. -/
theorem length_le_of_ofText {here stop : Position} {text rest : List Char}
    (h : ofText here text = closed stop rest) : rest.length ≤ text.length :=
  length_le_of_skip h

end Gap
end Token
end Formula
