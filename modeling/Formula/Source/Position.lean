/-! # Positions in a text

A position counts the characters before it and names its line and column.  Only
a line feed ends a line.
-/
namespace Formula

/-- A position between two characters of a text: how many characters precede
it, and its line and column, both counted from one. -/
structure Position where
  offset : Nat
  line : Nat
  column : Nat
deriving DecidableEq

namespace Position

/-- The position before the first character. -/
def start : Position := ⟨0, 1, 1⟩

/-- The position after the character `c`. -/
def next (here : Position) (c : Char) : Position :=
  if c = '\n' then ⟨here.offset + 1, here.line + 1, 1⟩
  else ⟨here.offset + 1, here.line, here.column + 1⟩

/-- The position after a whole text. -/
def after (here : Position) (text : List Char) : Position :=
  text.foldl next here

@[simp] theorem after_nil (here : Position) : here.after [] = here := rfl

@[simp] theorem after_cons (here : Position) (c : Char) (text : List Char) :
    here.after (c :: text) = (here.next c).after text := rfl

theorem after_append (here : Position) (s t : List Char) :
    here.after (s ++ t) = (here.after s).after t :=
  List.foldl_append ..

@[simp] theorem offset_next (here : Position) (c : Char) :
    (here.next c).offset = here.offset + 1 := by
  unfold next
  split <;> rfl

@[simp] theorem offset_after (here : Position) (text : List Char) :
    (here.after text).offset = here.offset + text.length := by
  induction text generalizing here with
  | nil => rfl
  | cons c text ih => rw [after_cons, ih, offset_next, List.length_cons]; omega

end Position
end Formula
