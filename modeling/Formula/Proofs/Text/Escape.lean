import Mathlib
import Formula.Proofs.Token.LiteralLanguage

/-! # Escapes are undone by reading

A text is written with its escapes in five passes, one for each kind of character.  No
pass meets what another has written, so all of it is done one character at a time
(`escape_eq_flatMap`), and a string literal stands for the text that it was written
from.
-/
namespace Formula
namespace Text

/-- One character as it is written between double quotes. -/
def escapeChar (c : Char) : List Char :=
  match escapes.find? fun entry => entry.2 == c with
  | some (letter, _) => ['\\', letter]
  | none => [c]

/-- A character is written as itself, or as a backslash and a letter that stands for
it. -/
theorem escapeChar_eq (c : Char) :
    (∃ letter, escapeChar c = ['\\', letter] ∧ unescape letter = c) ∨
      (escapeChar c = [c] ∧ c ≠ '"' ∧ c ≠ '\\') := by
  unfold escapeChar
  split
  · next letter d found =>
    refine .inl ⟨letter, rfl, ?_⟩
    have is_c := List.find?_some found
    have entry := List.mem_of_find?_eq_some found
    simp only [beq_iff_eq] at is_c
    simp only [escapes, List.mem_cons, Prod.mk.injEq, List.not_mem_nil, or_false] at entry
    subst is_c
    rcases entry with ⟨rfl, rfl⟩ | ⟨rfl, rfl⟩ | ⟨rfl, rfl⟩ | ⟨rfl, rfl⟩ | ⟨rfl, rfl⟩ <;> rfl
  · next missing =>
    simp only [escapes, List.find?_eq_none, List.mem_cons, List.not_mem_nil, or_false,
      forall_eq_or_imp, forall_eq, beq_iff_eq] at missing
    obtain ⟨backslash, quote, -⟩ := missing
    exact .inr ⟨rfl, fun h => quote h.symm, fun h => backslash h.symm⟩

theorem escape_append (s t : List Char) : escape (s ++ t) = escape s ++ escape t := by
  simp only [escape, escapes, escapeOne, List.foldl_cons, List.foldl_nil, List.flatMap_append]

theorem escape_singleton (c : Char) : escape [c] = escapeChar c := by
  by_cases special : c = '\\' ∨ c = '"' ∨ c = '\n' ∨ c = '\t' ∨ c = '\r'
  -- What one pass writes for a special character, the later passes leave alone.
  · rcases special with rfl | rfl | rfl | rfl | rfl <;> decide
  · simp only [not_or] at special
    obtain ⟨backslash, quote, feed, tab, carriage⟩ := special
    have missing : escapes.find? (fun entry => entry.2 == c) = none := by
      simp [escapes, Ne.symm backslash, Ne.symm quote, Ne.symm feed, Ne.symm tab,
        Ne.symm carriage]
    have written : escapeChar c = [c] := by simp only [escapeChar, missing]
    rw [written]
    simp [escape, escapes, escapeOne, backslash, quote, feed, tab, carriage]

/-- Escapes are written one character at a time. -/
theorem escape_eq_flatMap (text : List Char) : escape text = text.flatMap escapeChar := by
  induction text with
  | nil => rfl
  | cons c text ih =>
    rw [← List.singleton_append, escape_append, escape_singleton, ih, List.flatMap_append,
      List.flatMap_singleton]

end Text

namespace Token

/-- A text that is written with its escapes stands for the text that it was written
from. -/
theorem denotes_escape (text : List Char) : Denotes (Text.escape text) text := by
  rw [Text.escape_eq_flatMap]
  induction text with
  | nil => exact .nil
  | cons c text ih =>
    rw [List.flatMap_cons]
    rcases Text.escapeChar_eq c with ⟨letter, written, stands⟩ | ⟨written, quote, backslash⟩
    · rw [written]
      exact stands ▸ ih.pair letter
    · rw [written]
      exact .plain quote backslash ih

/-- A string literal that was written with its escapes is read as the text that it was
written from. -/
theorem Literal.body_escape (text rest : List Char) :
    body (Text.escape text ++ '"' :: rest) = .closed (Text.escape text) text rest :=
  (denotes_escape text).body_append rest

end Token
end Formula
