import Formula.Token.Literal
import Formula.Token.Numeral
import Formula.Token.Punctuation

/-! # Lexemes

A lexeme is the longest token at the start of a text.  Its first character tells
which kind of token it is: a number, an identifier, a string, or punctuation.
-/
namespace Formula
namespace Token

/-- A token at the start of a text, and what the text leaves behind it. -/
structure Lexeme where
  kind : Kind
  text : List Char
  value : Option (List Char)
  rest : List Char

namespace Lexeme

/-- Why no token starts a text. -/
inductive Failure
  /-- The first character starts no token. -/
  | invalidCharacter (c : Char)
  /-- A string literal has no closing quote; `consumed` was read of it. -/
  | unterminatedString (consumed : List Char)

/-- What was read before the failure. -/
def Failure.consumed : Failure → List Char
  | invalidCharacter _ => []
  | unterminatedString consumed => consumed

/-- The lexeme of a name or a number, which stands for itself. -/
def plain (kind : Kind) : List Char × List Char → Lexeme
  | (text, rest) => ⟨kind, text, some text, rest⟩

/-- Split off the letters and digits at the start of a text. -/
def splitName (text : List Char) : List Char × List Char :=
  (text.takeWhile Char.isAlphanum, text.dropWhile Char.isAlphanum)

/-- Read the lexeme that starts with the character `c`, in front of `rest`. -/
def read (c : Char) (rest : List Char) : Except Failure Lexeme :=
  if Numeral.startsWith c rest then .ok (plain .number (Numeral.split (c :: rest)))
  else if c.isAlpha then .ok (plain .identifier (splitName (c :: rest)))
  else if c = '"' then
    match Literal.body rest with
    | .closed raw value rest => .ok ⟨.string, c :: raw ++ ['"'], some value, rest⟩
    | .unclosed raw => .error (.unterminatedString (c :: raw))
  else
    match Punctuation.split? (c :: rest) with
    | some (kind, lexeme, rest) => .ok ⟨kind, lexeme, none, rest⟩
    | none => .error (.invalidCharacter c)

/-- Nothing is lost by reading a lexeme. -/
theorem read_append {c : Char} {rest : List Char} {lexeme : Lexeme}
    (h : read c rest = .ok lexeme) : lexeme.text ++ lexeme.rest = c :: rest := by
  unfold read at h
  split at h
  · cases h
    exact Numeral.split_append (c :: rest)
  · split at h
    · cases h
      exact List.takeWhile_append_dropWhile
    · split at h
      · next hc =>
        split at h
        · next raw value behind hb =>
          cases h
          simp [Literal.body_append hb]
        · cases h
      · split at h
        · next kind text behind hs =>
          cases h
          exact (Punctuation.split?_append hs).2.1
        · cases h

/-- A lexeme is not empty. -/
theorem text_ne_nil_of_read {c : Char} {rest : List Char} {lexeme : Lexeme}
    (h : read c rest = .ok lexeme) : lexeme.text ≠ [] := by
  unfold read at h
  split at h
  · next start =>
    cases h
    exact Numeral.split_ne_nil start
  · split at h
    · next letter =>
      cases h
      have : c.isAlphanum = true := by simp [Char.isAlphanum, letter]
      simp [plain, splitName, this]
    · split at h
      · split at h <;> cases h
        exact List.cons_ne_nil _ _
      · split at h
        · next hs =>
          cases h
          exact (Punctuation.split?_append hs).1
        · cases h

end Lexeme
end Token
end Formula
