import Formula.Token.Kind

/-! # Punctuation

The lexemes of the operators and delimiters.  Where one lexeme starts another
(`!` and `!=`) the longer one is read.
-/
namespace Formula
namespace Token
namespace Punctuation

/-- The kind whose lexeme is these two characters. -/
def pair? : Char → Char → Option Kind
  | '&', '&' => some .and
  | '|', '|' => some .or
  | '=', '=' => some .equal
  | '!', '=' => some .notEqual
  | ';', ';' => some .span
  | _, _ => none

/-- The kind whose lexeme is this one character. -/
def single? : Char → Option Kind
  | '+' => some .plus
  | '-' => some .minus
  | '*' => some .times
  | '/' => some .divide
  | '^' => some .power
  | '<' => some .less
  | '>' => some .greater
  | '!' => some .not
  | '(' => some .leftParen
  | ')' => some .rightParen
  | '[' => some .leftBracket
  | ']' => some .rightBracket
  | '\x7b' => some .leftBrace
  | '\x7d' => some .rightBrace
  | ',' => some .comma
  | _ => none

/-- The punctuation at the start of a text: its kind, its lexeme and the
rest. -/
def split? : List Char → Option (Kind × List Char × List Char)
  | [] => none
  | [c] => (single? c).map fun kind => (kind, [c], [])
  | c :: d :: rest =>
    match pair? c d with
    | some kind => some (kind, [c, d], rest)
    | none => (single? c).map fun kind => (kind, [c], d :: rest)

/-- Two characters are read as the kind that has them as its lexeme. -/
theorem lexeme?_of_pair? {c d : Char} {kind : Kind} (h : pair? c d = some kind) :
    kind.lexeme? = some (String.ofList [c, d]) := by
  unfold pair? at h
  split at h <;> cases h <;> rfl

/-- One character is read as the kind that has it as its lexeme. -/
theorem lexeme?_of_single? {c : Char} {kind : Kind} (h : single? c = some kind) :
    kind.lexeme? = some (String.ofList [c]) := by
  unfold single? at h
  split at h <;> cases h <;> rfl

/-- Nothing is lost, and the lexeme is that of its kind. -/
theorem split?_append {text lexeme rest : List Char} {kind : Kind}
    (h : split? text = some (kind, lexeme, rest)) :
    lexeme ≠ [] ∧ lexeme ++ rest = text ∧
      kind.lexeme? = some (String.ofList lexeme) := by
  unfold split? at h
  split at h
  · cases h
  · next c =>
    obtain ⟨k, hk, he⟩ := Option.map_eq_some_iff.mp h
    cases he
    exact ⟨List.cons_ne_nil _ _, rfl, lexeme?_of_single? hk⟩
  · next c d rest' =>
    split at h
    · next k hk =>
      cases h
      exact ⟨List.cons_ne_nil _ _, rfl, lexeme?_of_pair? hk⟩
    · obtain ⟨k, hk, he⟩ := Option.map_eq_some_iff.mp h
      cases he
      exact ⟨List.cons_ne_nil _ _, rfl, lexeme?_of_single? hk⟩

end Punctuation
end Token
end Formula
