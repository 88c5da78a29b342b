import Formula.Text.Quoted

/-! # String literals

A string literal ends at the first double quote that no backslash escapes.
-/
namespace Formula
namespace Token
namespace Literal

/-- What stands behind the opening quote of a string literal. -/
inductive Body
  /-- The literal ends: `raw` is its text up to the closing quote, `value` is
  what that text stands for, and `rest` follows the closing quote. -/
  | closed (raw value rest : List Char)
  /-- The text ends first.  `raw` is what was read of it, which is everything
  but a backslash at the very end. -/
  | unclosed (raw : List Char)

/-- Put a piece of text that stands for `c` in front of a body. -/
def Body.cons (piece : List Char) (c : Char) : Body → Body
  | closed raw value rest => closed (piece ++ raw) (c :: value) rest
  | unclosed raw => unclosed (piece ++ raw)

/-- Read the body of a string literal. -/
def body : List Char → Body
  | [] => .unclosed []
  | '"' :: rest => .closed [] [] rest
  | '\\' :: [] => .unclosed []
  | '\\' :: c :: rest => (body rest).cons ['\\', c] (Text.unescape c)
  | c :: rest => (body rest).cons [c] c

theorem Body.cons_eq_closed {piece raw value rest : List Char} {c : Char} {b : Body}
    (h : b.cons piece c = closed raw value rest) :
    ∃ raw' value', b = closed raw' value' rest ∧ raw = piece ++ raw' ∧
      value = c :: value' := by
  cases b with
  | closed raw' value' rest' =>
    simp only [cons, closed.injEq] at h
    obtain ⟨rfl, rfl, rfl⟩ := h
    exact ⟨raw', value', rfl, rfl, rfl⟩
  | unclosed raw' => simp [cons] at h

/-- Nothing is lost: the text is the literal's own text, its closing quote and
the rest. -/
theorem body_append {text raw value rest : List Char}
    (h : body text = .closed raw value rest) : raw ++ '"' :: rest = text := by
  fun_induction body text generalizing raw value with
  | case1 => simp at h
  | case2 rest' =>
    simp only [Body.closed.injEq] at h
    obtain ⟨rfl, -, rfl⟩ := h
    rfl
  | case3 => simp at h
  | case4 c rest' ih =>
    obtain ⟨raw', value', hb, rfl, -⟩ := Body.cons_eq_closed h
    simp [ih hb]
  | case5 c rest' _ _ _ ih =>
    obtain ⟨raw', value', hb, rfl, -⟩ := Body.cons_eq_closed h
    simp [ih hb]

end Literal
end Token
end Formula
