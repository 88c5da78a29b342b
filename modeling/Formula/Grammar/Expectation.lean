import Formula.Token.Kind

/-! # Expectations

Where a rule cannot go on it says what it would have needed: an expression, a
comma, or the end of the brackets that it is in.
-/
namespace Formula
namespace Grammar

/-- What ends a bracketed part of a formula. -/
inductive Closer
  | paren
  | bracket
  /-- Two closing brackets without a gap between them. -/
  | doubleBracket
  | brace
deriving DecidableEq

/-- The kind of the token, or of both tokens, that a closer consists of. -/
def Closer.kind : Closer → Token.Kind
  | paren => .rightParen
  | bracket | doubleBracket => .rightBracket
  | brace => .rightBrace

/-- Something that was needed at a place. -/
inductive Expectation
  | expression
  | comma
  | closer (closer : Closer)
deriving DecidableEq

/-- The text of an expectation in a report. -/
def Expectation.text : Expectation → String
  | expression => "expression"
  | comma => Token.Kind.comma.description
  | closer .doubleBracket => "']]'"
  | closer c => c.kind.description

/-- All expectations, in the order of their texts. -/
def Expectation.all : List Expectation :=
  [closer .paren, comma, closer .bracket, closer .doubleBracket, closer .brace,
    expression]

/-- A set of expectations. -/
structure Expectations where
  expression : Bool := false
  comma : Bool := false
  paren : Bool := false
  bracket : Bool := false
  doubleBracket : Bool := false
  brace : Bool := false
deriving DecidableEq

namespace Expectations

/-- The empty set. -/
def empty : Expectations := {}

/-- Whether an expectation is in a set. -/
def contains (s : Expectations) : Expectation → Bool
  | .expression => s.expression
  | .comma => s.comma
  | .closer .paren => s.paren
  | .closer .bracket => s.bracket
  | .closer .doubleBracket => s.doubleBracket
  | .closer .brace => s.brace

/-- A set with one more expectation. -/
def insert (s : Expectations) : Expectation → Expectations
  | .expression => { s with expression := true }
  | .comma => { s with comma := true }
  | .closer .paren => { s with paren := true }
  | .closer .bracket => { s with bracket := true }
  | .closer .doubleBracket => { s with doubleBracket := true }
  | .closer .brace => { s with brace := true }

/-- The expectations in a set, in the order of their texts. -/
def toList (s : Expectations) : List Expectation :=
  Expectation.all.filter s.contains

/-- The texts of the expectations in a set, in their order. -/
def texts (s : Expectations) : List String :=
  s.toList.map Expectation.text

theorem contains_empty (e : Expectation) : empty.contains e = false := by
  rcases e with _ | _ | (_ | _ | _ | _) <;> rfl

theorem contains_insert (s : Expectations) (a b : Expectation) :
    (s.insert a).contains b = (decide (a = b) || s.contains b) := by
  rcases a with _ | _ | (_ | _ | _ | _) <;> rcases b with _ | _ | (_ | _ | _ | _) <;> rfl

/-- Sets with the same expectations are equal. -/
theorem ext {s t : Expectations} (h : ∀ e, s.contains e = t.contains e) : s = t := by
  cases s
  cases t
  simp only [mk.injEq]
  exact ⟨h .expression, h .comma, h (.closer .paren), h (.closer .bracket),
    h (.closer .doubleBracket), h (.closer .brace)⟩

theorem mem_toList {s : Expectations} {e : Expectation} :
    e ∈ s.toList ↔ s.contains e = true := by
  simp only [toList, List.mem_filter, and_iff_right_iff_imp]
  intro _
  rcases e with _ | _ | (_ | _ | _ | _) <;> decide

end Expectations
end Grammar
end Formula
