import Formula.Proofs.Grammar.SideBySide

/-! # How a rule ends

A parse is *calm* as long as nothing was needed and missing beyond the cursor.  Only
then rules are applied: once the cursor has gone back to before the furthest failure,
it stands in front of a token that no rule at work can take in, and all of them come
to an end one after the other.  So every rule that is applied is *ready*: whatever is
remembered is of places before the cursor, or of looser rules at the cursor.

`Outcome` says how a rule ends that was ready.  It read an expression, which the
reference grammar derives, and either all is calm behind it or the next token cannot
follow (`Standing`).  Or it does not apply (`Refused`): either it found nothing that
it could start with, or it got stuck inside.
-/
namespace Formula
namespace Grammar

/-! ## What is remembered -/

/-- Whatever is remembered is of a place before `place`, or of a rule at `place` with
a lower number. -/
def Memo.Before (memo : Memo) (place number : Nat) : Prop :=
  ∀ rule p, memo.find? rule p ≠ none → p < place ∨ (p = place ∧ rule.index < number)

namespace Memo.Before
variable {memo : Memo} {place other number more : Nat}

theorem empty : Memo.empty.Before place number := by
  intro rule p h
  exact absurd (find?_empty rule p) h

theorem of_lt (h : memo.Before place number) (hlt : place < other) :
    memo.Before other more := by
  intro rule p hp
  rcases h rule p hp with hp | ⟨rfl, -⟩
  · exact .inl (Nat.lt_trans hp hlt)
  · exact .inl hlt

theorem of_le (h : memo.Before place number) (hle : number ≤ more) :
    memo.Before place more := by
  intro rule p hp
  rcases h rule p hp with hp | ⟨rfl, hr⟩
  · exact .inl hp
  · exact .inr ⟨rfl, Nat.lt_of_lt_of_le hr hle⟩

theorem store {rule : Rule} {p : Nat} {entry : Entry} (h : memo.Before place number)
    (hp : p < place ∨ (p = place ∧ rule.index < number)) :
    (memo.store rule p entry).Before place number := by
  intro r q hq
  rw [find?_store] at hq
  split at hq
  · next same =>
    obtain ⟨rfl, rfl⟩ := same
    exact hp
  · exact h r q hq

/-- A rule that comes later has not been applied. -/
theorem find?_eq_none {rule : Rule} (h : memo.Before place rule.index) :
    memo.find? rule place = none := by
  cases found : memo.find? rule place with
  | none => rfl
  | some entry =>
    rcases h rule place (by simp [found]) with hlt | ⟨-, hlt⟩
    · exact absurd hlt (Nat.lt_irrefl _)
    · exact absurd hlt (Nat.lt_irrefl _)

end Memo.Before

/-! ## Before a rule -/

/-- The kind of the token that a rule for brackets has to open with. -/
def Rule.opener? : Rule → Option Token.Kind
  | group => some .leftParen
  | list => some .leftBrace
  | application => some .identifier
  | _ => none

/-- The token that a rule has to open with stands at a place. -/
def Input.Opens (input : Input) (rule : Rule) (place : Nat) : Prop :=
  ∀ kind, rule.opener? = some kind → input.kindAt place = some kind

/-- A rule is applied behind a place, or at the place and then with a number from another one
on. -/
def Rule.Later (place number : Nat) (rule : Rule) (p : Nat) : Prop :=
  place < p ∨ place = p ∧ number ≤ rule.index

/-- Nothing was needed and missing beyond the cursor, and nothing is remembered of
places beyond it. -/
structure State.Calm (s : State) : Prop where
  furthest_le : s.furthest ≤ s.current
  before : s.memo.Before s.current Rule.count

/-- A rule can be applied at the cursor: all is calm, neither it nor a tighter rule
was applied there before, and a rule for brackets stands in front of them. -/
structure Ready (input : Input) (rule : Rule) (s : State) : Prop where
  furthest_le : s.furthest ≤ s.current
  before : s.memo.Before s.current rule.index
  opening : ∀ kind, rule.opener? = some kind → input.kindAt s.current = some kind

/-- A rule is at work at the cursor and has not done anything. -/
structure Entered (input : Input) (rule : Rule) (s : State) : Prop where
  furthest_le : s.furthest ≤ s.current
  before : s.memo.Before s.current (rule.index + 1)
  opening : ∀ kind, rule.opener? = some kind → input.kindAt s.current = some kind

/-! ## Behind a rule -/

/-- How far the numbers of rules go that may be remembered of the place behind what a
rule read.  A span may have tried an operand there.  Where products go on without a
sign, no rule was tried. -/
def Rule.slack (rule : Rule) : Nat :=
  if rule.index < unary.index then count else 0

/-- The state behind what a rule read: all is calm, or the rule went back to before a
failure, and the next token cannot follow. -/
def Standing (input : Input) (rule : Rule) (s : State) : Prop :=
  (s.furthest ≤ s.current ∧ s.memo.Before s.current rule.slack) ∨
    (s.current < s.furthest ∧ ¬ input.FollowsAt rule s.current)

/-- A rule does not apply.  Either it found nothing to start with, which is recorded,
or it got stuck.  A rule for brackets has its opener at least, and an application
does not apply to a name without arguments. -/
def Refused (input : Input) (rule : Rule) (s t : State) : Prop :=
  match rule.opener? with
  | none =>
    (t.furthest = s.current ∧ t.memo.Before s.current Rule.count) ∨
      (s.current < t.furthest ∧ input.StartsAt rule s.current)
  | some .identifier =>
    (t.furthest ≤ s.current ∧ t.memo.Before s.current Rule.count) ∨
      (s.current + 1 < t.furthest ∧ input.OpensArguments (s.current + 1))
  | some _ => s.current < t.furthest

/-- How a rule ends that was applied in state `s`. -/
def Outcome (input : Input) (rule : Rule) (s : State) : Option Expr → State → Prop
  | some e, t => Derives input (.rule rule) s.current t.current e ∧ Standing input rule t
  | none, t => Refused input rule s t

/-- How the loop of a level ends that goes on from state `s`, behind `left`. -/
def Continued (input : Input) (level : Rule) (left : Expr) (s : State) (e : Expr) (t : State) :
    Prop :=
  Derives input (.after level left) s.current t.current e ∧ Standing input level t

/-- Two ways to apply rules run side by side. -/
def Calls (input : Input) (call₁ call₂ : Rule → ParseM (Option Expr)) : Prop :=
  ∀ rule s, Ready input rule s →
    SideBySide (call₁ rule) (call₂ rule) s
      fun r t => Outcome input rule s r t ∧ (r = none → t.current = s.current)

section Behind
variable {input : Input} {rule a b : Rule} {s t : State} {place : Nat}

theorem Rule.slack_le (rule : Rule) : rule.slack ≤ count := by
  unfold slack
  split <;> simp

theorem Rule.slack_mono (h : a.index ≤ b.index) : b.slack ≤ a.slack := by
  unfold slack
  split
  · exact Nat.le_of_eq (if_pos (Nat.lt_of_le_of_lt h ‹_›)).symm
  · exact Nat.zero_le _

theorem State.Calm.ready (calm : s.Calm) (hrule : rule.opener? = none)
    (h : s.current < place) : Ready input rule (s.moveTo place) where
  furthest_le := Nat.le_trans calm.furthest_le (Nat.le_of_lt h)
  before := calm.before.of_lt h
  opening := by simp [hrule]

theorem Ready.atDepth (ready : Ready input rule s) (depth : Nat) :
    Ready input rule (s.atDepth depth) :=
  ⟨ready.furthest_le, ready.before, ready.opening⟩

theorem Entered.calm (entered : Entered input rule s) : s.Calm where
  furthest_le := entered.furthest_le
  before := entered.before.of_le (Rule.index_lt_count rule)

/-- A rule at work may apply a tighter rule at once. -/
theorem Entered.ready (entered : Entered input a s) (h : a.index < b.index)
    (hb : ∀ kind, b.opener? = some kind → input.kindAt s.current = some kind) :
    Ready input b s where
  furthest_le := entered.furthest_le
  before := entered.before.of_le h
  opening := hb

theorem Standing.mono (standing : Standing input b s) (h : a.index ≤ b.index) :
    Standing input a s := by
  rcases standing with ⟨calm, before⟩ | ⟨failed, stuck⟩
  · exact .inl ⟨calm, before.of_le (Rule.slack_mono h)⟩
  · exact .inr ⟨failed, fun follow => stuck (follow.mono h)⟩

/-- Where the next token can follow, all is calm. -/
theorem Standing.calm (standing : Standing input rule s)
    (follow : input.FollowsAt rule s.current) : s.Calm := by
  rcases standing with ⟨calm, before⟩ | ⟨-, stuck⟩
  · exact ⟨calm, before.of_le rule.slack_le⟩
  · exact absurd follow stuck

/-- Behind factors, where the next token can follow, no rule was tried. -/
theorem Standing.ready (standing : Standing input a s) (ha : Rule.unary.index ≤ a.index)
    (follow : input.FollowsAt a s.current) (hb : b.opener? = none) : Ready input b s := by
  rcases standing with ⟨calm, before⟩ | ⟨-, stuck⟩
  -- So tight a rule has no slack: nothing at all is remembered of the place behind it.
  · refine ⟨calm, before.of_le ?_, by simp [hb]⟩
    rw [Rule.slack, if_neg (Nat.not_lt.mpr ha)]
    exact Nat.zero_le _
  · exact absurd follow stuck

/-- The cursor is back in front of a token that cannot follow. -/
theorem Standing.of_stuck (failed : place < s.furthest)
    (stuck : ¬ input.FollowsAt rule place) : Standing input rule (s.moveTo place) :=
  .inr ⟨failed, stuck⟩

theorem Standing.of_calm (calm : s.furthest ≤ s.current)
    (before : s.memo.Before s.current 0) : Standing input rule s :=
  .inl ⟨calm, before.of_le (Nat.zero_le _)⟩

/-- A loop may end where it starts. -/
theorem Standing.continued {left : Expr} (standing : Standing input b s) (h : a.index ≤ b.index) :
    Continued input a left s left s :=
  ⟨.stop, standing.mono h⟩

/-- A level reads its first operand and what its loop takes in behind it. -/
theorem Continued.outcome {left e : Expr} {u : State} (continued : Continued input a left t e u)
    (h : a.operand? = some b) (operand : Derives input (.rule b) s.current t.current left) :
    Outcome input a s (some e) u :=
  ⟨.level h operand continued.1, continued.2⟩

theorem refused_iff (hrule : rule.opener? = none) :
    Refused input rule s t ↔
      (t.furthest = s.current ∧ t.memo.Before s.current Rule.count) ∨
        (s.current < t.furthest ∧ input.StartsAt rule s.current) := by
  simp only [Refused, hrule]

/-- Wherever a rule does not apply, something was needed and missing there or
beyond. -/
theorem Outcome.le_furthest (outcome : Outcome input rule s none t)
    (hrule : rule.opener? = none) : s.current ≤ t.furthest := by
  rcases (refused_iff hrule).mp outcome with ⟨h, -⟩ | ⟨h, -⟩
  · exact Nat.le_of_eq h.symm
  · exact Nat.le_of_lt h

/-- A looser rule does not apply where its first operand does not. -/
theorem Outcome.of_none (outcome : Outcome input b s none t) (h : a.index ≤ b.index)
    (ha : a.opener? = none) (hb : b.opener? = none) : Outcome input a s none t := by
  refine (refused_iff ha).mpr ?_
  rcases (refused_iff hb).mp outcome with absent | ⟨failed, start⟩
  · exact .inl absent
  · exact .inr ⟨failed, start.mono h⟩

/-- A rule that took tokens before its operand is stuck where the operand does not
apply. -/
theorem Outcome.of_moved (outcome : Outcome input b (s.moveTo place) none t)
    (hplace : s.current < place) (start : input.StartsAt a s.current)
    (ha : a.opener? = none) (hb : b.opener? = none) : Outcome input a s none t :=
  (refused_iff ha).mpr (.inr ⟨Nat.lt_of_lt_of_le hplace (outcome.le_furthest hb), start⟩)

end Behind

end Grammar
end Formula
