import Formula.Proofs.Grammar.SideBySide

/-! # What was missing, and steps that depend on their place only

A parse keeps the furthest place where something was needed and missing, with all that
was needed there: its *shortfall*.  A step adds its own shortfall to that of the state,
and adding is a join: it is associative, and what is added once more changes nothing.  So
it does not matter when, or how often, a failure is recorded.

`Steady m p a q f` says that a step `m`, wherever the cursor is at place `p`, gives `a`
with the cursor at `q`, and adds the shortfall `f`, whatever else the state holds.  Each
step that a rule is made of has its lemma here, for a dialect without a cap on open
brackets.
-/
namespace Formula
namespace Grammar

/-! ## Joins of expectations -/

/-- The expectations of two sets together. -/
def Expectations.union (s t : Expectations) : Expectations where
  expression := s.expression || t.expression
  comma := s.comma || t.comma
  paren := s.paren || t.paren
  bracket := s.bracket || t.bracket
  doubleBracket := s.doubleBracket || t.doubleBracket
  brace := s.brace || t.brace

namespace Expectations
variable (s t u : Expectations)

theorem contains_union (e : Expectation) :
    (s.union t).contains e = (s.contains e || t.contains e) := by
  rcases e with _ | _ | (_ | _ | _ | _) <;> rfl

theorem union_assoc : (s.union t).union u = s.union (t.union u) :=
  ext fun e => by simp only [contains_union, Bool.or_assoc]

theorem union_self : s.union s = s :=
  ext fun e => by simp only [contains_union, Bool.or_self]

theorem union_empty : s.union empty = s :=
  ext fun e => by simp only [contains_union, contains_empty, Bool.or_false]

theorem empty_union : empty.union s = s :=
  ext fun e => by simp only [contains_union, contains_empty, Bool.false_or]

/-- One more expectation is the union with it alone. -/
theorem union_insert_empty (e : Expectation) : s.union (empty.insert e) = s.insert e :=
  ext fun x => by
    rw [contains_union, contains_insert, contains_insert, contains_empty, Bool.or_false,
      Bool.or_comm]

end Expectations

/-! ## Shortfalls -/

/-- The furthest place where something was needed and missing, with all that was needed
there. -/
structure Shortfall where
  place : Nat
  needed : Expectations

namespace Shortfall

/-- Nothing was missing. -/
def none : Shortfall := ⟨0, .empty⟩

/-- One thing was missing. -/
def single (place : Nat) (e : Expectation) : Shortfall := ⟨place, Expectations.empty.insert e⟩

/-- What was missing in one or the other: the further place counts, and at one place all
that was needed in either. -/
def join (f g : Shortfall) : Shortfall :=
  if f.place < g.place then g
  else if g.place < f.place then f
  else ⟨f.place, f.needed.union g.needed⟩

variable (f g h : Shortfall)

@[simp] theorem place_join : (f.join g).place = max f.place g.place := by
  unfold join
  split
  · exact (Nat.max_eq_right (Nat.le_of_lt ‹_›)).symm
  · split
    · exact (Nat.max_eq_left (Nat.le_of_lt ‹_›)).symm
    · exact (Nat.max_eq_left (Nat.not_lt.mp ‹_›)).symm

theorem join_of_lt (lt : f.place < g.place) : f.join g = g :=
  if_pos lt

theorem join_of_gt (gt : g.place < f.place) : f.join g = f := by
  rw [join, if_neg (Nat.not_lt_of_gt gt), if_pos gt]

theorem join_of_eq (eq : f.place = g.place) : f.join g = ⟨f.place, f.needed.union g.needed⟩ := by
  rw [join, if_neg (by omega), if_neg (by omega)]

theorem join_self : f.join f = f := by
  rw [join_of_eq f f rfl, Expectations.union_self]

theorem join_none : f.join none = f := by
  by_cases start : f.place = 0
  · rw [join_of_eq f none start]
    exact congrArg (Shortfall.mk f.place) (Expectations.union_empty f.needed)
  · exact join_of_gt f none (Nat.pos_of_ne_zero start)

theorem none_join : none.join f = f := by
  by_cases start : 0 = f.place
  · rw [join_of_eq none f start]
    cases f
    cases start
    exact congrArg (Shortfall.mk 0) (Expectations.empty_union _)
  · exact join_of_lt none f (Nat.pos_of_ne_zero (Ne.symm start))

theorem join_assoc : (f.join g).join h = f.join (g.join h) := by
  -- The furthest of the three places decides.
  rcases Nat.lt_trichotomy f.place g.place with fg | fg | fg
  · rw [join_of_lt f g fg, join_of_lt f (g.join h) (by rw [place_join]; omega)]
  · rcases Nat.lt_trichotomy g.place h.place with gh | gh | gh
    · rw [join_of_lt g h gh, join_of_lt f h (by omega),
        join_of_lt _ h (by rw [place_join]; omega)]
    · rw [join_of_eq f g fg, join_of_eq g h gh, join_of_eq _ h (by simpa using fg.trans gh),
        join_of_eq f _ (by simpa using fg), Expectations.union_assoc]
    · rw [join_of_gt g h gh, join_of_gt _ h (by rw [place_join]; omega)]
  · rw [join_of_gt f g fg]
    rcases Nat.lt_trichotomy g.place h.place with gh | gh | gh
    · rw [join_of_lt g h gh]
    · rw [join_of_gt f h (by omega), join_of_gt f (g.join h) (by rw [place_join]; omega)]
    · rw [join_of_gt f h (by omega), join_of_gt f (g.join h) (by rw [place_join]; omega)]

/-- What a shortfall has taken in already it does not change by. -/
theorem join_absorbed (absorbed : f.join g = f) : (f.join h).join g = f.join h := by
  have comm : (f.join h).join g = (f.join g).join h := by
    rcases Nat.lt_trichotomy g.place h.place with gh | gh | gh
    · rw [join_assoc, join_assoc, join_of_gt h g gh, join_of_lt g h gh]
    · rw [join_assoc, join_assoc, join_of_eq h g gh.symm, join_of_eq g h gh, gh]
      congr 2
      exact Expectations.ext fun e => by simp only [Expectations.contains_union, Bool.or_comm]
    · rw [join_assoc, join_assoc, join_of_lt h g gh, join_of_gt g h gh]
  rw [comm, absorbed]

end Shortfall

/-! ## Shortfalls of states -/

namespace State
variable (s : State) (p q : Nat) (f g : Shortfall)

/-- The shortfall of all steps so far. -/
def shortfall : Shortfall := ⟨s.furthest, s.expected⟩

/-- The state with the cursor at another place and a shortfall added. -/
def proceed (place : Nat) (f : Shortfall) : State :=
  { s with
    current := place
    furthest := (s.shortfall.join f).place
    expected := (s.shortfall.join f).needed }

@[simp] theorem current_proceed : (s.proceed p f).current = p := rfl

@[simp] theorem depth_proceed : (s.proceed p f).depth = s.depth := rfl

@[simp] theorem memo_proceed : (s.proceed p f).memo = s.memo := rfl

@[simp] theorem shortfall_proceed : (s.proceed p f).shortfall = s.shortfall.join f := rfl

theorem proceed_proceed : (s.proceed p f).proceed q g = s.proceed q (f.join g) := by
  unfold proceed
  rw [← Shortfall.join_assoc]
  rfl

theorem proceed_none : s.proceed p .none = s.moveTo p := by
  simp only [proceed, Shortfall.join_none]
  rfl

/-- Where something is missing it is added to the shortfall. -/
theorem expect_eq_proceed (e : Expectation) :
    s.expect e = s.proceed s.current (.single s.current e) := by
  unfold expect proceed
  rcases Nat.lt_trichotomy s.furthest s.current with lt | eq | gt
  · rw [if_pos lt, Shortfall.join_of_lt _ _ lt]
    rfl
  · rw [if_neg (by omega), if_pos eq.symm, Shortfall.join_of_eq _ _ eq]
    simp only [Shortfall.single, shortfall, Expectations.union_insert_empty]
  · rw [if_neg (by omega), if_neg (by omega), Shortfall.join_of_gt _ _ gt]
    rfl

end State

/-! ## Steady steps -/

/-- Wherever the cursor is at a place a step does the same: it gives `a`, moves the cursor
to `q` and adds a shortfall. -/
def Steady {α : Type} (m : ParseM α) (p : Nat) (a : α) (q : Nat) (f : Shortfall) : Prop :=
  ∀ s : State, s.current = p → m s = .ok a (s.proceed q f)

namespace Steady
variable {α β : Type} {p q r : Nat} {f g : Shortfall}

/-- A step that is steady is so in one way only. -/
theorem unique {m : ParseM α} {a b : α} (h : Steady m p a q f) (h' : Steady m p b r g) :
    a = b ∧ q = r ∧ f = g := by
  have same := (h (State.start.moveTo p) rfl).symm.trans (h' (State.start.moveTo p) rfl)
  injection same with value state
  have shortfall : (Shortfall.none.join f) = Shortfall.none.join g := congrArg State.shortfall state
  rw [Shortfall.none_join, Shortfall.none_join] at shortfall
  exact ⟨value, congrArg State.current state, shortfall⟩

theorem pure {a : α} : Steady (Pure.pure a) p a p .none := by
  rintro s rfl
  rw [State.proceed_none]
  rfl

theorem bind {m : ParseM α} {k : α → ParseM β} {a : α} {b : β} (first : Steady m p a q f)
    (next : Steady (k a) q b r g) : Steady (m >>= k) p b r (f.join g) := by
  intro s hs
  rw [bind_apply, first s hs]
  exact (next (s.proceed q f) rfl).trans (by rw [State.proceed_proceed])

theorem current : Steady Grammar.current p p p .none := by
  rintro s rfl
  rw [State.proceed_none]
  rfl

theorem rewind : Steady (Grammar.rewind q) p () q .none := by
  rintro s -
  rw [State.proceed_none]
  rfl

/-- A rule that does not apply leaves the cursor in its place. -/
theorem attempt {m : ParseM (Option Expr)} {e : Option Expr} (h : Steady m p e q f) :
    Steady (Grammar.attempt m) p e (if e = none then p else q) f := by
  intro s hs
  unfold Grammar.attempt
  rw [bind_apply, current s hs]
  dsimp only
  rw [State.proceed_none, bind_apply, h (s.moveTo p) rfl]
  cases e with
  | none => rfl
  | some e => rfl

section Tokens
variable {input : Input} {first : Token}

theorem tokenAt (h : input.tokens[q]? = some first) :
    Steady (Grammar.tokenAt input q) p first p .none := by
  unfold Grammar.tokenAt
  rw [h]
  exact pure

theorem peek (h : input.tokens[p]? = some first) : Steady (Grammar.peek input) p first p .none :=
  current.bind (tokenAt h)

/-- A token is taken unless it marks the end of the input. -/
theorem advance (h : input.tokens[p]? = some first) (hend : first.kind ≠ .endOfInput) :
    Steady (Grammar.advance input) p first (p + 1) .none := by
  intro s hs
  unfold Grammar.advance
  rw [bind_apply, peek h s hs, State.proceed_none, State.proceed_none]
  simp only [if_pos hend]
  rfl

theorem expect {e : Expectation} : Steady (Grammar.expect e) p () p (.single p e) := by
  rintro s rfl
  rw [← State.expect_eq_proceed]
  rfl

/-- Without a cap on open brackets their count does not matter. -/
theorem nested {m : ParseM α} {a : α} {place : Nat} {opening : Token}
    (uncapped : input.config.maxNestingDepth = none) (h : Steady m p a q f) :
    Steady (Grammar.nested input place opening m) p a q f := by
  intro s hs
  have cap : input.config.exceededCap? (s.depth + 1) = none :=
    Config.exceededCap?_of_uncapped uncapped _
  have inner : m { s with depth := s.depth + 1 } =
      .ok a (State.proceed { s with depth := s.depth + 1 } q f) := h _ hs
  unfold Grammar.nested
  simp only [cap, inner]
  rfl

end Tokens
end Steady
end Grammar
end Formula
