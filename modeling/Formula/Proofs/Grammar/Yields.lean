import Formula.Proofs.Grammar.SideBySide

/-! # Steps that are sure to succeed

`Yields m p a q` says that a step `m` succeeds wherever the cursor is at place `p`, with
the result `a` and the cursor at `q` behind it, whatever else the state holds.  Each
step that a rule is made of has its lemma here, as in the module
`Formula.Proofs.Grammar.SideBySide`.
-/
namespace Formula
namespace Grammar

/-- From a place on a step always gives the same result and stops at the same place. -/
def Yields {α : Type} (m : ParseM α) (p : Nat) (a : α) (q : Nat) : Prop :=
  ∀ s : State, s.current = p → ∃ t, m s = .ok a t ∧ t.current = q

namespace Yields
variable {α β : Type} {p q r : Nat}

theorem pure {a : α} : Yields (Pure.pure a) p a p :=
  fun s h => ⟨s, rfl, h⟩

/-- Steps that are sure to succeed one after the other. -/
theorem bind {m : ParseM α} {f : α → ParseM β} {a : α} {b : β} (first : Yields m p a q)
    (next : Yields (f a) q b r) : Yields (m >>= f) p b r := by
  intro s hs
  obtain ⟨t, ht, hq⟩ := first s hs
  rw [bind_apply, ht]
  exact next t hq

theorem map {m : ParseM α} {f : α → β} {a : α} (h : Yields m p a q) :
    Yields (f <$> m) p (f a) q :=
  h.bind pure

/-! ## The cursor -/

theorem current : Yields Grammar.current p p p := by
  rintro s rfl
  exact ⟨s, rfl, rfl⟩

theorem rewind : Yields (Grammar.rewind q) p () q :=
  fun s _ => ⟨s.moveTo q, rfl, rfl⟩

theorem attempt_some {m : ParseM (Option Expr)} {e : Expr} (h : Yields m p (some e) q) :
    Yields (attempt m) p (some e) q :=
  current.bind (h.bind pure)

theorem attempt_none {m : ParseM (Option Expr)} (h : Yields m p none q) :
    Yields (attempt m) p none p :=
  current.bind (h.bind (rewind.bind pure))

section Tokens
variable {input : Input} {kind other : Token.Kind} {first : Token}

theorem tokenAt (h : input.tokens[q]? = some first) :
    Yields (Grammar.tokenAt input q) p first p := by
  unfold Grammar.tokenAt
  rw [h]
  exact pure

theorem peek (h : input.tokens[p]? = some first) : Yields (Grammar.peek input) p first p :=
  current.bind (tokenAt h)

theorem check (h : input.kindAt p = some other) :
    Yields (Grammar.check input kind) p (other == kind) p := by
  obtain ⟨first, hfirst, rfl⟩ := Option.map_eq_some_iff.mp h
  exact (peek hfirst).bind pure

theorem advance (h : input.tokens[p]? = some first) (hend : first.kind ≠ .endOfInput) :
    Yields (Grammar.advance input) p first (p + 1) := by
  refine (peek h).bind ?_
  rw [if_pos hend]
  rintro s rfl
  exact ⟨s.moveTo (s.current + 1), rfl, rfl⟩

/-- The token at the cursor chooses the first way to go on. -/
theorem check_pos {f g : ParseM α} {a : α} (h : input.kindAt p = some kind)
    (next : Yields f p a q) : Yields (do if ← Grammar.check input kind then f else g) p a q := by
  refine (check h).bind ?_
  rw [BEq.rfl, if_pos rfl]
  exact next

/-- The token at the cursor chooses the second way to go on. -/
theorem check_neg {f g : ParseM α} {a : α} (h : input.kindAt p = some other)
    (hother : other ≠ kind) (next : Yields g p a q) :
    Yields (do if ← Grammar.check input kind then f else g) p a q := by
  refine (check h).bind ?_
  rw [if_neg (by simpa using hother)]
  exact next

/-- A token is taken of which only the kind is known. -/
theorem skip {f : ParseM α} {a : α} (h : input.kindAt p = some kind) (hend : kind ≠ .endOfInput)
    (next : Yields f (p + 1) a q) :
    Yields (do
      let _ ← Grammar.advance input
      f) p a q := by
  obtain ⟨first, hfirst, rfl⟩ := Option.map_eq_some_iff.mp h
  exact (advance hfirst hend).bind next

theorem accept (h : input.kindAt p = some kind) (hend : kind ≠ .endOfInput) :
    Yields (Grammar.accept input kind) p true (p + 1) :=
  check_pos h (skip h hend pure)

theorem accept_other (h : input.kindAt p = some other) (hother : other ≠ kind) :
    Yields (Grammar.accept input kind) p false p :=
  check_neg h hother pure

/-- All signs of a kind are taken, if another token stands behind them. -/
theorem acceptMany {count bound : Nat} (signs : input.SignsAt kind p count)
    (hend : kind ≠ .endOfInput) (h : input.kindAt (p + count) = some other)
    (hother : other ≠ kind) (enough : count ≤ bound) :
    Yields (Grammar.acceptMany input kind bound) p count (p + count) := by
  induction bound generalizing p count with
  | zero =>
    obtain rfl : count = 0 := Nat.le_zero.mp enough
    exact pure
  | succ bound ih =>
    unfold Grammar.acceptMany
    cases count with
    | zero =>
      refine (accept_other h hother).bind ?_
      exact pure
    | succ n =>
      have place : p + (n + 1) = p + 1 + n := by omega
      rw [place] at h ⊢
      refine (accept (signs 0 (Nat.succ_pos n)) hend).bind ?_
      refine (ih (fun i hi => ?_) h (Nat.le_of_succ_le_succ enough)).bind pure
      rw [Nat.add_assoc, Nat.add_comm 1]
      exact signs (i + 1) (Nat.succ_lt_succ hi)

theorem expect {e : Expectation} : Yields (Grammar.expect e) p () p :=
  fun s h => ⟨s.expect e, rfl, by rw [State.current_expect, h]⟩

/-! ## Brackets -/

theorem opensArguments (h : input.OpensArguments p) :
    Yields (Grammar.opensArguments input) p true p := by
  refine check_pos h.1 (current.bind ?_)
  rw [h.2]
  exact pure

theorem opensArguments_false (h : input.kindAt p = some other)
    (closed : ¬ input.OpensArguments p) :
    Yields (Grammar.opensArguments input) p false p := by
  by_cases bracket : other = .leftBracket
  · subst bracket
    refine check_pos h (current.bind ?_)
    cases pair : pairAt input p .leftBracket with
    | true => exact pure
    | false => exact absurd ⟨h, pair⟩ closed
  · exact check_neg h bracket pure

theorem close {closer : Closer} (h : input.ClosesAt closer p) :
    Yields (Grammar.close input closer) p true (p + closer.width) := by
  unfold Grammar.close
  by_cases double : closer = .doubleBracket
  · subst double
    dsimp only
    simp only [if_true]
    refine current.bind ?_
    obtain ⟨here, next⟩ := Input.kindAt_of_pairAt h
    have pair : pairAt input p Closer.doubleBracket.kind = true := h
    rw [if_pos pair]
    exact skip here (by decide) (skip next (by decide) pure)
  · simp only [if_neg double]
    have single : input.kindAt p = some closer.kind ∧ closer.width = 1 := by
      cases closer <;> first | exact ⟨h, rfl⟩ | exact absurd rfl double
    rw [single.2]
    exact (accept single.1 (by cases closer <;> decide)).bind pure

theorem close_false {closer : Closer} (h : input.kindAt p = some other)
    (hother : other ≠ closer.kind) : Yields (Grammar.close input closer) p false p := by
  unfold Grammar.close
  by_cases double : closer = .doubleBracket
  · subst double
    dsimp only
    simp only [if_true]
    refine current.bind ?_
    cases pair : pairAt input p Closer.doubleBracket.kind with
    | true => exact absurd (Option.some.inj (h.symm.trans (Input.kindAt_of_pairAt pair).1)) hother
    | false =>
      simp only [Bool.false_eq_true, if_false]
      refine pure.bind ?_
      simp only [Bool.false_eq_true, if_false]
      exact expect.bind pure
  · simp only [if_neg double]
    exact (accept_other h hother).bind (expect.bind pure)

/-- Without a cap on open brackets a part in brackets is as good as without them. -/
theorem nested {m : ParseM α} {a : α} {place : Nat} {opening : Token}
    (uncapped : input.config.maxNestingDepth = none) (h : Yields m p a q) :
    Yields (Grammar.nested input place opening m) p a q := by
  intro s hs
  obtain ⟨t, ht, hq⟩ := h (s.atDepth (s.depth + 1)) hs
  refine ⟨t.atDepth s.depth, ?_, hq⟩
  have cap : input.config.exceededCap? (s.depth + 1) = none := by
    simp [Config.exceededCap?, uncapped]
  unfold State.atDepth at ht
  unfold Grammar.nested
  simp only [cap, ht]
  rfl

end Tokens
end Yields
end Grammar
end Formula
