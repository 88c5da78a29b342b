import Formula.Proofs.Grammar.Composition
import Formula.Proofs.Grammar.Remembered

/-! # What every step of a parse keeps

Rules are made of a few elementary steps: a token is taken, the cursor goes back to where it
was, something is recorded as missing, a bracket is counted, a result is remembered or recalled.
A property of states that each of these keeps is an `Invariant`.  A parse that starts with an
invariant never loses it, wherever it may be (`run_keeps`), and it stops only where a token is
to blame.

To see that the invariant is there all along the rules are put under watch (`watched`): a rule
is stopped at once where the watch is set off, and so is every rule that it applies.  Where the
invariant keeps the watch quiet, the rules under watch do what the rules do.
-/
namespace Formula
namespace Grammar

/-! ## Invariants -/

/-- A property of states that the elementary steps of a parse keep, and that has the cursor and
the furthest failure stay at tokens. -/
structure Invariant (input : Input) (P : State → Prop) : Prop where
  inside {s : State} : P s →
    s.current < input.tokens.size ∧ s.furthest < input.tokens.size
  advance {s : State} {t : Token} : P s → input.tokens[s.current]? = some t →
    t.kind ≠ .endOfInput → P (s.moveTo (s.current + 1))
  rewind {s u : State} : P s → P u → P (s.moveTo u.current)
  expect {s : State} (e : Expectation) : P s → P (s.expect e)
  atDepth {s : State} (depth : Nat) : P s → P (s.atDepth depth)
  atWork {s : State} (rule : Rule) (place : Nat) : P s → P (s.remember rule place .inProgress)
  remembered {s : State} (rule : Rule) (place : Nat) (result : Option Expr) : P s →
    P (s.remember rule place (.done result s.current))
  recalled {s : State} {rule : Rule} {result : Option Expr} {stop : Nat} : P s →
    s.memo.find? rule s.current = some (.done result stop) → P (s.moveTo stop)

/-- The cursor or the furthest failure is at a place, in a state with the property. -/
def Reached (P : State → Prop) (place : Nat) : Prop :=
  ∃ s, P s ∧ (place = s.current ∨ place = s.furthest)

/-- A token that was reached is to blame for an abort, or a number or a string that carries no
text. -/
def Abort.Blames (input : Input) (P : State → Prop) : Abort → Prop
  | .rejected place error => input.tokens[place]? = some error.found ∧ Reached P place
  | .outOfTokens => False
  | .valueless => ¬ input.Valued

/-- Wherever the property holds two steps do the same, and it holds behind them.  What they
give meets a condition, and if they stop the parse then something is to blame. -/
def Keeps {α : Type} (input : Input) (P : State → Prop) (m m' : ParseM α) (Q : α → Prop) :
    Prop :=
  ∀ s, P s → m' s = m s ∧
    match m s with
    | .ok a t => P t ∧ Q a
    | .error abort t => P t ∧ abort.Blames input P

/-- Nothing is asked of a value. -/
def anything {α : Type} (_ : α) : Prop :=
  True

/-- Where the property holds: the cursor was at a place to go back to, and a bracket opens with a
token that was reached. -/
def Known.behind (input : Input) (P : State → Prop) : Known where
  back place := ∃ u, P u ∧ u.current = place
  seen t := t ∈ input.tokens
  opens place t := input.tokens[place]? = some t ∧ Reached P place

namespace Keeps
variable {α β : Type} {input : Input} {P : State → Prop} {Q : α → Prop}

theorem pure {a : α} (h : Q a) : Keeps input P (Pure.pure a) (Pure.pure a) Q :=
  fun _ hs => ⟨rfl, hs, h⟩

/-- A step without a condition on what it gives. -/
theorem done {a : α} : Keeps input P (Pure.pure a) (Pure.pure a) anything :=
  pure trivial

theorem bind {R : β → Prop} {m m' : ParseM β} {f f' : β → ParseM α} (first : Keeps input P m m' R)
    (next : ∀ b, R b → Keeps input P (f b) (f' b) Q) :
    Keeps input P (m >>= f) (m' >>= f') Q := by
  intro s hs
  obtain ⟨same, ends⟩ := first s hs
  rw [bind_apply, bind_apply, same]
  cases h : m s with
  | ok b t =>
    rw [h] at ends
    exact next b ends.2 t ends.1
  | error abort t =>
    rw [h] at ends
    exact ⟨rfl, ends⟩

theorem throw {abort : Abort} (h : abort.Blames input P) :
    Keeps input P (MonadExcept.throw abort : ParseM α) (MonadExcept.throw abort) Q :=
  fun _ hs => ⟨rfl, hs, h⟩

/-! ## Elementary steps -/

section Steps
variable (inv : Invariant input P)

/-- The place of the cursor is one to go back to. -/
theorem current : Keeps input P Grammar.current Grammar.current
    fun place => ∃ u, P u ∧ u.current = place :=
  fun s hs => ⟨rfl, hs, s, hs, rfl⟩

include inv

theorem rewind {place : Nat} (h : ∃ u, P u ∧ u.current = place) :
    Keeps input P (Grammar.rewind place) (Grammar.rewind place) anything := by
  obtain ⟨u, hu, rfl⟩ := h
  exact fun s hs => ⟨rfl, inv.rewind hs hu, trivial⟩

/-- There is a token at the cursor. -/
theorem peek_apply {s : State} (hs : P s) :
    ∃ t, input.tokens[s.current]? = some t ∧ Grammar.peek input s = .ok t s := by
  have here := Array.getElem?_eq_getElem (inv.inside hs).1
  refine ⟨_, here, ?_⟩
  rw [Steady.peek here s rfl, State.proceed_none]
  rfl

theorem peek : Keeps input P (Grammar.peek input) (Grammar.peek input) (· ∈ input.tokens) := by
  intro s hs
  obtain ⟨t, here, found⟩ := peek_apply inv hs
  rw [found]
  exact ⟨rfl, hs, Array.mem_of_getElem? here⟩

/-- A token is taken unless it marks the end of the input. -/
theorem advance_apply {s : State} (hs : P s) :
    ∃ t u, input.tokens[s.current]? = some t ∧ Grammar.advance input s = .ok t u ∧ P u := by
  obtain ⟨t, here, found⟩ := peek_apply inv hs
  unfold Grammar.advance
  rw [bind_apply, found]
  by_cases isEnd : t.kind = .endOfInput
  · simp only [isEnd, ne_eq, not_true, if_false]
    exact ⟨t, s, here, rfl, hs⟩
  · simp only [ne_eq, isEnd, not_false_eq_true, if_true]
    exact ⟨t, _, here, rfl, inv.advance hs here isEnd⟩

theorem advance :
    Keeps input P (Grammar.advance input) (Grammar.advance input) anything := by
  intro s hs
  obtain ⟨t, u, -, taken, hu⟩ := advance_apply inv hs
  rw [taken]
  exact ⟨rfl, hu, trivial⟩

/-- The token that opens a bracket is at the place where the bracket opens. -/
theorem opening {f f' : Nat → Token → ParseM α}
    (next : ∀ place t, input.tokens[place]? = some t → Reached P place →
      Keeps input P (f place t) (f' place t) Q) :
    Keeps input P (do let place ← Grammar.current; let t ← Grammar.advance input; f place t)
      (do let place ← Grammar.current; let t ← Grammar.advance input; f' place t) Q := by
  intro s hs
  obtain ⟨t, u, here, taken, hu⟩ := advance_apply inv hs
  rw [current_bind_apply, current_bind_apply, bind_apply, bind_apply, taken]
  exact next _ t here ⟨s, hs, .inl rfl⟩ u hu

theorem expect {e : Expectation} :
    Keeps input P (Grammar.expect e) (Grammar.expect e) anything :=
  fun _ hs => ⟨rfl, inv.expect e hs, trivial⟩

theorem nested {m m' : ParseM α} {place : Nat} {t : Token} (here : input.tokens[place]? = some t)
    (reached : Reached P place) (h : Keeps input P m m' Q) :
    Keeps input P (Grammar.nested input place t m) (Grammar.nested input place t m') Q := by
  intro s hs
  obtain ⟨same, ends⟩ := h (s.atDepth (s.depth + 1)) (inv.atDepth _ hs)
  unfold State.atDepth at same ends
  unfold Grammar.nested
  dsimp only
  cases input.config.exceededCap? (s.depth + 1) with
  | some limit => exact ⟨rfl, inv.atDepth _ hs, here, reached⟩
  | none =>
    dsimp only
    rw [same]
    cases h : m { s with depth := s.depth + 1 } with
    | ok a u =>
      rw [h] at ends
      exact ⟨rfl, inv.atDepth _ ends.1, ends.2⟩
    | error abort u =>
      rw [h] at ends
      exact ⟨rfl, inv.atDepth _ ends.1, ends.2⟩

/-- What is put together of steps that keep a property keeps it. -/
theorem compositional :
    Compositional input (.behind input P) fun m m' => Keeps input P m m' anything where
  pure _ := done
  bind first next := first.bind fun b _ => next b
  mark next := current.bind next
  look next := (peek inv).bind next
  opening next := opening inv fun place t here reached => next place t ⟨here, reached⟩
  nested := fun ⟨here, reached⟩ h => nested inv here reached h
  rewind back := rewind inv back
  advance := advance inv
  expect _ := expect inv
  valueless seen kind missing := throw fun valued => valued _ seen (.inl kind) missing

theorem attempt {m m' : ParseM (Option Expr)} (h : Keeps input P m m' anything) :
    Keeps input P (Grammar.attempt m) (Grammar.attempt m') anything :=
  (compositional inv).attempt h

theorem remembered {rule : Rule} {m m' : ParseM (Option Expr)}
    (h : Keeps input P m m' anything) :
    Keeps input P (Grammar.remembered input rule m) (Grammar.remembered input rule m')
      anything := by
  cases memoize : input.config.memoize with
  | false =>
    rw [remembered_of_off memoize, remembered_of_off memoize]
    exact attempt inv h
  | true =>
    intro s hs
    cases found : s.memo.find? rule s.current with
    | some entry =>
      cases entry with
      | inProgress =>
        rw [remembered_of_atWork memoize found, remembered_of_atWork memoize found]
        exact ⟨rfl, hs, trivial⟩
      | done result stop =>
        rw [remembered_of_hit memoize found, remembered_of_hit memoize found]
        exact ⟨rfl, inv.recalled hs found, trivial⟩
    | none =>
      rw [remembered_of_miss memoize found, remembered_of_miss memoize found]
      obtain ⟨same, ends⟩ := attempt inv h _ (inv.atWork rule s.current hs)
      rw [same]
      cases done : Grammar.attempt m (s.remember rule s.current .inProgress) with
      | ok r t =>
        rw [done] at ends
        exact ⟨rfl, inv.remembered _ _ _ ends.1, trivial⟩
      | error abort t =>
        rw [done] at ends
        exact ⟨rfl, ends⟩

/-- **Every rule keeps what the rules that it applies keep.** -/
theorem body {call call' : Rule → ParseM (Option Expr)}
    (calls : ∀ rule, Keeps input P (call rule) (call' rule) anything) (rule : Rule) :
    Keeps input P (Grammar.body input call rule) (Grammar.body input call' rule) anything :=
  (compositional inv).body calls rule

end Steps
end Keeps

/-! ## Rules under watch -/

/-- A step that is stopped where the watch is set off, before it or behind it. -/
def watch {α : Type} (ok : State → Bool) (m : ParseM α) : ParseM α := fun s =>
  if ok s then
    match m s with
    | .ok a t => if ok t then .ok a t else .error .outOfTokens t
    | .error abort t => if ok t then .error abort t else .error .outOfTokens t
  else .error .outOfTokens s

/-- The rules under watch: each is looked at before it, behind it, and where it has gone through
the tokens but the cursor is not yet back in its place. -/
def watched (input : Input) (ok : State → Bool) :
    (allowance : Nat) → Rule → ParseM (Option Expr)
  | 0, rule => watch ok (run input 0 rule)
  | allowance + 1, rule =>
    watch ok (remembered input rule (watch ok (body input (watched input ok allowance) rule)))

section Watch
variable {input : Input} {P : State → Prop} {ok : State → Bool}

/-- A watch that the property keeps quiet changes nothing. -/
theorem Keeps.watch {α : Type} {m m' : ParseM α} {Q : α → Prop} (quiet : ∀ s, P s → ok s = true)
    (h : Keeps input P m m' Q) : Keeps input P m (Grammar.watch ok m') Q := by
  intro s hs
  obtain ⟨same, ends⟩ := h s hs
  refine ⟨?_, ends⟩
  unfold Grammar.watch
  rw [if_pos (quiet s hs), same]
  cases done : m s with
  | ok a t =>
    rw [done] at ends
    simp only [quiet t ends.1, if_true]
  | error abort t =>
    rw [done] at ends
    simp only [quiet t ends.1, if_true]

/-- **A parse never loses an invariant.**  Where the invariant keeps the watch quiet, the rules
under watch do what the rules do. -/
theorem run_keeps (inv : Invariant input P) (quiet : ∀ s, P s → ok s = true) (allowance : Nat)
    (rule : Rule) :
    Keeps input P (run input allowance rule) (watched input ok allowance rule) anything := by
  induction allowance generalizing rule with
  | zero =>
    refine .watch quiet fun s hs => ⟨rfl, ?_⟩
    obtain ⟨t, here, found⟩ := Keeps.peek_apply inv hs
    unfold run
    rw [current_bind_apply, bind_apply, found]
    exact ⟨hs, here, s, hs, .inl rfl⟩
  | succ allowance ih =>
    exact .watch quiet (Keeps.remembered inv (.watch quiet (Keeps.body inv ih rule)))

end Watch

/-! ## The end of a parse -/

section Parse
variable {input : Input} {P : State → Prop} {α : Type} {Q : α → Prop}

/-- The parse stops at a place where there is a token. -/
theorem Keeps.reject (inv : Invariant input P) {place : Nat} {cause : ParseError.Cause}
    (reached : Reached P place) :
    Keeps input P (Grammar.reject input place cause : ParseM α) (Grammar.reject input place cause)
      Q := by
  intro s hs
  have lt : place < input.tokens.size := by
    obtain ⟨u, hu, rfl | rfl⟩ := reached
    · exact (inv.inside hu).1
    · exact (inv.inside hu).2
  have here := Array.getElem?_eq_getElem lt
  rw [reject_eq_blame, Input.blame_of_getElem? here]
  exact ⟨rfl, hs, here, reached⟩

theorem Keeps.rejectFurthest (inv : Invariant input P) :
    Keeps input P (Grammar.rejectFurthest input : ParseM α) (Grammar.rejectFurthest input) Q := by
  intro s hs
  exact Keeps.reject inv ⟨s, hs, .inr rfl⟩ s hs

/-- **A parse that starts with an invariant ends with it**, and if it is stopped then
something in the tokens is to blame. -/
theorem parseWithin_keeps (inv : Invariant input P) (allowance : Nat) :
    Keeps input P (parseWithin input allowance) (parseWithin input allowance) anything := by
  unfold parseWithin
  -- A watch that looks at nothing is always quiet.
  have quiet (s : State) : P s → (fun _ : State => true) s = true := fun _ => rfl
  have run : Keeps input P (run input allowance .or) (run input allowance .or) anything :=
    fun s hs => ⟨rfl, (run_keeps inv quiet allowance .or s hs).2⟩
  refine run.bind ?_
  rintro (_ | e) -
  · exact .rejectFurthest inv
  · refine (Keeps.compositional inv).branch ((Keeps.compositional inv).check _) .done ?_
    intro s hs
    rw [get_bind_apply]
    split
    · exact Keeps.reject inv ⟨s, hs, .inl rfl⟩ s hs
    · exact Keeps.rejectFurthest inv s hs

end Parse
end Grammar
end Formula
