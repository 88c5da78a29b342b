import Formula.Proofs.Grammar.OnePass

/-! # Steps that heed a verdict

A step of the parser *heeds* a verdict if it stops the parse only as the verdict says
(`Heeds`).  Each step that a rule is made of has its lemma here: what is to be shown of a
step and what is done behind it comes down to what is done behind it.

All of this is in front of an end of the input, where no token is missing.
-/
namespace Formula
namespace Grammar

/-- The abort of a parse that comes to a verdict, if the verdict is no formula. -/
def Verdict.abort? (input : Input) : Verdict → Option Abort
  | accepted _ => none
  | trailing place => some (input.blame place .trailingInput)
  | unexpected place expected => some (input.blame place (.unexpectedToken expected.texts))
  | tooDeep place limit => some (input.blame place (.nestedTooDeeply (some limit)))
  | valueless => some .valueless

/-- From every place on there are fewer tokens than the bound of the loops. -/
theorem Input.size_lt_bound (input : Input) (place : Nat) :
    input.tokens.size < place + input.bound := by
  unfold Input.bound
  omega

/-- A step ends as the postcondition says, or the verdict says how it aborts. -/
def Heeds {α : Type} (input : Input) (v : Verdict) (m : ParseM α) (s : State)
    (post : α → State → Prop) : Prop :=
  match m s with
  | .ok a t => post a t
  | .error abort _ => v.abort? input = some abort

namespace State
variable {s : State} {place : Nat}

@[simp] theorem depth_moveTo : (s.moveTo place).depth = s.depth := rfl

@[simp] theorem expected_moveTo : (s.moveTo place).expected = s.expected := rfl

@[simp] theorem depth_expect (e : Expectation) : (s.expect e).depth = s.depth := by
  unfold expect
  split
  · rfl
  · split <;> rfl

/-- What was needed at the cursor and missing so far. -/
def neededHere (s : State) : Expectations :=
  if s.furthest = s.current then s.expected else .empty

theorem neededHere_of_lt (h : s.furthest < s.current) : s.neededHere = .empty :=
  if_neg (Nat.ne_of_lt h)

/-- Where all is calm, what is missing at the cursor joins what was missing there. -/
theorem expected_expect (calm : s.furthest ≤ s.current) (e : Expectation) :
    (s.expect e).expected = s.neededHere.insert e := by
  unfold expect neededHere
  rcases Nat.lt_or_eq_of_le calm with lt | eq
  · rw [if_pos lt, if_neg (Nat.ne_of_lt lt)]
  · rw [if_neg (by omega), if_pos eq.symm, if_pos eq]

theorem neededHere_expect (calm : s.furthest ≤ s.current) (e : Expectation) :
    (s.expect e).neededHere = s.neededHere.insert e := by
  have here : (s.expect e).furthest = (s.expect e).current := by
    rw [furthest_expect, current_expect, Nat.max_eq_right calm]
  rw [← expected_expect calm e]
  exact if_pos here

/-- Behind a failure nothing more is recorded. -/
theorem expect_of_lt (h : s.current < s.furthest) (e : Expectation) : s.expect e = s := by
  unfold expect
  rw [if_neg (by omega), if_neg (by omega)]

end State

namespace Heeds
variable {α β : Type} {input : Input} {v : Verdict} {s : State} {post : α → State → Prop}

theorem pure {a : α} (h : post a s) : Heeds input v (Pure.pure a) s post :=
  h

theorem bind {m : ParseM β} {k : β → ParseM α} {mid : β → State → Prop}
    (first : Heeds input v m s mid)
    (next : ∀ b t, mid b t → Heeds input v (k b) t post) :
    Heeds input v (m >>= k) s post := by
  unfold Heeds at first ⊢
  rw [bind_apply]
  cases done : m s with
  | ok b t =>
    rw [done] at first
    exact next b t first
  | error abort t =>
    rw [done] at first
    exact first

theorem mono {m : ParseM α} {mid : α → State → Prop} (h : Heeds input v m s mid)
    (imp : ∀ a t, mid a t → post a t) : Heeds input v m s post := by
  unfold Heeds at h ⊢
  split at h
  · exact imp _ _ h
  · exact h

/-- A result with a constructor around it. -/
theorem map {m : ParseM β} {c : β → α} (h : Heeds input v m s fun b t => post (c b) t) :
    Heeds input v (c <$> m) s post :=
  h.bind fun _ _ hb => pure hb

/-- A step that does the same wherever its place is reached, and what is done behind it. -/
theorem step {m : ParseM β} {k : β → ParseM α} {b : β} {q : Nat}
    (steady : Steady m s.current b q .none) (next : Heeds input v (k b) (s.moveTo q) post) :
    Heeds input v (m >>= k) s post := by
  unfold Heeds at next ⊢
  rw [bind_apply, steady s rfl, State.proceed_none]
  exact next

theorem current {k : Nat → ParseM α} (next : Heeds input v (k s.current) s post) :
    Heeds input v (Grammar.current >>= k) s post :=
  step .current next

theorem rewind {k : Unit → ParseM α} {place : Nat}
    (next : Heeds input v (k ()) (s.moveTo place) post) :
    Heeds input v (Grammar.rewind place >>= k) s post :=
  step .rewind next

theorem expect {k : Unit → ParseM α} {e : Expectation}
    (next : Heeds input v (k ()) (s.expect e) post) :
    Heeds input v (Grammar.expect e >>= k) s post :=
  next

/-! ## Tokens -/

theorem peek {k : Token → ParseM α} (ends : input.EndsFrom s.current)
    (next : ∀ first, input.tokens[s.current]? = some first → Heeds input v (k first) s post) :
    Heeds input v (Grammar.peek input >>= k) s post := by
  obtain ⟨first, hfirst⟩ := ends.token
  exact step (.peek hfirst) (next first hfirst)

/-- A token is taken unless it marks the end of the input. -/
theorem advance {k : Token → ParseM α} {kind : Token.Kind} (ends : input.EndsFrom s.current)
    (here : input.kindAt s.current = some kind) (hend : kind ≠ .endOfInput)
    (next : ∀ first, input.tokens[s.current]? = some first → input.EndsFrom (s.current + 1) →
      Heeds input v (k first) (s.moveTo (s.current + 1)) post) :
    Heeds input v (Grammar.advance input >>= k) s post := by
  obtain ⟨first, hfirst, rfl⟩ := Option.map_eq_some_iff.mp here
  exact step (.advance hfirst hend) (next first hfirst (ends.next hfirst hend))

/-- Two ways to go on, of which the token at the cursor chooses one. -/
theorem branch {kind : Token.Kind} {f g : ParseM α} (ends : input.EndsFrom s.current)
    (pos : input.kindAt s.current = some kind → Heeds input v f s post)
    (neg : input.kindAt s.current ≠ some kind → Heeds input v g s post) :
    Heeds input v (do if ← Grammar.check input kind then f else g) s post := by
  obtain ⟨first, hfirst⟩ := ends.token
  have here := Input.kindAt_of_getElem? hfirst
  have check : Steady (Grammar.check input kind) s.current (first.kind == kind) s.current
      (Shortfall.none.join .none) :=
    (Steady.peek hfirst).bind .pure
  rw [Shortfall.join_none] at check
  refine step check ?_
  by_cases same : first.kind = kind
  · simp only [same, BEq.rfl, if_true]
    exact pos (same ▸ here)
  · rw [beq_false_of_ne same]
    simp only [Bool.false_eq_true, if_false]
    exact neg fun other => same (Option.some.inj (here.symm.trans other))

theorem accept {kind : Token.Kind} {k : Bool → ParseM α} (ends : input.EndsFrom s.current)
    (hend : kind ≠ .endOfInput)
    (pos : input.kindAt s.current = some kind → input.EndsFrom (s.current + 1) →
      Heeds input v (k true) (s.moveTo (s.current + 1)) post)
    (neg : input.kindAt s.current ≠ some kind → Heeds input v (k false) s post) :
    Heeds input v (Grammar.accept input kind >>= k) s post := by
  have taken : Heeds input v (Grammar.accept input kind) s fun b t =>
      (b = true ∧ input.kindAt s.current = some kind ∧ input.EndsFrom (s.current + 1) ∧
        t = s.moveTo (s.current + 1)) ∨
      (b = false ∧ input.kindAt s.current ≠ some kind ∧ t = s) := by
    refine branch ends (fun here => ?_) fun other => pure (.inr ⟨rfl, other, rfl⟩)
    exact advance ends here hend fun _ _ ends => pure (.inl ⟨rfl, here, ends, rfl⟩)
  refine taken.bind ?_
  rintro _ _ (⟨rfl, here, ends, rfl⟩ | ⟨rfl, other, rfl⟩)
  · exact pos here ends
  · exact neg other

theorem acceptMany {kind : Token.Kind} {k : Nat → ParseM α} {bound : Nat}
    (ends : input.EndsFrom s.current) (hend : kind ≠ .endOfInput)
    (enough : input.tokens.size < s.current + bound)
    (next : ∀ n, input.SignsAt kind s.current n → input.kindAt (s.current + n) ≠ some kind →
      input.EndsFrom (s.current + n) → Heeds input v (k n) (s.moveTo (s.current + n)) post) :
    Heeds input v (Grammar.acceptMany input kind bound >>= k) s post := by
  have taken : Heeds input v (Grammar.acceptMany input kind bound) s fun n t =>
      input.SignsAt kind s.current n ∧ input.kindAt (s.current + n) ≠ some kind ∧
        input.EndsFrom (s.current + n) ∧ t = s.moveTo (s.current + n) := by
    clear next
    induction bound generalizing s with
    | zero =>
      have := ends.lt
      omega
    | succ bound ih =>
      unfold Grammar.acceptMany
      refine accept ends hend (fun here ends => ?_) fun other => ?_
      · simp only [if_true]
        refine (ih ends (by simp only [State.current_moveTo]; omega)).bind ?_
        simp only [State.current_moveTo, State.moveTo_moveTo]
        rintro n _ ⟨signs, other, ends, rfl⟩
        rw [show s.current + 1 + n = s.current + (n + 1) by omega] at other ends ⊢
        refine pure ⟨fun i hi => ?_, other, ends, rfl⟩
        cases i with
        | zero => exact here
        | succ i =>
          have := signs i (by omega)
          rwa [show s.current + 1 + i = s.current + (i + 1) by omega] at this
      · exact pure ⟨Input.signsAt_zero, other, ends, rfl⟩
  refine taken.bind ?_
  rintro n _ ⟨signs, other, ends, rfl⟩
  exact next n signs other ends

theorem opensArguments {k : Bool → ParseM α} (ends : input.EndsFrom s.current)
    (pos : input.OpensArguments s.current → Heeds input v (k true) s post)
    (neg : ¬ input.OpensArguments s.current → Heeds input v (k false) s post) :
    Heeds input v (Grammar.opensArguments input >>= k) s post := by
  have seen : Heeds input v (Grammar.opensArguments input) s fun b t =>
      (b = true ∧ input.OpensArguments s.current ∧ t = s) ∨
        (b = false ∧ ¬ input.OpensArguments s.current ∧ t = s) := by
    refine branch ends (fun bracket => current ?_) fun other => ?_
    · cases pair : pairAt input s.current .leftBracket with
      | true =>
        exact pure (.inr ⟨rfl, fun opens => by simp [opens.2] at pair, rfl⟩)
      | false => exact pure (.inl ⟨rfl, ⟨bracket, pair⟩, rfl⟩)
    · exact pure (.inr ⟨rfl, fun opens => other opens.1, rfl⟩)
  refine seen.bind ?_
  rintro _ _ (⟨rfl, opens, rfl⟩ | ⟨rfl, other, rfl⟩)
  · exact pos opens
  · exact neg other

/-! ## Brackets -/

theorem close {closer : Closer} {k : Bool → ParseM α} (ends : input.EndsFrom s.current)
    (pos : input.ClosesAt closer s.current → input.EndsFrom (s.current + closer.width) →
      Heeds input v (k true) (s.moveTo (s.current + closer.width)) post)
    (neg : ¬ input.ClosesAt closer s.current →
      Heeds input v (k false) (s.expect (.closer closer)) post) :
    Heeds input v (Grammar.close input closer >>= k) s post := by
  have missing (other : ¬ input.ClosesAt closer s.current) :
      Heeds input v (do
        Grammar.expect (.closer closer)
        return false) s fun b t =>
          (b = true ∧ input.ClosesAt closer s.current ∧
            input.EndsFrom (s.current + closer.width) ∧
            t = s.moveTo (s.current + closer.width)) ∨
          (b = false ∧ ¬ input.ClosesAt closer s.current ∧ t = s.expect (.closer closer)) :=
    expect (pure (.inr ⟨rfl, other, rfl⟩))
  have taken : Heeds input v (Grammar.close input closer) s fun b t =>
      (b = true ∧ input.ClosesAt closer s.current ∧
        input.EndsFrom (s.current + closer.width) ∧
        t = s.moveTo (s.current + closer.width)) ∨
      (b = false ∧ ¬ input.ClosesAt closer s.current ∧ t = s.expect (.closer closer)) := by
    unfold Grammar.close
    by_cases double : closer = .doubleBracket
    · subst double
      simp only [if_true]
      refine current ?_
      cases pair : pairAt input s.current Closer.doubleBracket.kind with
      | true =>
        obtain ⟨first, second⟩ := Input.kindAt_of_pairAt pair
        simp only [if_true]
        refine advance ends first (by decide) fun _ _ ends => ?_
        refine advance ends second (by decide) fun _ _ ends => ?_
        exact pure (.inl ⟨rfl, pair, ends, rfl⟩)
      | false => exact missing (by simpa [Input.ClosesAt, Closer.kind] using pair)
    · simp only [if_neg double]
      have closes : input.ClosesAt closer s.current ↔
          input.kindAt s.current = some closer.kind := by
        cases closer <;> first | exact absurd rfl double | exact Iff.rfl
      have width : closer.width = 1 := by
        cases closer <;> first | exact absurd rfl double | rfl
      refine accept ends (by cases closer <;> decide) (fun here ends => ?_) fun other => ?_
      · exact pure (.inl ⟨rfl, closes.mpr here, width ▸ ends, width ▸ rfl⟩)
      · exact missing fun h => other (closes.mp h)
  refine taken.bind ?_
  rintro _ _ (⟨rfl, closes, ends, rfl⟩ | ⟨rfl, other, rfl⟩)
  · exact pos closes ends
  · exact neg other

/-- Brackets are too many for the cap, and the verdict says so, or they are gone through. -/
theorem nested {m : ParseM α} {place : Nat} {opening : Token}
    (tooDeep : ∀ limit, input.config.exceededCap? (s.depth + 1) = some limit →
      v.abort? input = some (.rejected place ⟨.nestedTooDeeply (some limit), opening⟩))
    (inner : input.config.exceededCap? (s.depth + 1) = none →
      Heeds input v m (s.atDepth (s.depth + 1)) fun a t => post a (t.atDepth s.depth)) :
    Heeds input v (Grammar.nested input place opening m) s post := by
  unfold Heeds Grammar.nested
  cases cap : input.config.exceededCap? (s.depth + 1) with
  | some limit =>
    simp only [cap]
    exact tooDeep limit cap
  | none =>
    have inside := inner cap
    unfold Heeds State.atDepth at inside
    simp only [cap]
    cases done : m { s with depth := s.depth + 1 } with
    | ok a t =>
      rw [done] at inside
      exact inside
    | error abort t =>
      rw [done] at inside
      exact inside

end Heeds
end Grammar
end Formula
