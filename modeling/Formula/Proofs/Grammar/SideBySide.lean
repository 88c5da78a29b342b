import Formula.Proofs.Grammar.Follow

/-! # Steps of a parse with and without memory

Two steps of a parse run side by side, the first from a state with memory and the
second from the same state without any (`SideBySide`): the second must do what the
first does but for what is remembered, and a result of the first must meet a
postcondition.

Every step that a rule is made of has one lemma here that says what it does.  The
lemma `SideBySide.bind` puts them together.
-/
namespace Formula
namespace Grammar

/-- The same state with nothing remembered. -/
def State.forget (s : State) : State :=
  { s with memo := .empty }

/-- The same outcome with nothing remembered. -/
def forgetMemo {α : Type} : EStateM.Result Abort State α → EStateM.Result Abort State α
  | .ok a s => .ok a s.forget
  | .error e s => .error e s.forget

/-- The same input in the dialect that remembers nothing. -/
def Input.forgetful (input : Input) : Input :=
  { input with config := { input.config with memoize := false } }

/-- The same state with the cursor at another place. -/
def State.moveTo (s : State) (place : Nat) : State :=
  { s with current := place }

/-- The same state with another number of open brackets. -/
def State.atDepth (s : State) (depth : Nat) : State :=
  { s with depth }

/-- The second step does what the first does, but for what is remembered, and the
results of the first meet the postcondition. -/
def SideBySide {α : Type} (m₁ m₂ : ParseM α) (s : State) (post : α → State → Prop) : Prop :=
  m₂ s.forget = forgetMemo (m₁ s) ∧ ∀ a t, m₁ s = .ok a t → post a t

namespace State
variable (s : State) (place other : Nat)

@[simp] theorem current_moveTo : (s.moveTo place).current = place := rfl

@[simp] theorem furthest_moveTo : (s.moveTo place).furthest = s.furthest := rfl

@[simp] theorem memo_moveTo : (s.moveTo place).memo = s.memo := rfl

@[simp] theorem current_atDepth : (s.atDepth place).current = s.current := rfl

@[simp] theorem furthest_atDepth : (s.atDepth place).furthest = s.furthest := rfl

@[simp] theorem memo_atDepth : (s.atDepth place).memo = s.memo := rfl

@[simp] theorem moveTo_moveTo : (s.moveTo place).moveTo other = s.moveTo other := rfl

@[simp] theorem current_expect (e : Expectation) : (s.expect e).current = s.current := by
  unfold expect
  split
  · rfl
  · split <;> rfl

@[simp] theorem memo_expect (e : Expectation) : (s.expect e).memo = s.memo := by
  unfold expect
  split
  · rfl
  · split <;> rfl

/-- The furthest place moves up to the cursor where something is missing. -/
@[simp] theorem furthest_expect (e : Expectation) :
    (s.expect e).furthest = max s.furthest s.current := by
  unfold expect
  split
  · exact (Nat.max_eq_right (Nat.le_of_lt ‹_›)).symm
  · split
    · exact (Nat.max_eq_left (Nat.le_of_not_lt ‹_›)).symm
    · exact (Nat.max_eq_left (Nat.le_of_not_lt ‹_›)).symm

theorem forget_expect (e : Expectation) : (s.expect e).forget = s.forget.expect e := by
  by_cases beyond : s.furthest < s.current
  · simp [expect, forget, beyond]
  · by_cases there : s.current = s.furthest <;> simp [expect, forget, beyond, there]

end State

/-- A step after another: an abort of the first is one of both. -/
theorem bind_apply {α β : Type} (m : ParseM α) (f : α → ParseM β) (s : State) :
    (m >>= f) s =
      match m s with
      | .ok a t => f a t
      | .error e t => .error e t := by
  show EStateM.bind m f s = _
  unfold EStateM.bind
  cases m s <;> rfl

/-- A step that looks at the state first. -/
theorem get_bind_apply {α : Type} (f : State → ParseM α) (s : State) :
    ((get : ParseM State) >>= f) s = f s s :=
  rfl

/-- A step that looks at the place of the cursor first. -/
theorem current_bind_apply {α : Type} (f : Nat → ParseM α) (s : State) :
    (Grammar.current >>= f) s = f s.current s :=
  rfl

namespace SideBySide
variable {α β : Type} {s : State}

theorem pure {a : α} {post : α → State → Prop} (h : post a s) :
    SideBySide (Pure.pure a) (Pure.pure a) s post := by
  refine ⟨rfl, fun b t hb => ?_⟩
  cases hb
  exact h

/-- Steps that run side by side one after the other. -/
theorem bind {m₁ m₂ : ParseM α} {f₁ f₂ : α → ParseM β} {mid : α → State → Prop}
    {post : β → State → Prop} (first : SideBySide m₁ m₂ s mid)
    (next : ∀ a t, mid a t → SideBySide (f₁ a) (f₂ a) t post) :
    SideBySide (m₁ >>= f₁) (m₂ >>= f₂) s post := by
  obtain ⟨same, ends⟩ := first
  unfold SideBySide
  rw [bind_apply, bind_apply, same]
  cases h : m₁ s with
  | ok a t => exact next a t (ends a t h)
  | error e t =>
    refine ⟨rfl, fun b u hb => ?_⟩
    cases hb

theorem mono {m₁ m₂ : ParseM α} {mid post : α → State → Prop}
    (h : SideBySide m₁ m₂ s mid) (imp : ∀ a t, mid a t → post a t) :
    SideBySide m₁ m₂ s post :=
  ⟨h.1, fun a t ha => imp a t (h.2 a t ha)⟩

/-- A result with a constructor around it. -/
theorem map {m₁ m₂ : ParseM α} {f : α → β} {post : β → State → Prop}
    (h : SideBySide m₁ m₂ s fun a t => post (f a) t) :
    SideBySide (f <$> m₁) (f <$> m₂) s post :=
  h.bind fun _ _ ha => pure ha

/-- A step that stops the parse on both sides. -/
theorem throw {e : Abort} {post : α → State → Prop} :
    SideBySide (MonadExcept.throw e : ParseM α) (MonadExcept.throw e) s post := by
  refine ⟨rfl, fun b t hb => ?_⟩
  cases hb

/-! ## The cursor -/

theorem current :
    SideBySide Grammar.current Grammar.current s fun place t => s.current = place ∧ s = t := by
  refine ⟨rfl, fun place t h => ?_⟩
  cases h
  exact ⟨rfl, rfl⟩

theorem rewind {place : Nat} :
    SideBySide (Grammar.rewind place) (Grammar.rewind place) s fun _ t => t = s.moveTo place := by
  refine ⟨rfl, fun _ t h => ?_⟩
  cases h
  rfl

section Tokens
variable {input : Input}

theorem tokenAt {place : Nat} :
    SideBySide (Grammar.tokenAt input place) (Grammar.tokenAt input.forgetful place) s
      fun first t => input.tokens[place]? = some first ∧ s = t := by
  unfold Grammar.tokenAt
  simp only [Input.forgetful]
  cases h : input.tokens[place]? with
  | none => exact throw
  | some first => exact pure ⟨rfl, rfl⟩

theorem peek :
    SideBySide (Grammar.peek input) (Grammar.peek input.forgetful) s
      fun first t => input.tokens[s.current]? = some first ∧ s = t := by
  refine current.bind ?_
  rintro _ _ ⟨rfl, rfl⟩
  exact tokenAt

theorem check {kind : Token.Kind} :
    SideBySide (Grammar.check input kind) (Grammar.check input.forgetful kind) s
      fun b t => (∃ k, input.kindAt s.current = some k ∧ b = (k == kind)) ∧ s = t := by
  refine peek.bind ?_
  rintro first _ ⟨hfirst, rfl⟩
  exact pure ⟨⟨first.kind, Input.kindAt_of_getElem? hfirst, rfl⟩, rfl⟩

/-- Two ways to go on, of which the token at the cursor chooses one. -/
theorem branch {kind : Token.Kind} {f₁ f₂ g₁ g₂ : ParseM α} {post : α → State → Prop}
    (pos : input.kindAt s.current = some kind → SideBySide f₁ f₂ s post)
    (neg : ∀ other, input.kindAt s.current = some other → other ≠ kind →
      SideBySide g₁ g₂ s post) :
    SideBySide (do if ← Grammar.check input kind then f₁ else g₁)
      (do if ← Grammar.check input.forgetful kind then f₂ else g₂) s post := by
  refine check.bind ?_
  rintro _ _ ⟨⟨other, hother, rfl⟩, rfl⟩
  by_cases same : other = kind
  · subst same
    simp only [BEq.rfl, if_true]
    exact pos hother
  · rw [if_neg (by simpa using same), if_neg (by simpa using same)]
    exact neg other hother same

/-- A token is taken unless it marks the end of the input. -/
theorem advance {kind : Token.Kind} (hkind : input.kindAt s.current = some kind)
    (hend : kind ≠ .endOfInput) :
    SideBySide (Grammar.advance input) (Grammar.advance input.forgetful) s
      fun first t => input.tokens[s.current]? = some first ∧
        t = s.moveTo (s.current + 1) := by
  refine peek.bind ?_
  rintro first _ ⟨hfirst, rfl⟩
  have : first.kind ≠ .endOfInput := by
    simp only [Input.kindAt, hfirst, Option.map_some, Option.some.injEq] at hkind
    exact hkind ▸ hend
  simp only [if_pos this]
  refine ⟨rfl, fun _ t h => ?_⟩
  cases h
  exact ⟨hfirst, rfl⟩

theorem accept {kind : Token.Kind} (hend : kind ≠ .endOfInput) :
    SideBySide (Grammar.accept input kind) (Grammar.accept input.forgetful kind) s
      fun b t =>
        (b = true ∧ input.kindAt s.current = some kind ∧ t = s.moveTo (s.current + 1)) ∨
          (b = false ∧ (∃ k, input.kindAt s.current = some k ∧ k ≠ kind) ∧ s = t) := by
  refine branch (fun here => ?_) fun other hother same => ?_
  · refine (advance here hend).bind ?_
    rintro _ _ ⟨-, rfl⟩
    exact pure (.inl ⟨rfl, here, rfl⟩)
  · exact pure (.inr ⟨rfl, ⟨other, hother, same⟩, rfl⟩)

theorem acceptMany {kind : Token.Kind} (hend : kind ≠ .endOfInput) (bound : Nat) :
    SideBySide (Grammar.acceptMany input kind bound)
      (Grammar.acceptMany input.forgetful kind bound) s
      fun n t => input.SignsAt kind s.current n ∧ t = s.moveTo (s.current + n) := by
  induction bound generalizing s with
  | zero => exact pure ⟨Input.signsAt_zero, rfl⟩
  | succ bound ih =>
    refine (accept hend).bind ?_
    rintro _ _ (⟨rfl, hkind, rfl⟩ | ⟨rfl, -, rfl⟩)
    · simp only [if_true]
      refine ih.bind ?_
      rintro n _ ⟨signs, rfl⟩
      refine pure ⟨fun i hi => ?_, ?_⟩
      · cases i with
        | zero => exact hkind
        | succ i =>
          have := signs i (by omega)
          rwa [State.current_moveTo, Nat.add_assoc, Nat.add_comm 1] at this
      · rw [State.moveTo_moveTo, State.current_moveTo, Nat.add_assoc, Nat.add_comm 1]
    · exact pure ⟨Input.signsAt_zero, rfl⟩

/-! ## Expectations and brackets -/

theorem expect {e : Expectation} :
    SideBySide (Grammar.expect e) (Grammar.expect e) s fun _ t => t = s.expect e := by
  constructor
  · show EStateM.Result.ok () (s.forget.expect e) = .ok () (s.expect e).forget
    rw [State.forget_expect]
  · rintro _ t h
    cases h
    rfl

theorem nested {m₁ m₂ : ParseM α} {place : Nat} {opening : Token} {post : α → State → Prop}
    (h : SideBySide m₁ m₂ (s.atDepth (s.depth + 1)) fun a t => post a (t.atDepth s.depth)) :
    SideBySide (Grammar.nested input place opening m₁)
      (Grammar.nested input.forgetful place opening m₂) s post := by
  obtain ⟨same, ends⟩ := h
  have depth : s.forget.depth = s.depth := rfl
  have config : input.forgetful.config.exceededCap? = input.config.exceededCap? := rfl
  have inner : m₂ { s.forget with depth := s.depth + 1 } =
      forgetMemo (m₁ { s with depth := s.depth + 1 }) := same
  unfold State.atDepth at ends
  unfold SideBySide Grammar.nested
  simp only [config, depth, inner]
  cases input.config.exceededCap? (s.depth + 1) with
  | some limit =>
    refine ⟨rfl, fun _ _ h => ?_⟩
    cases h
  | none =>
    cases h₁ : m₁ { s with depth := s.depth + 1 } with
    | ok a t =>
      refine ⟨rfl, fun b u hb => ?_⟩
      cases hb
      exact ends a t h₁
    | error e t =>
      refine ⟨rfl, fun _ _ h => ?_⟩
      cases h

theorem opensArguments :
    SideBySide (Grammar.opensArguments input) (Grammar.opensArguments input.forgetful) s
      fun b t =>
        (b = true ∧ input.OpensArguments s.current ∧ s = t) ∨
          (b = false ∧ ¬ input.OpensArguments s.current ∧ s = t) := by
  refine branch (fun bracket => ?_) fun other hother no_bracket => ?_
  · refine current.bind ?_
    rintro _ _ ⟨rfl, rfl⟩
    have pair : pairAt input.forgetful = pairAt input := rfl
    rw [pair]
    cases h : pairAt input s.current .leftBracket with
    | true => exact pure (.inr ⟨rfl, fun opens => absurd (h.symm.trans opens.2) (by decide), rfl⟩)
    | false => exact pure (.inl ⟨rfl, ⟨bracket, h⟩, rfl⟩)
  · refine pure (.inr ⟨rfl, fun opens => no_bracket ?_, rfl⟩)
    exact Option.some.inj (hother.symm.trans opens.1)

theorem close {closer : Closer} :
    SideBySide (Grammar.close input closer) (Grammar.close input.forgetful closer) s
      fun b t =>
        (b = true ∧ input.ClosesAt closer s.current ∧ t = s.moveTo (s.current + closer.width)) ∨
          (b = false ∧ t = s.expect (.closer closer)) := by
  have missing : SideBySide (α := Bool)
      (do
        Grammar.expect (.closer closer)
        return false)
      (do
        Grammar.expect (.closer closer)
        return false) s fun b t => b = false ∧ t = s.expect (.closer closer) := by
    refine expect.bind ?_
    rintro _ _ rfl
    exact pure ⟨rfl, rfl⟩
  unfold Grammar.close
  by_cases double : closer = .doubleBracket
  · subst double
    dsimp only
    simp only [if_true]
    refine current.bind ?_
    rintro _ _ ⟨rfl, rfl⟩
    have same : pairAt input.forgetful = pairAt input := rfl
    rw [same]
    cases pair : pairAt input s.current Closer.doubleBracket.kind with
    | true =>
      obtain ⟨here, next⟩ := Input.kindAt_of_pairAt pair
      simp only [if_true]
      refine (advance here (by decide)).bind ?_
      rintro _ _ ⟨-, rfl⟩
      refine (advance next (by decide)).bind ?_
      rintro _ _ ⟨-, rfl⟩
      exact pure (.inl ⟨rfl, pair, rfl⟩)
    | false => exact missing.mono fun _ _ h => .inr h
  · simp only [if_neg double]
    have end_ne : closer.kind ≠ .endOfInput := by cases closer <;> decide
    refine (accept end_ne).bind ?_
    rintro _ _ (⟨rfl, hkind, rfl⟩ | ⟨rfl, -, rfl⟩)
    · refine pure (.inl ⟨rfl, ?_, ?_⟩)
      · cases closer <;> first | exact hkind | exact absurd rfl double
      · cases closer <;> first | rfl | exact absurd rfl double
    · exact missing.mono fun _ _ h => .inr h

end Tokens
end SideBySide
end Grammar
end Formula
