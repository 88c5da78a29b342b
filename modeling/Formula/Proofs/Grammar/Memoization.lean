import Formula.Proofs.Grammar.LevelOutcome
import Formula.Reading

/-! # Remembering does not change a parse

A rule finds its result remembered only if it was applied at the same place before.
That never happens within a parse: a rule is applied in states that are `Ready` for it,
and there nothing is remembered of it.  So a parse with memory takes the same steps as
one without, and all that differs is what is left in memory.

The same induction says how every rule ends (`run_outcome`).  What a parse returns is
derived by the reference grammar, whatever the dialect.
-/
namespace Formula
namespace Grammar

/-- The state with one more thing remembered. -/
def State.remember (s : State) (rule : Rule) (place : Nat) (entry : Memo.Entry) : State :=
  { s with memo := s.memo.store rule place entry }

section Steps
variable {α β : Type} {input : Input} {rule : Rule} {s : State}
  {m₁ m₂ : ParseM (Option Expr)}

/-! ## One rule -/

/-- A rule that does not apply leaves the cursor in its place. -/
theorem SideBySide.attempt {post : Option Expr → State → Prop} (h : SideBySide m₁ m₂ s post) :
    SideBySide (attempt m₁) (attempt m₂) s fun r t =>
      match r with
      | some e => post (some e) t
      | none => ∃ u, post none u ∧ t = u.moveTo s.current := by
  unfold Grammar.attempt
  refine SideBySide.current.bind ?_
  rintro _ _ ⟨rfl, rfl⟩
  refine h.bind ?_
  rintro (_ | e) u hu
  · refine SideBySide.rewind.bind ?_
    rintro _ _ rfl
    exact .pure ⟨u, hu, rfl⟩
  · exact .pure hu

/-- A rule is asked for the place of the cursor. -/
theorem remembered_apply (on : input.config.memoize = true) :
    remembered input rule m₁ s =
      match s.memo.find? rule s.current with
      | some .inProgress => .ok none s
      | some (.done result stop) => .ok result (s.moveTo stop)
      | none =>
        match attempt m₁ (s.remember rule s.current .inProgress) with
        | .ok r t => .ok r (t.remember rule s.current (.done r t.current))
        | .error e t => .error e t := by
  unfold remembered
  rw [if_pos on, current_bind_apply, get_bind_apply]
  cases s.memo.find? rule s.current with
  | some entry =>
    cases entry with
    | inProgress | done => rfl
  | none =>
    show (Grammar.attempt m₁ >>= _) (s.remember rule s.current .inProgress) = _
    rw [bind_apply]
    cases Grammar.attempt m₁ (s.remember rule s.current .inProgress) <;> rfl

/-- A rule that is asked for the place where it is at work does not apply. -/
theorem remembered_of_atWork (on : input.config.memoize = true)
    (atWork : s.memo.find? rule s.current = some .inProgress) :
    remembered input rule m₁ s = .ok none s := by
  rw [remembered_apply on, atWork]

/-- What is remembered of a rule is its result, and it moves the cursor to where it
stopped. -/
theorem remembered_of_hit {result : Option Expr} {stop : Nat} (on : input.config.memoize = true)
    (hit : s.memo.find? rule s.current = some (.done result stop)) :
    remembered input rule m₁ s = .ok result (s.moveTo stop) := by
  rw [remembered_apply on, hit]

/-- Where nothing is remembered of a rule it is applied, and its result is kept. -/
theorem remembered_of_miss (on : input.config.memoize = true)
    (miss : s.memo.find? rule s.current = none) :
    remembered input rule m₁ s =
      match attempt m₁ (s.remember rule s.current .inProgress) with
      | .ok r t => .ok r (t.remember rule s.current (.done r t.current))
      | .error e t => .error e t := by
  rw [remembered_apply on, miss]

theorem remembered_of_off (off : input.config.memoize = false) :
    remembered input rule m₁ = attempt m₁ := by
  unfold remembered
  rw [if_neg (by simp [off])]

theorem Ready.entered (ready : Ready input rule s) (entry : Memo.Entry) :
    Entered input rule (s.remember rule s.current entry) where
  furthest_le := ready.furthest_le
  before := (ready.before.of_le (Nat.le_succ _)).store (.inr ⟨rfl, Nat.lt_succ_self _⟩)
  opening := ready.opening

/-- How a rule ends does not depend on its own result being remembered. -/
theorem Outcome.remember {r : Option Expr} {t : State} (outcome : Outcome input rule s r t)
    (entry : Memo.Entry) : Outcome input rule s r (t.remember rule s.current entry) := by
  have store {memo : Memo} (h : memo.Before s.current Rule.count) :
      (memo.store rule s.current entry).Before s.current Rule.count :=
    h.store (.inr ⟨rfl, Rule.index_lt_count rule⟩)
  cases r with
  | some e =>
    obtain ⟨derives, ⟨furthest, before⟩ | stuck⟩ := outcome
    · exact ⟨derives, .inl ⟨furthest, before.store (.inl derives.lt)⟩⟩
    · exact ⟨derives, .inr stuck⟩
  | none =>
    have refused : Refused input rule s t := outcome
    show Refused input rule s (t.remember rule s.current entry)
    unfold Refused at refused ⊢
    split at refused
    · exact refused.imp (fun absent => ⟨absent.1, store absent.2⟩) id
    · exact refused.imp (fun absent => ⟨absent.1, store absent.2⟩) id
    · exact refused

/-- A rule that does not apply leaves the cursor in its place, and ends as it would. -/
theorem attempt_outcome (applied : SideBySide m₁ m₂ s (Outcome input rule s)) :
    SideBySide (attempt m₁) (attempt m₂) s
      fun r t => Outcome input rule s r t ∧ (r = none → t.current = s.current) := by
  refine applied.attempt.mono ?_
  rintro (_ | e) u h
  · obtain ⟨u, outcome, rfl⟩ := h
    exact ⟨outcome, fun _ => rfl⟩
  · exact ⟨h, nofun⟩

/-- A rule that marks its place while it is at work, and keeps its result, runs side by side with
one that does not. -/
theorem noted_outcome {m : ParseM (Option Expr)} (ready : Ready input rule s)
    (applied : ∀ t, Entered input rule t → SideBySide m₁ m₂ t (Outcome input rule t))
    (noted : m s =
      match attempt m₁ (s.remember rule s.current .inProgress) with
      | .ok r t => .ok r (t.remember rule s.current (.done r t.current))
      | .error e t => .error e t) :
    SideBySide m (attempt m₂) s
      fun r t => Outcome input rule s r t ∧ (r = none → t.current = s.current) := by
  -- The mark that the rule is at work makes no difference to it.
  obtain ⟨same, outcome⟩ := attempt_outcome (applied _ (ready.entered .inProgress))
  have forget : (s.remember rule s.current .inProgress).forget = s.forget := rfl
  rw [forget] at same
  unfold SideBySide
  rw [same, noted]
  cases done : attempt m₁ (s.remember rule s.current .inProgress) with
  | ok r t =>
    refine ⟨rfl, fun _ _ h => ?_⟩
    cases h
    obtain ⟨outcome, back⟩ := outcome r t done
    exact ⟨Outcome.remember (s := s) outcome _, back⟩
  | error e t =>
    refine ⟨rfl, fun _ _ h => ?_⟩
    cases h

/-- A rule runs side by side with itself if what it does at the place does. -/
theorem remembered_outcome (ready : Ready input rule s)
    (applied : ∀ t, Entered input rule t → SideBySide m₁ m₂ t (Outcome input rule t)) :
    SideBySide (remembered input rule m₁) (remembered input.forgetful rule m₂) s
      fun r t => Outcome input rule s r t ∧ (r = none → t.current = s.current) := by
  have off : input.forgetful.config.memoize = false := rfl
  rw [remembered_of_off off]
  cases memoize : input.config.memoize with
  | false =>
    rw [remembered_of_off memoize]
    exact attempt_outcome
      (applied s ⟨ready.furthest_le, ready.before.of_le (Nat.le_succ _), ready.opening⟩)
  | true =>
    exact noted_outcome ready applied (remembered_of_miss memoize ready.before.find?_eq_none)

end Steps

/-! ## All rules together -/

/-- Every rule runs side by side with itself, with and without memory, and ends as
`Outcome` says. -/
theorem run_outcome (input : Input) (allowance : Nat) :
    Calls input (run input allowance) (run input.forgetful allowance) := by
  induction allowance with
  | zero =>
    intro rule s _
    unfold run
    refine SideBySide.current.bind ?_
    rintro _ _ ⟨rfl, rfl⟩
    refine SideBySide.peek.bind ?_
    intros
    exact .throw
  | succ allowance ih =>
    intro rule s ready
    exact remembered_outcome ready fun _ entered => body_outcome ih entered

section Parse
variable {input : Input} {s : State}

theorem SideBySide.get {β : Type} {f₁ f₂ : State → ParseM β} {post : β → State → Prop}
    (h : SideBySide (f₁ s) (f₂ s.forget) s post) :
    SideBySide (MonadState.get >>= f₁) (MonadState.get >>= f₂) s post :=
  h

theorem SideBySide.reject {α : Type} {place : Nat} {cause : ParseError.Cause}
    {post : α → State → Prop} :
    SideBySide (reject input place cause) (reject input.forgetful place cause) s post := by
  refine tokenAt.bind ?_
  intros
  exact .throw

/-- What a parse makes of what the loosest rule gives. -/
def conclude (input : Input) (formula : ParseM (Option Expr)) : ParseM Expr := do
  match ← formula with
  | none => rejectFurthest input
  | some e =>
    if ← check input .endOfInput then return e
    else
      let s ← get
      if s.furthest ≤ s.current then reject input s.current .trailingInput
      else rejectFurthest input

theorem parseWithin_eq_conclude (input : Input) (allowance : Nat) :
    parseWithin input allowance = conclude input (run input allowance .or) :=
  rfl

/-- Two parses run side by side if their loosest rules do. -/
theorem conclude_outcome {m₁ m₂ : ParseM (Option Expr)}
    (formula : SideBySide m₁ m₂ .start fun r t => Outcome input .or .start r t ∧
      (r = none → t.current = State.start.current)) :
    SideBySide (conclude input m₁) (conclude input.forgetful m₂) .start
      fun e t => Derives input (.rule .or) 0 t.current e ∧
        input.kindAt t.current = some .endOfInput := by
  refine formula.bind ?_
  rintro (_ | e) t ⟨outcome, -⟩
  · exact .get .reject
  · refine .branch (fun ends => ?_) fun _ _ _ => ?_
    · exact .pure ⟨outcome.1, ends⟩
    · refine .get ?_
      show SideBySide (if t.furthest ≤ t.current then _ else _)
        (if t.furthest ≤ t.current then _ else _) t _
      split
      · exact .reject
      · exact .get .reject

theorem ready_start (input : Input) : Ready input .or .start :=
  ⟨Nat.le_refl _, .empty, nofun⟩

/-- What a parse returns is a formula of the reference grammar that ends at the end of
the input. -/
theorem parseWithin_outcome (input : Input) (allowance : Nat) :
    SideBySide (parseWithin input allowance) (parseWithin input.forgetful allowance) .start
      fun e t => Derives input (.rule .or) 0 t.current e ∧
        input.kindAt t.current = some .endOfInput :=
  conclude_outcome (run_outcome input allowance .or _ (ready_start input))

theorem parseWithin_forgetful (input : Input) (allowance : Nat) :
    parseWithin input.forgetful allowance .start =
      forgetMemo (parseWithin input allowance .start) :=
  (parseWithin_outcome input allowance).1

/-- **Remembering does not change a parse.**  Whether results are remembered or not, a
parse of the same tokens returns the same expression or stops with the same error at the
same place, and leaves the same cursor, count of open brackets, furthest place and
expectations.  The same goes for the outcome of reading a text. -/
theorem parse_memoize (input : Input) (memoize : Bool) (name text : String) :
    forgetMemo (parse { input with config := { input.config with memoize } } .start) =
        forgetMemo (parse input .start) ∧
      (Reading.ofText name text { input.config with memoize }).outcome =
        (Reading.ofText name text input.config).outcome := by
  -- Both parses are compared with the one that remembers nothing.
  have same (tokens : Array Token) (config : Config) (blank : String) (m : Bool)
      (allowance : Nat) :
      forgetMemo (parseWithin ⟨tokens, { config with memoize := m }, blank⟩ allowance .start) =
        forgetMemo (parseWithin ⟨tokens, config, blank⟩ allowance .start) := by
    rw [← parseWithin_forgetful, ← parseWithin_forgetful]
    rfl
  refine ⟨same input.tokens input.config input.blank memoize input.allowance, ?_⟩
  unfold Reading.ofText Reading.ofTextWithin
  cases (Token.scan name text).toExcept with
  | error e => rfl
  | ok tokens =>
    have allowance (config : Config) :
      Input.allowance ⟨tokens.toArray, config, ""⟩ = Rule.count * (tokens.toArray.size + 1) := rfl
    have := same tokens.toArray input.config "" memoize (Rule.count * (tokens.toArray.size + 1))
    simp only [Option.getD_none, allowance]
    revert this
    cases parseWithin ⟨tokens.toArray, { input.config with memoize }, ""⟩ _ .start <;>
      cases parseWithin ⟨tokens.toArray, input.config, ""⟩ _ .start <;>
      simp +contextual [forgetMemo]

end Parse
end Grammar
end Formula
