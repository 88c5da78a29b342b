import Formula.Proofs.Grammar.InputEnd
import Formula.Proofs.Grammar.Interruption

/-! # No rule is applied twice at one place

A rule is applied in a state that is `Ready` for it, where nothing is remembered of it.  So it
makes no difference to a parse if every rule marks the places where it was applied, and stops the
parse where it finds its own mark (`once`).

A parse under this guard does what the parse does (`parse_once`): whether results are remembered
or not, no rule comes back to a place.  What is remembered within a parse is never looked up, and
going back over tokens never means to read them by the same rule again.
-/
namespace Formula
namespace Grammar

/-! ## Rules on guard -/

section Guard
variable (input : Input)

/-- Apply a rule at the cursor, unless it was applied there before: that stops the parse, in a
way that no parse of tokens with an end stops. -/
def once (rule : Rule) (body : ParseM (Option Expr)) : ParseM (Option Expr) := do
  let start ← current
  match (← get).memo.find? rule start with
  | some _ => throw .outOfTokens
  | none =>
    modify fun s => s.remember rule start .inProgress
    let result ← attempt body
    modify fun s => s.remember rule start (.done result s.current)
    return result

/-- Apply a rule at the cursor, with all rules that it calls on guard. -/
def runOnce : (allowance : Nat) → Rule → ParseM (Option Expr)
  | 0, rule => run input 0 rule
  | allowance + 1, rule => once rule (body input (runOnce allowance) rule)

/-- Read the tokens from the cursor to the end of the input as one formula, with all rules on
guard. -/
def parseOnce (allowance : Nat) : ParseM Expr :=
  conclude input (runOnce input allowance .or)

end Guard

section Once
variable {input : Input} {rule : Rule} {s : State} {m : ParseM (Option Expr)}

theorem once_apply :
    once rule m s =
      match s.memo.find? rule s.current with
      | some _ => .error .outOfTokens s
      | none =>
        match attempt m (s.remember rule s.current .inProgress) with
        | .ok r t => .ok r (t.remember rule s.current (.done r t.current))
        | .error e t => .error e t := by
  unfold once
  rw [current_bind_apply, get_bind_apply]
  cases s.memo.find? rule s.current with
  | some entry => rfl
  | none =>
    show (attempt m >>= _) (s.remember rule s.current .inProgress) = _
    rw [bind_apply]
    cases attempt m (s.remember rule s.current .inProgress) <;> rfl

/-- A rule on guard finds no mark where it is ready to be applied. -/
theorem once_of_ready (ready : Ready input rule s) :
    once rule m s =
      match attempt m (s.remember rule s.current .inProgress) with
      | .ok r t => .ok r (t.remember rule s.current (.done r t.current))
      | .error e t => .error e t := by
  rw [once_apply, ready.before.find?_eq_none]

/-- A rule on guard does what a rule with memory does, or it stops at its mark. -/
theorem Unless.once {m' : ParseM (Option Expr)} (on : input.config.memoize = true)
    (h : Unless (· = .outOfTokens) m m') :
    Unless (· = .outOfTokens) (Grammar.remembered input rule m) (Grammar.once rule m') := by
  intro s
  rw [remembered_apply on, once_apply]
  cases s.memo.find? rule s.current with
  | some entry => exact .inr ⟨_, _, rfl, rfl⟩
  | none =>
    rcases (compositional input _).attempt h (s.remember rule s.current .inProgress) with
      same | ⟨abort, t, stopped, reason⟩
    · exact .inl (same ▸ rfl)
    · refine .inr ⟨abort, t, ?_, reason⟩
      simp only [stopped]

end Once

/-! ## All rules together -/

section Run
variable {input : Input}

/-- **Rules on guard run side by side with rules that remember nothing.** -/
theorem runOnce_outcome (input : Input) (allowance : Nat) :
    Calls input (runOnce input allowance) (run input.forgetful allowance) := by
  induction allowance with
  | zero => exact run_outcome input 0
  | succ allowance ih =>
    intro rule s ready
    have off : input.forgetful.config.memoize = false := rfl
    unfold runOnce run
    rw [remembered_of_off off]
    exact noted_outcome ready (fun _ entered => body_outcome ih entered) (once_of_ready ready)

/-- Rules on guard do what rules with memory do, or one of them stops at its mark. -/
theorem runOnce_unless (on : input.config.memoize = true) (allowance : Nat) (rule : Rule) :
    Unless (· = .outOfTokens) (run input allowance rule) (runOnce input allowance rule) := by
  induction allowance generalizing rule with
  | zero => exact .refl _
  | succ allowance ih => exact .once on ((Unless.compositional input _).body ih rule)

theorem parseOnce_forgetful (input : Input) (allowance : Nat) :
    parseWithin input.forgetful allowance .start =
      forgetMemo (parseOnce input allowance .start) :=
  (conclude_outcome (runOnce_outcome input allowance .or _ (ready_start input))).1

/-- **No rule is applied twice at one place.**  A parse of tokens with an end, in any dialect and
with any allowance for the rules, is not stopped by a rule that finds its own mark where it is
applied, and it ends in the same way without these marks.  So every rule is applied at most once
at each place.  Where results are remembered the marks are what is remembered: none of it is ever
found. -/
theorem parse_once (input : Input) {last : Nat} (ends : input.kindAt last = some .endOfInput)
    (allowance : Nat) :
    (∀ s, parseOnce input allowance .start ≠ .error .outOfTokens s) ∧
      forgetMemo (parseOnce input allowance .start) =
        forgetMemo (parseWithin input allowance .start) ∧
      (input.config.memoize = true →
        parseOnce input allowance .start = parseWithin input allowance .start) := by
  have same : forgetMemo (parseOnce input allowance .start) =
      forgetMemo (parseWithin input allowance .start) := by
    rw [← parseOnce_forgetful, ← parseWithin_forgetful]
  have quiet (s : State) : parseOnce input allowance .start ≠ .error .outOfTokens s := by
    intro stopped
    have blamed := parseWithin_within ends allowance
    rw [stopped] at same
    cases done : parseWithin input allowance .start with
    | ok e t =>
      rw [done] at same
      exact nomatch same
    | error abort t =>
      rw [done] at same blamed
      obtain rfl : Abort.outOfTokens = abort := (EStateM.Result.error.inj same).1
      exact blamed.2
  refine ⟨quiet, same, fun on => ?_⟩
  rcases (runOnce_unless on allowance .or).conclude .start with same | ⟨_, t, stopped, rfl⟩
  · exact same
  · exact absurd stopped (quiet t)

/-- Arguments that are not closed: the name is taken for a symbol instead, and no rule comes back
to it. -/
theorem parse_once_indices :
    let token (kind : Token.Kind) (lexeme : String) (offset : Int) :=
      (⟨kind, lexeme, if kind = .number then some lexeme else none,
        ⟨"", 1, offset + 1, offset⟩⟩ : Token)
    let input : Input :=
      { tokens := #[token .identifier "f" 0, token .leftBracket "[" 1, token .number "1" 2,
          token .endOfInput "" 3]
        config := { memoize := false } }
    input.kindAt 3 = some .endOfInput ∧
      (∀ s, parseOnce input input.allowance .start ≠ .error .outOfTokens s) ∧
      forgetMemo (parseOnce input input.allowance .start) = forgetMemo (parse input .start) := by
  intro token input
  have ends : input.kindAt 3 = some .endOfInput := rfl
  obtain ⟨quiet, same, -⟩ := parse_once input ends input.allowance
  exact ⟨ends, quiet, same⟩

end Run
end Grammar
end Formula
