import Formula.Proofs.Grammar.Shortfall

/-! # How a parse ends

A parse ends where the loosest rule stops, in front of the end of the input or of some
other token.  `Input.conclusion` says what is reported then: an expression, or an error at
the place where the rule stopped or at the furthest failure.
-/
namespace Formula
namespace Grammar

/-! ## The end of the input lies ahead -/

/-- From a place on there is a token that marks the end of the input. -/
def Input.EndsFrom (input : Input) (p : Nat) : Prop :=
  ∃ n, p ≤ n ∧ input.kindAt n = some .endOfInput

section EndsFrom
variable {input : Input} {p q : Nat} {first : Token}

theorem Input.EndsFrom.lt (ends : input.EndsFrom p) : p < input.tokens.size := by
  obtain ⟨n, le, hn⟩ := ends
  exact Nat.lt_of_le_of_lt le (Input.kindAt_lt hn)

theorem Input.EndsFrom.token (ends : input.EndsFrom p) :
    ∃ first, input.tokens[p]? = some first :=
  ⟨_, Array.getElem?_eq_getElem ends.lt⟩

/-- The end does not lie behind a token that is not it. -/
theorem Input.EndsFrom.next (ends : input.EndsFrom p) (h : input.tokens[p]? = some first)
    (hend : first.kind ≠ .endOfInput) : input.EndsFrom (p + 1) := by
  obtain ⟨n, le, hn⟩ := ends
  refine ⟨n, ?_, hn⟩
  rcases Nat.lt_or_eq_of_le le with lt | rfl
  · exact lt
  · rw [Input.kindAt_of_getElem? h] at hn
    exact absurd (Option.some.inj hn) hend

end EndsFrom

/-! ## What is reported -/

/-- An error that shows at a place. -/
def Input.blame (input : Input) (place : Nat) (cause : ParseError.Cause) : Abort :=
  match input.tokens[place]? with
  | some t => .rejected place ⟨cause, t⟩
  | none => .outOfTokens

/-- What a parse reports when the loosest rule has made a result of the tokens up to
`stop`, with a shortfall. -/
def Input.conclusion (input : Input) (result : Option Expr) (stop : Nat) (f : Shortfall) :
    Except Abort Expr :=
  match result with
  | none => .error (input.blame f.place (.unexpectedToken f.needed.texts))
  | some e =>
    if input.kindAt stop = some .endOfInput then .ok e
    else if f.place ≤ stop then .error (input.blame stop .trailingInput)
    else .error (input.blame f.place (.unexpectedToken f.needed.texts))

/-- What is reported, as the outcome of a step that leaves a state. -/
def Abort.reported {α : Type} (s : State) : Except Abort α → EStateM.Result Abort State α
  | .ok a => .ok a s
  | .error abort => .error abort s

section Conclusion
variable {input : Input} {s : State} {result : Option Expr} {stop : Nat} {f : Shortfall}

/-- A token that is there can be blamed. -/
theorem Input.blame_of_getElem? {place : Nat} {t : Token} (h : input.tokens[place]? = some t)
    (cause : ParseError.Cause) : input.blame place cause = .rejected place ⟨cause, t⟩ := by
  simp [blame, h]

/-- What is blamed tells the place, the cause and the token. -/
theorem Input.of_blame {place q : Nat} {cause : ParseError.Cause} {error : ParseError}
    (h : input.blame q cause = .rejected place error) :
    q = place ∧ error.cause = cause ∧ input.tokens[q]? = some error.found := by
  unfold Input.blame at h
  split at h
  · next here =>
    cases h
    exact ⟨rfl, rfl, here⟩
  · cases h

theorem reject_eq_blame {α : Type} (place : Nat) (cause : ParseError.Cause) :
    (reject input place cause : ParseM α) s = .error (input.blame place cause) s := by
  unfold reject tokenAt Input.blame
  cases input.tokens[place]? <;> rfl

/-- Where the loosest rule ends decides what a parse reports. -/
theorem parseWithin_of_run {n : Nat} {t : State} (ends : input.EndsFrom t.current)
    (h : run input n .or s = .ok result t) :
    parseWithin input n s =
      Abort.reported t (input.conclusion result t.current t.shortfall) := by
  have furthest {α : Type} : (rejectFurthest input : ParseM α) t =
      .error (input.blame t.furthest (.unexpectedToken t.expected.texts)) t :=
    reject_eq_blame _ _
  unfold parseWithin
  rw [bind_apply, h]
  cases result with
  | none => exact furthest
  | some e =>
    obtain ⟨first, hfirst⟩ := ends.token
    have kind := Input.kindAt_of_getElem? hfirst
    have check : Grammar.check input .endOfInput t = .ok (first.kind == .endOfInput) t := by
      unfold Grammar.check
      rw [bind_apply, Steady.peek hfirst t rfl, State.proceed_none]
      rfl
    dsimp only
    rw [bind_apply, check]
    dsimp only
    unfold Input.conclusion
    by_cases isEnd : first.kind = .endOfInput
    · simp only [kind, isEnd, BEq.rfl, if_true]
      rfl
    · simp only [kind, beq_false_of_ne isEnd, Bool.false_eq_true, Option.some.injEq, isEnd,
        if_false]
      rw [get_bind_apply]
      show (if t.furthest ≤ t.current then reject input t.current .trailingInput
          else rejectFurthest input) t =
        Abort.reported t (if t.furthest ≤ t.current then _ else _)
      by_cases trailing : t.furthest ≤ t.current
      · rw [if_pos trailing, if_pos trailing]
        exact reject_eq_blame _ _
      · rw [if_neg trailing, if_neg trailing]
        exact furthest

end Conclusion

end Grammar
end Formula
