import Formula.Proofs.Grammar.Composition
import Formula.Proofs.Grammar.InputEnd

/-! # Parses that are cut short

Two ways to apply rules may differ only in that one of them stops the parse where the other goes
on (`Unless`).  As nothing takes up a parse that has stopped, the parses that they make do the
same, or the one is cut short for the same reason.

So it is with the allowance for rules at work: a larger one changes nothing but that the parse
is not cut short for the lack of it (`parseWithin_of_le`).  As the usual allowance is never used
up, a parse with any other one ends as usual, or for want of allowance (`parseWithin_cases`).
-/
namespace Formula
namespace Grammar

/-- The second step does what the first one does, or it stops the parse for a reason of a
kind. -/
def Unless {α : Type} (cut : Abort → Prop) (m m' : ParseM α) : Prop :=
  ∀ s, m' s = m s ∨ ∃ abort t, m' s = .error abort t ∧ cut abort

namespace Unless
variable {α β : Type} {cut : Abort → Prop} {input : Input}

theorem refl (m : ParseM α) : Unless cut m m :=
  fun _ => .inl rfl

theorem bind {m m' : ParseM β} {f f' : β → ParseM α} (first : Unless cut m m')
    (next : ∀ b, Unless cut (f b) (f' b)) : Unless cut (m >>= f) (m' >>= f') := by
  intro s
  rcases first s with same | ⟨abort, t, stopped, reason⟩
  · rw [bind_apply, bind_apply, same]
    cases m s with
    | ok b t => exact next b t
    | error abort t => exact .inl rfl
  · refine .inr ⟨abort, t, ?_, reason⟩
    rw [bind_apply, stopped]

theorem nested {m m' : ParseM α} (place : Nat) (opening : Token) (h : Unless cut m m') :
    Unless cut (Grammar.nested input place opening m)
      (Grammar.nested input place opening m') := by
  intro s
  unfold Grammar.nested
  dsimp only
  cases input.config.exceededCap? (s.depth + 1) with
  | some limit => exact .inl rfl
  | none =>
    dsimp only
    rcases h { s with depth := s.depth + 1 } with same | ⟨abort, t, stopped, reason⟩
    · exact .inl (by rw [same])
    · exact .inr ⟨abort, { t with depth := s.depth }, by rw [stopped], reason⟩

/-- Elementary steps do what they do, whatever they give. -/
theorem compositional (input : Input) (cut : Abort → Prop) :
    Compositional input .nothing (Unless cut) where
  pure _ := refl _
  bind := bind
  mark next := (refl _).bind fun place => next place trivial
  look next := (refl _).bind fun t => next t trivial
  opening next := (refl _).bind fun place => (refl _).bind fun t => next place t trivial
  nested _ := nested _ _
  rewind _ := refl _
  advance := refl _
  expect _ := refl _
  valueless _ _ _ := refl _

theorem remembered {rule : Rule} {m m' : ParseM (Option Expr)} (h : Unless cut m m') :
    Unless cut (Grammar.remembered input rule m) (Grammar.remembered input rule m') := by
  have attempts := (compositional input cut).attempt h
  unfold Grammar.remembered
  split
  · refine (refl _).bind fun start => (refl _).bind fun s => ?_
    split
    · exact refl _
    · exact refl _
    · exact (refl _).bind fun _ => attempts.bind fun _ => refl _
  · exact attempts

/-- A parse is cut short only if its loosest rule is. -/
theorem conclude {m m' : ParseM (Option Expr)} (h : Unless cut m m') :
    Unless cut (Grammar.conclude input m) (Grammar.conclude input m') := by
  refine h.bind ?_
  rintro (_ | e)
  · exact refl _
  · exact refl _

end Unless

/-! ## The allowance -/

/-- The rules at work have used up their allowance. -/
def Abort.Exhausted (input : Input) (abort : Abort) : Prop :=
  abort = .outOfTokens ∨
    ∃ place t, input.tokens[place]? = some t ∧
      abort = .rejected place ⟨.nestedTooDeeply none, t⟩

section Allowance
variable {input : Input} {less more : Nat}

/-- **With a smaller allowance a rule does the same, or it uses up the allowance.** -/
theorem run_of_le (le : less ≤ more) (rule : Rule) :
    Unless (Abort.Exhausted input) (run input more rule) (run input less rule) := by
  induction less generalizing more rule with
  | zero =>
    intro s
    unfold run peek tokenAt
    rw [current_bind_apply, bind_apply, current_bind_apply]
    cases here : input.tokens[s.current]? with
    | none => exact .inr ⟨_, s, rfl, .inl rfl⟩
    | some t => exact .inr ⟨_, s, rfl, .inr ⟨s.current, t, here, rfl⟩⟩
  | succ less ih =>
    obtain ⟨more, rfl⟩ : ∃ n, more = n + 1 := ⟨more - 1, by omega⟩
    exact ((Unless.compositional input _).body (ih (Nat.le_of_succ_le_succ le)) rule).remembered

/-- With a smaller allowance a parse ends in the same way, or it uses up the allowance. -/
theorem parseWithin_of_le (le : less ≤ more) :
    Unless (Abort.Exhausted input) (parseWithin input more) (parseWithin input less) := by
  rw [parseWithin_eq_conclude, parseWithin_eq_conclude]
  exact (run_of_le le .or).conclude

/-- The usual allowance is never used up. -/
theorem not_exhausted_of_parse (ends : input.EndsFrom 0) {abort : Abort} {s : State}
    (h : parse input .start = .error abort s) : ¬ abort.Exhausted input := by
  obtain ⟨v, comes⟩ := exists_comes (o := .start) ends
  have reported := abort_of_parse ends comes h
  rintro (rfl | ⟨place, t, -, rfl⟩)
  · obtain ⟨last, -, isEnd⟩ := ends
    have within := parseWithin_within isEnd input.allowance
    rw [show parseWithin input input.allowance .start = _ from h] at within
    exact within.2
  · cases v with
    | accepted | valueless => cases reported
    | trailing | unexpected | tooDeep => cases (Input.of_blame (Option.some.inj reported)).2.1

/-- **Whatever the allowance is, a parse ends as usual or for want of allowance.** -/
theorem parseWithin_cases (ends : input.EndsFrom 0) (allowance : Nat) :
    parseWithin input allowance .start = parse input .start ∨
      ∃ place t s, parseWithin input allowance .start =
        .error (.rejected place ⟨.nestedTooDeeply none, t⟩) s := by
  rcases Nat.le_total allowance input.allowance with le | ge
  · rcases parseWithin_of_le le .start with same | ⟨_, s, stopped, rfl | ⟨place, t, -, rfl⟩⟩
    · exact .inl same
    · obtain ⟨last, -, isEnd⟩ := ends
      have within := parseWithin_within isEnd allowance
      rw [stopped] at within
      exact within.2.elim
    · exact .inr ⟨place, t, s, stopped⟩
  · rcases parseWithin_of_le ge .start with same | ⟨_, s, stopped, exhausted⟩
    · exact .inl same.symm
    · exact absurd exhausted (not_exhausted_of_parse ends stopped)

end Allowance
end Grammar
end Formula
