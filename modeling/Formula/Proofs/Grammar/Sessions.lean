import Formula.Grammar.Session
import Formula.Proofs.Grammar.Remembered

/-! # Sessions with and without memory

A session that remembers results meets them again: what an earlier parse found out about a
place is not found out once more, and its failures are not recorded again.  Neither shows.
Side by side with a session that remembers nothing it reports the same and leaves the same
state but for the memory (`Session.perform_memoize`).

Both sessions go *abreast* (`Session.Abreast`): their cursors and shortfalls are equal, the
memory of the first is coherent, and no rule is at work in it.
-/
namespace Formula
namespace Grammar

/-! ## Sessions -/

namespace Session

/-- A step of a session: the cursor is moved to a place, or the tokens are parsed. -/
inductive Step
  | seek (place : Nat)
  | parse

/-- The outcomes of the parses among some steps, and the session behind them. -/
def perform (session : Session) : List Step → List (Except Abort Expr) × Session
  | [] => ([], session)
  | .seek place :: steps => (session.seek place).perform steps
  | .parse :: steps =>
    let next := session.parse
    let later := next.2.perform steps
    (next.1 :: later.1, later.2)

/-- Two sessions over the same tokens agree on all but their memories.  That of the first is
coherent, and the second does not remember anything. -/
structure Abreast (s u : Session) : Prop where
  input : u.input = s.input.forgetful
  cursor : u.cursor = s.cursor
  depth : u.state.depth = s.state.depth
  shortfall : u.state.shortfall = s.state.shortfall
  ends : ∃ p : Nat, s.cursor = p ∧ s.input.EndsFrom p
  coherent : Coherent s.input s.state.memo s.state.shortfall
  idle : ∀ rule p, s.state.memo.find? rule p ≠ some .inProgress
  inside : s.state.furthest < s.input.tokens.size
  fromEnd : s.fromEnd = .empty

section Sessions
variable {s u : Session}

/-- A parse from a place reports what the loosest rule makes of it, and leaves the cursor
where the rule stopped. -/
theorem parse_of_run {p : Nat} {result : Option Expr} {t : State} (cursor : s.cursor = p)
    (ends : s.input.EndsFrom t.current)
    (h : run s.input s.input.allowance .or { s.state with current := p } = .ok result t) :
    s.parse = (s.input.conclusion result t.current t.shortfall,
      { s with state := t, cursor := t.current }) := by
  have parsed : s.parse = s.parseFrom p := by
    unfold parse
    rw [cursor]
  rw [parsed]
  unfold parseFrom Grammar.parse
  rw [parseWithin_of_run ends h]
  cases s.input.conclusion result t.current t.shortfall <;> rfl

/-- The next parse, in a session that remembers results and in any other from the same place
that does not. -/
theorem Abreast.parse_eq (abreast : Abreast s u)
    (uncapped : s.input.config.maxNestingDepth = none) (valued : s.input.Valued) :
    ∃ result stop f memo, s.input.EndsFrom stop ∧ f.place < s.input.tokens.size ∧
      Coherent s.input memo (s.state.shortfall.join f) ∧ memo.NoBusierThan s.state.memo ∧
      s.parse = (s.input.conclusion result stop (s.state.shortfall.join f),
        { s with state := { s.state.proceed stop f with memo }, cursor := stop }) ∧
      ∀ v : Session, v.input = s.input.forgetful → v.cursor = s.cursor →
        v.parse = (s.input.conclusion result stop (v.state.shortfall.join f),
          { v with state := v.state.proceed stop f, cursor := stop }) := by
  obtain ⟨p, cursor, ends⟩ := abreast.ends
  obtain ⟨result, stop, f, makes, faithful, le, ends', -, -⟩ :=
    @exists_makes s.input .or p uncapped valued ends nofun
  have enough : s.input.Enough s.input.allowance .or p :=
    Nat.le_add_right_of_le (Nat.le_add_right _ _)
  obtain ⟨memo, remembering, coherent, less⟩ :=
    faithful _ enough { s.state with current := p } rfl abreast.coherent
      fun rule q busy => absurd busy (abreast.idle rule q)
  refine ⟨result, stop, f, memo, ends', ?_, coherent, less, parse_of_run cursor ends' remembering,
    fun v input at_place => ?_⟩
  · have := ends.lt
    omega
  · have forgetting := makes _ enough { v.state with current := p } rfl
    have allowance : v.input.allowance = s.input.allowance := by rw [input]; rfl
    rw [← input, ← allowance] at forgetting
    rw [parse_of_run (at_place.trans cursor) (input ▸ ends') forgetting, input]
    rfl

/-- **A parse keeps sessions abreast**, and it reports the same in both. -/
theorem Abreast.parse (abreast : Abreast s u) (uncapped : s.input.config.maxNestingDepth = none)
    (valued : s.input.Valued) :
    s.parse.1 = u.parse.1 ∧ Abreast s.parse.2 u.parse.2 ∧ s.parse.2.input = s.input := by
  obtain ⟨result, stop, f, memo, ends, inside, coherent, less, sParse, parsed⟩ :=
    abreast.parse_eq uncapped valued
  have shortfall : u.state.shortfall.join f = s.state.shortfall.join f :=
    congrArg (Shortfall.join · f) abreast.shortfall
  rw [sParse, parsed u abreast.input abreast.cursor, shortfall]
  refine ⟨rfl, ⟨abreast.input, rfl, abreast.depth, shortfall, ⟨stop, rfl, ends⟩, coherent, ?_, ?_,
    abreast.fromEnd⟩, rfl⟩
  · exact fun rule q busy => abreast.idle rule q (less rule q busy)
  · show (s.state.shortfall.join f).place < _
    rw [Shortfall.place_join]
    exact Nat.max_lt.mpr ⟨abreast.inside, inside⟩

theorem Abreast.seek (abreast : Abreast s u) {place : Nat} (ends : s.input.EndsFrom place) :
    Abreast (s.seek place) (u.seek place) :=
  { abreast with cursor := rfl, ends := ⟨place, rfl, ends⟩ }

theorem Abreast.perform (abreast : Abreast s u)
    (uncapped : s.input.config.maxNestingDepth = none) (valued : s.input.Valued)
    {steps : List Step} (inside : ∀ place, .seek place ∈ steps → s.input.EndsFrom place) :
    (s.perform steps).1 = (u.perform steps).1 ∧
      Abreast (s.perform steps).2 (u.perform steps).2 ∧ (s.perform steps).2.input = s.input := by
  induction steps generalizing s u with
  | nil => exact ⟨rfl, abreast, rfl⟩
  | cons step steps ih =>
    cases step with
    | seek place =>
      exact ih (abreast.seek (inside place List.mem_cons_self)) uncapped valued
        fun place h => inside place (List.mem_cons_of_mem _ h)
    | parse =>
      obtain ⟨same, next, input⟩ := abreast.parse uncapped valued
      obtain ⟨sameLater, later, inputLater⟩ := ih next (input.symm ▸ uncapped)
        (input.symm ▸ valued) fun place h => input.symm ▸ inside place (List.mem_cons_of_mem _ h)
      exact ⟨congrArg₂ List.cons same sameLater, later, inputLater.trans input⟩

/-- What is remembered of a rule at a place is what a fresh session makes of it. -/
theorem Abreast.remembered (abreast : Abreast s u) {rule : Rule} {p : Nat} {entry : Memo.Entry}
    (found : s.state.memo.find? rule p = some entry) :
    ∃ result stop t, entry = .done result stop ∧
      run s.input.forgetful s.input.allowance rule { State.start with current := p } =
        .ok result t ∧ t.current = stop := by
  cases entry with
  | inProgress => exact absurd found (abreast.idle rule p)
  | done result stop =>
    obtain ⟨f, makes, -⟩ := abreast.coherent rule p result stop found
    have enough : s.input.Enough s.input.allowance rule p :=
      Nat.le_add_right_of_le (Nat.le_add_right _ _)
    exact ⟨result, stop, _, rfl, makes _ enough { State.start with current := p } rfl, rfl⟩

end Sessions
end Session
end Grammar
end Formula
