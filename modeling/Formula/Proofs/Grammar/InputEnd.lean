import Formula.Proofs.Grammar.Invariants
import Formula.Proofs.Grammar.Relocation

/-! # The end of the input

The cursor never moves beyond a token that marks the end of the input, and neither does
anything that a parse keeps (`invariant_within`).  So no parse runs out of tokens
(`parseWithin_within`), and what stands behind the first such token is never seen: the parse of
the tokens up to there is the same (`parseTokens_take`).
-/
namespace Formula
namespace Grammar

/-! ## The cursor stays in front of the end -/

/-- The cursor, the furthest failure and the ends of all that is remembered are not beyond a
place. -/
structure State.Within (last : Nat) (s : State) : Prop where
  current_le : s.current ≤ last
  furthest_le : s.furthest ≤ last
  stop_le : ∀ rule place result stop,
    s.memo.find? rule place = some (.done result stop) → stop ≤ last

/-- Whether the cursor and the furthest failure are not beyond a place. -/
def State.inside (last : Nat) (s : State) : Bool :=
  decide (s.current ≤ last) && decide (s.furthest ≤ last)

section Within
variable {input : Input} {last : Nat} {s : State}

theorem State.within_start : State.start.Within last where
  current_le := Nat.zero_le _
  furthest_le := Nat.zero_le _
  stop_le rule place result stop found := by
    rw [State.start, Memo.find?_empty] at found
    cases found

theorem State.Within.inside (within : s.Within last) : s.inside last = true := by
  simp [State.inside, within.current_le, within.furthest_le]

theorem State.Within.moveTo (within : s.Within last) {place : Nat} (le : place ≤ last) :
    (s.moveTo place).Within last :=
  ⟨le, within.furthest_le, within.stop_le⟩

/-- Nothing is remembered that ends beyond the place if nothing was and the new result does
not. -/
theorem State.Within.remember (within : s.Within last) {rule : Rule} {place : Nat}
    {entry : Memo.Entry} (h : ∀ result stop, entry = .done result stop → stop ≤ last) :
    (s.remember rule place entry).Within last := by
  refine ⟨within.current_le, within.furthest_le, fun rule' place' result stop found => ?_⟩
  rw [State.remember, Memo.find?_store] at found
  split at found
  · exact h result stop (Option.some.inj found)
  · exact within.stop_le rule' place' result stop found

/-- **The end of the input bounds all that a parse keeps.** -/
theorem invariant_within (ends : input.kindAt last = some .endOfInput) :
    Invariant input (State.Within last) where
  inside within := by
    have lt := Input.kindAt_lt ends
    exact ⟨Nat.lt_of_le_of_lt within.current_le lt, Nat.lt_of_le_of_lt within.furthest_le lt⟩
  advance {s t} within here notEnd := by
    refine within.moveTo (Nat.lt_of_le_of_ne within.current_le fun same => ?_)
    rw [← same, Input.kindAt_of_getElem? here] at ends
    exact notEnd (Option.some.inj ends)
  rewind within within' := within.moveTo within'.current_le
  expect {s} e within := by
    refine ⟨?_, ?_, ?_⟩
    · rw [State.current_expect]
      exact within.current_le
    · rw [State.furthest_expect]
      exact Nat.max_le.mpr ⟨within.furthest_le, within.current_le⟩
    · rw [State.memo_expect]
      exact within.stop_le
  atDepth depth within := ⟨within.current_le, within.furthest_le, within.stop_le⟩
  atWork rule place within := within.remember nofun
  remembered {s} rule place result within := by
    refine within.remember fun _ _ same => ?_
    cases same
    exact within.current_le
  recalled {s rule result stop} within found :=
    within.moveTo (within.stop_le rule s.current result stop found)

/-- **No rule ever moves the cursor beyond the end of the input.** -/
theorem run_inside (ends : input.kindAt last = some .endOfInput) (allowance : Nat)
    (rule : Rule) :
    watched input (State.inside last) allowance rule .start = run input allowance rule .start :=
  (run_keeps (invariant_within ends) (fun _ => State.Within.inside) allowance rule .start
    State.within_start).1

/-- **A parse never runs out of tokens.**  It ends in front of the end of the input, with an
expression or with a token that is to blame. -/
theorem parseWithin_within (ends : input.kindAt last = some .endOfInput) (allowance : Nat) :
    match parseWithin input allowance .start with
    | .ok _ s => s.Within last
    | .error abort s => s.Within last ∧ abort.Blames input (State.Within last) := by
  have keeps := (parseWithin_keeps (invariant_within ends) allowance .start
    State.within_start).2
  cases done : parseWithin input allowance .start with
  | ok e s =>
    rw [done] at keeps
    exact keeps.1
  | error abort s =>
    rw [done] at keeps
    exact keeps

/-- What is reached is not beyond the end. -/
theorem le_of_reached {place : Nat} (reached : Reached (State.Within last) place) :
    place ≤ last := by
  obtain ⟨s, within, rfl | rfl⟩ := reached
  · exact within.current_le
  · exact within.furthest_le

/-- A parse stays in front of a place from its start to its end.  Put under watch, no rule is
stopped because the cursor or the furthest failure is beyond the place.  The cursor goes back
only from where the watch has just seen it, and the furthest failure only moves to the cursor.
And the parse ends with an expression, or with a token that is to blame. -/
structure StaysInside (input : Input) (last allowance : Nat) : Prop where
  quiet : watched input (State.inside last) allowance .or .start = run input allowance .or .start
  ends : match parseWithin input allowance .start with
    | .ok _ s => s.inside last = true
    | .error abort s => s.inside last = true ∧ ∃ place error,
        abort = .rejected place error ∧ place ≤ last ∧ input.tokens[place]? = some error.found

/-- **A parse stays in front of the end of the input**, if numbers and strings carry their
texts. -/
theorem staysInside (ends : input.kindAt last = some .endOfInput) (valued : input.Valued)
    (allowance : Nat) : StaysInside input last allowance := by
  refine ⟨run_inside ends allowance .or, ?_⟩
  have within := parseWithin_within ends allowance
  cases done : parseWithin input allowance .start with
  | ok e s =>
    rw [done] at within
    exact within.inside
  | error abort s =>
    rw [done] at within
    refine ⟨within.1.inside, ?_⟩
    cases abort with
    | rejected place error =>
      exact ⟨place, error, rfl, le_of_reached within.2.2, within.2.1⟩
    | outOfTokens => exact within.2.elim
    | valueless => exact absurd valued within.2

end Within

/-! ## Nothing behind the end is seen -/

section Take
variable {input other : Input} {tokens : List Token} {config : Config} {last place : Nat}
  {o : Outlook} {v : Verdict}

/-- Passes over two lists of tokens come to the same verdict if their steps are the same as long
as the end of the first list lies ahead. -/
theorem Input.Comes.transfer_of_ends (comes : input.Comes place o v)
    (ends : input.EndsFrom place)
    (same : ∀ q o, input.EndsFrom q → other.step? q o = input.step? q o) :
    other.Comes place o v := by
  induction comes with
  | halt stop => exact .halt ((same _ _ ends).trans stop)
  | on go _ ih => exact .on ((same _ _ ends).trans go) (ih (endsFrom_of_step? ends go).2)

/-- Up to the end of the input the tokens are there when the rest is cut off. -/
theorem Input.getElem?_take (le : place ≤ last) :
    (Input.ofTokens (tokens.take (last + 1)) config).tokens[place]? =
      (Input.ofTokens tokens config).tokens[place]? := by
  simp only [Input.ofTokens, List.getElem?_toArray]
  exact List.getElem?_take_of_lt (Nat.lt_succ_of_le le)

theorem Input.kindAt_take (le : place ≤ last) :
    (Input.ofTokens (tokens.take (last + 1)) config).kindAt place =
      (Input.ofTokens tokens config).kindAt place := by
  unfold Input.kindAt
  rw [Input.getElem?_take le]

theorem Input.size_take_le :
    (Input.ofTokens (tokens.take (last + 1)) config).tokens.size ≤ last + 1 := by
  simp only [Input.ofTokens, List.size_toArray]
  exact List.length_take_le _ _

theorem Input.pairAt_take (lt : place < last) (kind : Token.Kind) :
    pairAt (Input.ofTokens (tokens.take (last + 1)) config) place kind =
      pairAt (Input.ofTokens tokens config) place kind := by
  unfold pairAt
  rw [Input.getElem?_take (Nat.le_of_lt lt), Input.getElem?_take lt]

theorem Input.valued_take (valued : (Input.ofTokens tokens config).Valued) :
    (Input.ofTokens (tokens.take (last + 1)) config).Valued := by
  intro t member
  refine valued t ?_
  simp only [Input.ofTokens, List.mem_toArray] at member ⊢
  exact List.mem_of_mem_take member

/-- A value that is there does not depend on what stands for one that is missing. -/
theorem Input.valueAt_take (valued : (Input.ofTokens tokens config).Valued) (le : place ≤ last)
    (h : (Input.ofTokens tokens config).kindAt place = some .number ∨
      (Input.ofTokens tokens config).kindAt place = some .string) :
    (Input.ofTokens (tokens.take (last + 1)) config).valueAt place =
      (Input.ofTokens tokens config).valueAt place := by
  have here : ∃ t, (Input.ofTokens tokens config).tokens[place]? = some t ∧
      (t.kind = .number ∨ t.kind = .string) := by
    rcases h with h | h
    · obtain ⟨t, ht, kind⟩ := Option.map_eq_some_iff.mp h
      exact ⟨t, ht, .inl kind⟩
    · obtain ⟨t, ht, kind⟩ := Option.map_eq_some_iff.mp h
      exact ⟨t, ht, .inr kind⟩
  obtain ⟨t, ht, kind⟩ := here
  obtain ⟨value, carried⟩ :=
    Option.ne_none_iff_exists'.mp (valued t (Array.mem_of_getElem? ht) kind)
  unfold Input.valueAt
  rw [Input.getElem?_take le, ht, Option.bind_some, carried]
  rfl

/-- The tokens in front of the end read the same when the rest is cut off. -/
theorem Input.agrees_take (valued : (Input.ofTokens tokens config).Valued) {stop : Nat}
    (le : stop ≤ last) :
    (Input.ofTokens tokens config).Agrees (.ofTokens (tokens.take (last + 1)) config) stop where
  implicitMultiplication := rfl
  foldNegativeLiterals := rfl
  resolveBuiltins := rfl
  kindAt place lt := Input.kindAt_take (by omega)
  lexeme place lt := by rw [Input.getElem?_take (by omega)]
  valueAt place lt h := Input.valueAt_take valued (by omega) h
  pairAt place lt kind _ := Input.pairAt_take (by omega) kind

/-- **Nothing behind the end of the input is seen.**  The tokens up to there are parsed the
same. -/
theorem parseTokens_take (ends : (Input.ofTokens tokens config).kindAt last = some .endOfInput)
    (valued : (Input.ofTokens tokens config).Valued) :
    parseTokens (tokens.take (last + 1)) config = parseTokens tokens config := by
  have endsCut : (Input.ofTokens (tokens.take (last + 1)) config).EndsFrom 0 :=
    ⟨last, Nat.zero_le _, (Input.kindAt_take (Nat.le_refl _)).trans ends⟩
  obtain ⟨v, comes⟩ := exists_comes (o := .start) endsCut
  have whole : (Input.ofTokens tokens config).Comes 0 .start v := by
    refine comes.transfer_of_ends endsCut fun q o ahead => ?_
    have le : q ≤ last := Nat.le_of_lt_succ (Nat.lt_of_lt_of_le ahead.lt Input.size_take_le)
    unfold Input.step?
    rw [Input.sight?_congr (Input.getElem?_take le).symm]
    · rfl
    · rcases Nat.lt_or_eq_of_le le with lt | rfl
      · exact .inr (Input.getElem?_take lt).symm
      · exact .inl ((Input.kindAt_take (Nat.le_refl _)).trans ends)
  have inside {k : Nat} (h : v.place? = some k) : k ≤ last := by
    obtain ⟨t, here⟩ := comes.exists_token h
    have lt := (Array.getElem?_eq_some_iff.mp here).1
    exact Nat.le_of_lt_succ (Nat.lt_of_lt_of_le lt Input.size_take_le)
  refine parseTokens_congr ⟨last, Nat.zero_le _, ends⟩ endsCut whole comes
    (Input.valued_take valued) (fun stop accepted => ?_) ?_
  · exact Input.agrees_take valued (inside (by rw [accepted]; rfl))
  · cases h : v.place? with
    | some k => exact Verdict.abort?_congr h (Input.getElem?_take (inside h))
    | none => cases v <;> first | rfl | cases h

end Take
end Grammar
end Formula
