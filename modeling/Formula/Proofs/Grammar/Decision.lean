import Formula.Proofs.Grammar.Agreement
import Formula.Proofs.Grammar.Atoms
import Formula.Proofs.Grammar.Completeness

/-! # The parser decides the grammar

What a parse returns is derived by the reference grammar (`parseWithin_outcome`), and
what the grammar derives is parsed (`Derives.accepted`).  So a parse returns an
expression just for the formulas of the grammar, and no formula stands for two
expressions.
-/
namespace Formula
namespace Grammar

/-! ## The end of the input is in no phrase -/

/-- No token between two places marks the end of the input. -/
def Input.Endless (input : Input) (p q : Nat) : Prop :=
  ∀ i, p ≤ i → i < q → input.kindAt i ≠ some .endOfInput

section Endless
variable {input : Input} {p q r : Nat} {kind : Token.Kind}

theorem Input.Endless.empty : input.Endless p p :=
  fun _ le lt => absurd le (Nat.not_le.mpr lt)

theorem Input.Endless.trans (h₁ : input.Endless p q) (h₂ : input.Endless q r) :
    input.Endless p r := by
  intro i le lt
  by_cases first : i < q
  · exact h₁ i le first
  · exact h₂ i (Nat.not_lt.mp first) lt

theorem Input.Endless.token (hkind : input.kindAt p = some kind)
    (not_end : kind ≠ .endOfInput) : input.Endless p (p + 1) := by
  intro i le lt
  obtain rfl : i = p := by omega
  rw [hkind]
  exact fun h => not_end (Option.some.inj h)

theorem Input.Endless.signs {count : Nat} (signs : input.SignsAt kind p count)
    (not_end : kind ≠ .endOfInput) : input.Endless p (p + count) := by
  intro i le lt
  obtain ⟨j, rfl⟩ : ∃ j, i = p + j := ⟨i - p, by omega⟩
  rw [signs j (by omega)]
  exact fun h => not_end (Option.some.inj h)

theorem Input.Endless.pair (h : pairAt input p kind = true) (not_end : kind ≠ .endOfInput) :
    input.Endless p (p + 2) := by
  obtain ⟨first, second⟩ := Input.kindAt_of_pairAt h
  exact (token first not_end).trans (token second not_end)

theorem Derives.endless {phrase : Phrase} {v : phrase.Value} (h : Derives input phrase p q v) :
    input.Endless p q := by
  induction h with
  | stop | missing | noArguments => exact .empty
  | level _ _ _ ih₁ ih₂ | beside _ _ _ ih₁ ih₂ => exact ih₁.trans ih₂
  | base _ ih | single _ ih | present _ ih | bracketed _ _ ih | someArguments _ ih
  | item _ ih => exact ih
  | sign _ hkind hop _ _ ih₁ ih₂ =>
    have not_end := Rule.ne_endOfInput_of_operator? hop
    exact (Input.Endless.token hkind not_end).trans (ih₁.trans ih₂)
  | indices opens _ closes _ ih₁ ih₂ =>
    exact (Input.Endless.pair opens (by decide)).trans
      (ih₁.trans ((Input.Endless.pair closes (by decide)).trans ih₂))
  | curried opens _ closes _ ih₁ ih₂ =>
    exact (Input.Endless.token opens.1 (by decide)).trans
      (ih₁.trans ((Input.Endless.token closes (by decide)).trans ih₂))
  | not signs _ ih | unary signs _ ih =>
    exact (Input.Endless.signs signs (by decide)).trans ih
  | power _ hkind signs _ ih₁ ih₂ =>
    exact ih₁.trans ((Input.Endless.token hkind (by decide)).trans
      ((Input.Endless.signs signs (by decide)).trans ih₂))
  | span _ hkind _ ih₁ ih₂ =>
    exact ih₁.trans ((Input.Endless.token hkind (by decide)).trans ih₂)
  | spanStep _ hkind _ hkind' _ ih₁ ih₂ ih₃ =>
    exact ih₁.trans ((Input.Endless.token hkind (by decide)).trans
      (ih₂.trans ((Input.Endless.token hkind' (by decide)).trans ih₃)))
  | @name p t hname isName =>
    have here : input.kindAt p = some .identifier := by rw [Input.kindAt_of_getElem? hname, isName]
    exact .token here (by decide)
  | number here | string here => exact .token here (by decide)
  | group opens _ closes ih | list opens _ closes ih =>
    exact (Input.Endless.token opens (by decide)).trans
      (ih.trans (Input.Endless.token closes (by decide)))
  | @application p _ _ t _ _ hname isName opens _ closes _ ih₁ ih₂ =>
    have here : input.kindAt p = some .identifier := by rw [Input.kindAt_of_getElem? hname, isName]
    exact (Input.Endless.token here (by decide)).trans
      ((Input.Endless.token opens.1 (by decide)).trans
        (ih₁.trans ((Input.Endless.token closes (by decide)).trans ih₂)))
  | items _ comma _ ih₁ ih₂ =>
    exact ih₁.trans ((Input.Endless.token comma (by decide)).trans ih₂)

/-- The input has only one first end. -/
theorem Input.EndsAt.unique {n m : Nat} (ends : input.EndsAt n) (inside : input.Endless 0 m)
    (hm : input.kindAt m = some .endOfInput) : m = n := by
  by_cases lt : m < n
  · exact absurd hm (ends.2 m lt)
  · by_cases gt : n < m
    · exact absurd ends.1 (inside n (Nat.zero_le n) gt)
    · omega

end Endless

/-! ## The cap does not change the grammar -/

/-- The same input in the dialect without a cap on open brackets. -/
def Input.uncapped (input : Input) : Input :=
  { input with config := { input.config with maxNestingDepth := none } }

/-- The cap is no option that chooses the dialect. -/
theorem Input.agrees_uncapped (input : Input) (stop : Nat) : input.Agrees input.uncapped stop where
  implicitMultiplication := rfl
  foldNegativeLiterals := rfl
  resolveBuiltins := rfl
  kindAt _ _ := rfl
  lexeme _ _ := rfl
  valueAt _ _ _ := rfl
  pairAt _ _ _ _ := rfl

theorem Derives.uncapped {input : Input} {rule : Rule} {p q : Nat} {e : Expr}
    (h : Derives input (.rule rule) p q e) : Derives input.uncapped (.rule rule) p q e :=
  (input.agrees_uncapped q).derives h (Nat.le_refl q)

/-! ## Parses and derivations -/

section Parse
variable {input : Input} {n : Nat} {e e' : Expr} {s : State}

/-- What a parse returns is derived. -/
theorem derives_of_parse (h : parse input .start = .ok e s) :
    Derives input (.rule .or) 0 s.current e ∧ input.kindAt s.current = some .endOfInput :=
  (parseWithin_outcome input input.allowance).2 e s h

/-- A formula is parsed if no cap on open brackets keeps the parser from it. -/
theorem parse_of_derives (uncapped : input.config.maxNestingDepth = none)
    (valued : input.Valued) (h : Derives input (.rule .or) 0 n e)
    (ends : input.kindAt n = some .endOfInput) :
    ∃ s, parse input .start = .ok e s ∧ s.current = n := by
  have follow : input.FollowsAt .or n := Input.followsAt_of_canFollow ends rfl
  have enough : input.Enough input.allowance .or 0 := by simp [Input.Enough]
  have forgetful : Yields (parse input.forgetful) 0 e n := by
    refine ((h.accepted uncapped valued).1 _ enough follow).bind ?_
    exact .check_pos ends .pure
  -- The parse with memory returns the same.
  obtain ⟨t, ht, stop⟩ := forgetful .start rfl
  have same : forgetMemo (parse input .start) = .ok e t :=
    (parseWithin_forgetful input input.allowance).symm.trans ht
  cases done : parse input .start with
  | ok a s =>
    rw [done] at same
    cases same
    exact ⟨s, rfl, stop⟩
  | error a s =>
    rw [done] at same
    cases same

theorem Derives.unique (valued : input.Valued) (ends : input.kindAt n = some .endOfInput)
    (h : Derives input (.rule .or) 0 n e) (h' : Derives input (.rule .or) 0 n e') : e = e' := by
  -- Both are what one and the same parse returns.
  have uncapped : input.uncapped.config.maxNestingDepth = none := rfl
  obtain ⟨s, hs, -⟩ := parse_of_derives uncapped valued h.uncapped ends
  obtain ⟨s', hs', -⟩ := parse_of_derives uncapped valued h'.uncapped ends
  rw [hs] at hs'
  cases hs'
  rfl

/-- Tokens that agree up to where both parses end are the same expression. -/
theorem Input.Agrees.parse_ok_unique {other : Input} {s' : State}
    (agrees : input.Agrees other s.current) (valued : other.Valued)
    (h : parse input .start = .ok e s) (h' : parse other .start = .ok e' s')
    (same : s'.current = s.current) : e' = e := by
  obtain ⟨derives, -⟩ := derives_of_parse h
  obtain ⟨derives', stop⟩ := derives_of_parse h'
  rw [same] at derives' stop
  exact derives'.unique valued stop (agrees.derives derives (Nat.le_refl _))

/-- **The parser decides the grammar.**  Let the first token that marks the end of the
input stand at place `n`, and let numbers and strings carry their texts.  Whatever a
parse returns, the reference grammar derives it from all the tokens in front of `n`, and
the cursor is left there.  Without a cap on open brackets a parse returns all that the
grammar derives.  And the grammar derives no two expressions. -/
theorem parse_decides_grammar (ends : input.EndsAt n) (valued : input.Valued) :
    (∀ e s, parse input .start = .ok e s →
      Derives input (.rule .or) 0 n e ∧ s.current = n) ∧
    (input.config.maxNestingDepth = none →
      ∀ e, (∃ s, parse input .start = .ok e s) ↔ Derives input (.rule .or) 0 n e) ∧
    ∀ e e', Derives input (.rule .or) 0 n e → Derives input (.rule .or) 0 n e' → e = e' := by
  have sound (e : Expr) (s : State) (h : parse input .start = .ok e s) :
      Derives input (.rule .or) 0 n e ∧ s.current = n := by
    obtain ⟨derives, stop⟩ := derives_of_parse h
    obtain rfl := ends.unique derives.endless stop
    exact ⟨derives, rfl⟩
  refine ⟨sound, fun uncapped e => ⟨?_, fun h => ?_⟩, fun e e' h h' => h.unique valued ends.1 h'⟩
  · rintro ⟨s, h⟩
    exact (sound e s h).1
  · obtain ⟨s, h, -⟩ := parse_of_derives uncapped valued h ends.1
    exact ⟨s, h⟩

/-- Two tokens, of which the first becomes the sign of the second. -/
theorem parse_decides_grammar_sign :
    let input : Input :=
      { tokens := #[⟨.minus, "-", none, ⟨"", 1, 1, 0⟩⟩, ⟨.number, "2", "2", ⟨"", 1, 2, 1⟩⟩,
          ⟨.endOfInput, "", none, ⟨"", 1, 3, 2⟩⟩]
        config := {} }
    input.EndsAt 2 ∧ input.Valued ∧ ∃ s, parse input .start = .ok (.number "-2") s := by
  intro input
  have ends : input.EndsAt 2 := by
    refine ⟨rfl, fun i hi => ?_⟩
    obtain rfl | rfl : i = 0 ∨ i = 1 := by omega
    · decide
    · decide
  have valued : input.Valued := by
    intro t ht
    simp only [input, List.mem_toArray, List.mem_cons, List.not_mem_nil, or_false] at ht
    rcases ht with rfl | rfl | rfl <;> decide
  have signs : input.SignsAt .minus 0 1 := by
    intro i hi
    obtain rfl : i = 0 := by omega
    rfl
  have number : Derives input (.rule .power) 1 2 (.number "2") :=
    .power_of_atom (.number rfl)
  have derives : Derives input (.rule .or) 0 2 (.number "-2") :=
    .or_of_unary (.unary signs number)
  exact ⟨ends, valued, ((parse_decides_grammar ends valued).2.1 rfl _).mpr derives⟩

end Parse
end Grammar
end Formula
