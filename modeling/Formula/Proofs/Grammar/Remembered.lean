import Formula.Proofs.Grammar.Coherence

/-! # Rules with a coherent memory

With a coherent memory every rule does what it does without any, wherever its cursor is
and whatever was missing before.  Here nothing is assumed of earlier parses: a rule may
find results of others remembered, and the furthest failure may lie ahead of it.

What a rule does by itself does not depend on whether results are remembered
(`body_forgetful`), so a rule has a twin if the rules that it applies have (`body_twins`).
These are tighter than it, or they are applied at a later place, because whatever a rule reads
has at least one token.  So the induction runs over places and rules (`exists_makes`), and no
rule ever meets itself at work.
-/
namespace Formula
namespace Grammar

/-! ## The dialect that remembers nothing -/

section Forgetful
variable (input : Input) (call : Rule → ParseM (Option Expr))

theorem acceptMany_forgetful (kind : Token.Kind) (bound : Nat) :
    acceptMany input.forgetful kind bound = acceptMany input kind bound := by
  rw [acceptMany_eq_rounds, acceptMany_eq_rounds]
  rfl

theorem exponents_forgetful (bound : Nat) :
    exponents input.forgetful call bound = exponents input call bound := by
  have round : exponentRound input.forgetful call = exponentRound input call := by
    funext chain
    unfold exponentRound
    rw [acceptMany_forgetful]
    rfl
  rw [exponents_eq_rounds, exponents_eq_rounds, round]

theorem bracketed_forgetful (closer : Closer) :
    bracketed input.forgetful call closer = bracketed input call closer := by
  unfold bracketed sequence
  rw [items_eq_rounds, items_eq_rounds]
  rfl

/-- Whether results are remembered makes no difference to what a rule does by itself. -/
theorem body_forgetful (rule : Rule) : body input.forgetful call rule = body input call rule := by
  cases rule with
  | or | and | equality | relational | additive =>
    unfold body foldLeft
    simp only [foldMore_eq_rounds]
    rfl
  | not =>
    unfold body negated
    rw [acceptMany_forgetful]
    rfl
  | multiplicative =>
    unfold body product
    simp only [productMore_eq_rounds]
    rfl
  | unary =>
    unfold body signed
    rw [acceptMany_forgetful]
    rfl
  | power =>
    unfold body power
    simp only [exponents_forgetful, powers_forgetful]
    rfl
  | part =>
    unfold body part
    simp only [indexed_eq_rounds]
    unfold indexRound
    simp only [bracketed_forgetful]
    rfl
  | list =>
    unfold body list
    rw [bracketed_forgetful]
  | application =>
    unfold body application
    simp only [curried_eq_rounds]
    unfold curryRound
    simp only [bracketed_forgetful]
    rfl
  | span | atom | group => rfl

end Forgetful

/-- If the rules that a rule applies are twins, then so is the rule. -/
theorem body_twins {I : Type} {input : Input} {call₁ call₂ : I → Rule → ParseM (Option Expr)}
    {rule : Rule} {p : Nat} (uncapped : input.config.maxNestingDepth = none)
    (valued : input.Valued)
    (calls : ∀ next q, input.EndsFrom q → input.Opens next q → next.Later p (rule.index + 1) q →
      Twins input p (rule.index + 1) (fun i => call₁ i next) (fun i => call₂ i next) q
        (Advances input.EndsFrom q))
    (ends : input.EndsFrom p) (opens : input.Opens rule p) :
    Twins input p (rule.index + 1) (fun i => body input (call₁ i) rule)
      (fun i => body input.forgetful (call₂ i) rule) p (Advanced input.EndsFrom p) := by
  have logic := twins_placewise (I := I) uncapped valued p (rule.index + 1)
  simp only [body_forgetful]
  exact logic.body (Sum.elim call₁ call₂) calls ends opens

/-! ## Rules from memory -/

section Makes
variable {input : Input} {rule : Rule} {p stop : Nat} {result : Option Expr} {f : Shortfall}

/-- A rule with a coherent memory does what it makes of its place without any: it finds
just that remembered, or it goes through the tokens, as twins do. -/
theorem Makes.remembered (makes : Makes input rule p result stop f) {n : Nat}
    (enough : input.Enough (n + 1) rule p)
    (applied : Faithful input p (rule.index + 1) (attempt (body input (run input n) rule)) p
      result stop f) :
    Faithful input p rule.index (run input (n + 1) rule) p result stop f := by
  rintro s rfl coherent busy
  unfold run
  cases memoize : input.config.memoize with
  | false =>
    rw [remembered_of_off memoize]
    exact applied s rfl coherent (busy.mono (.inr ⟨rfl, Nat.le_succ _⟩))
  | true =>
    cases found : s.memo.find? rule s.current with
    | some entry =>
      cases entry with
      | inProgress =>
        rcases busy rule s.current found with lt | ⟨-, lt⟩
        · exact absurd lt (Nat.lt_irrefl _)
        · exact absurd lt (Nat.lt_irrefl _)
      | done result' stop' =>
        obtain ⟨f', makes', absorbed⟩ := coherent _ _ _ _ found
        obtain ⟨rfl, rfl, rfl⟩ := (makes _ enough).unique (makes' _ enough)
        refine ⟨s.memo, ?_, coherent.join, .refl⟩
        rw [remembered_of_hit memoize found]
        unfold State.proceed
        rw [absorbed]
        rfl
    | none =>
      obtain ⟨memo, done, coherent, less⟩ := applied (s.remember rule s.current .inProgress) rfl
        (coherent.store_inProgress rule s.current) busy.store_inProgress
      refine ⟨memo.store rule s.current (.done result stop), ?_, ?_, less.store_done⟩
      · rw [remembered_of_miss memoize found, done]
        rfl
      · refine coherent.store_done makes ?_
        rw [show (s.remember rule s.current .inProgress).shortfall = s.shortfall from rfl,
          Shortfall.join_assoc, Shortfall.join_self]

/-- **Every rule makes something of every place** in front of an end of the input, the same
with a coherent memory as without any. -/
theorem exists_makes (uncapped : input.config.maxNestingDepth = none) (valued : input.Valued)
    (ends : input.EndsFrom p)
    (opening : ∀ kind, rule.opener? = some kind → input.kindAt p = some kind) :
    ∃ result stop f, Makes input rule p result stop f ∧
      (∀ n, input.Enough n rule p →
        Faithful input p rule.index (run input n rule) p result stop f) ∧
      f.place ≤ input.tokens.size - 1 ∧ input.EndsFrom stop ∧
      (result = none → stop = p) ∧ (result ≠ none → p < stop) := by
  -- The rules at work come to later places, and at one place to tighter rules.
  induction left : Rule.count * input.bound - (Rule.count * p + rule.index)
    using Nat.strongRecOn generalizing rule p with
  | ind left ih =>
    have inside := ends.lt
    have calls : ∀ rule' p', input.EndsFrom p' → input.Opens rule' p' →
        rule'.Later p (rule.index + 1) p' →
        Twins input p (rule.index + 1)
          (fun n : { n // Supply input n rule p } => run input n.val rule')
          (fun n => run input.forgetful n.val rule') p' (Advances input.EndsFrom p') := by
      intro rule' p' ends' opening' later
      have index := rule.index_lt_count
      have index' := rule'.index_lt_count
      have inside' := ends'.lt
      simp only [Rule.count] at index index'
      obtain ⟨result, stop, f, makes, faithful, le, ends'', back, read⟩ :=
        ih _ (by rcases later with _ | _ <;> simp only [← left, Rule.count, Input.bound] <;> omega)
          ends' opening' rfl
      refine ⟨result, stop, f, fun n => ?_, le, ends'', back, read⟩
      have enough := n.property.later later
      refine ⟨fun s hs coherent busy => ?_, makes _ enough⟩
      exact faithful _ enough s hs coherent (busy.mono later)
    obtain ⟨result, stop, f, same, le, ends', read⟩ := body_twins uncapped valued calls ends opening
    have makes : Makes input rule p result (if result = none then p else stop) f := by
      intro n enough
      obtain ⟨m, rfl, supply⟩ := enough.supply inside
      unfold run
      rw [remembered_of_off rfl]
      exact (same ⟨m, supply⟩).2.attempt
    refine ⟨result, _, f, makes, fun n enough => ?_, le, ?_, ?_, ?_⟩
    · obtain ⟨m, rfl, supply⟩ := enough.supply inside
      exact makes.remembered enough (same ⟨m, supply⟩).1.attempt
    · split
      · exact ends
      · exact ends'
    · exact fun absent => if_pos absent
    · intro present
      rw [if_neg present]
      exact read present

end Makes
end Grammar
end Formula
