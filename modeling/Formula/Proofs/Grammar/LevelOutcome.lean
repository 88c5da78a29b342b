import Formula.Proofs.Grammar.BracketOutcome
import Formula.Proofs.Grammar.MinusSigns

/-! # How the levels of precedence end

The rules of the module `Formula.Grammar.Levels`, with and without memory side by side.
A level that finds a sign without an operand behind it goes back to before the sign, and
no level is complete in front of a sign that it takes in itself.

The last theorem, `body_outcome`, puts all rules together.
-/
namespace Formula
namespace Grammar

section Levels
variable {input : Input} {call₁ call₂ : Rule → ParseM (Option Expr)} {s t : State}
  {level next : Rule} {kind : Token.Kind} {op : Operator} {place : Nat}

theorem Rule.opener?_of_operand? (h : level.operand? = some next) :
    level.opener? = none ∧ next.opener? = none := by
  cases level <;> cases h <;> exact ⟨rfl, rfl⟩

/-! ## Levels that group to the left -/

/-- The sign of an operator, with an operand behind it. -/
theorem Standing.ready_behind_sign (standing : Standing input next s)
    (hnext : level.operand? = some next) (hop : level.operator? kind = some op)
    (hkind : input.kindAt s.current = some kind) :
    Ready input next (s.moveTo (s.current + 1)) :=
  have follow := Input.followsAt_of_canFollow hkind (canFollow_of_operator? hnext hop)
  (standing.calm follow).ready (Rule.opener?_of_operand? hnext).2 (Nat.lt_succ_self _)

/-- What a level does at the sign of an operator. -/
def takeSign (input : Input) (call : Rule → ParseM (Option Expr)) (next : Rule) (op : Operator)
    (left : Expr) (more : Expr → ParseM Expr) : ParseM Expr := do
  let mark ← current
  let _ ← advance input
  match ← call next with
  | none =>
    rewind mark
    return left
  | some right => more (.node op [left, right])

/-- A level takes in a sign with the operand behind it, or it goes back to before the sign
and is not complete there. -/
theorem takeSign_outcome {left : Expr} {more₁ more₂ : Expr → ParseM Expr}
    (calls : Calls input call₁ call₂) (hnext : level.operand? = some next)
    (hop : level.operator? kind = some op) (hkind : input.kindAt s.current = some kind)
    (standing : Standing input next s)
    (ih : ∀ right t, Standing input next t →
      SideBySide (more₁ (.node op [left, right])) (more₂ (.node op [left, right])) t
        (Continued input level (.node op [left, right]) t)) :
    SideBySide (takeSign input call₁ next op left more₁)
      (takeSign input.forgetful call₂ next op left more₂) s
      (Continued input level left s) := by
  unfold takeSign
  refine SideBySide.current.bind ?_
  rintro _ _ ⟨rfl, rfl⟩
  refine (SideBySide.advance hkind (Rule.ne_endOfInput_of_operator? hop)).bind ?_
  rintro _ _ ⟨-, rfl⟩
  refine (calls next _ (standing.ready_behind_sign hnext hop hkind)).bind ?_
  rintro (_ | right) t ⟨outcome, -⟩
  · have failed := outcome.le_furthest (Rule.opener?_of_operand? hnext).2
    refine SideBySide.rewind.bind ?_
    rintro _ _ rfl
    exact .pure ⟨.stop, .of_stuck failed (Input.not_followsAt_of_operator? hop hkind)⟩
  · obtain ⟨derives, standing⟩ := outcome
    refine (ih right t standing).mono ?_
    rintro e u ⟨rest, standing⟩
    exact ⟨.sign hnext hkind hop derives rest, standing⟩

theorem foldMore_outcome (calls : Calls input call₁ call₂) (hnext : level.operand? = some next)
    (bound : Nat) (left : Expr) (standing : Standing input next s) :
    SideBySide (foldMore input call₁ level next bound left)
      (foldMore input.forgetful call₂ level next bound left) s
      (Continued input level left s) := by
  have le := Nat.le_of_lt (Rule.index_lt_of_operand? hnext)
  induction bound generalizing s left with
  | zero => exact .pure (standing.continued le)
  | succ bound ih =>
    unfold foldMore
    refine SideBySide.peek.bind ?_
    rintro first _ ⟨hfirst, rfl⟩
    have hkind := Input.kindAt_of_getElem? hfirst
    cases hop : level.operator? first.kind with
    | none => exact .pure (standing.continued le)
    | some op =>
      exact takeSign_outcome calls hnext hop hkind standing fun _ _ standing => ih _ standing

theorem foldLeft_outcome (calls : Calls input call₁ call₂) (hnext : level.operand? = some next)
    (entered : Entered input level s) :
    SideBySide (foldLeft input call₁ level next) (foldLeft input.forgetful call₂ level next) s
      (Outcome input level s) := by
  have lt := Rule.index_lt_of_operand? hnext
  obtain ⟨levelOpener, nextOpener⟩ := Rule.opener?_of_operand? hnext
  unfold foldLeft
  refine (calls next s (entered.ready lt (by simp [nextOpener]))).bind ?_
  rintro (_ | left) t ⟨outcome, -⟩
  · exact .pure (outcome.of_none (Nat.le_of_lt lt) levelOpener nextOpener)
  · obtain ⟨derives, standing⟩ := outcome
    refine .map ((foldMore_outcome calls hnext input.bound left standing).mono ?_)
    exact fun e u continued => continued.outcome hnext derives

/-! ## Products -/

/-- Behind factors a power was tried in vain. -/
theorem Standing.of_missing_factor (hkind : input.kindAt s.current = some kind)
    (starts : startsAtom kind = true) (refused : Refused input .power s t)
    (back : t.current = s.current) : Standing input .multiplicative t := by
  rcases refused with ⟨furthest, before⟩ | ⟨failed, -⟩
  · exact .inl ⟨by omega, back ▸ before⟩
  · refine .inr ⟨by omega, ?_⟩
    rw [back]
    exact Input.not_followsAt_of_canFollow (by decide) hkind
      (canFollow_multiplicative_of_startsAtom starts)

theorem productMore_outcome (calls : Calls input call₁ call₂) (bound : Nat) (left : Expr)
    (standing : Standing input .unary s) :
    SideBySide (productMore input call₁ bound left)
      (productMore input.forgetful call₂ bound left) s
      (Continued input .multiplicative left s) := by
  have le : Rule.multiplicative.index ≤ Rule.unary.index := by decide
  induction bound generalizing s left with
  | zero => exact .pure (standing.continued le)
  | succ bound ih =>
    unfold productMore
    refine SideBySide.peek.bind ?_
    rintro first _ ⟨hfirst, rfl⟩
    have hkind := Input.kindAt_of_getElem? hfirst
    dsimp only
    cases hop : Rule.multiplicative.operator? first.kind with
    | some op =>
      exact takeSign_outcome calls rfl hop hkind standing fun _ _ standing => ih _ standing
    | none =>
      have same : input.forgetful.config.implicitMultiplication =
        input.config.implicitMultiplication := rfl
      dsimp only
      rw [same]
      by_cases implicit :
        input.config.implicitMultiplication = true ∧ startsAtom first.kind = true
      · obtain ⟨himplicit, starts⟩ := implicit
        simp only [if_pos (And.intro himplicit starts)]
        -- No sign is taken, so the power is applied right behind the last factor.
        have follow := Input.followsAt_of_canFollow hkind
          (canFollow_unary_of_startsAtom himplicit starts)
        refine (calls .power s (standing.ready (Nat.le_refl _) follow rfl)).bind ?_
        rintro (_ | right) t ⟨outcome, back⟩
        · have back := back rfl
          refine .pure ⟨?_, .of_missing_factor hkind starts outcome back⟩
          rw [back]
          exact .stop
        · obtain ⟨derives, standing⟩ := outcome
          refine (ih _ (standing.mono (by decide))).mono ?_
          rintro e u ⟨rest, standing⟩
          exact ⟨.beside himplicit derives rest, standing⟩
      · simp only [if_neg implicit]
        exact .pure (standing.continued le)

theorem product_outcome (calls : Calls input call₁ call₂)
    (entered : Entered input .multiplicative s) :
    SideBySide (product input call₁) (product input.forgetful call₂) s
      (Outcome input .multiplicative s) := by
  unfold product
  refine (calls .unary s (entered.ready (by decide) nofun)).bind ?_
  rintro (_ | left) t ⟨outcome, -⟩
  · exact .pure (outcome.of_none (by decide) rfl rfl)
  · obtain ⟨derives, standing⟩ := outcome
    refine .map ((productMore_outcome calls input.bound left standing).mono ?_)
    exact fun e u continued => continued.outcome rfl derives

/-! ## Signs in front -/

/-- A rule at work applies a tighter one behind signs. -/
theorem Entered.ready_behind_signs (entered : Entered input level s)
    (lt : level.index < next.index) (hnext : next.opener? = none) (count : Nat) :
    Ready input next (s.moveTo (s.current + count)) := by
  cases count with
  | zero => exact entered.ready lt (by simp [hnext])
  | succ n => exact entered.calm.ready hnext (by omega)

theorem Outcome.of_signs {count : Nat}
    (outcome : Outcome input next (s.moveTo (s.current + count)) none t)
    (signs : input.SignsAt kind s.current count) (hkind : level.canStart kind = true)
    (lt : level.index < next.index) (hlevel : level.opener? = none)
    (hnext : next.opener? = none) : Outcome input level s none t := by
  cases count with
  | zero => exact outcome.of_none (Nat.le_of_lt lt) hlevel hnext
  | succ n =>
    exact outcome.of_moved (by omega) ⟨kind, signs 0 (Nat.succ_pos n), hkind⟩ hlevel hnext

theorem negated_outcome (calls : Calls input call₁ call₂) (entered : Entered input .not s) :
    SideBySide (negated input call₁) (negated input.forgetful call₂) s
      (Outcome input .not s) := by
  unfold negated
  refine (SideBySide.acceptMany (by decide) input.bound).bind ?_
  rintro count _ ⟨signs, rfl⟩
  refine (calls .equality _ (entered.ready_behind_signs (by decide) rfl count)).bind ?_
  rintro (_ | operand) t ⟨outcome, -⟩
  · exact .pure (outcome.of_signs signs (by decide) (by decide) rfl rfl)
  · obtain ⟨derives, standing⟩ := outcome
    exact .pure ⟨.not signs derives, standing.mono (by decide)⟩

theorem needValue_outcome {minuses : Nat} {first : Token} {e : Expr} :
    SideBySide (needValue input minuses first e) (needValue input.forgetful minuses first e) s
      fun _ t => s = t := by
  have same : folds input.forgetful.config = folds input.config := by
    funext n t e
    cases e <;> rfl
  unfold needValue
  rw [same]
  split
  · exact .throw
  · exact .pure rfl

theorem signed_outcome (calls : Calls input call₁ call₂) (entered : Entered input .unary s) :
    SideBySide (signed input call₁) (signed input.forgetful call₂) s
      (Outcome input .unary s) := by
  unfold signed
  refine (SideBySide.acceptMany (by decide) input.bound).bind ?_
  rintro count _ ⟨signs, rfl⟩
  refine SideBySide.peek.bind ?_
  rintro first _ ⟨hfirst, rfl⟩
  refine (calls .power _ (entered.ready_behind_signs (by decide) rfl count)).bind ?_
  rintro (_ | operand) t ⟨outcome, -⟩
  · exact .pure (outcome.of_signs signs (by decide) (by decide) rfl rfl)
  · obtain ⟨derives, standing⟩ := outcome
    refine needValue_outcome.bind ?_
    rintro _ _ rfl
    have same : negate input.forgetful.config count first operand =
      negate input.config count first operand := rfl
    rw [same, negate_eq_prefixed derives hfirst]
    exact .pure ⟨.unary signs derives, standing.mono (by decide)⟩

/-! ## Spans -/

/-- An operand of a span, which may be missing. -/
theorem operand_outcome (calls : Calls input call₁ call₂) (ready : Ready input .additive s) :
    SideBySide (call₁ .additive) (call₂ .additive) s
      fun r t => Derives input .operand s.current t.current r ∧ Standing input .additive t ∧
        Outcome input .additive s r t := by
  refine (calls .additive s ready).mono ?_
  rintro (_ | e) t ⟨outcome, back⟩
  · have back := back rfl
    refine ⟨back ▸ .missing, ?_, outcome⟩
    rcases outcome with ⟨furthest, before⟩ | ⟨failed, kind, hkind, start⟩
    · exact .inl ⟨by omega, back ▸ before⟩
    · refine .inr ⟨by omega, ?_⟩
      rw [back]
      exact Input.not_followsAt_of_canFollow (by decide) hkind
        (canFollow_additive_of_canStart start)
  · exact ⟨.present outcome.1, outcome.2, outcome⟩

theorem Standing.calm_at_span (standing : Standing input .additive s)
    (hkind : input.kindAt s.current = some .span) : s.Calm :=
  standing.calm (Input.followsAt_of_canFollow hkind rfl)

theorem span_outcome (calls : Calls input call₁ call₂) (entered : Entered input .span s) :
    SideBySide (span input call₁) (span input.forgetful call₂) s
      (Outcome input .span s) := by
  unfold span
  refine (operand_outcome calls (entered.ready (by decide) nofun)).bind ?_
  rintro start t ⟨hstart, standing, outcome⟩
  refine .branch (fun hkind => ?_) fun _ _ _ => ?_
  · have calm := standing.calm_at_span hkind
    refine (SideBySide.advance hkind (by decide)).bind ?_
    rintro _ _ ⟨-, rfl⟩
    refine (operand_outcome calls (calm.ready rfl (Nat.lt_succ_self _))).bind ?_
    rintro stop u ⟨hstop, standing, -⟩
    refine .branch (fun hkind' => ?_) fun _ _ _ => ?_
    · have calm := standing.calm_at_span hkind'
      refine SideBySide.current.bind ?_
      rintro _ _ ⟨rfl, rfl⟩
      refine (SideBySide.advance hkind' (by decide)).bind ?_
      rintro _ _ ⟨-, rfl⟩
      refine (calls .additive _ (calm.ready rfl (Nat.lt_succ_self _))).bind ?_
      rintro (_ | step) v ⟨outcome, -⟩
      · refine SideBySide.rewind.bind ?_
        rintro _ _ rfl
        exact .pure ⟨.span hstart hkind hstop, .of_stuck (outcome.le_furthest rfl)
          (Input.not_followsAt_of_canFollow (by decide) hkind' rfl)⟩
      · obtain ⟨hstep, standing⟩ := outcome
        exact .pure ⟨.spanStep hstart hkind hstop hkind' hstep, standing.mono (by decide)⟩
    · exact .pure ⟨.span hstart hkind hstop, standing.mono (by decide)⟩
  -- Without a sign there is no span but only what was read as its start.
  · refine .pure ?_
    cases start with
    | none => exact outcome.of_none (by decide) rfl rfl
    | some e => exact ⟨.single outcome.1, outcome.2.mono (by decide)⟩

/-! ## Powers and indices -/

/-- The exponents behind a base make a power of it. -/
theorem exponents_outcome (calls : Calls input call₁ call₂) (bound : Nat)
    (standing : Standing input .part s) :
    SideBySide (exponents input call₁ bound) (exponents input.forgetful call₂ bound) s
      fun chain t => Standing input .power t ∧
        ∀ p base, Derives input (.rule .part) p s.current base →
          Derives input (.rule .power) p t.current (powers input.config base chain) := by
  induction bound generalizing s with
  | zero => exact .pure ⟨standing.mono (by decide), fun p base h => .base h⟩
  | succ bound ih =>
    unfold exponents
    refine .branch (fun hkind => ?_) fun _ _ _ => ?_
    · have calm := standing.calm (Input.followsAt_of_canFollow hkind rfl)
      refine SideBySide.current.bind ?_
      rintro _ _ ⟨rfl, rfl⟩
      refine (SideBySide.advance hkind (by decide)).bind ?_
      rintro _ _ ⟨-, rfl⟩
      refine (SideBySide.acceptMany (by decide) input.bound).bind ?_
      rintro minuses _ ⟨signs, rfl⟩
      rw [State.current_moveTo] at signs
      refine SideBySide.peek.bind ?_
      rintro first _ ⟨hfirst, rfl⟩
      rw [State.moveTo_moveTo, State.current_moveTo] at hfirst ⊢
      refine (calls .part _ (calm.ready rfl (by omega))).bind ?_
      rintro (_ | operand) t ⟨outcome, -⟩
      · have failed := outcome.le_furthest rfl
        rw [State.current_moveTo] at failed
        refine SideBySide.rewind.bind ?_
        rintro _ _ rfl
        exact .pure ⟨.of_stuck (by omega) (Input.not_followsAt_of_canFollow (by decide) hkind rfl),
          fun p base h => .base h⟩
      · obtain ⟨derives, standing⟩ := outcome
        refine (ih standing).bind ?_
        rintro others u ⟨standing, derivesPower⟩
        refine .pure ⟨standing, fun p base h => ?_⟩
        -- The exponent is all of the chain behind its first sign: so the signs in front
        -- are in front of a power.
        have exponent := derivesPower _ _ derives
        rw [powers, negate_eq_prefixed exponent hfirst]
        exact .power h hkind signs exponent
    · exact .pure ⟨standing.mono (by decide), fun p base h => .base h⟩

theorem powers_forgetful (input : Input) (base : Expr) (chain : List Exponent) :
    powers input.forgetful.config base chain = powers input.config base chain := by
  induction chain generalizing base with
  | nil => rfl
  | cons e es ih => rw [powers, powers, ih]; rfl

theorem power_outcome (calls : Calls input call₁ call₂) (entered : Entered input .power s) :
    SideBySide (power input call₁) (power input.forgetful call₂) s
      (Outcome input .power s) := by
  unfold power
  refine (calls .part s (entered.ready (by decide) nofun)).bind ?_
  rintro (_ | base) t ⟨outcome, -⟩
  · exact .pure (outcome.of_none (by decide) rfl rfl)
  · obtain ⟨derives, standing⟩ := outcome
    refine (exponents_outcome calls input.bound standing).bind ?_
    rintro chain u ⟨standing, derivesPower⟩
    have done : Outcome input .power s (some (powers input.config base chain)) u :=
      ⟨derivesPower _ _ derives, standing⟩
    dsimp only
    rw [powers_forgetful]
    cases chain.getLast? with
    | none => exact .pure done
    | some last =>
      refine needValue_outcome.bind ?_
      rintro _ _ rfl
      exact .pure done

theorem part_outcome (calls : Calls input call₁ call₂) (entered : Entered input .part s) :
    SideBySide (part input call₁) (part input.forgetful call₂) s
      (Outcome input .part s) := by
  unfold part
  refine (calls .atom s (entered.ready (by decide) nofun)).bind ?_
  rintro (_ | e) t ⟨outcome, -⟩
  · exact .pure (outcome.of_none (by decide) rfl rfl)
  · obtain ⟨derives, standing⟩ := outcome
    refine .map ((indexed_outcome calls input.bound e standing).mono ?_)
    exact fun e u continued => continued.outcome rfl derives

/-! ## All rules -/

/-- If the rules that a rule applies run side by side, then so does the rule. -/
theorem body_outcome (calls : Calls input call₁ call₂) {rule : Rule}
    (entered : Entered input rule s) :
    SideBySide (body input call₁ rule) (body input.forgetful call₂ rule) s
      (Outcome input rule s) := by
  cases rule with
  | or => exact foldLeft_outcome calls rfl entered
  | and => exact foldLeft_outcome calls rfl entered
  | not => exact negated_outcome calls entered
  | equality => exact foldLeft_outcome calls rfl entered
  | relational => exact foldLeft_outcome calls rfl entered
  | span => exact span_outcome calls entered
  | additive => exact foldLeft_outcome calls rfl entered
  | multiplicative => exact product_outcome calls entered
  | unary => exact signed_outcome calls entered
  | power => exact power_outcome calls entered
  | part => exact part_outcome calls entered
  | atom => exact atom_outcome calls entered
  | group => exact group_outcome calls entered
  | list => exact list_outcome calls entered
  | application => exact application_outcome calls entered

end Levels
end Grammar
end Formula
