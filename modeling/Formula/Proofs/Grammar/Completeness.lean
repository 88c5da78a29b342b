import Formula.Proofs.Grammar.Memoization
import Formula.Proofs.Grammar.Yields

/-! # Every formula is parsed

Where the reference grammar derives a phrase, and the token behind it can follow, the
parser reads just that phrase.  It takes in whatever it can: but a token that can follow
is one that no rule at work takes in, so it stops where the phrase ends.

The proof is an induction over derivations.  What it says of each phrase is
`Phrase.Accepted`: a rule yields its expression, and a loop yields the rest of its level.
For a power it says more, because its loop goes on over the powers in its exponent.

It is about the dialect without memory and without a cap on open brackets.  By
`parse_memoize` memory does not matter.
-/
namespace Formula
namespace Grammar

/-! ## Allowances -/

/-- An allowance is enough for a rule at a place, with all that it applies there and
beyond. -/
def Input.Enough (input : Input) (allowance : Nat) (rule : Rule) (place : Nat) : Prop :=
  input.allowance ≤ allowance + Rule.count * place + rule.index

section Allowance
variable {input : Input} {n m p q : Nat} {a b rule : Rule}

theorem Input.Enough.mono (h : input.Enough n a p) (le : a.index ≤ b.index) :
    input.Enough n b p := by
  simp only [Input.Enough] at h ⊢
  omega

theorem Input.Enough.forward (h : input.Enough n a p) (le : p ≤ q) : input.Enough n a q := by
  simp only [Input.Enough, Rule.count] at h ⊢
  omega

/-- What is left of an allowance for the rules that a rule at a place applies. -/
structure Supply (input : Input) (n : Nat) (rule : Rule) (p : Nat) : Prop where
  tighter : ∀ next, rule.index < next.index → input.Enough n next p
  beyond : ∀ q next, p < q → input.Enough n next q

theorem Supply.behind_signs (supply : Supply input n rule p) (count : Nat)
    (lt : rule.index < a.index) : input.Enough n a (p + count) := by
  cases count with
  | zero => exact supply.tighter a lt
  | succ count => exact supply.beyond _ a (by omega)

theorem Supply.later (supply : Supply input n rule p) (later : a.Later p (rule.index + 1) q) :
    input.Enough n a q := by
  rcases later with lt | ⟨rfl, le⟩
  · exact supply.beyond q a lt
  · exact supply.tighter a le

theorem Input.Enough.supply (h : input.Enough n rule p) (inside : p < input.tokens.size) :
    ∃ m, n = m + 1 ∧ Supply input m rule p := by
  have index := rule.index_lt_count
  simp only [Input.Enough, Input.allowance, Input.bound, Rule.count] at h index
  obtain ⟨m, rfl⟩ : ∃ m, n = m + 1 := ⟨n - 1, by omega⟩
  refine ⟨m, rfl, fun next lt => ?_, fun q next lt => ?_⟩ <;>
  · simp only [Input.Enough, Input.allowance, Input.bound, Rule.count]
    omega

theorem Yields.run_some {e : Expr} (enough : input.Enough n rule p)
    (inside : p < input.tokens.size)
    (h : ∀ m, Supply input m rule p →
      Yields (body input.forgetful (Grammar.run input.forgetful m) rule) p (some e) q) :
    Yields (Grammar.run input.forgetful n rule) p (some e) q := by
  obtain ⟨m, rfl, supply⟩ := enough.supply inside
  unfold Grammar.run
  rw [remembered_of_off rfl]
  exact attempt_some (h m supply)

theorem Yields.run_none (enough : input.Enough n rule p) (inside : p < input.tokens.size)
    (h : ∀ m, Supply input m rule p →
      ∃ stop, Yields (body input.forgetful (Grammar.run input.forgetful m) rule) p none stop) :
    Yields (Grammar.run input.forgetful n rule) p none p := by
  obtain ⟨m, rfl, supply⟩ := enough.supply inside
  obtain ⟨stop, yields⟩ := h m supply
  unfold Grammar.run
  rw [remembered_of_off rfl]
  exact attempt_none yields

end Allowance

/-! ## What is accepted of a phrase -/

/-- The loop of a level, behind what was read so far. -/
def takeMore (input : Input) (call : Rule → ParseM (Option Expr)) (level : Rule)
    (bound : Nat) (left : Expr) : ParseM Expr :=
  match level with
  | .multiplicative => productMore input call bound left
  | .part => indexed input call bound left
  | .application => curried input call bound left
  | level =>
    match level.operand? with
    | some next => foldMore input call level next bound left
    | none => return left

/-- A power as its loop reads it: a base up to `mid`, and a chain of exponents. -/
def Chained (input : Input) (p q : Nat) (e : Expr) : Prop :=
  ∃ base chain mid, p < mid ∧ powers input.config base chain = e ∧
    (∀ x ∈ chain, x.first ∈ input.tokens) ∧
    (∀ n, input.Enough n .part p → input.FollowsAt .power q →
      Yields (run input.forgetful n .part) p (some base) mid) ∧
    ∀ n bound, input.Enough n .or mid → q ≤ mid + bound → input.FollowsAt .power q →
      Yields (exponents input.forgetful (run input.forgetful n) bound) mid chain q

/-- The parser reads a phrase between two places, if what stands behind it can follow. -/
def Phrase.Accepted (input : Input) : (phrase : Phrase) → Nat → Nat → phrase.Value → Prop
  | rule r, p, q, e =>
    (∀ n, input.Enough n r p → input.FollowsAt r q →
      Yields (run input.forgetful n r) p (some e) q) ∧
    (r = .power → Chained input p q e)
  | after level left, p, q, e =>
    ∀ n bound, input.Enough n .or p → q ≤ p + bound → input.FollowsAt level q →
      Yields (takeMore input.forgetful (run input.forgetful n) level bound left) p e q
  | operand, p, q, r =>
    ∀ n, input.Enough n .additive p → input.FollowsAt .additive q →
      Yields (run input.forgetful n .additive) p r q
  | arguments, p, q, es =>
    ∀ n closer, input.Enough n .or p → input.ClosesAt closer q →
      Yields (sequence input.forgetful (run input.forgetful n) closer) p (some es)
        (q + closer.width)
  | items, p, q, es =>
    ∀ n closer bound, input.Enough n .or p → q ≤ p + bound → input.ClosesAt closer q →
      Yields (Grammar.items input.forgetful (run input.forgetful n) closer bound) p (some es)
        (q + closer.width)

/-! ## Where nothing can start -/

section Absent
variable {input : Input} {n p : Nat} {kind : Token.Kind} {level next : Rule}

theorem body_level (input : Input) (call : Rule → ParseM (Option Expr))
    (hnext : level.operand? = some next) :
    body input call level =
      (do
        match ← call next with
        | none => return none
        | some left => some <$> takeMore input call level input.bound left) := by
  cases level <;> cases hnext <;> rfl

/-- A level does not apply where its first operand does not. -/
theorem absent_level (hnext : level.operand? = some next) (inside : p < input.tokens.size)
    (absent : ∀ m, input.Enough m next p → Yields (run input.forgetful m next) p none p)
    (enough : input.Enough n level p) : Yields (run input.forgetful n level) p none p := by
  refine .run_none enough inside fun m supply => ⟨p, ?_⟩
  rw [body_level input.forgetful _ hnext]
  exact (absent m (supply.tighter next (Rule.index_lt_of_operand? hnext))).bind .pure

/-- No operand of a span is read where none can start. -/
theorem absent_additive (hkind : input.kindAt p = some kind)
    (hstart : Rule.additive.canStart kind = false) (enough : input.Enough n .additive p) :
    Yields (run input.forgetful n .additive) p none p := by
  have inside := Input.kindAt_lt hkind
  obtain ⟨first, hfirst, rfl⟩ := Option.map_eq_some_iff.mp hkind
  have not_minus : first.kind ≠ .minus := by
    intro h
    rw [h] at hstart
    cases hstart
  have not_atom : startsAtom first.kind = false := by
    cases h : startsAtom first.kind with
    | false => rfl
    | true => simp [Rule.canStart, h] at hstart
  -- From the atom up to the sum every rule looks at the same token and finds nothing.
  have atom (m : Nat) (enough : input.Enough m .atom p) :
      Yields (run input.forgetful m .atom) p none p := by
    refine .run_none enough inside fun m _ => ⟨p, ?_⟩
    refine (Yields.peek hfirst).bind ?_
    cases h : first.kind <;> first
      | exact absurd not_atom (by rw [h]; decide)
      | exact Yields.expect.bind .pure
  have part (m : Nat) (enough : input.Enough m .part p) := absent_level rfl inside atom enough
  have power (m : Nat) (enough : input.Enough m .power p) :
      Yields (run input.forgetful m .power) p none p :=
    .run_none enough inside fun m supply =>
      ⟨p, (part m (supply.tighter .part (by decide))).bind .pure⟩
  have unary (m : Nat) (enough : input.Enough m .unary p) :
      Yields (run input.forgetful m .unary) p none p := by
    refine .run_none enough inside fun m supply => ⟨p, ?_⟩
    show Yields (signed input.forgetful _) p none p
    unfold signed
    have signs : Yields (acceptMany input.forgetful .minus input.bound) p 0 p :=
      Yields.acceptMany Input.signsAt_zero (by decide) hkind not_minus (Nat.zero_le _)
    refine signs.bind ?_
    refine (Yields.peek hfirst).bind ?_
    exact (power m (supply.tighter .power (by decide))).bind .pure
  have multiplicative (m : Nat) (enough : input.Enough m .multiplicative p) :=
    absent_level rfl inside unary enough
  exact absent_level rfl inside multiplicative enough

end Absent

/-! ## Levels that group to the left -/

section Levels
variable {input : Input} {n p q r : Nat} {level next : Rule} {left right e : Expr}

theorem level_accepted (hnext : level.operand? = some next)
    (operand : Derives input (.rule next) p q left)
    (ih₁ : Phrase.Accepted input (.rule next) p q left)
    (rest : Derives input (.after level left) q r e)
    (ih₂ : Phrase.Accepted input (.after level left) q r e) (enough : input.Enough n level p)
    (follow : input.FollowsAt level r) :
    Yields (run input.forgetful n level) p (some e) r := by
  have start := operand.lt
  have stop := follow.lt
  refine .run_some enough operand.startsAt.lt fun m supply => ?_
  rw [body_level input.forgetful _ hnext]
  have tighter := supply.tighter next (Rule.index_lt_of_operand? hnext)
  refine (ih₁.1 m tighter (rest.followsAt hnext follow)).bind ?_
  refine Yields.map (ih₂ m _ (supply.beyond q .or start) ?_ follow)
  show r ≤ q + (input.tokens.size + 1)
  omega

/-- A level stops in front of what can follow it. -/
theorem stop_accepted : Phrase.Accepted input (.after level left) p p left := by
  intro n bound enough _ follow
  obtain ⟨kind, hkind⟩ := follow.kindAt
  obtain ⟨first, hfirst, rfl⟩ := Option.map_eq_some_iff.mp hkind
  cases bound with
  | zero => cases level <;> exact .pure
  | succ bound =>
    -- Five levels share one loop.  The other loops look at their own signs.
    have fold {next : Rule} (loose : level.index < Rule.atom.index) :
        Yields (foldMore input.forgetful (run input.forgetful n) level next (bound + 1) left)
          p left p := by
      refine (Yields.peek hfirst).bind ?_
      rw [operator?_eq_none_of_canFollow (follow.canFollow loose hkind)]
      exact .pure
    cases level with
    | or | and | equality | relational | additive => exact fold (by decide)
    | not | span | unary | power | atom | group | list => exact .pure
    | multiplicative =>
      have no_sign := operator?_eq_none_of_canFollow (follow.canFollow (by decide) hkind)
      have not_start : ¬ startsAtom first.kind = true := fun start =>
        Input.not_followsAt_of_canFollow (by decide) hkind
          (canFollow_multiplicative_of_startsAtom start) follow
      refine (Yields.peek hfirst).bind ?_
      simp only [no_sign, not_start, Bool.false_eq_true, and_false, if_false]
      exact .pure
    | part =>
      refine Yields.current.bind ?_
      have single : ¬ pairAt input.forgetful p .leftBracket = true := fun pair =>
        Input.not_followsAt_of_leftBracket (by decide) (Input.kindAt_of_pairAt pair).1 follow
      rw [if_neg single]
      exact .pure
    | application =>
      refine (Yields.opensArguments_false hkind ?_).bind .pure
      exact fun opens => Input.not_followsAt_of_opensArguments opens follow

theorem sign_accepted {kind : Token.Kind} {op : Operator} (hnext : level.operand? = some next)
    (hkind : input.kindAt p = some kind) (hop : level.operator? kind = some op)
    (operand : Derives input (.rule next) (p + 1) q right)
    (ih₁ : Phrase.Accepted input (.rule next) (p + 1) q right)
    (rest : Derives input (.after level (.node op [left, right])) q r e)
    (ih₂ : Phrase.Accepted input (.after level (.node op [left, right])) q r e) :
    Phrase.Accepted input (.after level left) p r e := by
  intro n bound enough room follow
  have lt := operand.lt
  have le := rest.after_le
  have follow₁ := rest.followsAt hnext follow
  obtain ⟨bound, rfl⟩ : ∃ b, bound = b + 1 := ⟨bound - 1, by omega⟩
  obtain ⟨first, hfirst, rfl⟩ := Option.map_eq_some_iff.mp hkind
  have not_end := Rule.ne_endOfInput_of_operator? hop
  have yields₁ := ih₁.1 n ((enough.mono (Nat.zero_le _)).forward (Nat.le_succ p)) follow₁
  have yields₂ := ih₂ n bound (enough.forward (by omega)) (by omega) follow
  have sign (more : Expr → ParseM Expr) (h : Yields (more (.node op [left, right])) q e r) :
      Yields (takeSign input.forgetful (run input.forgetful n) next op left more) p e r :=
    Yields.current.bind (.skip hkind not_end (yields₁.bind h))
  cases level with
  | or | and | equality | relational | additive =>
    cases hnext
    refine (Yields.peek hfirst).bind ?_
    rw [hop]
    exact sign _ yields₂
  | multiplicative =>
    cases hnext
    refine (Yields.peek hfirst).bind ?_
    dsimp only
    rw [hop]
    exact sign _ yields₂
  | part => cases hop
  | not | span | unary | power | atom | group | list | application => cases hnext

theorem beside_accepted (himplicit : input.config.implicitMultiplication = true)
    (factor : Derives input (.rule .power) p q right)
    (ih₁ : Phrase.Accepted input (.rule .power) p q right)
    (rest : Derives input (.after .multiplicative (.node .times [left, right])) q r e)
    (ih₂ : Phrase.Accepted input (.after .multiplicative (.node .times [left, right])) q r e) :
    Phrase.Accepted input (.after .multiplicative left) p r e := by
  intro n bound enough room follow
  have lt := factor.lt
  have le := rest.after_le
  have follow₁ := (rest.followsAt rfl follow).mono (b := .power) (by decide)
  obtain ⟨bound, rfl⟩ : ∃ b, bound = b + 1 := ⟨bound - 1, by omega⟩
  obtain ⟨kind, hkind, start⟩ := factor.startsAt
  obtain ⟨first, hfirst, rfl⟩ := Option.map_eq_some_iff.mp hkind
  have start : startsAtom first.kind = true := by simpa [Rule.canStart, Rule.index] using start
  have no_sign : Rule.multiplicative.operator? first.kind = none := by
    cases h : first.kind <;> first | rfl | exact absurd start (by rw [h]; decide)
  have himplicit' : input.forgetful.config.implicitMultiplication = true := himplicit
  refine (Yields.peek hfirst).bind ?_
  simp only [no_sign, himplicit', start, and_self, if_true]
  refine (ih₁.1 n (enough.mono (Nat.zero_le _)) follow₁).bind ?_
  exact ih₂ n bound (enough.forward (by omega)) (by omega) follow

end Levels

/-! ## Signs in front -/

section Signs
variable {input : Input} {n p q r count : Nat} {e : Expr}

theorem signs_accepted {kind : Token.Kind} {next : Rule} (signs : input.SignsAt kind p count)
    (hend : kind ≠ .endOfInput) (start : input.StartsAt next (p + count))
    (hnext : next.canStart kind = false) :
    Yields (acceptMany input.forgetful kind input.bound) p count (p + count) := by
  have inside := start.lt
  obtain ⟨other, hother⟩ := start.kindAt
  have bounded : count ≤ input.bound := by
    simp only [Input.bound]
    omega
  exact .acceptMany signs hend hother (start.kindAt_ne hnext hother) bounded

theorem not_accepted (signs : input.SignsAt .not p count)
    (operand : Derives input (.rule .equality) (p + count) q e)
    (ih : Phrase.Accepted input (.rule .equality) (p + count) q e)
    (enough : input.Enough n .not p) (follow : input.FollowsAt .not q) :
    Yields (run input.forgetful n .not) p (some (Nat.repeat negation count e)) q := by
  have start := operand.startsAt
  refine .run_some enough (Nat.lt_of_add_right_lt start.lt) fun m supply => ?_
  show Yields (negated input.forgetful _) _ _ _
  refine (signs_accepted signs (by decide) start (by decide)).bind ?_
  exact (ih.1 m (supply.behind_signs count (by decide)) (follow.mono (by decide))).bind .pure

/-- No value is missing where numbers carry theirs. -/
theorem needValue_accepted {first : Token} (valued : input.Valued)
    (h : first ∈ input.tokens) :
    Yields (needValue input.forgetful count first e) p () p := by
  unfold needValue
  split
  · next missing =>
    obtain ⟨number, missing⟩ := missing
    have kind : first.kind = .number := by
      cases e <;> simp_all [folds]
    exact absurd missing (valued first h (.inl kind))
  · exact .pure

theorem unary_accepted (valued : input.Valued) (signs : input.SignsAt .minus p count)
    (operand : Derives input (.rule .power) (p + count) q e)
    (ih : Phrase.Accepted input (.rule .power) (p + count) q e)
    (enough : input.Enough n .unary p) (follow : input.FollowsAt .unary q) :
    Yields (run input.forgetful n .unary) p (some (input.prefixed count (p + count) q e)) q := by
  have start := operand.startsAt
  obtain ⟨kind, hkind⟩ := start.kindAt
  obtain ⟨first, hfirst, -⟩ := Option.map_eq_some_iff.mp hkind
  have member : first ∈ input.tokens := Array.mem_of_getElem? hfirst
  rw [← negate_eq_prefixed operand hfirst]
  refine .run_some enough (Nat.lt_of_add_right_lt start.lt) fun m supply => ?_
  show Yields (signed input.forgetful _) _ _ _
  refine (signs_accepted signs (by decide) start (by decide)).bind ?_
  refine Yields.bind (.peek hfirst) ?_
  refine (ih.1 m (supply.behind_signs count (by decide)) (follow.mono (by decide))).bind ?_
  exact (needValue_accepted valued member).bind .pure

/-! ## Powers -/

theorem base_chained (part : Derives input (.rule .part) p q e)
    (ih : Phrase.Accepted input (.rule .part) p q e) : Chained input p q e := by
  refine ⟨e, [], q, part.lt, rfl, nofun,
    fun n enough follow => ih.1 n enough (follow.mono (by decide)), fun n bound _ _ follow => ?_⟩
  cases bound with
  | zero => exact .pure
  | succ bound =>
    obtain ⟨other, hother, no_sign⟩ := follow.kindAt_ne .power (by decide) rfl
    exact .check_neg hother no_sign .pure

theorem power_chained {base exponent : Expr}
    (part : Derives input (.rule .part) p q base)
    (ih₁ : Phrase.Accepted input (.rule .part) p q base)
    (hkind : input.kindAt q = some .power) (signs : input.SignsAt .minus (q + 1) count)
    (operand : Derives input (.rule .power) (q + 1 + count) r exponent)
    (ih₂ : Phrase.Accepted input (.rule .power) (q + 1 + count) r exponent) :
    Chained input p r
      (.node .power [base, input.prefixed count (q + 1 + count) r exponent]) := by
  -- The exponent is a power itself, and the loop goes on over its chain.
  obtain ⟨base', chain, mid, lt, hpowers, members, hbase, hchain⟩ := ih₂.2 rfl
  have start := operand.startsAt
  obtain ⟨kind, here⟩ := start.kindAt
  obtain ⟨first, hfirst, -⟩ := Option.map_eq_some_iff.mp here
  refine ⟨base, ⟨count, first, base'⟩ :: chain, q, part.lt, ?_, ?_, ?_, ?_⟩
  · rw [powers, hpowers, negate_eq_prefixed operand hfirst]
  · rintro x hx
    rcases List.mem_cons.mp hx with rfl | hx
    · exact Array.mem_of_getElem? hfirst
    · exact members x hx
  · exact fun n enough _ => ih₁.1 n enough (Input.followsAt_of_canFollow hkind rfl)
  · intro n bound enough room follow
    have := operand.lt
    obtain ⟨bound, rfl⟩ : ∃ b, bound = b + 1 := ⟨bound - 1, by omega⟩
    refine .check_pos hkind ?_
    refine Yields.current.bind ?_
    refine .skip hkind (by decide) ?_
    refine (signs_accepted signs (by decide) start (by decide)).bind ?_
    refine Yields.bind (.peek hfirst) ?_
    refine (hbase n ((enough.mono (Nat.zero_le _)).forward (by omega)) follow).bind ?_
    exact (hchain n bound (enough.forward (by omega)) (by omega) follow).bind .pure

theorem power_accepted (valued : input.Valued) (chained : Chained input p q e)
    (enough : input.Enough n .power p) (follow : input.FollowsAt .power q)
    (inside : p < input.tokens.size) : Yields (run input.forgetful n .power) p (some e) q := by
  obtain ⟨base, chain, mid, lt, rfl, members, hbase, hchain⟩ := chained
  refine .run_some enough inside fun m supply => ?_
  show Yields (power input.forgetful _) _ _ _
  refine (hbase m (supply.tighter .part (by decide)) follow).bind ?_
  have stop := follow.lt
  have room : q ≤ mid + input.bound := by
    simp only [Input.bound]
    omega
  refine (hchain m input.bound (supply.beyond mid .or lt) room follow).bind ?_
  rw [powers_forgetful]
  cases last : chain.getLast? with
  | none => exact .pure
  | some x =>
    have member := members x (List.mem_of_getLast? last)
    exact (needValue_accepted valued member).bind .pure

end Signs

/-! ## Spans -/

section Spans
variable {input : Input} {n p q r t : Nat} {e step : Expr} {start stop : Option Expr}

theorem missing_accepted (enough : input.Enough n .additive p)
    (follow : input.FollowsAt .additive p) :
    Yields (run input.forgetful n .additive) p none p := by
  obtain ⟨kind, hkind⟩ := follow.kindAt
  refine absent_additive hkind (Bool.eq_false_iff.mpr fun start => ?_) enough
  exact Input.not_followsAt_of_canFollow (by decide) hkind
    (canFollow_additive_of_canStart start) follow

theorem single_accepted (operand : Derives input (.rule .additive) p q e)
    (ih : Phrase.Accepted input (.rule .additive) p q e) (enough : input.Enough n .span p)
    (follow : input.FollowsAt .span q) : Yields (run input.forgetful n .span) p (some e) q := by
  obtain ⟨other, hother, no_span⟩ := follow.kindAt_ne .span (by decide) rfl
  refine .run_some enough operand.startsAt.lt fun m supply => ?_
  show Yields (span input.forgetful _) _ _ _
  refine (ih.1 m (supply.tighter .additive (by decide)) (follow.mono (by decide))).bind ?_
  exact .check_neg hother no_span .pure

/-- What a span does behind its start and stop. -/
def takeStep (input : Input) (call : Rule → ParseM (Option Expr)) (ends : List Expr) :
    ParseM (Option Expr) := do
  if ← check input .span then
    let mark ← current
    let _ ← advance input
    match ← call .additive with
    | none =>
      rewind mark
      return some (.node .span ends)
    | some step => return some (.node .span (ends ++ [step]))
  else return some (.node .span ends)

/-- A span is read if what stands behind its start and stop is. -/
theorem span_accepted (derives₁ : Derives input .operand p q start)
    (ih₁ : Phrase.Accepted input .operand p q start) (hkind : input.kindAt q = some .span)
    (derives₂ : Derives input .operand (q + 1) r stop)
    (ih₂ : Phrase.Accepted input .operand (q + 1) r stop)
    (follow : input.FollowsAt .additive r) (enough : input.Enough n .span p)
    (rest : ∀ m, input.Enough m .or r →
      Yields (takeStep input.forgetful (run input.forgetful m)
        [start.getD (.number "1"), stop.getD .everything]) r (some e) t) :
    Yields (run input.forgetful n .span) p (some e) t := by
  have le₁ := derives₁.operand_le
  have le₂ := derives₂.operand_le
  have lt := Input.kindAt_lt hkind
  refine .run_some enough (by omega) fun m supply => ?_
  show Yields (span input.forgetful _) _ _ _
  refine (ih₁ m (supply.tighter .additive (by decide))
    (Input.followsAt_of_canFollow hkind rfl)).bind ?_
  refine .check_pos hkind ?_
  refine .skip hkind (by decide) ?_
  refine (ih₂ m (supply.beyond _ .additive (by omega)) follow).bind ?_
  exact rest m (supply.beyond r .or (by omega))

theorem takeStep_none {ends : List Expr} (follow : input.FollowsAt .span p) :
    Yields (takeStep input.forgetful (run input.forgetful n) ends) p (some (.node .span ends))
      p := by
  obtain ⟨other, hother, no_span⟩ := follow.kindAt_ne .span (by decide) rfl
  exact .check_neg hother no_span .pure

theorem takeStep_some {ends : List Expr} (hkind : input.kindAt p = some .span)
    (ih : Phrase.Accepted input (.rule .additive) (p + 1) q step)
    (enough : input.Enough n .or p) (follow : input.FollowsAt .span q) :
    Yields (takeStep input.forgetful (run input.forgetful n) ends) p
      (some (.node .span (ends ++ [step]))) q := by
  refine .check_pos hkind ?_
  refine Yields.current.bind ?_
  refine .skip hkind (by decide) ?_
  have enough := (enough.mono (b := .additive) (Nat.zero_le _)).forward (Nat.le_succ p)
  exact (ih.1 n enough (follow.mono (by decide))).bind .pure

end Spans

/-! ## Brackets -/

section Brackets
variable {input : Input} {n p q r : Nat} {e : Expr} {es : List Expr}

theorem Derives.opening {rule : Rule} (h : Derives input (.rule rule) p q e) :
    ∀ kind, rule.opener? = some kind → input.kindAt p = some kind := by
  intro kind hkind
  cases h with
  | level hnext =>
    rw [(Rule.opener?_of_operand? hnext).1] at hkind
    cases hkind
  | group here | list here =>
    cases hkind
    exact here
  | application ht isName =>
    cases hkind
    rw [Input.kindAt_of_getElem? ht, isName]
  | _ => cases hkind

/-- Brackets are read whose arguments are. -/
theorem bracketed_accepted (uncapped : input.config.maxNestingDepth = none) (closer : Closer)
    (opens : input.BracketAt closer p)
    (ih : Phrase.Accepted input .arguments (p + closer.width) q es)
    (enough : input.Enough n .or (p + closer.width)) (closes : input.ClosesAt closer q) :
    Yields (bracketed input.forgetful (run input.forgetful n) closer) p (some es)
      (q + closer.width) := by
  have inside := ih n closer enough closes
  have here := Input.kindAt_of_bracketAt opens
  have not_end : closer.opener ≠ .endOfInput := by cases closer <;> decide
  unfold bracketed
  refine Yields.current.bind ?_
  obtain ⟨first, hfirst, isFirst⟩ := Option.map_eq_some_iff.mp here
  refine Yields.bind (.advance hfirst (isFirst ▸ not_end)) ?_
  by_cases double : closer = .doubleBracket
  · subst double
    simp only [if_true]
    refine .skip (Input.kindAt_of_pairAt opens).2 (by decide) ?_
    exact .nested uncapped inside
  · have width : closer.width = 1 := by cases closer <;> first | rfl | exact absurd rfl double
    rw [width] at inside ⊢
    simp only [if_neg double]
    exact .nested uncapped inside

theorem sequence_accepted_nil : Phrase.Accepted input .arguments p p [] := by
  intro n closer _ closes
  refine Yields.bind (.close closes) ?_
  exact .pure

theorem sequence_accepted (derives : Derives input .items p q es)
    (ih : Phrase.Accepted input .items p q es) : Phrase.Accepted input .arguments p q es := by
  intro n closer enough closes
  obtain ⟨kind, hkind, start⟩ : input.StartsAt .or p := derives.starts
  have other : kind ≠ closer.kind := by
    rintro rfl
    cases closer <;> cases start
  have room : q ≤ p + input.bound := by
    have := Input.kindAt_lt (Input.kindAt_of_closesAt closes)
    simp only [Input.bound]
    omega
  refine Yields.bind (.close_false hkind other) ?_
  exact ih n closer input.bound enough room closes

theorem item_accepted (derives : Derives input (.rule .or) p q e)
    (ih : Phrase.Accepted input (.rule .or) p q e) : Phrase.Accepted input .items p q [e] := by
  intro n closer bound enough room closes
  have lt := derives.lt
  obtain ⟨bound, rfl⟩ : ∃ b, bound = b + 1 := ⟨bound - 1, by omega⟩
  have not_comma : closer.kind ≠ .comma := by cases closer <;> decide
  refine (ih.1 n enough (Input.followsAt_of_closesAt .or closes)).bind ?_
  refine Yields.bind (.accept_other (Input.kindAt_of_closesAt closes) not_comma) ?_
  exact Yields.bind (.close closes) .pure

theorem items_accepted (derives : Derives input (.rule .or) p q e)
    (ih₁ : Phrase.Accepted input (.rule .or) p q e) (comma : input.kindAt q = some .comma)
    (others : Derives input .items (q + 1) r es)
    (ih₂ : Phrase.Accepted input .items (q + 1) r es) :
    Phrase.Accepted input .items p r (e :: es) := by
  intro n closer bound enough room closes
  have lt := derives.lt
  have lt' := others.items_lt
  obtain ⟨bound, rfl⟩ : ∃ b, bound = b + 1 := ⟨bound - 1, by omega⟩
  refine (ih₁.1 n enough (Input.followsAt_of_comma .or comma)).bind ?_
  refine Yields.bind (.accept comma (by decide)) ?_
  exact (ih₂ n closer bound (enough.forward (by omega)) (by omega) closes).bind .pure

theorem indices_accepted (uncapped : input.config.maxNestingDepth = none) {left : Expr}
    (opens : pairAt input p .leftBracket = true)
    (derives : Derives input .arguments (p + 2) q es)
    (ih₁ : Phrase.Accepted input .arguments (p + 2) q es)
    (closes : pairAt input q .rightBracket = true)
    (rest : Derives input (.after .part (.node .part (left :: es))) (q + 2) r e)
    (ih₂ : Phrase.Accepted input (.after .part (.node .part (left :: es))) (q + 2) r e) :
    Phrase.Accepted input (.after .part left) p r e := by
  intro n bound enough room follow
  have le₁ := derives.arguments_le
  have le₂ := rest.after_le
  obtain ⟨bound, rfl⟩ : ∃ b, bound = b + 1 := ⟨bound - 1, by omega⟩
  have opens' : pairAt input.forgetful p .leftBracket = true := opens
  have brackets := bracketed_accepted uncapped .doubleBracket opens ih₁
    (enough.forward (Nat.le_add_right p 2)) closes
  refine Yields.current.bind ?_
  rw [if_pos opens']
  refine brackets.bind ?_
  exact ih₂ n bound (enough.forward (by omega)) (by omega) follow

theorem curried_accepted (uncapped : input.config.maxNestingDepth = none) {left : Expr}
    (opens : input.OpensArguments p) (derives : Derives input .arguments (p + 1) q es)
    (ih₁ : Phrase.Accepted input .arguments (p + 1) q es)
    (closes : input.kindAt q = some .rightBracket)
    (rest : Derives input (.after .application (.apply left es)) (q + 1) r e)
    (ih₂ : Phrase.Accepted input (.after .application (.apply left es)) (q + 1) r e) :
    Phrase.Accepted input (.after .application left) p r e := by
  intro n bound enough room follow
  have le₁ := derives.arguments_le
  have le₂ := rest.after_le
  obtain ⟨bound, rfl⟩ : ∃ b, bound = b + 1 := ⟨bound - 1, by omega⟩
  have brackets := bracketed_accepted uncapped .bracket opens.1 ih₁
    (enough.forward (Nat.le_add_right p 1)) closes
  refine Yields.bind (.opensArguments opens) ?_
  rw [if_pos rfl]
  refine Yields.current.bind ?_
  refine brackets.bind ?_
  exact ih₂ n bound (enough.forward (by omega)) (by omega) follow

/-! ## Atoms -/

theorem group_accepted (uncapped : input.config.maxNestingDepth = none)
    (opens : input.kindAt p = some .leftParen)
    (ih : Phrase.Accepted input (.rule .or) (p + 1) q e)
    (closes : input.ClosesAt .paren q) (enough : input.Enough n .group p) :
    Yields (run input.forgetful n .group) p (some e) (q + 1) := by
  obtain ⟨first, hfirst, isFirst⟩ := Option.map_eq_some_iff.mp opens
  refine .run_some enough (Input.kindAt_lt opens) fun m supply => ?_
  show Yields (group input.forgetful _) _ _ _
  refine Yields.current.bind ?_
  refine Yields.bind (.advance hfirst (by rw [isFirst]; decide)) ?_
  refine .nested uncapped ?_
  have follow := Input.followsAt_of_closesAt .or closes
  refine (ih.1 m (supply.beyond _ .or (Nat.lt_succ_self p)) follow).bind ?_
  exact Yields.bind (.close closes) .pure

theorem list_accepted (uncapped : input.config.maxNestingDepth = none)
    (opens : input.kindAt p = some .leftBrace)
    (ih : Phrase.Accepted input .arguments (p + 1) q es)
    (closes : input.kindAt q = some .rightBrace) (enough : input.Enough n .list p) :
    Yields (run input.forgetful n .list) p (some (.node .list es)) (q + 1) := by
  refine .run_some enough (Input.kindAt_lt opens) fun m supply => ?_
  exact (bracketed_accepted uncapped .brace opens ih
    (supply.beyond _ .or (Nat.lt_succ_self p)) closes).bind .pure

theorem application_accepted (uncapped : input.config.maxNestingDepth = none) {name : Token}
    (hname : input.tokens[p]? = some name) (isName : name.kind = .identifier)
    (opens : input.OpensArguments (p + 1)) (derives : Derives input .arguments (p + 2) q es)
    (ih₁ : Phrase.Accepted input .arguments (p + 2) q es)
    (closes : input.kindAt q = some .rightBracket)
    (ih₂ : Phrase.Accepted input
      (.after .application (namedApplication input.config name.lexeme es)) (q + 1) r e)
    (enough : input.Enough n .application p) (follow : input.FollowsAt .application r) :
    Yields (run input.forgetful n .application) p (some e) r := by
  have le := derives.arguments_le
  have here := Input.kindAt_of_getElem? hname
  have room : r ≤ q + 1 + input.bound := by
    have := follow.lt
    simp only [Input.bound]
    omega
  refine .run_some enough (Input.kindAt_lt here) fun m supply => ?_
  show Yields (application input.forgetful _) _ _ _
  refine Yields.bind (.advance hname (by rw [isName]; decide)) ?_
  refine Yields.bind (.opensArguments opens) ?_
  rw [if_pos rfl]
  refine (bracketed_accepted uncapped .bracket opens.1 ih₁
    (supply.beyond _ .or (by omega)) closes).bind ?_
  exact (ih₂ m input.bound (supply.beyond _ .or (by omega)) room follow).map

/-- An atom that a rule for brackets reads. -/
theorem atom_accepted {rule : Rule} (hrule : rule = .group ∨ rule = .list ∨ rule = .application)
    (derives : Derives input (.rule rule) p q e)
    (ih : Phrase.Accepted input (.rule rule) p q e) (enough : input.Enough n .atom p)
    (follow : input.FollowsAt .atom q) : Yields (run input.forgetful n .atom) p (some e) q := by
  rcases hrule with rfl | rfl | rfl
  all_goals
    have here := derives.opening _ rfl
    obtain ⟨first, hfirst, isFirst⟩ := Option.map_eq_some_iff.mp here
    refine .run_some enough (Input.kindAt_lt here) fun m supply => ?_
    have inner := ih.1 m (supply.tighter _ (by decide)) (follow.mono (by decide))
    refine Yields.bind (.peek hfirst) ?_
    rw [isFirst]
  · exact inner
  · exact inner
  · exact inner.bind .pure

/-- A name that is not applied to arguments. -/
theorem name_accepted {name : Token} (hname : input.tokens[p]? = some name)
    (isName : name.kind = .identifier) (enough : input.Enough n .atom p)
    (follow : input.FollowsAt .atom (p + 1)) :
    Yields (run input.forgetful n .atom) p
      (some (namedConstant input.config name.lexeme)) (p + 1) := by
  have here := Input.kindAt_of_getElem? hname
  have inside := Input.kindAt_lt here
  have advance : Yields (advance input.forgetful) p name (p + 1) :=
    .advance hname (by rw [isName]; decide)
  obtain ⟨kind, hkind⟩ := follow.kindAt
  have no_arguments : ¬ input.OpensArguments (p + 1) :=
    fun opens => Input.not_followsAt_of_opensArguments opens follow
  refine .run_some enough inside fun m supply => ?_
  have application : Yields (run input.forgetful m .application) p none p := by
    refine .run_none (supply.tighter _ (by decide)) inside fun _ _ => ⟨p + 1, ?_⟩
    exact advance.bind (Yields.bind (.opensArguments_false hkind no_arguments) .pure)
  refine Yields.bind (.peek hname) ?_
  rw [isName]
  exact application.bind (advance.bind .pure)

/-- A number or a string. -/
theorem value_accepted {kind : Token.Kind} (here : input.kindAt p = some kind)
    (h : kind = .number ∧ e = .number (input.valueAt p) ∨
      kind = .string ∧ e = .string (input.valueAt p))
    (enough : input.Enough n .atom p) :
    Yields (run input.forgetful n .atom) p (some e) (p + 1) := by
  obtain ⟨first, hfirst, isFirst⟩ := Option.map_eq_some_iff.mp here
  have value : input.valueAt p = first.value.getD input.blank := by
    simp [Input.valueAt, hfirst]
  rw [value] at h
  refine .run_some enough (Input.kindAt_lt here) fun m supply => ?_
  refine Yields.bind (.peek hfirst) ?_
  rw [isFirst]
  rcases h with ⟨rfl, rfl⟩ | ⟨rfl, rfl⟩ <;>
  · refine Yields.bind (.advance hfirst (by rw [isFirst]; decide)) ?_
    exact .pure

end Brackets

/-! ## All phrases -/

section All
variable {input : Input} {p q n : Nat} {e e' : Expr}

/-- Whatever the reference grammar derives is accepted. -/
theorem Derives.accepted (uncapped : input.config.maxNestingDepth = none)
    (valued : input.Valued) {phrase : Phrase} {v : phrase.Value}
    (h : Derives input phrase p q v) : phrase.Accepted input p q v := by
  induction h with
  | level hnext operand rest ih₁ ih₂ =>
    refine ⟨fun n enough follow => level_accepted hnext operand ih₁ rest ih₂ enough follow, ?_⟩
    rintro rfl
    cases hnext
  | stop => exact stop_accepted
  | sign hnext hkind hop operand rest ih₁ ih₂ =>
    exact sign_accepted hnext hkind hop operand ih₁ rest ih₂
  | beside himplicit factor rest ih₁ ih₂ => exact beside_accepted himplicit factor ih₁ rest ih₂
  | indices opens es closes rest ih₁ ih₂ =>
    exact indices_accepted uncapped opens es ih₁ closes rest ih₂
  | curried opens es closes rest ih₁ ih₂ =>
    exact curried_accepted uncapped opens es ih₁ closes rest ih₂
  | not signs operand ih =>
    exact ⟨fun n enough follow => not_accepted signs operand ih enough follow, nofun⟩
  | unary signs operand ih =>
    exact ⟨fun n enough follow => unary_accepted valued signs operand ih enough follow, nofun⟩
  | base part ih =>
    have chained := base_chained part ih
    exact ⟨fun n enough follow =>
      power_accepted valued chained enough follow part.startsAt.lt, fun _ => chained⟩
  | power part hkind signs operand ih₁ ih₂ =>
    have chained := power_chained part ih₁ hkind signs operand ih₂
    exact ⟨fun n enough follow =>
      power_accepted valued chained enough follow part.startsAt.lt, fun _ => chained⟩
  | single operand ih =>
    exact ⟨fun n enough follow => single_accepted operand ih enough follow, nofun⟩
  | span start hkind stop ih₁ ih₂ =>
    refine ⟨fun n enough follow => ?_, nofun⟩
    exact span_accepted start ih₁ hkind stop ih₂ (follow.mono (by decide)) enough
      fun m _ => takeStep_none follow
  | spanStep start hkind stop hkind' step ih₁ ih₂ ih₃ =>
    refine ⟨fun n enough follow => ?_, nofun⟩
    exact span_accepted start ih₁ hkind stop ih₂ (Input.followsAt_of_canFollow hkind' rfl) enough
      fun m enough => takeStep_some hkind' ih₃ enough follow
  | missing => exact fun n enough follow => missing_accepted enough follow
  | present operand ih => exact ih.1
  | bracketed hrule derives ih =>
    exact ⟨fun n enough follow => atom_accepted hrule derives ih enough follow, nofun⟩
  | name hname isName =>
    exact ⟨fun n enough follow => name_accepted hname isName enough follow, nofun⟩
  | number here => exact ⟨fun n enough _ => value_accepted here (.inl ⟨rfl, rfl⟩) enough, nofun⟩
  | string here => exact ⟨fun n enough _ => value_accepted here (.inr ⟨rfl, rfl⟩) enough, nofun⟩
  | group opens _ closes ih =>
    exact ⟨fun n enough _ => group_accepted uncapped opens ih closes enough, nofun⟩
  | list opens _ closes ih =>
    exact ⟨fun n enough _ => list_accepted uncapped opens ih closes enough, nofun⟩
  | application hname isName opens derives closes _ ih₁ ih₂ =>
    exact ⟨fun n enough follow => application_accepted uncapped hname isName opens derives ih₁
      closes ih₂ enough follow, nofun⟩
  | noArguments => exact sequence_accepted_nil
  | someArguments derives ih => exact sequence_accepted derives ih
  | item derives ih => exact item_accepted derives ih
  | items derives comma others ih₁ ih₂ => exact items_accepted derives ih₁ comma others ih₂

end All

end Grammar
end Formula
