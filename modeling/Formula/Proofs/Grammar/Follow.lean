import Formula.Proofs.Grammar.Derivation

/-! # What starts a phrase and what follows it

One token of lookahead tells the parser how to go on.  `Rule.canStart` are the kinds
of tokens that what a rule reads can start with, and `canFollow` are those that can
stand behind it when it is complete.  A rule takes in no token that can follow it,
and a token that it does take in can follow its operands.

Only for brackets one token is not enough: two opening brackets without a gap between
them can follow an atom, and a single one cannot.  So what can follow at a place is
`Input.FollowsAt`.
-/
namespace Formula
namespace Grammar

/-! ## Starts -/

/-- Whether what a rule reads can start with a token of a kind. -/
def Rule.canStart (rule : Rule) (kind : Token.Kind) : Bool :=
  startsAtom kind || (kind == .minus && decide (rule.index ≤ unary.index)) ||
    (kind == .span && decide (rule.index ≤ span.index)) ||
    (kind == .not && decide (rule.index ≤ not.index))

theorem Rule.canStart_of_index_le {a b : Rule} {kind : Token.Kind} (h : a.index ≤ b.index)
    (start : b.canStart kind = true) : a.canStart kind = true := by
  simp only [canStart, Bool.or_eq_true, Bool.and_eq_true, decide_eq_true_eq] at start ⊢
  rcases start with ((atom | ⟨isMinus, hb⟩) | ⟨isSpan, hb⟩) | ⟨isNot, hb⟩
  · exact .inl (.inl (.inl atom))
  · exact .inl (.inl (.inr ⟨isMinus, Nat.le_trans h hb⟩))
  · exact .inl (.inr ⟨isSpan, Nat.le_trans h hb⟩)
  · exact .inr ⟨isNot, Nat.le_trans h hb⟩

theorem Rule.index_lt_of_operand? {level next : Rule} (h : level.operand? = some next) :
    level.index < next.index := by
  cases level <;> cases h <;> decide

/-- The levels that group to the left start like their operands. -/
theorem Rule.canStart_operand? {level next : Rule} (h : level.operand? = some next) :
    next.canStart = level.canStart := by
  cases level <;> cases h <;> rfl

/-- What a rule reads can start with the token at a place. -/
def Input.StartsAt (input : Input) (rule : Rule) (place : Nat) : Prop :=
  ∃ kind, input.kindAt place = some kind ∧ rule.canStart kind = true

theorem Input.StartsAt.mono {input : Input} {a b : Rule} {place : Nat}
    (start : input.StartsAt b place) (h : a.index ≤ b.index) : input.StartsAt a place := by
  obtain ⟨kind, hkind, hstart⟩ := start
  exact ⟨kind, hkind, Rule.canStart_of_index_le h hstart⟩

theorem Input.StartsAt.kindAt {input : Input} {rule : Rule} {place : Nat}
    (start : input.StartsAt rule place) : ∃ kind, input.kindAt place = some kind :=
  start.imp fun _ h => h.1

theorem Input.StartsAt.lt {input : Input} {rule : Rule} {place : Nat}
    (start : input.StartsAt rule place) : place < input.tokens.size := by
  obtain ⟨kind, hkind⟩ := start.kindAt
  exact Input.kindAt_lt hkind

theorem Input.StartsAt.kindAt_ne {input : Input} {rule : Rule} {place : Nat}
    {kind other : Token.Kind} (start : input.StartsAt rule place)
    (hkind : rule.canStart kind = false) (h : input.kindAt place = some other) :
    other ≠ kind := by
  rintro rfl
  obtain ⟨k, hk, hstart⟩ := start
  rw [h] at hk
  cases hk
  rw [hkind] at hstart
  cases hstart

/-! ## Followers -/

/-- The loosest rule that can be complete in front of a token of a kind. -/
def behind? (config : Config) : Token.Kind → Option Rule
  | .endOfInput | .rightParen | .rightBracket | .rightBrace | .comma => some .or
  | .or => some .and
  | .and => some .not
  | .equal | .notEqual => some .relational
  | .less | .greater => some .span
  | .span => some .additive
  | .plus | .minus => some .multiplicative
  | .times | .divide => some .unary
  | .identifier | .number | .string | .leftParen | .leftBrace =>
    if config.implicitMultiplication then some .unary else none
  | .power => some .part
  | .not | .leftBracket => none

/-- Whether a token of a kind can stand behind what a rule reads. -/
def canFollow (config : Config) (rule : Rule) (kind : Token.Kind) : Bool :=
  (behind? config kind).any fun loosest => decide (loosest.index ≤ rule.index)

section Followers
variable {config : Config} {level next : Rule} {kind : Token.Kind} {op : Operator}

theorem canFollow_of_index_le {a b : Rule} (h : a.index ≤ b.index)
    (follow : canFollow config a kind = true) : canFollow config b kind = true := by
  simp only [canFollow, Option.any_eq_true, decide_eq_true_eq] at follow ⊢
  obtain ⟨loosest, hl, ha⟩ := follow
  exact ⟨loosest, hl, Nat.le_trans ha h⟩

theorem Rule.ne_endOfInput_of_operator? (hop : level.operator? kind = some op) :
    kind ≠ .endOfInput := by
  rintro rfl
  cases level <;> cases hop

/-- The sign of an operator can follow its operands. -/
theorem canFollow_of_operator? (hnext : level.operand? = some next)
    (hop : level.operator? kind = some op) : canFollow config next kind = true := by
  unfold Rule.operator? at hop
  split at hop <;> cases hop <;> cases hnext <;> rfl

/-- No level takes in the sign of an operator that can follow it. -/
theorem operator?_eq_none_of_canFollow (h : canFollow config level kind = true) :
    level.operator? kind = none := by
  unfold Rule.operator?
  split <;> first | rfl | exact absurd h (by simp [canFollow, behind?, Rule.index])

/-- What a product can start with does not follow another operand of a sum. -/
theorem canFollow_additive_of_canStart (h : Rule.additive.canStart kind = true) :
    canFollow config .additive kind = false := by
  cases kind <;> first
    | exact absurd h (by decide)
    | (simp only [canFollow, behind?]; first | rfl | (split <;> rfl))

theorem canFollow_multiplicative_of_startsAtom (h : startsAtom kind = true) :
    canFollow config .multiplicative kind = false := by
  cases kind <;> first
    | exact absurd h (by decide)
    | (simp only [canFollow, behind?]; split <;> rfl)

/-- Factors side by side are only there in a dialect with implicit multiplication. -/
theorem canFollow_unary_of_startsAtom (himplicit : config.implicitMultiplication = true)
    (h : startsAtom kind = true) : canFollow config .unary kind = true := by
  cases kind <;> first
    | exact absurd h (by decide)
    | simp [canFollow, behind?, himplicit]

end Followers

/-- What a rule reads can be complete in front of the token at a place. -/
def Input.FollowsAt (input : Input) (rule : Rule) (place : Nat) : Prop :=
  (∃ kind, input.kindAt place = some kind ∧ canFollow input.config rule kind = true) ∨
    (Rule.atom.index ≤ rule.index ∧ pairAt input place .leftBracket = true)

namespace Input
variable {input : Input} {place : Nat}

theorem FollowsAt.mono {a b : Rule} (follow : input.FollowsAt a place)
    (h : a.index ≤ b.index) : input.FollowsAt b place := by
  rcases follow with ⟨kind, hkind, hfollow⟩ | ⟨ha, hpair⟩
  · exact .inl ⟨kind, hkind, canFollow_of_index_le h hfollow⟩
  · exact .inr ⟨Nat.le_trans ha h, hpair⟩

theorem kindAt_of_pairAt {kind : Token.Kind} (h : pairAt input place kind = true) :
    input.kindAt place = some kind ∧ input.kindAt (place + 1) = some kind := by
  unfold pairAt at h
  split at h
  · next first second hfirst hsecond =>
    simp only [Bool.and_eq_true, beq_iff_eq] at h
    simp [kindAt, hfirst, hsecond, h.1.1, h.1.2]
  · cases h

/-- Behind the rules that are looser than an atom only the kind of a token counts. -/
theorem FollowsAt.canFollow {rule : Rule} {kind : Token.Kind} (follow : input.FollowsAt rule place)
    (loose : rule.index < Rule.atom.index) (hkind : input.kindAt place = some kind) :
    canFollow input.config rule kind = true := by
  rcases follow with ⟨k, hk, hfollow⟩ | ⟨h, -⟩
  · rw [hkind] at hk
    cases hk
    exact hfollow
  · omega

theorem followsAt_of_canFollow {rule : Rule} {kind : Token.Kind}
    (hkind : input.kindAt place = some kind)
    (follow : canFollow input.config rule kind = true) : input.FollowsAt rule place :=
  .inl ⟨kind, hkind, follow⟩

/-- No rule that is looser than an atom is complete in front of a token that cannot
follow it. -/
theorem not_followsAt_of_canFollow {rule : Rule} {kind : Token.Kind}
    (loose : rule.index < Rule.atom.index) (hkind : input.kindAt place = some kind)
    (stuck : Grammar.canFollow input.config rule kind = false) :
    ¬ input.FollowsAt rule place := by
  intro follow
  rw [follow.canFollow loose hkind] at stuck
  cases stuck

/-- So an opening bracket follows none of them. -/
theorem not_followsAt_of_leftBracket {rule : Rule} (loose : rule.index < Rule.atom.index)
    (h : input.kindAt place = some .leftBracket) : ¬ input.FollowsAt rule place :=
  not_followsAt_of_canFollow loose h rfl

/-- No level is complete in front of a sign that it takes in. -/
theorem not_followsAt_of_operator? {level : Rule} {kind : Token.Kind} {op : Operator}
    (hop : level.operator? kind = some op) (hkind : input.kindAt place = some kind) :
    ¬ input.FollowsAt level place := by
  intro follow
  have loose : level.index < Rule.atom.index := by cases level <;> first | decide | cases hop
  rw [operator?_eq_none_of_canFollow (follow.canFollow loose hkind)] at hop
  cases hop

/-- Nothing is complete in front of arguments. -/
theorem not_followsAt_of_opensArguments {rule : Rule} (h : input.OpensArguments place) :
    ¬ input.FollowsAt rule place := by
  rintro (⟨kind, hkind, follow⟩ | ⟨-, hpair⟩)
  · rw [h.1] at hkind
    cases hkind
    simp [Grammar.canFollow, behind?] at follow
  · rw [h.2] at hpair
    cases hpair

end Input

/-! ## Derivations start where they can -/

/-- What is known of the token at the start of a phrase that stands for a value. -/
def Phrase.Starts (input : Input) : (phrase : Phrase) → Nat → phrase.Value → Prop
  | rule r, p, _ => input.StartsAt r p
  | operand, p, e => e ≠ none → input.StartsAt .additive p
  | arguments, p, es => es ≠ [] → input.StartsAt .or p
  | items, p, _ => input.StartsAt .or p
  | after .., _, _ => True

section Starts
variable {input : Input} {p q : Nat}

theorem Input.startsAt_of_signs {rule inner : Rule} {kind : Token.Kind} {n : Nat}
    (signs : input.SignsAt kind p n) (start : input.StartsAt inner (p + n))
    (hkind : rule.canStart kind = true) (h : rule.index ≤ inner.index) :
    input.StartsAt rule p := by
  cases n with
  | zero => exact start.mono h
  | succ n => exact ⟨kind, signs 0 (Nat.succ_pos n), hkind⟩

theorem Input.startsAt_of_operand {start : Option Expr}
    (operand : Derives input .operand p q start)
    (h : start ≠ none → input.StartsAt .additive p) (hspan : input.kindAt q = some .span) :
    input.StartsAt .span p := by
  cases operand with
  -- A span without a start starts with its sign.
  | missing => exact ⟨.span, hspan, by decide⟩
  | present _ => exact (h (Option.some_ne_none _)).mono (by decide)

theorem Derives.starts {phrase : Phrase} {v : phrase.Value}
    (h : Derives input phrase p q v) : phrase.Starts input p v := by
  induction h with
  | level hnext _ _ ih _ =>
    obtain ⟨kind, hkind, hstart⟩ := ih
    exact ⟨kind, hkind, Rule.canStart_operand? hnext ▸ hstart⟩
  | stop | sign | beside | indices | curried => trivial
  | not signs _ ih => exact Input.startsAt_of_signs signs ih (by decide) (by decide)
  | unary signs _ ih => exact Input.startsAt_of_signs signs ih (by decide) (by decide)
  | base _ ih => exact ih.mono (by decide)
  | power _ _ _ _ ih _ => exact ih.mono (by decide)
  | single _ ih => exact ih.mono (by decide)
  | span hstart hspan _ ih _ => exact Input.startsAt_of_operand hstart ih hspan
  | spanStep hstart hspan _ _ _ ih _ _ => exact Input.startsAt_of_operand hstart ih hspan
  | missing => exact fun h => absurd rfl h
  | present _ ih => exact fun _ => ih
  | bracketed hrule _ ih =>
    refine ih.mono ?_
    rcases hrule with rfl | rfl | rfl <;> decide
  | name ht hkind | application ht hkind =>
    have here := Input.kindAt_of_getElem? ht
    rw [hkind] at here
    exact ⟨.identifier, here, by decide⟩
  | number hkind | string hkind | group hkind | list hkind => exact ⟨_, hkind, by decide⟩
  | noArguments => exact fun h => absurd rfl h
  | someArguments _ ih => exact fun _ => ih
  | item _ ih => exact ih
  | items _ _ _ ih _ => exact ih

/-- What a rule reads starts with a token that it can start with. -/
theorem Derives.startsAt {rule : Rule} {e : Expr} (h : Derives input (.rule rule) p q e) :
    input.StartsAt rule p :=
  h.starts

end Starts

/-! ## Derivations end where they can -/

section Ends
variable {input : Input} {p q : Nat}

theorem Input.FollowsAt.kindAt {rule : Rule} (follow : input.FollowsAt rule p) :
    ∃ kind, input.kindAt p = some kind := by
  rcases follow with ⟨kind, hkind, -⟩ | ⟨-, hpair⟩
  · exact ⟨kind, hkind⟩
  · exact ⟨_, (Input.kindAt_of_pairAt hpair).1⟩

/-- A rule that is looser than an atom is complete in front of another token than one that
cannot follow it. -/
theorem Input.FollowsAt.kindAt_ne {rule : Rule} (follow : input.FollowsAt rule p)
    (kind : Token.Kind) (loose : rule.index < Rule.atom.index)
    (stuck : Grammar.canFollow input.config rule kind = false) :
    ∃ other, input.kindAt p = some other ∧ other ≠ kind := by
  obtain ⟨other, hother⟩ := follow.kindAt
  refine ⟨other, hother, ?_⟩
  rintro rfl
  exact Input.not_followsAt_of_canFollow loose hother stuck follow

theorem Input.FollowsAt.lt {rule : Rule} (follow : input.FollowsAt rule p) :
    p < input.tokens.size := by
  obtain ⟨kind, hkind⟩ := follow.kindAt
  exact Input.kindAt_lt hkind

/-- What a level takes in behind its first operand can follow that operand. -/
theorem Derives.followsAt {level next : Rule} {left e : Expr}
    (h : Derives input (.after level left) p q e) (hnext : level.operand? = some next)
    (follow : input.FollowsAt level q) : input.FollowsAt next p := by
  cases h with
  | stop => exact follow.mono (Nat.le_of_lt (Rule.index_lt_of_operand? hnext))
  | sign hnext' hkind hop =>
    rw [hnext] at hnext'
    cases hnext'
    exact Input.followsAt_of_canFollow hkind (canFollow_of_operator? hnext hop)
  | beside himplicit factor =>
    cases hnext
    -- A power has no signs in front, so a factor side by side starts like an atom.
    obtain ⟨kind, hkind, start⟩ := factor.startsAt
    refine Input.followsAt_of_canFollow hkind (canFollow_unary_of_startsAtom himplicit ?_)
    simpa [Rule.canStart, Rule.index] using start
  | indices hpair =>
    cases hnext
    exact .inr ⟨Nat.le_refl _, hpair⟩
  | curried => cases hnext

end Ends

end Grammar
end Formula
