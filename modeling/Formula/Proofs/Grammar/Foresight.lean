import Formula.Proofs.Grammar.Heeds

/-! # What the pass foresees of a rule

While all is calm the parser is where the pass is: in front of the same token, with the same
brackets open and the same things missing (`Meets`).  A rule that is applied there reads its
operand or does not apply, and the pass has foreseen which (`Foreseen`).

Behind what a rule read, either all is calm, and no tighter rule takes the next token; or the
parser has gone back from the furthest failure, and then the verdict is known (`Landed`).  A
rule that does not apply found nothing that it could start with, or the verdict is known
(`Missed`).
-/
namespace Formula
namespace Grammar

/-! ## Where the parser and the pass are -/

/-- All is calm, and the parser is where the pass has the outlook `o`. -/
structure Meets (input : Input) (o : Outlook) (s : State) : Prop where
  ends : input.EndsFrom s.current
  depth : s.depth = o.frames.length
  furthest_le : s.furthest ≤ s.current
  needed : s.neededHere = o.noted

/-- The verdict is that all is missing which was missing at the furthest place, unless a
pending number comes first. -/
def Blamed (v : Verdict) (held : Bool) (s : State) : Prop :=
  v = if held then .valueless else .unexpected s.furthest s.expected

/-- Whatever brackets are open, the pass takes no token. -/
def Input.Refuses (input : Input) (spot : Spot) (place : Nat) : Prop :=
  ∀ frames, input.step? place ⟨spot, frames⟩ =
    some (.halt (Outlook.refusal ⟨spot, frames⟩ place))

/-- A looser rule may take the next token, or none does. -/
def Input.Declines (input : Input) (rule : Rule) (spot : Spot) (place : Nat) : Prop :=
  input.FollowsAt rule place ∨ input.Refuses spot place

/-- Behind what a rule read: all is calm, and it is over to looser rules; or the parser is
back in front of a token that cannot follow. -/
inductive Landed (input : Input) (v : Verdict) (rule : Rule) (spot : Spot) (frames : List Frame)
    (s : State) : Prop
  | calm (meets : Meets input ⟨spot, frames⟩ s) (comes : input.Comes s.current ⟨spot, frames⟩ v)
    (declines : input.Declines rule spot s.current)
  | stuck (ends : input.EndsFrom s.current) (depth : s.depth = frames.length)
    (failed : s.current < s.furthest) (stuck : ¬ input.FollowsAt rule s.current)
    (blamed : Blamed v (Outlook.held ⟨spot, frames⟩) s)

/-- Where the pass is behind what a rule read.  Behind a span an operand may be missing, and
looser rules begin new spans. -/
def Spot.Fits (rule : Rule) (spans : Nat) (pending : Bool) (spot : Spot) : Prop :=
  if rule.index ≤ Rule.span.index then spot = .optional ∨ ∃ n, spot = .complete n false false
  else spot = .complete spans false pending

/-- Whether the token between two places is a number that would have to take in a sign and
cannot. -/
def Input.pendingAt (input : Input) (signed : Bool) (start stop : Nat) : Bool :=
  signed && input.config.foldNegativeLiterals && stop == start + 1 &&
    (input.sight? start).any fun sight => sight.kind == .number && sight.valueless

/-- A rule has read an expression from a place on. -/
structure Foreseen (input : Input) (v : Verdict) (rule : Rule) (need : Need)
    (frames : List Frame) (start : Nat) (e : Expr) (s : State) : Prop where
  lt : start < s.current
  /-- What starts with a number and is one is nothing but its token. -/
  number : Rule.power.index ≤ rule.index → input.kindAt start = some .number →
    ((∃ text, e = .number text) ↔ s.current = start + 1)
  landed : ∃ spot, Spot.Fits rule need.spans (input.pendingAt need.signed start s.current) spot ∧
    Landed input v rule spot frames s

/-- A rule does not apply: it cannot start with the token, or it got stuck inside. -/
def Missed (input : Input) (v : Verdict) (rule : Rule) (need : Need) (frames : List Frame)
    (s t : State) : Prop :=
  t.depth = s.depth ∧
    ((¬ input.StartsAt rule s.current ∧ t.furthest = s.current ∧
        t.expected = s.neededHere.insert .expression) ∨
      (input.StartsAt rule s.current ∧ s.current < t.furthest ∧
        Blamed v (need.held || frames.any Frame.held) t))

/-- A name has no arguments, or the parser got stuck in them. -/
def Nameless (input : Input) (v : Verdict) (frames : List Frame) (s t : State) : Prop :=
  (¬ input.OpensArguments (s.current + 1) ∧ t = s.moveTo t.current) ∨
    (input.OpensArguments (s.current + 1) ∧ t.depth = s.depth ∧ s.current + 1 < t.furthest ∧
      Blamed v (frames.any Frame.held) t)

/-- How a rule ends that was applied in state `s`. -/
def Ended (input : Input) (v : Verdict) (rule : Rule) (need : Need) (frames : List Frame)
    (s : State) : Option Expr → State → Prop
  | some e, t => Foreseen input v rule need frames s.current e t
  | none, t =>
    if rule = .application then Nameless input v frames s t
    else Missed input v rule need frames s t

theorem ended_none {input : Input} {v : Verdict} {rule : Rule} {need : Need}
    {frames : List Frame} {s t : State} (hrule : rule ≠ .application) :
    Ended input v rule need frames s none t ↔ Missed input v rule need frames s t := by
  show (if rule = .application then Nameless input v frames s t
    else Missed input v rule need frames s t) ↔ _
  rw [if_neg hrule]

/-- A rule can be applied where the pass needs an operand that it may read. -/
structure Poised (input : Input) (v : Verdict) (rule : Rule) (need : Need)
    (frames : List Frame) (s : State) : Prop where
  meets : Meets input ⟨.needed need, frames⟩ s
  opening : ∀ kind, rule.opener? = some kind → input.kindAt s.current = some kind
  tighter : need.rule.index ≤ rule.index
  fresh : rule.index ≤ Rule.span.index → need.spans = 0
  unsigned : rule.index ≤ Rule.unary.index → need.signed = false
  unheld : rule.index ≤ Rule.power.index → need.held = false
  comes : input.StartsAt rule s.current →
    input.Comes s.current ⟨.needed need, frames⟩ v

/-- All rules from `(place, number)` on end as foreseen. -/
def ForeseenCalls (input : Input) (v : Verdict) (call : Rule → ParseM (Option Expr))
    (place number : Nat) : Prop :=
  ∀ rule need frames s, Poised input v rule need frames s →
    place < s.current ∨ (place = s.current ∧ number ≤ rule.index) →
    Heeds input v (call rule) s fun r t =>
      Ended input v rule need frames s r t ∧ (r = none → t.current = s.current)

/-! ## Steps of the pass -/

section Steps
variable {config : Config} {place : Nat} {sight : Sight} {need : Need} {frames : List Frame}
  {spot : Spot}

theorem Input.step?_of_sight? {input : Input} (h : input.sight? place = some sight)
    (o : Outlook) : input.step? place o = some (o.step input.config place sight) := by
  simp [Input.step?, h]

/-- Where an operand starts nothing is closed. -/
theorem step_needed (start : need.rule.canStart sight.kind = true) :
    (⟨.needed need, frames⟩ : Outlook).step config place sight =
      need.step config place sight frames := by
  cases frames with
  | nil => rfl
  | cons frame outer =>
    have other : sight.closes frame.closer = false := by
      refine Sight.closes_eq_false fun same => ?_
      rw [same] at start
      cases h : frame.closer <;> simp [h, Closer.kind, Rule.canStart, startsAtom] at start
    simp [Outlook.step, other]

theorem step_needed_refusal (start : need.rule.canStart sight.kind = false)
    (closes : ∀ frame ∈ frames.head?, need.closable = true → sight.closes frame.closer = false) :
    (⟨.needed need, frames⟩ : Outlook).step config place sight =
      .halt (Outlook.refusal ⟨.needed need, frames⟩ place) := by
  cases frames with
  | nil => simp [Outlook.step, Need.step, start]
  | cons frame outer =>
    have : ¬ (need.closable = true ∧ sight.closes frame.closer = true) := by
      rintro ⟨closable, closed⟩
      simp [closes frame rfl closable] at closed
    simp [Outlook.step, Need.step, start, this]

/-- The operand that is needed behind the sign of an operator.  It begins a new span, or it
belongs to a sum or a product in a span. -/
def Need.operand (next : Rule) (spans : Nat) : Need where
  rule := next
  spans := if next.index ≤ Rule.span.index then 0 else spans

/-- Behind the sign of an operator its operand is needed. -/
theorem step_sign {level next : Rule} {op : Operator} {spans : Nat}
    (hnext : level.operand? = some next) (hop : level.operator? sight.kind = some op)
    (fits : spot.Fits level spans false) :
    (⟨spot, frames⟩ : Outlook).step config place sight =
      .on 1 ⟨.needed (.operand next spans), frames⟩ := by
  unfold Rule.operator? at hop
  split at hop <;> cases hop <;> cases hnext <;> rename_i kind <;>
    simp only [Spot.Fits, Rule.index, Nat.reduceLeDiff, if_true, if_false] at fits <;>
    (first | subst fits | rcases fits with rfl | ⟨n, rfl⟩) <;>
    simp [Outlook.step, Outlook.endOperand, Outlook.endSum, kind, startsAtom, looseOperand?,
      tightOperand?, Rule.canStart, Rule.index, Need.operand]

/-- What stands beside an operand is an operand. -/
theorem step_beside {spans : Nat} (implicit : config.implicitMultiplication = true)
    (atom : startsAtom sight.kind = true) :
    (⟨.complete spans false false, frames⟩ : Outlook).step config place sight =
      (⟨.needed { rule := .power, spans }, frames⟩ : Outlook).step config place sight := by
  have start : Rule.power.canStart sight.kind = true := by simp [Rule.canStart, atom]
  rw [step_needed start]
  cases kind : sight.kind <;> simp [kind, startsAtom] at atom <;>
    simp [Outlook.step, Outlook.endOperand, kind, startsAtom, implicit]

/-- In front of a token that neither goes on nor ends an expression the pass stops. -/
theorem endExpression_refusal {o : Outlook} (hend : sight.kind ≠ .endOfInput)
    (comma : sight.kind ≠ .comma) (closes : ∀ closer : Closer, sight.kind ≠ closer.kind) :
    o.endExpression place sight = .halt (o.refusal place) := by
  unfold Outlook.endExpression
  split
  · rw [if_neg hend]
  · next frame outer _ => simp [Sight.closes_eq_false (closes frame.closer), comma]

end Steps

/-! ## Tokens that a level leaves to looser rules -/

section Declines
variable {config : Config} {kind : Token.Kind}

/-- A rule is complete where the next tighter one is, unless no looser rule than that is. -/
theorem canFollow_of_next {a b : Rule} (next : b.index = a.index + 1)
    (follow : canFollow config b kind = true) (other : behind? config kind ≠ some b) :
    canFollow config a kind = true := by
  simp only [canFollow, Option.any_eq_true, decide_eq_true_eq] at follow ⊢
  obtain ⟨loosest, behind, le⟩ := follow
  have apart : loosest.index ≠ b.index := fun same =>
    other (Rule.index_inj.mp same ▸ behind)
  exact ⟨loosest, behind, by omega⟩

/-- A level is complete where its operand is, unless it takes the sign of an operator. -/
theorem canFollow_of_operand? {level next : Rule} (hnext : level.operand? = some next)
    (product : level ≠ .multiplicative) (hop : level.operator? kind = none)
    (follow : canFollow config next kind = true) : canFollow config level kind = true := by
  have index : next.index = level.index + 1 := by
    cases level <;> cases hnext <;> rfl
  refine canFollow_of_next index follow fun behind => ?_
  unfold behind? at behind
  split at behind <;> (try split at behind) <;> cases behind <;> cases level <;> cases hnext <;>
    first | exact product rfl | exact absurd hop (by decide)

/-- No operators are between these rules. -/
theorem canFollow_of_between {a b : Rule} (follow : canFollow config b kind = true)
    (h : a = .not ∧ b = .equality ∨ a = .unary ∧ b = .power ∨ a = .part ∧ b = .atom) :
    canFollow config a kind = true := by
  have index : b.index = a.index + 1 := by
    rcases h with ⟨rfl, rfl⟩ | ⟨rfl, rfl⟩ | ⟨rfl, rfl⟩ <;> rfl
  refine canFollow_of_next index follow fun behind => ?_
  unfold behind? at behind
  split at behind <;> (try split at behind) <;> cases behind <;> simp at h

theorem canFollow_product (hop : Rule.multiplicative.operator? kind = none)
    (beside : ¬ (config.implicitMultiplication = true ∧ startsAtom kind = true))
    (follow : canFollow config .unary kind = true) :
    canFollow config .multiplicative kind = true := by
  refine canFollow_of_next rfl follow fun behind => ?_
  unfold behind? at behind
  split at behind <;> (try split at behind) <;> cases behind <;> first
    | exact absurd hop (by decide)
    | exact beside ⟨‹_›, rfl⟩

theorem canFollow_power (other : kind ≠ .power) (follow : canFollow config .part kind = true) :
    canFollow config .power kind = true := by
  refine canFollow_of_next rfl follow fun behind => other ?_
  unfold behind? at behind
  split at behind <;> (try split at behind) <;> cases behind
  rfl

theorem canFollow_span (other : kind ≠ .span) (follow : canFollow config .additive kind = true) :
    canFollow config .span kind = true := by
  refine canFollow_of_next rfl follow fun behind => other ?_
  unfold behind? at behind
  split at behind <;> (try split at behind) <;> cases behind
  rfl

end Declines

/-! ## Tokens that the pass refuses -/

section Refusals
variable {input : Input} {place : Nat} {kind : Token.Kind}

/-- What cannot stand behind an operand. -/
theorem of_not_canFollow_atom {config : Config} (h : canFollow config .atom kind = false) :
    kind = .not ∨ kind = .leftBracket ∨
      (startsAtom kind = true ∧ config.implicitMultiplication = false) := by
  cases implicit : config.implicitMultiplication <;> cases kind <;>
    simp_all [canFollow, behind?, startsAtom, Rule.index]

/-- Behind an operand every token is one that a looser rule may take, or none does. -/
theorem declines_atom (spans : Nat) (pending : Bool) (here : input.kindAt place = some kind) :
    input.Declines .atom (.complete spans false pending) place := by
  obtain ⟨sight, seen, rfl⟩ := Input.exists_sight here
  have opens := Input.opensPair_of_sight? seen
  cases follow : canFollow input.config .atom sight.kind with
  | true => exact .inl (Input.followsAt_of_canFollow here follow)
  | false =>
    cases pair : pairAt input place .leftBracket with
    | true => exact .inl (.inr ⟨Nat.le_refl _, pair⟩)
    | false =>
      refine .inr fun frames => ?_
      rw [Input.step?_of_sight? seen]
      rw [pair] at opens
      have held : pending = true →
          Outlook.refusal ⟨.complete spans false pending, frames⟩ place = .valueless := by
        rintro rfl
        rfl
      rcases of_not_canFollow_atom follow with isNot | isBracket | ⟨atom, implicit⟩
      · have stops := @endExpression_refusal place sight ⟨.complete spans false pending, frames⟩
          (by simp [isNot]) (by simp [isNot]) fun closer => by
            cases closer <;> simp [isNot, Closer.kind]
        cases pending <;>
          simp [Outlook.step, Outlook.endOperand, Outlook.endSum, isNot, startsAtom,
            tightOperand?, looseOperand?, stops, held]
      · simp [Outlook.step, Outlook.endOperand, isBracket, opens]
      · cases kind : sight.kind <;> simp [kind, startsAtom] at atom <;>
          cases pending <;>
          simp [Outlook.step, Outlook.endOperand, kind, startsAtom, implicit, held]

/-- A third span sign is none that another span may take. -/
theorem refuses_third_span (here : input.kindAt place = some .span) :
    input.Refuses (.complete 2 false false) place := by
  obtain ⟨sight, seen, isSpan⟩ := Input.exists_sight here
  intro frames
  rw [Input.step?_of_sight? seen]
  simp [Outlook.step, Outlook.endOperand, Outlook.endSum, isSpan, startsAtom, tightOperand?]

/-- Where an operand of a span is missing, a sum does not go on. -/
theorem declines_optional (here : input.kindAt place = some kind)
    (missing : Rule.additive.canStart kind = false) :
    input.Declines .additive .optional place := by
  obtain ⟨sight, seen, rfl⟩ := Input.exists_sight here
  cases follow : canFollow input.config .additive sight.kind with
  | true => exact .inl (Input.followsAt_of_canFollow here follow)
  | false =>
    refine .inr fun frames => ?_
    rw [Input.step?_of_sight? seen]
    have closers (closer : Closer) : sight.kind ≠ closer.kind := by
      intro same
      rw [same] at follow
      cases closer <;> cases follow
    have stops := @endExpression_refusal place sight ⟨.optional, frames⟩
      (fun same => by rw [same] at follow; cases follow)
      (fun same => by rw [same] at follow; cases follow) closers
    cases kind : sight.kind <;> rw [kind] at follow missing <;> first
      | (exfalso; revert missing; decide)
      | (exfalso; revert follow; simp [canFollow, behind?, Rule.index]; done)
      | simp [Outlook.step, Outlook.endSum, kind, missing, looseOperand?, stops]

end Refusals

/-! ## Before and behind a rule -/

section Contract
variable {input : Input} {v : Verdict} {a b rule : Rule} {spot : Spot} {need : Need}
  {frames : List Frame} {s t : State}

/-- A tighter rule may be applied at once. -/
theorem Poised.tighten (poised : Poised input v a need frames s) (le : a.index ≤ b.index)
    (opening : ∀ kind, b.opener? = some kind → input.kindAt s.current = some kind) :
    Poised input v b need frames s where
  meets := poised.meets
  opening := opening
  tighter := Nat.le_trans poised.tighter le
  fresh h := poised.fresh (Nat.le_trans le h)
  unsigned h := poised.unsigned (Nat.le_trans le h)
  unheld h := poised.unheld (Nat.le_trans le h)
  comes start := poised.comes (start.mono le)

/-- Beyond the cursor nothing has been missing yet. -/
theorem Meets.forward {o next : Outlook} {place : Nat} (meets : Meets input o s)
    (lt : s.current < place) (ends : input.EndsFrom place)
    (same : next.frames.length = o.frames.length) (noted : next.noted = .empty) :
    Meets input next (s.moveTo place) where
  ends := ends
  depth := meets.depth.trans same.symm
  furthest_le := Nat.le_trans meets.furthest_le (Nat.le_of_lt lt)
  needed := by
    rw [noted]
    exact State.neededHere_of_lt (Nat.lt_of_le_of_lt meets.furthest_le lt)

/-- Behind a sign the rule for its operand can be applied. -/
theorem Meets.poised {o : Outlook} {place : Nat} (meets : Meets input o s)
    (lt : s.current < place) (ends : input.EndsFrom place) (same : frames.length = o.frames.length)
    (hrule : rule.opener? = none) (tighter : need.rule.index ≤ rule.index)
    (fresh : rule.index ≤ Rule.span.index → need.spans = 0)
    (unsigned : rule.index ≤ Rule.unary.index → need.signed = false)
    (unheld : rule.index ≤ Rule.power.index → need.held = false)
    (closable : need.closable = false)
    (comes : input.StartsAt rule place → input.Comes place ⟨.needed need, frames⟩ v) :
    Poised input v rule need frames (s.moveTo place) where
  meets := meets.forward lt ends same (by
    unfold Outlook.noted
    split <;> simp_all)
  opening := by simp [hrule]
  tighter := tighter
  fresh := fresh
  unsigned := unsigned
  unheld := unheld
  comes := comes

/-- Where the next token can follow all is calm. -/
theorem Landed.of_followsAt (landed : Landed input v rule spot frames s)
    (follow : input.FollowsAt rule s.current) :
    Meets input ⟨spot, frames⟩ s ∧ input.Comes s.current ⟨spot, frames⟩ v := by
  cases landed with
  | calm meets comes => exact ⟨meets, comes⟩
  | stuck _ _ _ stuck => exact absurd follow stuck

theorem Landed.ends (landed : Landed input v rule spot frames s) : input.EndsFrom s.current := by
  cases landed with
  | calm meets => exact meets.ends
  | stuck ends => exact ends

theorem Landed.looser (landed : Landed input v b spot frames s) (le : a.index ≤ b.index)
    (h : input.FollowsAt b s.current → input.FollowsAt a s.current) :
    Landed input v a spot frames s := by
  cases landed with
  | calm meets comes declines => exact .calm meets comes (declines.imp_left h)
  | stuck ends depth failed stuck blamed =>
    exact .stuck ends depth failed (fun follow => stuck (follow.mono le)) blamed

/-- The same, where only the kind of the next token counts. -/
theorem Landed.of_canFollow (landed : Landed input v b spot frames s) (le : a.index ≤ b.index)
    (loose : b.index < Rule.atom.index)
    (h : ∀ kind, input.kindAt s.current = some kind → canFollow input.config b kind = true →
      canFollow input.config a kind = true) :
    Landed input v a spot frames s := by
  refine landed.looser le fun follow => ?_
  obtain ⟨kind, here⟩ := follow.kindAt
  exact Input.followsAt_of_canFollow here (h kind here (follow.canFollow loose here))

/-- Behind a pending number that no power and no indices follow there is no formula. -/
theorem Landed.valueless {spans : Nat}
    (landed : Landed input v .power (.complete spans false true) frames s) : v = .valueless := by
  cases landed with
  | stuck _ _ _ _ blamed => exact blamed
  | calm meets comes declines =>
    obtain ⟨first, hfirst⟩ := meets.ends.token
    obtain ⟨sight, seen, kind⟩ := Input.exists_sight (Input.kindAt_of_getElem? hfirst)
    have here := Input.kindAt_of_sight? seen
    rcases declines with follow | refuses
    · refine (comes_halt ?_).mp comes
      have loose := follow.canFollow (by decide) here
      rw [Input.step?_of_sight? seen]
      have power : sight.kind ≠ .power := fun same => by rw [same] at loose; cases loose
      have bracket : sight.kind ≠ .leftBracket := fun same => by rw [same] at loose; cases loose
      unfold Outlook.step
      dsimp only
      unfold Outlook.endOperand
      split
      · exact absurd ‹_› power
      · exact absurd ‹_› bracket
      · rfl
    · exact (comes_halt (refuses frames)).mp comes

/-- Where a rule does not apply the verdict is known, if the rule can start with all that is
needed. -/
theorem Missed.blamed (missed : Missed input v rule need frames s t)
    (meets : Meets input ⟨.needed need, frames⟩ s)
    (comes : input.Comes s.current ⟨.needed need, frames⟩ v)
    (exact : ∀ kind, input.kindAt s.current = some kind → need.rule.canStart kind = true →
      rule.canStart kind = true)
    (closes : ∀ frame ∈ frames.head?, need.closable = true →
      ¬ input.ClosesAt frame.closer s.current) :
    s.current ≤ t.furthest ∧ Blamed v (need.held || frames.any Frame.held) t := by
  obtain ⟨-, ⟨absent, furthest, expected⟩ | ⟨-, failed, blamed⟩⟩ := missed
  · refine ⟨Nat.le_of_eq furthest.symm, ?_⟩
    obtain ⟨first, hfirst⟩ := meets.ends.token
    obtain ⟨sight, seen, kind⟩ := Input.exists_sight (Input.kindAt_of_getElem? hfirst)
    have here := Input.kindAt_of_sight? seen
    have start : need.rule.canStart sight.kind = false := by
      cases start : need.rule.canStart sight.kind with
      | false => rfl
      | true => exact absurd ⟨_, here, exact _ here start⟩ absent
    have refusal := @step_needed_refusal input.config s.current sight need frames start
      fun frame member closable => by
        rw [← Bool.not_eq_true, Input.closes_iff seen]
        exact closes frame member closable
    have := (comes_halt (by rw [Input.step?_of_sight? seen, refusal])).mp comes
    rw [this]
    unfold Blamed Outlook.refusal Outlook.held
    rw [furthest, expected, meets.needed]
    rfl
  · exact ⟨Nat.le_of_lt failed, blamed⟩

end Contract

end Grammar
end Formula
