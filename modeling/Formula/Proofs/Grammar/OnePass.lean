import Formula.Proofs.Grammar.LevelOutcome
import Formula.Proofs.Grammar.Conclusion

/-! # One pass over the tokens

The parser goes back where an operand is missing, and reports the furthest failure.  All
the same, what it reports can be told in one pass over the tokens that never goes back: a
machine with a stack of open brackets takes one token, or one pair of brackets, after the
other, and stops at the token that the report will blame.

The machine does not keep track of levels of precedence.  At every place it knows its
`Outlook`: whether an operand is needed there or one is complete, and which brackets are
open.  Of a token it sees only a little (`Sight`).  Its steps are those of
`Config.step`, and `Input.Comes` says to which verdict a pass comes.

Two things besides the shape of the formula bear on the verdict.  Brackets may be too many
for the cap.  And a number without a value behind a minus sign is *pending*: unless a power
or indices follow, it would have to take the sign in.  Where the rest of such a power fails
the parser goes back to the number, so that an open operand may be *held* by a pending number
before it.
-/
namespace Formula
namespace Grammar

/-! ## Sights -/

/-- What is seen of a token. -/
structure Sight where
  kind : Token.Kind
  /-- It is the first of two opening brackets without a gap between them. -/
  opensPair : Bool
  /-- It is the first of two closing brackets without a gap between them. -/
  closesPair : Bool
  /-- It carries no text. -/
  valueless : Bool
deriving DecidableEq

/-- Whether a token of the kind opens or closes brackets. -/
def isBracket : Token.Kind → Bool
  | .leftParen | .rightParen | .leftBracket | .rightBracket | .leftBrace | .rightBrace => true
  | _ => false

/-- What is seen of the token at a place. -/
def Input.sight? (input : Input) (place : Nat) : Option Sight :=
  input.tokens[place]?.map fun t =>
    { kind := t.kind
      opensPair := pairAt input place .leftBracket
      closesPair := pairAt input place .rightBracket
      valueless := t.value.isNone }

/-- Whether brackets with that closer are opened. -/
def Sight.opens (sight : Sight) : Closer → Bool
  | .paren => sight.kind == .leftParen
  | .bracket => sight.kind == .leftBracket && !sight.opensPair
  | .doubleBracket => sight.kind == .leftBracket && sight.opensPair
  | .brace => sight.kind == .leftBrace

/-- Whether the closer of brackets is seen. -/
def Sight.closes (sight : Sight) (closer : Closer) : Bool :=
  sight.kind == closer.kind && (closer != .doubleBracket || sight.closesPair)

/-! ## Outlooks -/

/-- Brackets that are open. -/
structure Frame where
  closer : Closer
  /-- How many span signs the operand has that the brackets belong to. -/
  spans : Nat
  /-- A pending number is before the brackets. -/
  held : Bool

/-- An operand that is needed. -/
structure Need where
  /-- The loosest rule that may read it. -/
  rule : Rule
  /-- How many span signs the expression has so far that it belongs to. -/
  spans : Nat := 0
  /-- A minus sign is directly in front. -/
  signed : Bool := false
  /-- A pending number is before it. -/
  held : Bool := false
  /-- The brackets have just been opened and may be closed again. -/
  closable : Bool := false

/-- Where the pass is in an expression. -/
inductive Spot
  | needed (need : Need)
  /-- Behind the first sign of a span, where an operand may be missing. -/
  | optional
  /-- Behind an operand.  Arguments may follow it, and it may be a pending number. -/
  | complete (spans : Nat) (applicable pending : Bool)

/-- Where the pass is in a formula: the open brackets are listed from the inside. -/
structure Outlook where
  spot : Spot
  frames : List Frame

/-- What a pass comes to, with the place of the token that is to blame. -/
inductive Verdict
  | accepted (place : Nat)
  | trailing (place : Nat)
  | unexpected (place : Nat) (expected : Expectations)
  | tooDeep (place : Nat) (limit : Int)
  | valueless

/-- A step of the pass: over that many tokens, or to its end. -/
inductive Move
  | on (width : Nat) (outlook : Outlook)
  | halt (verdict : Verdict)

/-- The outlook at the start of a formula. -/
def Outlook.start : Outlook := ⟨.needed { rule := .or }, []⟩

/-! ## Refusals -/

/-- Whether a pending number is before the place. -/
def Spot.held : Spot → Bool
  | needed need => need.held
  | optional => false
  | complete _ _ pending => pending

/-- An expression may be complete at the place, and no pending number is in the way. -/
def Spot.Completed (spot : Spot) : Prop :=
  spot = .optional ∨ ∃ spans applicable, spot = .complete spans applicable false

/-- Whether the operands or brackets that are open are held by a pending number. -/
def Outlook.held (o : Outlook) : Bool :=
  o.spot.held || o.frames.any Frame.held

/-- What the parser has found missing at the place before it sees whether an operand or an
operator is there. -/
def Outlook.noted (o : Outlook) : Expectations :=
  match o.spot, o.frames with
  | .needed need, frame :: _ =>
    if need.closable then Expectations.empty.insert (.closer frame.closer) else .empty
  | .needed _, [] => .empty
  | .optional, _ => Expectations.empty.insert .expression
  | .complete .., _ => .empty

/-- What is missing behind a complete expression in brackets, besides what was missing
already. -/
def Closer.missing (closer : Closer) (already : Expectations) : Expectations :=
  match closer with
  | .paren => already.insert (.closer .paren)
  | closer => (already.insert (.closer closer)).insert .comma

/-- The verdict where no token can be taken. -/
def Outlook.refusal (o : Outlook) (place : Nat) : Verdict :=
  if o.held then .valueless
  else
    match o.spot, o.frames with
    | .needed _, _ => .unexpected place (o.noted.insert .expression)
    | _, [] => .trailing place
    | _, frame :: _ => .unexpected place (frame.closer.missing o.noted)

/-! ## Steps -/

section Steps
variable (config : Config) (place : Nat) (sight : Sight)

/-- Brackets are opened. -/
def Frame.enter (frame : Frame) (frames : List Frame) : Move :=
  match config.exceededCap? (frames.length + 1) with
  | some limit => .halt (.tooDeep place limit)
  | none =>
    .on frame.closer.width
      ⟨.needed { rule := .or, closable := frame.closer != .paren }, frame :: frames⟩

/-- Brackets are closed. -/
def Frame.close (frame : Frame) (outer : List Frame) : Move :=
  .on frame.closer.width ⟨.complete frame.spans (frame.closer == .bracket) false, outer⟩

/-- A step where an operand is needed. -/
def Need.step (need : Need) (frames : List Frame) : Move :=
  if need.rule.canStart sight.kind then
    match sight.kind with
    | .leftParen => Frame.enter config place ⟨.paren, need.spans, need.held⟩ frames
    | .leftBrace => Frame.enter config place ⟨.brace, need.spans, need.held⟩ frames
    | .identifier => .on 1 ⟨.complete need.spans true false, frames⟩
    | .string => .on 1 ⟨.complete need.spans false false, frames⟩
    | .number =>
      let pending := need.signed && config.foldNegativeLiterals && sight.valueless
      .on 1 ⟨.complete need.spans false pending, frames⟩
    | .minus =>
      .on 1 ⟨.needed { rule := .unary, spans := need.spans, signed := true, held := need.held },
        frames⟩
    | .span => .on 1 ⟨.optional, frames⟩
    | _ => .on 1 ⟨.needed { rule := .not }, frames⟩
  else .halt (Outlook.refusal ⟨.needed need, frames⟩ place)

/-- A step where an expression is complete and no operator follows. -/
def Outlook.endExpression (o : Outlook) : Move :=
  match o.frames with
  | [] => .halt (if sight.kind = .endOfInput then .accepted place else o.refusal place)
  | frame :: outer =>
    if sight.closes frame.closer then frame.close outer
    else if sight.kind = .comma ∧ frame.closer ≠ .paren then
      .on 1 ⟨.needed { rule := .or }, o.frames⟩
    else .halt (o.refusal place)

/-- The rule for the operand behind the sign of an operator, for operators that are looser
than spans. -/
def looseOperand? : Token.Kind → Option Rule
  | .or => some .and
  | .and => some .not
  | .equal | .notEqual => some .relational
  | .less | .greater => some .span
  | _ => none

/-- The rule for the operand behind the sign of an operator, for sums and products. -/
def tightOperand? : Token.Kind → Option Rule
  | .plus | .minus => some .multiplicative
  | .times | .divide => some .unary
  | _ => none

/-- A step where a sum is complete, or an operand of a span is missing. -/
def Outlook.endSum (o : Outlook) (spans : Nat) : Move :=
  match sight.kind with
  | .span =>
    match spans with
    | 0 => .on 1 ⟨.optional, o.frames⟩
    | 1 => .on 1 ⟨.needed { rule := .additive, spans := 2 }, o.frames⟩
    | _ => .halt (o.refusal place)
  | kind =>
    match looseOperand? kind with
    | some next => .on 1 ⟨.needed { rule := next }, o.frames⟩
    | none => o.endExpression place sight

/-- A step where an operand is complete. -/
def Outlook.endOperand (o : Outlook) (spans : Nat) (applicable pending : Bool) : Move :=
  match sight.kind with
  | .power => .on 1 ⟨.needed { rule := .unary, spans, held := pending }, o.frames⟩
  | .leftBracket =>
    if sight.opensPair then Frame.enter config place ⟨.doubleBracket, spans, pending⟩ o.frames
    else if applicable then Frame.enter config place ⟨.bracket, spans, pending⟩ o.frames
    else .halt (o.refusal place)
  | kind =>
    if pending then .halt .valueless
    else if startsAtom kind then
      if config.implicitMultiplication then
        Need.step config place sight { rule := .power, spans } o.frames
      else .halt (o.refusal place)
    else
      match tightOperand? kind with
      | some next => .on 1 ⟨.needed { rule := next, spans }, o.frames⟩
      | none => o.endSum place sight spans

/-- The step of the pass at a place. -/
def Outlook.step (o : Outlook) : Move :=
  match o.spot with
  | .needed need =>
    match o.frames with
    | frame :: outer =>
      if need.closable ∧ sight.closes frame.closer then frame.close outer
      else need.step config place sight o.frames
    | [] => need.step config place sight []
  | .optional =>
    if Rule.additive.canStart sight.kind then
      Need.step config place sight { rule := .additive, spans := 1 } o.frames
    else o.endSum place sight 1
  | .complete spans applicable pending =>
    o.endOperand config place sight spans applicable pending

end Steps

/-- The step of the pass over some tokens, if there is a token at the place. -/
def Input.step? (input : Input) (place : Nat) (o : Outlook) : Option Move :=
  (input.sight? place).map fun sight => o.step input.config place sight

/-- From a place on, the pass comes to a verdict. -/
inductive Input.Comes (input : Input) : Nat → Outlook → Verdict → Prop
  | halt {place : Nat} {o : Outlook} {v : Verdict} :
    input.step? place o = some (.halt v) → Comes input place o v
  | on {place width : Nat} {o next : Outlook} {v : Verdict} :
    input.step? place o = some (.on width next) → Comes input (place + width) next v →
    Comes input place o v

/-! ## What is seen at a place -/

section Sights
variable {input : Input} {place : Nat} {sight : Sight} {kind : Token.Kind}

theorem Input.kindAt_of_sight? (h : input.sight? place = some sight) :
    input.kindAt place = some sight.kind := by
  obtain ⟨t, ht, rfl⟩ := Option.map_eq_some_iff.mp h
  exact Input.kindAt_of_getElem? ht

theorem Input.exists_sight (h : input.kindAt place = some kind) :
    ∃ sight, input.sight? place = some sight ∧ sight.kind = kind := by
  obtain ⟨t, ht, rfl⟩ := Option.map_eq_some_iff.mp h
  exact ⟨_, Option.map_eq_some_iff.mpr ⟨t, ht, rfl⟩, rfl⟩

theorem Input.opensPair_of_sight? (h : input.sight? place = some sight) :
    sight.opensPair = pairAt input place .leftBracket := by
  obtain ⟨t, -, rfl⟩ := Option.map_eq_some_iff.mp h
  rfl

theorem Input.closesPair_of_sight? (h : input.sight? place = some sight) :
    sight.closesPair = pairAt input place .rightBracket := by
  obtain ⟨t, -, rfl⟩ := Option.map_eq_some_iff.mp h
  rfl

/-- A closer is seen where it stands. -/
theorem Input.closes_iff (h : input.sight? place = some sight) (closer : Closer) :
    sight.closes closer = true ↔ input.ClosesAt closer place := by
  have kind := Input.kindAt_of_sight? h
  have pair := Input.closesPair_of_sight? h
  cases closer with
  | paren | bracket | brace => simp [Sight.closes, Input.ClosesAt, kind]
  | doubleBracket =>
    simp only [Sight.closes, Input.ClosesAt, pair, bne_self_eq_false, Bool.false_or,
      Bool.and_eq_true, beq_iff_eq, and_iff_right_iff_imp]
    intro closes
    have := (Input.kindAt_of_pairAt closes).1
    rw [kind] at this
    exact Option.some.inj this

/-- Only closing brackets close anything. -/
theorem Sight.closes_eq_false {closer : Closer} (h : sight.kind ≠ closer.kind) :
    sight.closes closer = false := by
  simp [Sight.closes, h]

end Sights

/-! ## What a step can do -/

/-- The moves from an outlook, seen from a place. -/
inductive Outlook.Moves (config : Config) (place : Nat) (sight : Sight) (o : Outlook) :
    Move → Prop
  /-- No token can be taken. -/
  | refuse : Moves config place sight o (.halt (o.refusal place))
  /-- A pending number cannot take in its sign. -/
  | pending : o.spot.held = true → Moves config place sight o (.halt .valueless)
  /-- The formula ends. -/
  | accept : sight.kind = .endOfInput → o.frames = [] →
    Moves config place sight o (.halt (.accepted place))
  /-- Brackets are opened. -/
  | enter {frame : Frame} : sight.opens frame.closer = true →
    (frame.held = true → o.spot.held = true) →
    Moves config place sight o (frame.enter config place o.frames)
  /-- Brackets are closed. -/
  | close {frame : Frame} {outer : List Frame} : o.frames = frame :: outer →
    sight.closes frame.closer = true → Moves config place sight o (frame.close outer)
  /-- A token is taken. -/
  | take {spot : Spot} : sight.kind ≠ .endOfInput → isBracket sight.kind = false →
    (spot.held = true → o.spot.held = true ∨ sight.kind = .number ∧ sight.valueless = true) →
    Moves config place sight o (.on 1 ⟨spot, o.frames⟩)

section Moves
variable {config : Config} {place : Nat} {sight : Sight} {o : Outlook} {need : Need}
  {frames : List Frame}

/-- The sign of an operator is no bracket. -/
theorem plain_of_looseOperand? {kind : Token.Kind} {next : Rule}
    (h : looseOperand? kind = some next) : kind ≠ .endOfInput ∧ isBracket kind = false := by
  cases kind <;> first | exact ⟨by decide, rfl⟩ | cases h

theorem plain_of_tightOperand? {kind : Token.Kind} {next : Rule}
    (h : tightOperand? kind = some next) : kind ≠ .endOfInput ∧ isBracket kind = false := by
  cases kind <;> first | exact ⟨by decide, rfl⟩ | cases h

theorem Outlook.Moves.take_unheld {spot : Spot} (hend : sight.kind ≠ .endOfInput)
    (plain : isBracket sight.kind = false) (unheld : spot.held = false) :
    o.Moves config place sight (.on 1 ⟨spot, o.frames⟩) :=
  .take hend plain fun held => absurd held (by simp [unheld])

/-- An operand is read where it starts, whatever it was needed for. -/
theorem moves_need (start : need.rule.canStart sight.kind = true)
    (held : need.held = true → o.spot.held = true) :
    o.Moves config place sight (need.step config place sight o.frames) := by
  unfold Need.step
  rw [if_pos start]
  split
  · next isParen => exact .enter (beq_of_eq isParen) held
  · next isBrace => exact .enter (beq_of_eq isBrace) held
  · next isName => exact .take_unheld (by simp [isName]) (by rw [isName]; rfl) rfl
  · next isString => exact .take_unheld (by simp [isString]) (by rw [isString]; rfl) rfl
  · next isNumber =>
    refine .take (by simp [isNumber]) (by rw [isNumber]; rfl) fun pending => .inr ⟨isNumber, ?_⟩
    simp only [Spot.held, Bool.and_eq_true] at pending
    exact pending.2
  · next isMinus =>
    exact .take (by simp [isMinus]) (by rw [isMinus]; rfl) fun pending => .inl (held pending)
  · next isSpan => exact .take_unheld (by simp [isSpan]) (by rw [isSpan]; rfl) rfl
  · -- Only a sign of negation is left that can start an operand.
    have isNot : sight.kind = .not := by
      revert start
      cases kind : sight.kind <;> simp_all [Rule.canStart, startsAtom]
    exact .take_unheld (by simp [isNot]) (by rw [isNot]; rfl) rfl

theorem moves_endExpression : o.Moves config place sight (o.endExpression place sight) := by
  unfold Outlook.endExpression
  split
  · next closed =>
    split
    · next isEnd => exact .accept isEnd closed
    · exact .refuse
  · next opened =>
    split
    · next closes => exact .close opened closes
    · split
      · next comma => exact .take_unheld (by rw [comma.1]; decide) (by rw [comma.1]; rfl) rfl
      · exact .refuse

theorem moves_endSum {spans : Nat} :
    o.Moves config place sight (o.endSum place sight spans) := by
  unfold Outlook.endSum
  split
  · next isSpan =>
    have hend : sight.kind ≠ .endOfInput := by simp [isSpan]
    have plain : isBracket sight.kind = false := by rw [isSpan]; rfl
    split
    · exact .take_unheld hend plain rfl
    · exact .take_unheld hend plain rfl
    · exact .refuse
  · split
    · next operand =>
      obtain ⟨hend, plain⟩ := plain_of_looseOperand? operand
      exact .take_unheld hend plain rfl
    · exact moves_endExpression

theorem moves_endOperand {spans : Nat} {applicable pending : Bool}
    (held : pending = true → o.spot.held = true) :
    o.Moves config place sight (o.endOperand config place sight spans applicable pending) := by
  unfold Outlook.endOperand
  split
  · next isPower =>
    exact .take (by simp [isPower]) (by rw [isPower]; rfl) fun isPending => .inl (held isPending)
  · next isLeft =>
    split
    · next opens => exact .enter (by simp [Sight.opens, isLeft, opens]) held
    · next single =>
      split
      · exact .enter (by simp [Sight.opens, isLeft, single]) held
      · exact .refuse
  · split
    · next isPending => exact .pending (held isPending)
    · split
      · next atom =>
        split
        · exact moves_need (by simp [Rule.canStart, atom]) (by simp)
        · exact .refuse
      · split
        · next operand =>
          obtain ⟨hend, plain⟩ := plain_of_tightOperand? operand
          exact .take_unheld hend plain rfl
        · exact moves_endSum

theorem moves_needed : Outlook.Moves config place sight ⟨.needed need, frames⟩
    (need.step config place sight frames) := by
  cases start : need.rule.canStart sight.kind with
  | true => exact moves_need start id
  | false =>
    have refused : need.step config place sight frames =
        .halt (Outlook.refusal ⟨.needed need, frames⟩ place) := by
      simp [Need.step, start]
    rw [refused]
    exact .refuse

/-- **What a step can do.** -/
theorem moves_step : o.Moves config place sight (o.step config place sight) := by
  obtain ⟨spot, frames⟩ := o
  unfold Outlook.step
  cases spot with
  | needed need =>
    cases frames with
    | nil => exact moves_needed
    | cons frame outer =>
      dsimp only
      split
      · next closes => exact .close rfl closes.2
      · exact moves_needed
  | optional =>
    dsimp only
    split
    · next start => exact moves_need start nofun
    · exact moves_endSum
  | complete spans applicable pending => exact moves_endOperand id

end Moves

/-! ## Where a step leads -/

/-- The place of the token that is to blame, or of the end of the formula. -/
def Verdict.place? : Verdict → Option Nat
  | accepted place | trailing place | unexpected place _ | tooDeep place _ => some place
  | valueless => none

/-- A step is over a token that does not mark the end of the input, or over two brackets
without a gap between them; and where the pass stops, the token there is to blame. -/
def Move.Proper (place : Nat) (sight : Sight) : Move → Prop
  | on width _ =>
    sight.kind ≠ .endOfInput ∧
      (width = 1 ∨ width = 2 ∧ (sight.opensPair = true ∨ sight.closesPair = true))
  | halt v => v.place? = some place ∨ v = .valueless

section Proper
variable {config : Config} {place : Nat} {sight : Sight} {o : Outlook}

theorem refusal_place : (o.refusal place).place? = some place ∨ o.refusal place = .valueless := by
  unfold Outlook.refusal
  split
  · exact .inr rfl
  · split <;> exact .inl rfl

theorem step_proper : (o.step config place sight).Proper place sight := by
  have moves := @moves_step config place sight o
  generalize o.step config place sight = move at moves
  cases moves with
  | refuse => exact refusal_place
  | pending => exact .inr rfl
  | accept => exact .inl rfl
  | @enter frame opens =>
    unfold Frame.enter
    split
    · exact .inl rfl
    · cases closer : frame.closer <;> simp_all [Sight.opens, Move.Proper, Closer.width]
  | @close frame outer _ closes =>
    simp only [Sight.closes, Bool.and_eq_true, beq_iff_eq] at closes
    refine ⟨?_, ?_⟩
    · rw [closes.1]
      cases frame.closer <;> decide
    · cases closer : frame.closer with
      | doubleBracket => exact .inr ⟨rfl, .inr (by simpa [closer] using closes.2)⟩
      | paren | bracket | brace => exact .inl rfl
  | take hend => exact ⟨hend, .inl rfl⟩

/-- Besides at the end of a formula, at too many brackets and at a number without a value, a
pass stops only where it can take no token. -/
theorem step_halt {v : Verdict} (h : o.step config place sight = .halt v) :
    v = .accepted place ∨ (∃ limit, v = .tooDeep place limit) ∨ v = .valueless ∨
      v = o.refusal place := by
  have moves := @moves_step config place sight o
  rw [h] at moves
  generalize same : Move.halt v = move at moves
  cases moves with
  | refuse => exact .inr (.inr (.inr (Move.halt.inj same)))
  | pending => exact .inr (.inr (.inl (Move.halt.inj same)))
  | accept => exact .inl (Move.halt.inj same)
  | enter =>
    unfold Frame.enter at same
    split at same <;> cases same
    exact .inr (.inl ⟨_, rfl⟩)
  | close => cases same
  | take => cases same

end Proper

/-! ## Passes -/

section Passes
variable {input : Input} {place width : Nat} {o next : Outlook} {v v' : Verdict}

theorem comes_on (h : input.step? place o = some (.on width next)) :
    input.Comes place o v ↔ input.Comes (place + width) next v := by
  refine ⟨fun comes => ?_, .on h⟩
  cases comes with
  | halt stop => simp [h] at stop
  | on go rest =>
    rw [h] at go
    cases go
    exact rest

theorem comes_halt (h : input.step? place o = some (.halt v')) :
    input.Comes place o v ↔ v = v' := by
  refine ⟨fun comes => ?_, fun same => .halt (same ▸ h)⟩
  cases comes with
  | halt stop =>
    rw [h] at stop
    cases stop
    rfl
  | on go => simp [h] at go

/-- A pass goes on alike from outlooks with the same step. -/
theorem comes_congr {o' : Outlook} (h : input.step? place o = input.step? place o') :
    input.Comes place o v ↔ input.Comes place o' v := by
  constructor
  · rintro (stop | ⟨go, rest⟩)
    · exact .halt (h ▸ stop)
    · exact .on (h ▸ go) rest
  · rintro (stop | ⟨go, rest⟩)
    · exact .halt (h ▸ stop)
    · exact .on (h ▸ go) rest

theorem Input.Comes.unique (h : input.Comes place o v) (h' : input.Comes place o v') : v = v' := by
  induction h with
  | halt stop => exact ((comes_halt stop).mp h').symm
  | on go _ ih => exact ih ((comes_on go).mp h')

/-- Where a pass stops, its verdict is about that place. -/
theorem place_of_step? (stop : input.step? place o = some (.halt v)) {k : Nat}
    (hk : v.place? = some k) : k = place := by
  obtain ⟨sight, -, move⟩ := Option.map_eq_some_iff.mp stop
  have proper : (Move.halt v).Proper place sight := move ▸ step_proper
  rcases proper with same | rfl
  · exact Option.some.inj (hk.symm.trans same)
  · cases hk

theorem width_pos_of_step? (h : input.step? place o = some (.on width next)) : 0 < width := by
  obtain ⟨sight, -, move⟩ := Option.map_eq_some_iff.mp h
  have proper : (Move.on width next).Proper place sight := move ▸ step_proper
  rcases proper.2 with rfl | ⟨rfl, -⟩ <;> decide

/-- A step goes forward, and not beyond the end of the input. -/
theorem endsFrom_of_step? (ends : input.EndsFrom place)
    (h : input.step? place o = some (.on width next)) :
    0 < width ∧ input.EndsFrom (place + width) := by
  obtain ⟨sight, seen, move⟩ := Option.map_eq_some_iff.mp h
  have proper : (Move.on width next).Proper place sight := move ▸ step_proper
  obtain ⟨hend, width_eq⟩ := proper
  obtain ⟨first, hfirst⟩ := ends.token
  have kind := Input.kindAt_of_sight? seen
  have isFirst : first.kind = sight.kind :=
    Option.some.inj ((Input.kindAt_of_getElem? hfirst).symm.trans kind)
  have further := ends.next hfirst (isFirst ▸ hend)
  rcases width_eq with rfl | ⟨rfl, pair⟩
  · exact ⟨Nat.one_pos, further⟩
  -- The second bracket of a pair is not the end, either.
  · have second : ∃ bracket, input.kindAt (place + 1) = some bracket ∧ bracket ≠ .endOfInput := by
      rw [Input.opensPair_of_sight? seen, Input.closesPair_of_sight? seen] at pair
      rcases pair with opens | closes
      · exact ⟨_, (Input.kindAt_of_pairAt opens).2, by decide⟩
      · exact ⟨_, (Input.kindAt_of_pairAt closes).2, by decide⟩
    obtain ⟨bracket, hbracket, hend⟩ := second
    obtain ⟨t, ht, isBracket⟩ := Option.map_eq_some_iff.mp hbracket
    exact ⟨Nat.two_pos, further.next ht (isBracket ▸ hend)⟩

/-- **In front of an end of the input every pass comes to a verdict.** -/
theorem exists_comes (ends : input.EndsFrom place) : ∃ v, input.Comes place o v := by
  induction left : input.tokens.size - place using Nat.strongRecOn generalizing place o with
  | ind left ih =>
    obtain ⟨first, hfirst⟩ := ends.token
    obtain ⟨sight, seen, -⟩ := Input.exists_sight (Input.kindAt_of_getElem? hfirst)
    have step : input.step? place o = some (o.step input.config place sight) := by
      simp [Input.step?, seen]
    cases move : o.step input.config place sight with
    | halt v => exact ⟨v, .halt (move ▸ step)⟩
    | on width next =>
      rw [move] at step
      obtain ⟨pos, further⟩ := endsFrom_of_step? ends step
      have inside := ends.lt
      obtain ⟨v, comes⟩ := ih _ (by omega) further rfl
      exact ⟨v, .on step comes⟩

end Passes

/-! ## Numbers that carry their texts -/

/-- Nothing is held by a pending number, and the pass does not stop for one. -/
def Move.Free : Move → Prop
  | on _ next => next.held = false
  | halt v => v ≠ .valueless

section Free
variable {config : Config} {place : Nat} {sight : Sight} {o : Outlook}

theorem step_free (valued : sight.kind = .number → sight.valueless = false)
    (free : o.held = false) : (o.step config place sight).Free := by
  obtain ⟨here, outer⟩ : o.spot.held = false ∧ o.frames.any Frame.held = false := by
    simpa only [Outlook.held, Bool.or_eq_false_iff] using free
  have moves := @moves_step config place sight o
  generalize o.step config place sight = move at moves
  cases moves with
  | refuse =>
    show o.refusal place ≠ .valueless
    unfold Outlook.refusal
    rw [free, if_neg (by decide)]
    split <;> exact nofun
  | pending held => simp [here] at held
  | accept => exact nofun
  | @enter frame _ held =>
    have free : frame.held = false := by
      simpa [here] using held
    unfold Frame.enter
    split
    · exact nofun
    · simp [Move.Free, Outlook.held, Spot.held, free, outer]
  | @close frame frames opened =>
    rw [opened, List.any_cons, Bool.or_eq_false_iff] at outer
    simp [Frame.close, Move.Free, Outlook.held, Spot.held, outer.2]
  | @take spot _ _ held =>
    have free : spot.held = false := by
      rw [← Bool.not_eq_true]
      intro pending
      rcases held pending with held | ⟨isNumber, valueless⟩
      · simp [here] at held
      · simp [valued isNumber] at valueless
    simp [Move.Free, Outlook.held, free, outer]

/-- **Where numbers carry their texts no pass stops for one without.** -/
theorem Input.Comes.ne_valueless {input : Input} {v : Verdict} (valued : input.Valued)
    (comes : input.Comes place o v) (free : o.held = false) : v ≠ .valueless := by
  have step {p : Nat} {o : Outlook} {move : Move} (free : o.held = false)
      (h : input.step? p o = some move) : move.Free := by
    obtain ⟨sight, seen, rfl⟩ := Option.map_eq_some_iff.mp h
    refine step_free (fun isNumber => ?_) free
    obtain ⟨t, ht, rfl⟩ := Option.map_eq_some_iff.mp seen
    have := valued t (Array.mem_of_getElem? ht) (.inl isNumber)
    simpa [Option.isSome_iff_ne_none] using this
  induction comes with
  | halt stop => exact step free stop
  | on go _ ih => exact ih (step free go)

end Free
end Grammar
end Formula
