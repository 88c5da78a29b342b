import Formula.Proofs.Expr.Pieces
import Formula.Proofs.Grammar.Elsewhere
import Formula.Proofs.Grammar.Verdict

/-! # What a report names could have followed

Where a pass stops at a place, the tokens before it can be gone on with in other ways, and
another pass comes to the same place (`Input.Comes.resume`).  Each thing that is missing there
leads on, and from where it leads to the open brackets can be closed (`exists_closing`).

So a report says no more than is true: in front of input that is too much there is a formula,
and what a report names as expected begins the rest of one (`parseTokens_error_truthful`).
-/
namespace Formula
namespace Grammar

/-! ## What is refused -/

section Refused
variable {config : Config} {place q : Nat} {sight : Sight} {o next : Outlook} {spot : Spot}
  {frames : List Frame} {expected : Expectations}

theorem completed_of_not_needed (held : spot.held = false) (other : ∀ need, spot ≠ .needed need) :
    spot.Completed := by
  cases spot with
  | needed need => exact absurd rfl (other need)
  | optional => exact .inl rfl
  | complete spans applicable pending =>
    cases held
    exact .inr ⟨_, _, rfl⟩

/-- Input is too much behind a complete expression in no brackets. -/
theorem completed_of_trailing (h : o.refusal place = .trailing q) :
    o.frames = [] ∧ o.spot.Completed := by
  unfold Outlook.refusal at h
  split at h
  · cases h
  · next held =>
    have held : o.spot.held = false := by
      simp only [Outlook.held, Bool.or_eq_true, not_or, Bool.not_eq_true] at held
      exact held.1
    split at h
    · cases h
    · next closed other => exact ⟨closed, completed_of_not_needed held other⟩
    · cases h

/-- An operand is missing, or the brackets are not closed behind a complete expression. -/
theorem open_of_unexpected (h : o.refusal place = .unexpected q expected) :
    o.held = false ∧
      ((∃ need, o.spot = .needed need ∧ expected = o.noted.insert .expression) ∨
        o.spot.Completed ∧ ∃ frame outer, o.frames = frame :: outer ∧
          expected = frame.closer.missing o.noted) := by
  unfold Outlook.refusal at h
  split at h
  · cases h
  · next held =>
    have held : o.held = false := by simpa using held
    have spotHeld : o.spot.held = false := by
      simp only [Outlook.held, Bool.or_eq_false_iff] at held
      exact held.1
    refine ⟨held, ?_⟩
    split at h
    · next need same =>
      cases h
      exact .inl ⟨need, same, rfl⟩
    · cases h
    · next frame outer opened other =>
      cases h
      exact .inr ⟨completed_of_not_needed spotHeld other, frame, outer, opened, rfl⟩

theorem exists_expectation (h : o.refusal place = .unexpected q expected) :
    ∃ e, expected.contains e = true := by
  obtain ⟨-, ⟨need, -, rfl⟩ | ⟨-, frame, outer, -, rfl⟩⟩ := open_of_unexpected h
  · exact ⟨.expression, by simp [Expectations.contains_insert]⟩
  · refine ⟨.closer frame.closer, ?_⟩
    cases frame.closer <;> simp [Closer.missing, Expectations.contains_insert]

/-- The end of the input can stand behind a complete expression in no brackets. -/
theorem step_end (isEnd : sight.kind = .endOfInput) (complete : spot.Completed) :
    (⟨spot, []⟩ : Outlook).step config place sight = .halt (.accepted place) := by
  rcases complete with rfl | ⟨n, a, rfl⟩ <;>
    simp [Outlook.step, Outlook.endOperand, Outlook.endSum, Outlook.endExpression, isEnd,
      Rule.canStart, startsAtom, tightOperand?, looseOperand?]

/-- In open brackets, or where an operand is missing, the input cannot end. -/
theorem step_end_of_unexpected (isEnd : sight.kind = .endOfInput)
    (refused : o.refusal place = .unexpected q expected) :
    o.step config place sight = .halt (.unexpected q expected) := by
  rw [← refused]
  obtain ⟨-, ⟨need, same, -⟩ | ⟨complete, frame, outer, opened, -⟩⟩ := open_of_unexpected refused
  · obtain ⟨_, frames⟩ := o
    cases same
    refine step_needed_refusal (by simp [isEnd, Rule.canStart, startsAtom]) fun frame _ _ => ?_
    exact Sight.closes_eq_false (by rw [isEnd]; cases frame.closer <;> decide)
  · obtain ⟨spot, _⟩ := o
    cases opened
    have unclosed : sight.closes frame.closer = false :=
      Sight.closes_eq_false (by rw [isEnd]; cases frame.closer <;> decide)
    rcases complete with same | ⟨n, a, same⟩ <;> cases same <;>
      simp [Outlook.step, Outlook.endOperand, Outlook.endSum, Outlook.endExpression, isEnd,
        unclosed, Rule.canStart, startsAtom, tightOperand?, looseOperand?]

end Refused

/-! ## Other ways to go on -/

/-- The same token is seen, and what stands behind it is no opening bracket. -/
structure Sight.Resumed (sight sight' : Sight) : Prop where
  kind : sight'.kind = sight.kind
  valueless : sight'.valueless = sight.valueless
  opensPair : sight'.opensPair = false

/-- A step over one token does not look at the next one, unless to see that two opening brackets
are apart. -/
theorem Sight.Resumed.likens {sight sight' : Sight} (resumed : sight.Resumed sight') :
    sight.Likens 1 sight' where
  kind := resumed.kind
  valueless := resumed.valueless
  single _ := resumed.opensPair
  opensPair := nofun
  closesPair := nofun

section Resume
variable {input other : Input} {place k : Nat} {o : Outlook} {v v' : Verdict}

/-- The tokens before a place are the same, and what stands there is no opening bracket. -/
structure Input.Resumed (input other : Input) (k : Nat) : Prop where
  config : other.config = input.config
  before : ∀ i < k, other.tokens[i]? = input.tokens[i]?
  apart : other.kindAt k ≠ some .leftBracket

theorem Input.Resumed.sight? (resumed : input.Resumed other (place + 1)) {sight : Sight}
    (seen : input.sight? place = some sight) :
    ∃ sight', other.sight? place = some sight' ∧ sight.Resumed sight' := by
  obtain ⟨t, ht, rfl⟩ := Option.map_eq_some_iff.mp seen
  rw [← resumed.before place (Nat.lt_succ_self _)] at ht
  have alone : pairAt other place .leftBracket = false := by
    rw [← Bool.not_eq_true]
    exact fun pair => resumed.apart (Input.kindAt_of_pairAt pair).2
  exact ⟨_, Option.map_eq_some_iff.mpr ⟨t, ht, rfl⟩, rfl, rfl, alone⟩

theorem Input.Resumed.step? (resumed : input.Resumed other k) {width : Nat} {next : Outlook}
    (le : place + width ≤ k) (h : input.step? place o = some (.on width next)) :
    other.step? place o = some (.on width next) := by
  obtain ⟨sight, seen, move⟩ := Option.map_eq_some_iff.mp h
  have pos : 0 < width := width_pos_of_step? h
  rcases Nat.lt_or_eq_of_le (show place + 1 ≤ k by omega) with lt | rfl
  · have same := Input.sight?_congr (resumed.before place (by omega))
      (.inr (resumed.before (place + 1) lt))
    rw [← h]
    unfold Input.step?
    rw [same, resumed.config]
  · obtain rfl : width = 1 := by omega
    obtain ⟨sight', seen', same⟩ := resumed.sight? seen
    rw [Input.step?_of_sight? seen', resumed.config]
    exact congrArg some (step_elsewhere (.of_cap rfl rfl) same.likens (fun _ _ => id) move)

/-- **Where a pass stops, another one comes by too** that has the same tokens before it. -/
theorem Input.Comes.resume (comes : input.Comes place o v) (hk : v.place? = some k) :
    ∃ last, input.step? k last = some (.halt v) ∧
      ∀ other, input.Resumed other k → ∀ v', other.Comes k last v' → other.Comes place o v' := by
  induction comes with
  | halt stop =>
    obtain rfl := place_of_step? stop hk
    exact ⟨_, stop, fun _ _ _ comes => comes⟩
  | on go rest ih =>
    obtain ⟨last, stop, resume⟩ := ih hk
    refine ⟨last, stop, fun other resumed v' comes => ?_⟩
    exact .on (resumed.step? (rest.le_place hk) go) (resume other resumed v' comes)

end Resume

/-! ## To the end of a formula -/

/-- Tokens that close brackets. -/
def Closer.Spells : Closer → List Token → Prop
  | doubleBracket, item => ∃ first second : Token, item = [first, second] ∧
      first.kind = .rightBracket ∧ second.kind = .rightBracket ∧
      second.location.offset = first.endOffset
  | closer, item => ∃ t : Token, item = [t] ∧ t.kind = closer.kind

/-- Tokens that are what is expected.  An expression may be a number. -/
def Expectation.Spells : Expectation → List Token → Prop
  | expression, item => ∃ t : Token, item = [t] ∧ t.kind = .number ∧ t.value ≠ none
  | comma, item => ∃ t : Token, item = [t] ∧ t.kind = .comma
  | closer c, item => c.Spells item

section Closing
variable {input : Input} {place : Nat} {item rest : List Token} {spot : Spot} {frame : Frame}
  {frames : List Frame} {v : Verdict}

theorem Closer.exists_spells (closer : Closer) : ∃ item, closer.Spells item := by
  let first : Token := ⟨closer.kind, "]", none, ⟨"", 1, 1, 0⟩⟩
  let second : Token := ⟨closer.kind, "]", none, ⟨"", 1, 2, first.endOffset⟩⟩
  cases closer with
  | paren | bracket | brace => exact ⟨[first], first, rfl, rfl⟩
  | doubleBracket => exact ⟨[first, second], first, second, rfl, rfl, rfl, rfl⟩

theorem Expectation.exists_spells (e : Expectation) : ∃ item, e.Spells item := by
  cases e with
  | expression => exact ⟨[_], ⟨.number, "0", "0", ⟨"", 1, 1, 0⟩⟩, rfl, rfl, nofun⟩
  | comma => exact ⟨[_], ⟨.comma, ",", none, ⟨"", 1, 1, 0⟩⟩, rfl, rfl⟩
  | closer closer => exact closer.exists_spells

/-- Nothing that is expected opens indices or arguments. -/
theorem Expectation.Spells.cons {e : Expectation} (spells : e.Spells item) :
    ∃ t ts, item = t :: ts ∧ t.kind ≠ .leftBracket := by
  rcases e with _ | _ | closer
  · obtain ⟨t, rfl, kind, -⟩ := spells
    exact ⟨t, [], rfl, by simp [kind]⟩
  · obtain ⟨t, rfl, kind⟩ := spells
    exact ⟨t, [], rfl, by simp [kind]⟩
  · cases closer with
    | doubleBracket =>
      obtain ⟨first, second, rfl, kind, -⟩ := spells
      exact ⟨first, [second], rfl, by simp [kind]⟩
    | paren | bracket | brace =>
      obtain ⟨t, rfl, kind⟩ := spells
      exact ⟨t, [], rfl, by simp [kind, Closer.kind]⟩

theorem Closer.Spells.closesAt {closer : Closer} (spells : closer.Spells item)
    (has : input.HasAt place item) : input.ClosesAt closer place ∧ item.length = closer.width := by
  cases closer with
  | paren | bracket | brace =>
    obtain ⟨t, rfl, kind⟩ := spells
    exact ⟨(Input.kindAt_of_getElem? has.1).trans (congrArg some kind), rfl⟩
  | doubleBracket =>
    obtain ⟨first, second, rfl, kind₁, kind₂, adjacent⟩ := spells
    refine ⟨?_, rfl⟩
    simp [Input.ClosesAt, pairAt, has.1, has.2.1, kind₁, kind₂, adjacent]

/-- Behind a complete expression brackets can be closed, and where they have just been opened. -/
theorem comes_of_closer (spells : frame.closer.Spells item) (has : input.HasAt place item)
    (closable : spot.Completed ∨ ∃ need, spot = .needed need ∧ need.closable = true)
    (comes : input.Comes (place + item.length)
      ⟨.complete frame.spans (frame.closer == .bracket) false, frames⟩ v) :
    input.Comes place ⟨spot, frame :: frames⟩ v := by
  obtain ⟨closesAt, length⟩ := spells.closesAt has
  obtain ⟨sight, seen, -⟩ := Input.exists_sight (Input.kindAt_of_closesAt closesAt)
  have closes := (Input.closes_iff seen frame.closer).mpr closesAt
  rw [length] at comes
  have closed : (⟨spot, frame :: frames⟩ : Outlook).step input.config place sight =
      frame.close frames := by
    rcases closable with complete | ⟨need, rfl, closable⟩
    · exact step_close closes complete
    · simp [Outlook.step, closable, closes]
  exact .on ((Input.step?_of_sight? seen _).trans (congrArg some closed)) comes

/-- **Behind a complete expression all open brackets can be closed**, and then the formula ends. -/
theorem exists_closing {eof : Token} (isEnd : eof.kind = .endOfInput) (frames : List Frame) :
    ∃ rest, eof ∈ rest ∧ ∀ (input : Input) (place : Nat) (spot : Spot), spot.Completed →
      input.HasAt place rest → ∃ stop, input.Comes place ⟨spot, frames⟩ (.accepted stop) := by
  induction frames with
  | nil =>
    refine ⟨[eof], List.mem_singleton_self eof, fun input place spot complete has => ⟨place, ?_⟩⟩
    obtain ⟨sight, seen, kind⟩ := Input.exists_sight (Input.kindAt_of_getElem? has.1)
    refine .halt ?_
    rw [Input.step?_of_sight? seen, step_end (kind.trans isEnd) complete]
  | cons frame frames ih =>
    obtain ⟨rest, member, closing⟩ := ih
    obtain ⟨item, spells⟩ := frame.closer.exists_spells
    refine ⟨item ++ rest, List.mem_append_right item member,
      fun input place spot complete has => ?_⟩
    obtain ⟨here, behind⟩ := Input.hasAt_append.mp has
    obtain ⟨stop, comes⟩ := closing input _ _ (.inr ⟨frame.spans, _, rfl⟩) behind
    exact ⟨stop, comes_of_closer spells here (.inl complete) comes⟩

/-- Where an operand is needed or may be missing, a number can stand. -/
theorem exists_step_number {t : Token} (here : input.tokens[place]? = some t)
    (kind : t.kind = .number) (valued : t.value ≠ none)
    (operand : spot = .optional ∨ ∃ need, spot = .needed need) :
    ∃ spans, input.step? place ⟨spot, frames⟩ =
      some (.on 1 ⟨.complete spans false false, frames⟩) := by
  obtain ⟨sight, seen, isNumber, hasValue⟩ : ∃ sight, input.sight? place = some sight ∧
      sight.kind = .number ∧ sight.valueless = false :=
    ⟨_, Option.map_eq_some_iff.mpr ⟨t, here, rfl⟩, kind, Option.isNone_eq_false_iff.mpr
      (Option.isSome_iff_ne_none.mpr valued)⟩
  rw [Input.step?_of_sight? seen]
  have start (rule : Rule) : rule.canStart .number = true := rfl
  rcases operand with rfl | ⟨need, rfl⟩
  · exact ⟨1, by simp [Outlook.step, Need.step, Rule.canStart, startsAtom, isNumber]⟩
  · refine ⟨need.spans, ?_⟩
    rw [step_needed (isNumber ▸ start need.rule)]
    simp [Need.step, start, isNumber, hasValue]

end Closing

/-! ## What a refusal names -/

section Named
variable {o : Outlook} {place q : Nat} {expected already : Expectations} {e : Expectation}

theorem contains_missing {closer : Closer} (h : (closer.missing already).contains e = true) :
    e = .closer closer ∨ (e = .comma ∧ closer ≠ .paren) ∨ already.contains e = true := by
  cases closer <;> simp only [Closer.missing, Expectations.contains_insert, Bool.or_eq_true,
    decide_eq_true_eq] at h
  case paren => exact h.imp Eq.symm .inr
  all_goals
    rcases h with rfl | rfl | h
    · exact .inr (.inl ⟨rfl, nofun⟩)
    · exact .inl rfl
    · exact .inr (.inr h)

/-- What was found missing before is the end of brackets that have just been opened, or a
further operand of a span. -/
theorem contains_noted (h : o.noted.contains e = true) :
    (o.spot = .optional ∧ e = .expression) ∨
      ∃ need frame outer, o.spot = .needed need ∧ need.closable = true ∧
        o.frames = frame :: outer ∧ e = .closer frame.closer := by
  unfold Outlook.noted at h
  split at h
  · next need frame outer same opened =>
    split at h
    · next closable =>
      simp only [Expectations.contains_insert, Expectations.contains_empty, Bool.or_false,
        decide_eq_true_eq] at h
      exact .inr ⟨need, frame, outer, same, closable, opened, h.symm⟩
    · simp [Expectations.contains_empty] at h
  · simp [Expectations.contains_empty] at h
  · next same =>
    simp only [Expectations.contains_insert, Expectations.contains_empty, Bool.or_false,
      decide_eq_true_eq] at h
    exact .inl ⟨same, h.symm⟩
  · simp [Expectations.contains_empty] at h

/-- Behind such tokens a formula can be completed, up to an end of the input. -/
def Outlook.LeadsOn (o : Outlook) (eof : Token) (item : List Token → Prop) : Prop :=
  ∃ rest, eof ∈ rest ∧ ∀ ts, item ts → ∀ (input : Input) (place : Nat),
    input.HasAt place (ts ++ rest) → ∃ stop, input.Comes place o (.accepted stop)

variable {spot : Spot} {frame : Frame} {frames : List Frame} {eof : Token}

theorem leadsOn_expression (isEnd : eof.kind = .endOfInput)
    (operand : spot = .optional ∨ ∃ need, spot = .needed need) :
    Outlook.LeadsOn ⟨spot, frames⟩ eof Expectation.expression.Spells := by
  obtain ⟨rest, member, closing⟩ := exists_closing isEnd frames
  refine ⟨rest, member, ?_⟩
  rintro _ ⟨t, rfl, kind, valued⟩ input place ⟨here, has⟩
  obtain ⟨spans, step⟩ := exists_step_number here kind valued operand
  obtain ⟨stop, comes⟩ := closing input _ _ (.inr ⟨spans, false, rfl⟩) has
  exact ⟨stop, .on step comes⟩

theorem leadsOn_closer (isEnd : eof.kind = .endOfInput)
    (closable : spot.Completed ∨ ∃ need, spot = .needed need ∧ need.closable = true) :
    Outlook.LeadsOn ⟨spot, frame :: frames⟩ eof (Expectation.closer frame.closer).Spells := by
  obtain ⟨rest, member, closing⟩ := exists_closing isEnd frames
  refine ⟨rest, member, fun item spells input place has => ?_⟩
  obtain ⟨here, behind⟩ := Input.hasAt_append.mp has
  obtain ⟨stop, comes⟩ := closing input _ _ (.inr ⟨frame.spans, _, rfl⟩) behind
  exact ⟨stop, comes_of_closer spells here closable comes⟩

/-- A number can stand behind a comma. -/
theorem leadsOn_comma (isEnd : eof.kind = .endOfInput) (complete : spot.Completed)
    (closer : frame.closer ≠ .paren) :
    Outlook.LeadsOn ⟨spot, frame :: frames⟩ eof Expectation.comma.Spells := by
  obtain ⟨number, spells⟩ := Expectation.expression.exists_spells
  have operand : Outlook.LeadsOn ⟨.needed { rule := .or }, frame :: frames⟩ eof
      Expectation.expression.Spells :=
    leadsOn_expression isEnd (.inr ⟨_, rfl⟩)
  obtain ⟨rest, member, completion⟩ := operand
  refine ⟨number ++ rest, List.mem_append_right number member, ?_⟩
  rintro _ ⟨t, rfl, kind⟩ input place ⟨here, has⟩
  obtain ⟨stop, comes⟩ := completion number spells input _ has
  obtain ⟨sight, seen, isComma⟩ := Input.exists_sight (Input.kindAt_of_getElem? here)
  refine ⟨stop, .on ?_ comes⟩
  rw [Input.step?_of_sight? seen, step_comma (isComma.trans kind) closer complete]

/-- **What is expected leads on**: behind it a formula can be completed. -/
theorem leadsOn_of_unexpected (isEnd : eof.kind = .endOfInput)
    (refused : o.refusal place = .unexpected q expected) (named : expected.contains e = true) :
    o.LeadsOn eof e.Spells := by
  obtain ⟨-, ⟨need, same, rfl⟩ | ⟨complete, frame, outer, opened, rfl⟩⟩ :=
    open_of_unexpected refused
  · simp only [Expectations.contains_insert, Bool.or_eq_true, decide_eq_true_eq] at named
    obtain ⟨spot, frames⟩ := o
    rcases named with rfl | noted
    · exact leadsOn_expression isEnd (.inr ⟨need, same⟩)
    · obtain ⟨-, rfl⟩ | ⟨need, frame, outer, same, closable, rfl, rfl⟩ := contains_noted noted
      · exact leadsOn_expression isEnd (.inr ⟨need, same⟩)
      · exact leadsOn_closer isEnd (.inr ⟨need, same, closable⟩)
  · obtain ⟨spot, frames⟩ := o
    cases opened
    obtain rfl | ⟨rfl, closer⟩ | noted := contains_missing named
    · exact leadsOn_closer isEnd (.inl complete)
    · exact leadsOn_comma isEnd complete closer
    · obtain ⟨same, rfl⟩ | ⟨need, _, _, rfl, -⟩ := contains_noted noted
      · exact leadsOn_expression isEnd (.inl same)
      · rcases complete with same | ⟨_, _, same⟩ <;> cases same

end Named

/-! ## Reports -/

section Reports
variable {config : Config} {tokens ts us : List Token} {k : Nat} {v : Verdict}

/-- The input that a list of tokens is parsed as. -/
def Input.ofTokens (tokens : List Token) (config : Config) : Input where
  tokens := tokens.toArray
  config := config
  blank := unusedText tokens

theorem Input.hasAt_ofTokens (length : ts.length = k) :
    (Input.ofTokens (ts ++ us) config).HasAt k us :=
  length ▸ hasAt_of_eq ts

theorem Input.endsFrom_ofTokens {eof : Token} (member : eof ∈ tokens)
    (isEnd : eof.kind = .endOfInput) : (Input.ofTokens tokens config).EndsFrom 0 := by
  obtain ⟨n, here⟩ := List.getElem?_of_mem member
  refine ⟨n, Nat.zero_le n, ?_⟩
  have here : (Input.ofTokens tokens config).tokens[n]? = some eof := by
    rwa [Input.ofTokens, List.getElem?_toArray]
  exact (Input.kindAt_of_getElem? here).trans (congrArg some isEnd)

theorem exists_parse_of_parseTokens {e : Expr} (h : parseTokens tokens config = .ok e) :
    ∃ s, parse (.ofTokens tokens config) .start = .ok e s := by
  unfold parseTokens at h
  split at h
  · next done =>
    cases h
    exact ⟨_, done⟩
  · cases h

theorem exists_parse_of_parseTokens_error {abort : Abort}
    (h : parseTokens tokens config = .error abort) :
    ∃ s, parse (.ofTokens tokens config) .start = .error abort s := by
  unfold parseTokens at h
  split at h
  · cases h
  · next done =>
    cases h
    exact ⟨_, done⟩

/-- The verdict of a pass is what comes of the tokens. -/
theorem parseTokens_heeds (ends : (Input.ofTokens tokens config).EndsFrom 0)
    (comes : (Input.ofTokens tokens config).Comes 0 .start v) :
    match parseTokens tokens config with
    | .ok _ => ∃ stop, v = .accepted stop
    | .error abort => v.abort? (.ofTokens tokens config) = some abort := by
  cases done : parseTokens tokens config with
  | ok e =>
    obtain ⟨s, h⟩ := exists_parse_of_parseTokens done
    exact ⟨s.current, accepted_of_parse ends comes h⟩
  | error abort =>
    obtain ⟨s, h⟩ := exists_parse_of_parseTokens_error done
    exact abort_of_parse ends comes h

theorem exists_parseTokens_iff (ends : (Input.ofTokens tokens config).EndsFrom 0)
    (comes : (Input.ofTokens tokens config).Comes 0 .start v) :
    (∃ e, parseTokens tokens config = .ok e) ↔ ∃ stop, v = .accepted stop := by
  have heeds := parseTokens_heeds ends comes
  constructor
  · rintro ⟨e, done⟩
    rwa [done] at heeds
  · rintro ⟨stop, rfl⟩
    cases done : parseTokens tokens config with
    | ok e => exact ⟨e, rfl⟩
    | error abort =>
      rw [done] at heeds
      cases heeds

/-- The code of an error tells the verdict. -/
theorem verdict_of_code {input : Input} {error : ParseError}
    (h : v.abort? input = some (.rejected k error)) :
    (error.code = "P002" → v = .trailing k) ∧
      (error.code = "P001" → ∃ expected, v = .unexpected k expected ∧
        error.cause = .unexpectedToken expected.texts) := by
  have place := Verdict.place?_of_abort? h
  have blamed {q : Nat} {cause : ParseError.Cause}
      (h : some (input.blame q cause) = some (.rejected k error)) : error.cause = cause :=
    (Input.of_blame (Option.some.inj h)).2.1
  unfold ParseError.code
  cases v with
  | accepted | valueless => cases h
  | trailing q =>
    rw [blamed h]
    exact ⟨fun _ => congrArg Verdict.trailing (Option.some.inj place), by simp⟩
  | unexpected q expected =>
    rw [blamed h]
    refine ⟨by simp, fun _ => ⟨expected, ?_, rfl⟩⟩
    rw [Option.some.inj place]
  | tooDeep q limit =>
    rw [blamed h]
    exact ⟨by simp, by simp⟩

/-- Where tokens are rejected the pass stops, and another one comes there too if other tokens
follow those in front. -/
theorem exists_stop {eof : Token} {error : ParseError} (isEnd : eof.kind = .endOfInput)
    (h : parseTokens (tokens ++ [eof]) config = .error (.rejected k error)) :
    ∃ o v sight, o.step config k sight = .halt v ∧
      v.abort? (.ofTokens (tokens ++ [eof]) config) = some (.rejected k error) ∧
      ∀ t us, t.kind ≠ .leftBracket →
        ∃ input : Input, input = .ofTokens (tokens.take k ++ t :: us) config ∧
          input.HasAt k (t :: us) ∧
          ∀ v', input.Comes k o v' → input.Comes 0 .start v' := by
  have ends : (Input.ofTokens (tokens ++ [eof]) config).EndsFrom 0 :=
    Input.endsFrom_ofTokens (by simp) isEnd
  obtain ⟨v, comes⟩ := exists_comes (o := .start) ends
  have reported := parseTokens_heeds ends comes
  rw [h] at reported
  have place := Verdict.place?_of_abort? reported
  obtain ⟨o, stop, resume⟩ := comes.resume place
  obtain ⟨sight, seen, move⟩ := Option.map_eq_some_iff.mp stop
  have le : k ≤ tokens.length := by
    have lt := Input.kindAt_lt (Input.kindAt_of_sight? seen)
    have size : (Input.ofTokens (tokens ++ [eof]) config).tokens.size = tokens.length + 1 := by
      simp [Input.ofTokens]
    omega
  refine ⟨o, v, sight, move, reported, fun t us apart => ⟨_, rfl, ?_⟩⟩
  have length : (tokens.take k).length = k := List.length_take_of_le le
  have has : (Input.ofTokens (tokens.take k ++ t :: us) config).HasAt k (t :: us) :=
    Input.hasAt_ofTokens length
  refine ⟨has, resume _ ⟨rfl, fun i lt => ?_, ?_⟩⟩
  · simp only [Input.ofTokens, List.getElem?_toArray]
    rw [List.getElem?_append_left (by omega), List.getElem?_append_left (by omega),
      List.getElem?_take_of_lt lt]
  · rw [Input.kindAt_of_getElem? has.1]
    exact fun same => apart (Option.some.inj same)

/-- **Reports of failures are truthful.**  Let a parse of tokens up to the end of the input be
rejected at place `k`.  If the report is that the input is too much, then the tokens before `k`
are a formula.  If it is that something else was expected, then they are none; something is
named as expected; and behind the tokens before `k` whatever is named can follow, and then a
formula can be completed. -/
theorem parseTokens_error_truthful {eof : Token} {error : ParseError}
    (isEnd : eof.kind = .endOfInput)
    (h : parseTokens (tokens ++ [eof]) config = .error (.rejected k error)) :
    (error.code = "P002" → ∃ e, parseTokens (tokens.take k ++ [eof]) config = .ok e) ∧
    (error.code = "P001" →
      (¬ ∃ e, parseTokens (tokens.take k ++ [eof]) config = .ok e) ∧
      ∃ expected, error.cause = .unexpectedToken expected ∧ expected ≠ [] ∧
        ∀ text ∈ expected, ∃ x : Expectation, x.text = text ∧ (∃ item, x.Spells item) ∧
          ∀ item, x.Spells item →
            ∃ rest e, parseTokens (tokens.take k ++ item ++ rest) config = .ok e) := by
  obtain ⟨o, v, sight, move, reported, resume⟩ := exists_stop isEnd h
  have refused (other : (∃ q, v = .trailing q) ∨ ∃ q expected, v = .unexpected q expected) :
      o.refusal k = v := by
    rcases step_halt move with rfl | ⟨limit, rfl⟩ | rfl | same
    · simp at other
    · simp at other
    · simp at other
    · exact same.symm
  -- What comes of the tokens before the place is what a step at the end of the input says.
  obtain ⟨input, rfl, has, comes⟩ := resume eof [] (by simp [isEnd])
  obtain ⟨last, seen, kind⟩ := Input.exists_sight (Input.kindAt_of_getElem? has.1)
  have ends : Input.EndsFrom (.ofTokens (tokens.take k ++ [eof]) config) 0 :=
    Input.endsFrom_ofTokens (by simp) isEnd
  have stops {v' : Verdict} (step : o.step config k last = .halt v') :=
    exists_parseTokens_iff ends (comes v' (.halt
      ((Input.step?_of_sight? seen o).trans (congrArg some step))))
  obtain ⟨isTrailing, isUnexpected⟩ := verdict_of_code reported
  refine ⟨fun code => ?_, fun code => ?_⟩
  · obtain rfl := isTrailing code
    obtain ⟨closed, complete⟩ := completed_of_trailing (refused (.inl ⟨k, rfl⟩))
    obtain ⟨spot, _⟩ := o
    cases closed
    exact (stops (step_end (kind.trans isEnd) complete)).mpr ⟨k, rfl⟩
  · obtain ⟨expected, rfl, cause⟩ := isUnexpected code
    have refused := refused (.inr ⟨k, expected, rfl⟩)
    refine ⟨fun parses => ?_, expected.texts, cause, ?_, ?_⟩
    · obtain ⟨stop, same⟩ :=
        (stops (step_end_of_unexpected (kind.trans isEnd) refused)).mp parses
      cases same
    · obtain ⟨e, named⟩ := exists_expectation refused
      have member : e.text ∈ expected.texts :=
        List.mem_map_of_mem (Expectations.mem_toList.mpr named)
      exact List.ne_nil_of_mem member
    · intro text member
      obtain ⟨x, named, rfl⟩ := List.mem_map.mp member
      obtain ⟨rest, behind, completion⟩ :=
        leadsOn_of_unexpected isEnd refused (Expectations.mem_toList.mp named)
      refine ⟨x, rfl, x.exists_spells, fun item spells => ⟨rest, ?_⟩⟩
      obtain ⟨t, ts, rfl, apart⟩ := spells.cons
      obtain ⟨input, same, has, comes⟩ := resume t (ts ++ rest) apart
      obtain ⟨stop, completed⟩ := completion (t :: ts) spells input k has
      have completed := comes _ completed
      rw [same, ← List.cons_append, ← List.append_assoc] at completed
      refine (exists_parseTokens_iff ?_ completed).mpr ⟨stop, rfl⟩
      exact Input.endsFrom_ofTokens (List.mem_append_right _ behind) isEnd

/-- A span with an operand missing behind its second sign, in a call. -/
theorem parseTokens_error_truthful_call :
    let token (kind : Token.Kind) (lexeme : String) (value : Option String) (offset : Int) :=
      (⟨kind, lexeme, value, ⟨"", 1, offset + 1, offset⟩⟩ : Token)
    let tokens := [token .identifier "f" "f" 0, token .leftBracket "[" none 1,
      token .number "1" "1" 2, token .span ";;" none 3]
    let eof := token .endOfInput "" none 5
    let config : Config := { memoize := false }
    let expected := ["','", "']'", "expression"]
    parseTokens (tokens ++ [eof]) config =
        .error (.rejected 4 ⟨.unexpectedToken expected, eof⟩) ∧
      ∀ text ∈ expected, ∃ x : Expectation, x.text = text ∧ (∃ item, x.Spells item) ∧
        ∀ item, x.Spells item →
          ∃ rest e, parseTokens (tokens.take 4 ++ item ++ rest) config = .ok e := by
  intro token tokens eof config expected
  have rejected : parseTokens (tokens ++ [eof]) config =
      .error (.rejected 4 ⟨.unexpectedToken expected, eof⟩) := rfl
  obtain ⟨-, isUnexpected⟩ := parseTokens_error_truthful rfl rejected
  obtain ⟨-, named, cause, -, follow⟩ := isUnexpected rfl
  cases cause
  exact ⟨rejected, follow⟩

end Reports

end Grammar
end Formula
