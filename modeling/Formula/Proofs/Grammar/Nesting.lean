import Formula.Proofs.Grammar.Relocation

/-! # The cap on open brackets

Brackets can be counted from the left to the right, without a parser (`Input.nestingAt`).  The
cap on open brackets stops a parse at the first bracket that is too deep, if the parse comes
there at all, and it changes nothing else (`parse_capped`).

The pass over the tokens has just those brackets open that are counted (`Tracks`).  With and
without a cap it makes the same steps, but for brackets that are opened (`uncaps_step`).  So the
two passes go together up to the first bracket that is too deep, or to the same verdict.
-/
namespace Formula

/-- The same dialect without a cap on open brackets. -/
def Config.uncapped (config : Config) : Config :=
  { config with maxNestingDepth := none }

/-- The cap that is exceeded is the cap of the dialect. -/
theorem Config.eq_of_exceededCap? {config : Config} {depth : Nat} {limit cap : Int}
    (beyond : config.exceededCap? depth = some cap)
    (hasCap : config.maxNestingDepth = some limit) : cap = limit := by
  rw [Config.exceededCap?, hasCap, Option.filter_eq_some_iff] at beyond
  exact (Option.some.inj beyond.1).symm

namespace Grammar

/-! ## Depth -/

/-- The brackets that are open in front of a place. -/
structure Nesting where
  /-- Their closers, from the inside. -/
  levels : List Closer
  /-- The token at the place is the second of two brackets that count as one. -/
  second : Bool

section Depth
variable (input : Input)

/-- The brackets that are open behind a place.  Parentheses, braces, brackets, and two brackets
without a gap between them open a level.  A closing token closes the innermost one; but what two
brackets opened is closed by two, also without a gap between them. -/
def Input.nest (place : Nat) (here : Nesting) : Nesting :=
  if here.second then ⟨here.levels, false⟩
  else
    match input.kindAt place with
    | some .leftParen => ⟨.paren :: here.levels, false⟩
    | some .leftBrace => ⟨.brace :: here.levels, false⟩
    | some .leftBracket =>
      if pairAt input place .leftBracket then ⟨.doubleBracket :: here.levels, true⟩
      else ⟨.bracket :: here.levels, false⟩
    | some .rightParen | some .rightBrace => ⟨here.levels.tail, false⟩
    | some .rightBracket =>
      if here.levels.head? ≠ some .doubleBracket then ⟨here.levels.tail, false⟩
      else if pairAt input place .rightBracket then ⟨here.levels.tail, true⟩
      else here
    | _ => here

/-- The brackets that are open in front of a place, counted from the first token on. -/
def Input.nestingAt : Nat → Nesting
  | 0 => ⟨[], false⟩
  | place + 1 => input.nest place (nestingAt place)

/-- How many brackets are open behind a place where one opens. -/
def Input.depthOf? (place : Nat) : Option Nat :=
  let before := (input.nestingAt place).levels.length
  let behind := (input.nestingAt (place + 1)).levels.length
  if before < behind then some behind else none

/-- The first place in front of another one where a bracket opens that is deeper than a
limit. -/
def Input.tooDeep? (limit : Int) (stop : Nat) : Option Nat :=
  (List.range stop).find? fun place =>
    (input.depthOf? place).any fun depth => decide (limit < depth)

end Depth

/-- The place that an outcome is about, if the input ends at `last`. -/
def reportedAt (last : Nat) : Except Abort Expr → Option Nat
  | .ok _ => some last
  | .error (.rejected place _) => some place
  | .error _ => none

/-! ## The brackets of a pass -/

section Nest
variable {input : Input} {place : Nat} {sight : Sight} {closer : Closer} {levels : List Closer}

/-- A token that is no bracket leaves the brackets as they are. -/
theorem nest_of_plain (seen : input.sight? place = some sight)
    (plain : isBracket sight.kind = false) :
    input.nest place ⟨levels, false⟩ = ⟨levels, false⟩ := by
  have kind := Input.kindAt_of_sight? seen
  unfold Input.nest
  simp only [Bool.false_eq_true, if_false, kind]
  cases h : sight.kind <;> first | rfl | simp [h, isBracket] at plain

theorem nest_of_opens (seen : input.sight? place = some sight)
    (opens : sight.opens closer = true) :
    input.nest place ⟨levels, false⟩ = ⟨closer :: levels, closer == .doubleBracket⟩ := by
  have kind := Input.kindAt_of_sight? seen
  have pair := Input.opensPair_of_sight? seen
  unfold Input.nest
  cases closer <;> simp [Sight.opens, pair] at opens <;> simp [kind, opens]

theorem nest_of_closes (seen : input.sight? place = some sight)
    (closes : sight.closes closer = true) :
    input.nest place ⟨closer :: levels, false⟩ = ⟨levels, closer == .doubleBracket⟩ := by
  have kind := Input.kindAt_of_sight? seen
  have pair := Input.closesPair_of_sight? seen
  unfold Input.nest
  cases closer <;> simp [Sight.closes, Closer.kind, pair] at closes <;> simp [kind, closes]

end Nest

/-- The pass has just those brackets open at a place that are counted in front of it. -/
def Tracks (input : Input) (place : Nat) (o : Outlook) : Prop :=
  input.nestingAt place = ⟨o.frames.map Frame.closer, false⟩

section Tracks
variable {input : Input} {place width depth : Nat} {sight : Sight} {o next : Outlook}
  {closer : Closer} {levels : List Closer} {limit : Int}

theorem tracks_start : Tracks input 0 .start := rfl

/-- Behind brackets that were opened or closed the second of two has been passed. -/
theorem nestingAt_add_width
    (behind : input.nestingAt (place + 1) = ⟨levels, closer == .doubleBracket⟩) :
    input.nestingAt (place + closer.width) = ⟨levels, false⟩ := by
  cases closer with
  | paren | bracket | brace => exact behind
  | doubleBracket =>
    show input.nest (place + 1) (input.nestingAt (place + 1)) = _
    rw [behind]
    rfl

/-- No bracket opens at the second of two that count as one. -/
theorem depthOf?_of_second (second : (input.nestingAt place).second = true) :
    input.depthOf? place = none := by
  have same : (input.nestingAt (place + 1)).levels = (input.nestingAt place).levels := by
    show (input.nest place (input.nestingAt place)).levels = _
    simp [Input.nest, second]
  unfold Input.depthOf?
  rw [same]
  exact if_neg (Nat.lt_irrefl _)

/-- Between a place and the next one of a pass no bracket opens, but for the one at the place
itself. -/
theorem depthOf?_inside {q : Nat}
    (behind : input.nestingAt (place + 1) = ⟨levels, closer == .doubleBracket⟩)
    (gt : place < q) (lt : q < place + closer.width) : input.depthOf? q = none := by
  cases closer with
  | paren | bracket | brace => exact absurd lt (by simp only [Closer.width]; omega)
  | doubleBracket =>
    obtain rfl : q = place + 1 := by
      simp only [Closer.width] at lt
      omega
    exact depthOf?_of_second (by rw [behind]; rfl)

/-- A bracket that the pass opens is as deep as brackets are open then. -/
theorem depthOf?_of_opens (tracks : Tracks input place o) (seen : input.sight? place = some sight)
    (opens : sight.opens closer = true) :
    input.nestingAt (place + 1) =
        ⟨closer :: o.frames.map Frame.closer, closer == .doubleBracket⟩ ∧
      input.depthOf? place = some (o.frames.length + 1) := by
  have behind : input.nestingAt (place + 1) =
      ⟨closer :: o.frames.map Frame.closer, closer == .doubleBracket⟩ := by
    show input.nest place (input.nestingAt place) = _
    rw [tracks, nest_of_opens seen opens]
  refine ⟨behind, ?_⟩
  unfold Input.depthOf?
  rw [tracks, behind]
  simp

/-- No bracket opens where no more are open behind than in front. -/
theorem depthOf?_eq_none {second : Bool} (tracks : Tracks input place o)
    (behind : input.nestingAt (place + 1) = ⟨levels, second⟩)
    (le : levels.length ≤ o.frames.length) : input.depthOf? place = none := by
  unfold Input.depthOf?
  rw [tracks, behind]
  simpa using le

/-- **A step of the pass opens and closes the brackets that are counted**, and it opens none
beyond the cap. -/
theorem tracks_of_step (tracks : Tracks input place o)
    (h : input.step? place o = some (.on width next)) :
    Tracks input (place + width) next ∧
      ∀ q, place ≤ q → q < place + width → ∀ depth, input.depthOf? q = some depth →
        input.config.exceededCap? depth = none := by
  obtain ⟨sight, seen, move⟩ := Option.map_eq_some_iff.mp h
  have moves := @moves_step input.config place sight o
  rw [move] at moves
  generalize same : Move.on width next = move' at moves
  cases moves with
  | refuse | pending | accept => cases same
  | @enter frame opens =>
    obtain ⟨behind, deep⟩ := depthOf?_of_opens tracks seen opens
    unfold Frame.enter at same
    split at same
    · cases same
    · next inCap =>
      cases same
      refine ⟨nestingAt_add_width behind, fun q le lt depth found => ?_⟩
      rcases Nat.lt_or_eq_of_le le with gt | rfl
      · rw [depthOf?_inside behind gt lt] at found
        cases found
      · obtain rfl := Option.some.inj (deep.symm.trans found)
        exact inCap
  | @close frame outer opened closes =>
    cases same
    have behind : input.nestingAt (place + 1) =
        ⟨outer.map Frame.closer, frame.closer == .doubleBracket⟩ := by
      show input.nest place (input.nestingAt place) = _
      rw [tracks, opened, List.map_cons, nest_of_closes seen closes]
    refine ⟨nestingAt_add_width behind, fun q le lt depth found => ?_⟩
    have none : input.depthOf? q = none := by
      rcases Nat.lt_or_eq_of_le le with gt | rfl
      · exact depthOf?_inside behind gt lt
      · exact depthOf?_eq_none tracks behind (by simp [opened])
    rw [none] at found
    cases found
  | @take spot _ plain =>
    cases same
    have behind : input.nestingAt (place + 1) = ⟨o.frames.map Frame.closer, false⟩ := by
      show input.nest place (input.nestingAt place) = _
      rw [tracks, nest_of_plain seen plain]
    refine ⟨behind, fun q le lt depth found => ?_⟩
    obtain rfl : q = place := by omega
    rw [depthOf?_eq_none tracks behind (by simp)] at found
    cases found

/-- The pass stops at too many brackets only where one opens that is beyond the cap. -/
theorem step_tooDeep {config : Config} {q : Nat}
    (h : o.step config place sight = .halt (.tooDeep q limit)) :
    (∃ closer, sight.opens closer = true) ∧
      config.exceededCap? (o.frames.length + 1) = some limit := by
  have moves := @moves_step config place sight o
  rw [h] at moves
  generalize same : Move.halt (.tooDeep q limit) = move at moves
  cases moves with
  | refuse =>
    have same := Move.halt.inj same
    unfold Outlook.refusal at same
    split at same
    · cases same
    · split at same <;> cases same
  | pending | accept | close | take => cases same
  | @enter frame opens =>
    unfold Frame.enter at same
    split at same
    · next beyond =>
      cases same
      exact ⟨⟨_, opens⟩, beyond⟩
    · cases same

/-- Where the pass stops at too many brackets, the one that opens there is beyond the cap. -/
theorem depthOf?_of_tooDeep (tracks : Tracks input place o) {q : Nat}
    (h : input.step? place o = some (.halt (.tooDeep q limit))) :
    ∃ depth, input.depthOf? place = some depth ∧
      input.config.exceededCap? depth = some limit := by
  obtain ⟨sight, seen, move⟩ := Option.map_eq_some_iff.mp h
  obtain ⟨⟨closer, opens⟩, beyond⟩ := step_tooDeep move
  exact ⟨_, (depthOf?_of_opens tracks seen opens).2, beyond⟩

end Tracks

/-! ## Passes without a cap -/

/-- Two steps are the same, or they open the same brackets in a dialect and without its cap. -/
def Uncaps (config : Config) (place : Nat) (frames : List Frame) (move move' : Move) : Prop :=
  move' = move ∨ ∃ frame : Frame,
    move = frame.enter config place frames ∧ move' = frame.enter config.uncapped place frames

section Uncapped
variable {config : Config} {place width : Nat} {sight : Sight} {o next : Outlook}
  {frames : List Frame} {input : Input} {v : Verdict}

theorem uncaps_need {need : Need} : Uncaps config place frames
    (need.step config place sight frames) (need.step config.uncapped place sight frames) := by
  unfold Need.step
  split
  · cases sight.kind with
    | leftParen | leftBrace => exact .inr ⟨_, rfl, rfl⟩
    | _ => exact .inl rfl
  · exact .inl rfl

theorem uncaps_endOperand {spans : Nat} {applicable pending : Bool} :
    Uncaps config place o.frames (o.endOperand config place sight spans applicable pending)
      (o.endOperand config.uncapped place sight spans applicable pending) := by
  have implicit : config.uncapped.implicitMultiplication = config.implicitMultiplication := rfl
  unfold Outlook.endOperand
  split
  · exact .inl rfl
  · split
    · exact .inr ⟨_, rfl, rfl⟩
    · split
      · exact .inr ⟨_, rfl, rfl⟩
      · exact .inl rfl
  · split
    · exact .inl rfl
    · split
      · rw [implicit]
        split
        · exact uncaps_need
        · exact .inl rfl
      · exact .inl rfl

/-- **The cap matters only where brackets are opened.** -/
theorem uncaps_step : Uncaps config place o.frames (o.step config place sight)
    (o.step config.uncapped place sight) := by
  obtain ⟨spot, frames⟩ := o
  unfold Outlook.step
  cases spot with
  | needed need =>
    cases frames with
    | nil => exact uncaps_need
    | cons frame outer =>
      dsimp only
      split
      · exact .inl rfl
      · exact uncaps_need
  | optional =>
    dsimp only
    split
    · exact uncaps_need
    · exact .inl rfl
  | complete spans applicable pending => exact uncaps_endOperand

/-- Without a cap brackets are always opened. -/
theorem enter_uncapped (frame : Frame) : frame.enter config.uncapped place frames =
    .on frame.closer.width
      ⟨.needed { rule := .or, closable := frame.closer != .paren }, frame :: frames⟩ := by
  unfold Frame.enter
  rw [Config.exceededCap?_of_uncapped rfl]

/-- Brackets are opened as without a cap unless they are too many. -/
theorem enter_cases (frame : Frame) :
    (∃ limit, frame.enter config place frames = .halt (.tooDeep place limit)) ∨
      frame.enter config place frames = frame.enter config.uncapped place frames := by
  rw [enter_uncapped]
  unfold Frame.enter
  split
  · exact .inl ⟨_, rfl⟩
  · exact .inr rfl

/-- Without the cap a step is the same, unless it stops at too many brackets: it opens them
then. -/
theorem step?_uncapped {move : Move} (h : input.step? place o = some move) :
    ((∀ q limit, move ≠ .halt (.tooDeep q limit)) → input.uncapped.step? place o = some move) ∧
      ((∃ q limit, move = .halt (.tooDeep q limit)) →
        ∃ width next, input.uncapped.step? place o = some (.on width next)) := by
  obtain ⟨sight, seen, rfl⟩ := Option.map_eq_some_iff.mp h
  have seen' : input.uncapped.sight? place = some sight := seen
  have uncapped : input.uncapped.step? place o =
      some (o.step input.config.uncapped place sight) :=
    Input.step?_of_sight? seen' o
  rw [uncapped]
  rcases @uncaps_step input.config place sight o with same | ⟨frame, capped, opened⟩
  · refine ⟨fun _ => congrArg some same, fun ⟨q, limit, tooDeep⟩ => ?_⟩
    have beyond := (step_tooDeep (same.trans tooDeep)).2
    simp [Config.uncapped, Config.exceededCap?] at beyond
  · rw [capped, opened]
    refine ⟨fun other => ?_, fun _ => ⟨_, _, congrArg some (enter_uncapped frame)⟩⟩
    rcases @enter_cases input.config place o.frames frame with ⟨limit, tooDeep⟩ | same
    · exact absurd tooDeep (other place limit)
    · exact congrArg some same.symm

end Uncapped

/-! ## Passes up to the cap -/

section Passes
variable {input : Input} {place k : Nat} {o : Outlook} {v w : Verdict} {limit : Int}

/-- Where a pass stops it has the brackets open that are counted, and it opened none beyond the
cap before. -/
theorem Input.Comes.tracks (comes : input.Comes place o v) (tracks : Tracks input place o)
    (hk : v.place? = some k) :
    (∃ last, Tracks input k last ∧ input.step? k last = some (.halt v)) ∧
      ∀ q, place ≤ q → q < k → ∀ depth, input.depthOf? q = some depth →
        input.config.exceededCap? depth = none := by
  induction comes with
  | @halt place o v stop =>
    obtain rfl := place_of_step? stop hk
    exact ⟨⟨o, tracks, stop⟩, fun q le lt => absurd lt (Nat.not_lt.mpr le)⟩
  | @on place width o next v go rest ih =>
    obtain ⟨tracks', here⟩ := tracks_of_step tracks go
    obtain ⟨last, later⟩ := ih tracks' hk
    refine ⟨last, fun q le lt depth found => ?_⟩
    rcases Nat.lt_or_ge q (place + width) with inside | beyond
    · exact here q le inside depth found
    · exact later q beyond lt depth found

/-- A pass that stops for another reason than the cap comes to the same verdict without it. -/
theorem Input.Comes.uncapped (comes : input.Comes place o v)
    (other : ∀ q limit, v ≠ .tooDeep q limit) : input.uncapped.Comes place o v := by
  induction comes with
  | halt stop =>
    refine .halt ((step?_uncapped stop).1 fun q limit same => ?_)
    exact other q limit (Move.halt.inj same)
  | on go _ ih => exact .on ((step?_uncapped go).1 nofun) (ih other)

/-- Without the cap a pass goes beyond the bracket that is too deep. -/
theorem Input.Comes.beyond (comes : input.Comes place o v) (tooDeep : v = .tooDeep k limit)
    (comes' : input.uncapped.Comes place o w) {j : Nat} (hj : w.place? = some j) : k < j := by
  induction comes with
  | @halt place o v stop =>
    subst tooDeep
    obtain rfl := place_of_step? stop rfl
    obtain ⟨width, next, go⟩ := (step?_uncapped stop).2 ⟨k, limit, rfl⟩
    have pos : 0 < width := width_pos_of_step? go
    have le := ((comes_on go).mp comes').le_place hj
    omega
  | on go _ ih => exact ih tooDeep ((comes_on ((step?_uncapped go).1 nofun)).mp comes')

end Passes

/-! ## Parses up to the cap -/

section Parse
variable {input : Input} {tokens : List Token} {config : Config} {last k : Nat} {limit : Int}
  {v : Verdict}

/-- Where a verdict is no formula, the token at its place is to blame. -/
theorem Input.Comes.blames (comes : input.Comes 0 .start v) (hk : v.place? = some k)
    {abort : Abort} (h : v.abort? input = some abort) :
    ∃ error, abort = .rejected k error ∧ input.tokens[k]? = some error.found := by
  obtain ⟨t, ht⟩ := comes.exists_token hk
  cases v with
  | accepted => cases h
  | valueless => cases hk
  | trailing | unexpected | tooDeep =>
    cases hk
    rw [Verdict.abort?, Input.blame_of_getElem? ht] at h
    cases h
    exact ⟨_, rfl, ht⟩

/-- The place that a parse reports is that of the verdict. -/
theorem reportedAt_of_comes (ends : (Input.ofTokens tokens config).EndsAt last)
    (comes : (Input.ofTokens tokens config).Comes 0 .start v) (hk : v.place? = some k) :
    reportedAt last (parseTokens tokens config) = some k := by
  have ahead : (Input.ofTokens tokens config).EndsFrom 0 := ⟨last, Nat.zero_le _, ends.1⟩
  have heeds := parseTokens_heeds ahead comes
  cases done : parseTokens tokens config with
  | ok e =>
    obtain ⟨s, h⟩ := exists_parse_of_parseTokens done
    have accepted := accepted_of_parse ahead comes h
    obtain ⟨derives, isEnd⟩ := derives_of_parse h
    have stop := ends.unique derives.endless isEnd
    rw [accepted] at hk
    cases hk
    exact congrArg some stop.symm
  | error abort =>
    rw [done] at heeds
    obtain ⟨error, rfl, -⟩ := comes.blames hk heeds
    rfl

/-- The parse stops where brackets are too many. -/
theorem parseTokens_of_tooDeep {place : Nat} (ends : (Input.ofTokens tokens config).EndsFrom 0)
    (comes : (Input.ofTokens tokens config).Comes 0 .start (.tooDeep place limit)) :
    ∃ t, tokens[place]? = some t ∧ parseTokens tokens config =
      .error (.rejected place ⟨.nestedTooDeeply (some limit), t⟩) := by
  have heeds := parseTokens_heeds ends comes
  cases done : parseTokens tokens config with
  | ok e =>
    rw [done] at heeds
    obtain ⟨stop, same⟩ := heeds
    cases same
  | error abort =>
    rw [done] at heeds
    obtain ⟨error, -, here⟩ := comes.blames rfl heeds
    rw [Verdict.abort?, Input.blame_of_getElem? here] at heeds
    cases heeds
    exact ⟨_, by simpa [Input.ofTokens] using here, rfl⟩

/-- What opens at a place does not depend on the options. -/
theorem depthOf?_ofTokens (config config' : Config) (place : Nat) :
    (Input.ofTokens tokens config).depthOf? place =
      (Input.ofTokens tokens config').depthOf? place := by
  have same (place : Nat) : (Input.ofTokens tokens config).nestingAt place =
      (Input.ofTokens tokens config').nestingAt place := by
    induction place with
    | zero => rfl
    | succ place ih =>
      show Input.nest _ place _ = Input.nest _ place _
      rw [ih]
      rfl
  unfold Input.depthOf?
  rw [same, same]

theorem tooDeep?_ofTokens (config config' : Config) (stop : Nat) :
    (Input.ofTokens tokens config).tooDeep? limit stop =
      (Input.ofTokens tokens config').tooDeep? limit stop := by
  unfold Input.tooDeep?
  simp only [depthOf?_ofTokens config config']

/-- Only a bracket that is deeper than the cap exceeds it. -/
theorem exceededCap?_eq_none_iff (capped : input.config.maxNestingDepth = some limit)
    {depth : Nat} :
    input.config.exceededCap? depth = none ↔ ¬ limit < depth := by
  simp [Config.exceededCap?, capped]

/-- No bracket is too deep if the pass opens none beyond the cap. -/
theorem tooDeep?_eq_none (capped : input.config.maxNestingDepth = some limit)
    (inCap : ∀ q < k, ∀ depth, input.depthOf? q = some depth →
      input.config.exceededCap? depth = none) : input.tooDeep? limit k = none := by
  refine List.find?_range_eq_none.mpr fun q lt => ?_
  cases found : input.depthOf? q with
  | none => rfl
  | some depth =>
    have := (exceededCap?_eq_none_iff capped).mp (inCap q lt depth found)
    simpa using this

/-- The first bracket that is too deep is the first one beyond the cap. -/
theorem tooDeep?_eq_some (capped : input.config.maxNestingDepth = some limit) {place depth : Nat}
    (lt : place < k) (found : input.depthOf? place = some depth)
    (beyond : input.config.exceededCap? depth ≠ none)
    (inCap : ∀ q < place, ∀ depth, input.depthOf? q = some depth →
      input.config.exceededCap? depth = none) : input.tooDeep? limit k = some place := by
  refine List.find?_range_eq_some.mpr ⟨?_, List.mem_range.mpr lt, fun q before => ?_⟩
  · rw [found]
    have := (exceededCap?_eq_none_iff capped).not_left.mp beyond
    simpa using this
  · exact List.find?_range_eq_none.mp (tooDeep?_eq_none capped inCap) q before

/-- **The cap cuts off at the first bracket that is too deep, and changes nothing else.**  Let
the parse without a cap report a failure at some token, or come to the end of the input.  If no
bracket in front of that place is deeper than the cap, then the parse with the cap has the same
outcome.  Otherwise it stops at the first bracket that is, and says so. -/
theorem parse_capped (ends : (Input.ofTokens tokens config).EndsAt last)
    (valued : (Input.ofTokens tokens config).Valued) (limit : Int) :
    let uncapped := parseTokens tokens { config with maxNestingDepth := none }
    let capped := parseTokens tokens { config with maxNestingDepth := some limit }
    ∃ k, reportedAt last uncapped = some k ∧
      match (Input.ofTokens tokens config).tooDeep? limit k with
      | none => capped = uncapped
      | some place => ∃ t, tokens[place]? = some t ∧
          capped = .error (.rejected place ⟨.nestedTooDeeply (some limit), t⟩) := by
  intro uncapped capped
  let input := Input.ofTokens tokens { config with maxNestingDepth := some limit }
  have hasCap : input.config.maxNestingDepth = some limit := rfl
  have ahead : input.EndsFrom 0 := ⟨last, Nat.zero_le _, ends.1⟩
  have ahead' : input.uncapped.EndsFrom 0 := ahead
  have valued' : input.uncapped.Valued := valued
  obtain ⟨w, comes⟩ := exists_comes (o := .start) ahead
  obtain ⟨v, comes'⟩ := exists_comes (o := .start) ahead'
  obtain ⟨k, hk⟩ : ∃ k, v.place? = some k := by
    cases v <;> first | exact ⟨_, rfl⟩ | exact absurd rfl (comes'.ne_valueless valued' rfl)
  refine ⟨k, reportedAt_of_comes ends comes' hk, ?_⟩
  rw [tooDeep?_ofTokens config { config with maxNestingDepth := some limit } k]
  by_cases cut : ∃ place cap, w = .tooDeep place cap
  · obtain ⟨place, cap, rfl⟩ := cut
    obtain ⟨⟨o, tracks, stop⟩, inCap⟩ := comes.tracks tracks_start rfl
    obtain ⟨depth, found, beyond⟩ := depthOf?_of_tooDeep tracks stop
    obtain rfl : cap = limit := Config.eq_of_exceededCap? beyond hasCap
    have first : input.tooDeep? cap k = some place :=
      tooDeep?_eq_some hasCap (comes.beyond rfl comes' hk) found (by simp [beyond])
        fun q before => inCap q (Nat.zero_le q) before
    rw [first]
    exact parseTokens_of_tooDeep ahead comes
  · have comes'' := comes.uncapped fun place cap same => cut ⟨place, cap, same⟩
    obtain rfl := comes''.unique comes'
    obtain ⟨-, inCap⟩ := comes.tracks tracks_start hk
    have none : input.tooDeep? limit k = none :=
      tooDeep?_eq_none hasCap fun q lt => inCap q (Nat.zero_le q) lt
    rw [none]
    have same : uncapped = capped := by
      refine parseTokens_congr ahead ahead comes comes' valued'
        (fun stop _ => input.agrees_uncapped stop) ?_
      cases w <;> rfl
    exact same.symm

/-- Indices in a parenthesis that is never closed are too deep for a cap of one. -/
theorem parse_capped_indices :
    let token (kind : Token.Kind) (lexeme : String) (value : Option String) (offset : Int) :=
      (⟨kind, lexeme, value, ⟨"", 1, offset + 1, offset⟩⟩ : Token)
    let tokens := [token .leftParen "(" none 0, token .identifier "a" "a" 1,
      token .leftBracket "[" none 2, token .leftBracket "[" none 3, token .number "1" "1" 4,
      token .rightBracket "]" none 5, token .rightBracket "]" none 6,
      token .endOfInput "" none 7]
    let config : Config := { memoize := false }
    (Input.ofTokens tokens config).EndsAt 7 ∧ (Input.ofTokens tokens config).Valued ∧
      reportedAt 7 (parseTokens tokens config) = some 7 ∧
      (Input.ofTokens tokens config).tooDeep? 1 7 = some 2 ∧
      ∃ t, tokens[2]? = some t ∧ parseTokens tokens { config with maxNestingDepth := some 1 } =
        .error (.rejected 2 ⟨.nestedTooDeeply (some 1), t⟩) := by
  intro token tokens config
  have ends : (Input.ofTokens tokens config).EndsAt 7 := ⟨rfl, by decide⟩
  have valued : (Input.ofTokens tokens config).Valued := by
    intro t ht
    simp only [Input.ofTokens, tokens, List.mem_toArray, List.mem_cons, List.not_mem_nil,
      or_false] at ht
    rcases ht with rfl | rfl | rfl | rfl | rfl | rfl | rfl | rfl <;> decide
  have reported : reportedAt 7 (parseTokens tokens config) = some 7 := by
    decide +kernel
  have found : (Input.ofTokens tokens config).tooDeep? 1 7 = some 2 := by decide
  obtain ⟨k, reported', cut⟩ := parse_capped ends valued 1
  obtain rfl := Option.some.inj (reported.symm.trans reported')
  rw [found] at cut
  exact ⟨ends, valued, reported, found, cut⟩

end Parse

end Grammar
end Formula
