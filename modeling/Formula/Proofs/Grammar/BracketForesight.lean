import Formula.Proofs.Grammar.LevelForesight

/-! # Brackets and atoms, as foreseen

The rules of the module `Formula.Grammar.Brackets`.  Where brackets are opened the pass puts
a frame on its stack, and it takes it off where they are closed.  If they are not closed the
verdict is known, whatever the parser makes of the tokens in front of the brackets.
-/
namespace Formula
namespace Grammar

/-- How brackets end behind their opener: they are closed, or the verdict is known. -/
def Enclosed {α : Type} (input : Input) (v : Verdict) (frame : Frame) (outer : List Frame)
    (start : Nat) : Option α → State → Prop
  | some _, t =>
    start < t.current ∧
      Meets input ⟨.complete frame.spans (frame.closer == .bracket) false, outer⟩ t ∧
      input.Comes t.current ⟨.complete frame.spans (frame.closer == .bracket) false, outer⟩ v
  | none, t =>
    t.depth = outer.length ∧ start ≤ t.furthest ∧
      Blamed v (frame.held || outer.any Frame.held) t

/-- The state after the end of brackets was needed behind an expression and missing. -/
def State.lack (s : State) (closer : Closer) : State :=
  match closer with
  | .paren => s.expect (.closer .paren)
  | closer => (s.expect (.closer closer)).expect .comma

section Lack
variable {s : State}

theorem State.furthest_lack (calm : s.furthest ≤ s.current) (closer : Closer) :
    (s.lack closer).furthest = s.current := by
  cases closer <;> simp [lack, calm]

theorem State.expected_lack (calm : s.furthest ≤ s.current) (closer : Closer) :
    (s.lack closer).expected = closer.missing s.neededHere := by
  have twice (a b : Expectation) :
      ((s.expect a).expect b).expected = (s.neededHere.insert a).insert b := by
    rw [State.expected_expect (by simp [calm]), State.neededHere_expect calm]
  cases closer with
  | paren => exact State.expected_expect calm _
  | bracket | doubleBracket | brace => exact twice _ _

end Lack

section Steps
variable {config : Config} {place spans : Nat} {sight : Sight} {frame : Frame}
  {outer : List Frame} {spot : Spot}

theorem step_close (closes : sight.closes frame.closer = true) (complete : spot.Completed) :
    (⟨spot, frame :: outer⟩ : Outlook).step config place sight = frame.close outer := by
  have kind : sight.kind = frame.closer.kind := by
    simp only [Sight.closes, Bool.and_eq_true, beq_iff_eq] at closes
    exact closes.1
  rcases complete with rfl | ⟨n, a, rfl⟩ <;> cases closer : frame.closer <;>
    rw [closer] at kind closes <;>
    simp [Outlook.step, Outlook.endOperand, Outlook.endSum, Outlook.endExpression, kind,
      Closer.kind, closer, closes, Rule.canStart, startsAtom, tightOperand?, looseOperand?]

theorem step_comma (comma : sight.kind = .comma) (closer : frame.closer ≠ .paren)
    (complete : spot.Completed) :
    (⟨spot, frame :: outer⟩ : Outlook).step config place sight =
      .on 1 ⟨.needed { rule := .or }, frame :: outer⟩ := by
  have unclosed : sight.closes frame.closer = false :=
    Sight.closes_eq_false (by rw [comma]; cases frame.closer <;> decide)
  rcases complete with rfl | ⟨n, a, rfl⟩ <;>
    simp [Outlook.step, Outlook.endOperand, Outlook.endSum, Outlook.endExpression, comma,
      closer, unclosed, Rule.canStart, startsAtom, tightOperand?, looseOperand?]

/-- Where an expression ends and neither the end of the brackets nor a comma follows, the pass
stops. -/
theorem step_unclosed (follow : canFollow config .or sight.kind = true)
    (unclosed : sight.closes frame.closer = false)
    (comma : sight.kind = .comma → frame.closer = .paren) (fits : spot.Fits .or spans false) :
    (⟨spot, frame :: outer⟩ : Outlook).step config place sight =
      .halt (Outlook.refusal ⟨spot, frame :: outer⟩ place) := by
  have isEnd : ¬ (sight.kind = .comma ∧ frame.closer ≠ .paren) := fun h => h.2 (comma h.1)
  have ends (o : Outlook) (h : o.frames = frame :: outer) :
      o.endExpression place sight = .halt (o.refusal place) := by
    unfold Outlook.endExpression
    rw [h]
    simp [unclosed, isEnd]
  rcases fits with rfl | ⟨n, rfl⟩ <;> cases kind : sight.kind <;> rw [kind] at follow <;> first
    | (exfalso; revert follow; simp [canFollow, behind?, Rule.index]; done)
    | (exfalso; revert follow; simp only [canFollow, behind?]; split <;> decide)
    | simp [Outlook.step, Outlook.endOperand, Outlook.endSum, kind, ends, Rule.canStart,
        startsAtom, tightOperand?, looseOperand?]

end Steps

section Sequences
variable {input : Input} {v : Verdict} {call : Rule → ParseM (Option Expr)}
  {place number spans : Nat} {s t : State} {frame : Frame} {outer : List Frame} {spot : Spot}

/-- Where an expression in brackets is not followed by their end, the verdict is known. -/
theorem Landed.lack (landed : Landed input v .or spot (frame :: outer) s)
    (fits : spot.Fits .or spans false) (unclosed : ¬ input.ClosesAt frame.closer s.current)
    (comma : input.kindAt s.current = some .comma → frame.closer = .paren) :
    s.current ≤ (s.lack frame.closer).furthest ∧
      Blamed v (frame.held || outer.any Frame.held) (s.lack frame.closer) := by
  have furthest : s.current ≤ (s.lack frame.closer).furthest := by
    cases closer : frame.closer <;> simp [State.lack]
  refine ⟨furthest, ?_⟩
  cases landed with
  | stuck _ _ failed _ blamed =>
    have same : s.lack frame.closer = s := by
      cases closer : frame.closer <;> simp [State.lack, State.expect_of_lt failed]
    rw [same]
    rwa [fits.held] at blamed
  | calm meets comes declines =>
    obtain ⟨first, hfirst⟩ := meets.ends.token
    obtain ⟨sight, seen, -⟩ := Input.exists_sight (Input.kindAt_of_getElem? hfirst)
    have here := Input.kindAt_of_sight? seen
    have refused : input.step? s.current ⟨spot, frame :: outer⟩ =
        some (.halt (Outlook.refusal ⟨spot, frame :: outer⟩ s.current)) := by
      rcases declines with follow | refuses
      · rw [Input.step?_of_sight? seen, step_unclosed (follow.canFollow (by decide) here) ?_
          (fun isComma => comma (isComma ▸ here)) fits]
        rw [← Bool.not_eq_true, Input.closes_iff seen]
        exact unclosed
      · exact refuses _
    rw [(comes_halt refused).mp comes]
    unfold Blamed Outlook.refusal
    rw [fits.held, List.any_cons, State.furthest_lack meets.furthest_le,
      State.expected_lack meets.furthest_le, meets.needed]
    split
    · rfl
    · rcases fits with rfl | ⟨n, rfl⟩ <;> rfl

/-- Brackets are closed behind an expression. -/
theorem Landed.closed (landed : Landed input v .or spot (frame :: outer) s)
    (fits : spot.Fits .or spans false) (closes : input.ClosesAt frame.closer s.current) :
    s.furthest ≤ s.current ∧ input.Comes (s.current + frame.closer.width)
      ⟨.complete frame.spans (frame.closer == .bracket) false, outer⟩ v := by
  obtain ⟨meets, comes⟩ := landed.of_followsAt (Input.followsAt_of_closesAt .or closes)
  obtain ⟨sight, seen, -⟩ := Input.exists_sight (Input.kindAt_of_closesAt closes)
  refine ⟨meets.furthest_le, (comes_on ?_).mp comes⟩
  rw [Input.step?_of_sight? seen, step_close ((Input.closes_iff seen _).mpr closes)
    fits.completed]
  rfl

theorem Closer.width_pos (closer : Closer) : 0 < closer.width := by
  cases closer <;> decide

theorem enclosed_of_closed {α : Type} {a : α} {start : Nat} (le : start ≤ s.current)
    (calm : s.furthest ≤ s.current) (ends : input.EndsFrom (s.current + frame.closer.width))
    (comes : input.Comes (s.current + frame.closer.width)
      ⟨.complete frame.spans (frame.closer == .bracket) false, outer⟩ v) :
    Enclosed input v frame outer start (some a)
      ((s.moveTo (s.current + frame.closer.width)).atDepth outer.length) := by
  have pos := frame.closer.width_pos
  refine ⟨Nat.lt_of_le_of_lt le (Nat.lt_add_of_pos_right pos), ⟨ends, rfl, ?_, ?_⟩, comes⟩
  · exact Nat.le_trans calm (Nat.le_add_right _ _)
  · exact State.neededHere_of_lt (Nat.lt_of_le_of_lt calm (Nat.lt_add_of_pos_right pos))

theorem items_foreseen (calls : ForeseenCalls input v call place number)
    (hcloser : frame.closer ≠ .paren) (bound : Nat) {need : Need} (lt : place < s.current)
    (enough : input.tokens.size < s.current + bound)
    (poised : Poised input v .or need (frame :: outer) s)
    (comes : input.Comes s.current ⟨.needed need, frame :: outer⟩ v)
    (unclosed : need.closable = true → ¬ input.ClosesAt frame.closer s.current) :
    Heeds input v (items input call frame.closer bound) s fun r t =>
      Enclosed input v frame outer s.current r (t.atDepth outer.length) := by
  induction bound generalizing s need with
  | zero =>
    have := poised.meets.ends.lt
    omega
  | succ bound ih =>
    unfold items
    refine (calls .or need _ s poised (.inl lt)).bind ?_
    rintro (_ | e) t ⟨ended, -⟩
    · have missed := (ended_none (by decide)).mp ended
      have loosest : need.rule = .or := by
        have := poised.tighter
        cases h : need.rule <;> rw [h] at this <;> first | rfl | exact absurd this (by decide)
      obtain ⟨failed, blamed⟩ := missed.blamed poised.meets comes (fun _ _ h => loosest ▸ h)
        (by rintro _ ⟨⟩; exact unclosed)
      rw [poised.unheld (by decide)] at blamed
      exact .pure ⟨rfl, failed, blamed⟩
    · have lt' := ended.lt
      obtain ⟨spot, fits, landed⟩ := ended.landed
      rw [poised.pendingAt (by decide)] at fits
      refine .accept landed.ends (by decide) (fun comma ends => ?_) fun other => ?_
      -- Behind a comma another expression is needed.
      · obtain ⟨meets, comes⟩ := landed.of_followsAt (Input.followsAt_of_comma .or comma)
        obtain ⟨sight, seen, isComma⟩ := Input.exists_sight comma
        have comes := (comes_on (by
          rw [Input.step?_of_sight? seen, step_comma isComma hcloser fits.completed])).mp comes
        have poised' : Poised input v .or { rule := .or } (frame :: outer)
            (t.moveTo (t.current + 1)) :=
          meets.poised (Nat.lt_succ_self _) ends rfl rfl (Nat.le_refl _) (fun _ => rfl)
            (fun _ => rfl) (fun _ => rfl) rfl fun _ => comes
        simp only [if_true]
        refine (ih (Nat.lt_trans lt (Nat.lt_succ_of_lt lt'))
          (by simp only [State.current_moveTo]; omega) poised' comes nofun).bind ?_
        rintro (_ | es) u ⟨h₁, h₂⟩
        · exact .pure ⟨rfl, Nat.le_trans (Nat.le_of_lt (Nat.lt_succ_of_lt lt')) h₂.1, h₂.2⟩
        · exact .pure ⟨Nat.lt_trans (Nat.lt_succ_of_lt lt') h₁, h₂⟩
      -- Without a comma the brackets are closed, or something is missing.
      · simp only [Bool.false_eq_true, if_false]
        refine .close landed.ends (fun closes ends => ?_) fun unclosed => ?_
        · obtain ⟨calm, comes⟩ := landed.closed fits closes
          exact .pure (enclosed_of_closed (Nat.le_of_lt lt') calm ends comes)
        · simp only [Bool.false_eq_true, if_false]
          refine .expect (.pure ?_)
          obtain ⟨failed, blamed⟩ := landed.lack fits unclosed fun comma => absurd comma other
          have same : t.lack frame.closer = (t.expect (.closer frame.closer)).expect .comma := by
            cases h : frame.closer <;> first | rfl | exact absurd h hcloser
          rw [same] at failed blamed
          exact ⟨rfl, Nat.le_trans (Nat.le_of_lt lt') failed, blamed⟩

/-- Brackets that were just opened may be closed again at once. -/
theorem sequence_foreseen (calls : ForeseenCalls input v call place number)
    (hcloser : frame.closer ≠ .paren) (lt : place < s.current) (ends : input.EndsFrom s.current)
    (depth : s.depth = outer.length + 1) (calm : s.furthest < s.current)
    (comes : input.Comes s.current
      ⟨.needed { rule := .or, closable := true }, frame :: outer⟩ v) :
    Heeds input v (sequence input call frame.closer) s fun r t =>
      Enclosed input v frame outer s.current r (t.atDepth outer.length) := by
  unfold sequence
  refine .close ends (fun closes ends => ?_) fun unclosed => ?_
  · obtain ⟨sight, seen, -⟩ := Input.exists_sight (Input.kindAt_of_closesAt closes)
    have closed := (Input.closes_iff seen _).mpr closes
    have comes := (comes_on (by
      rw [Input.step?_of_sight? seen]
      simp only [Outlook.step, closed, and_self, if_true]
      rfl)).mp comes
    exact .pure (enclosed_of_closed (Nat.le_refl _) (Nat.le_of_lt calm) ends comes)
  · simp only [Bool.false_eq_true, if_false]
    have at_cursor : (s.expect (.closer frame.closer)).furthest = s.current := by
      rw [State.furthest_expect, Nat.max_eq_right (Nat.le_of_lt calm)]
    have poised : Poised input v .or { rule := .or, closable := true } (frame :: outer)
        (s.expect (.closer frame.closer)) :=
      { meets :=
          { ends := by rwa [State.current_expect]
            depth := by rwa [State.depth_expect]
            furthest_le := by rw [at_cursor, State.current_expect]
            needed := by
              rw [State.neededHere_expect (Nat.le_of_lt calm), State.neededHere_of_lt calm]
              rfl }
        opening := by rintro _ ⟨⟩
        tighter := Nat.le_refl _
        fresh := fun _ => rfl
        unsigned := fun _ => rfl
        unheld := fun _ => rfl
        comes := fun _ => by rwa [State.current_expect] }
    refine (items_foreseen calls hcloser input.bound (by rwa [State.current_expect])
      (input.size_lt_bound _) poised (by rwa [State.current_expect])
      fun _ => by rwa [State.current_expect]).mono ?_
    rw [State.current_expect]
    exact fun _ _ h => h

/-- Brackets are gone through with one more bracket open than before. -/
theorem nested_foreseen {α : Type} {m : ParseM (Option α)} {opener : Nat} {opening : Token}
    (depth : s.depth = outer.length) (hopener : input.tokens[opener]? = some opening)
    {o : Outlook} (hstep : input.step? opener o = some (frame.enter input.config opener outer))
    (comes : input.Comes opener o v)
    (inner : input.Comes (opener + frame.closer.width)
        ⟨.needed { rule := .or, closable := frame.closer != .paren }, frame :: outer⟩ v →
      Heeds input v m (s.atDepth (s.depth + 1)) fun r t =>
        Enclosed input v frame outer s.current r (t.atDepth outer.length)) :
    Heeds input v (nested input opener opening m) s (Enclosed input v frame outer s.current) := by
  refine .nested (fun limit tooMany => ?_) fun fits => ?_
  · have deep : frame.enter input.config opener outer = .halt (.tooDeep opener limit) := by
      unfold Frame.enter
      rw [← depth, tooMany]
    rw [(comes_halt (deep ▸ hstep)).mp comes]
    simp [Verdict.abort?, Input.blame, hopener]
  · have enter : frame.enter input.config opener outer = .on frame.closer.width
        ⟨.needed { rule := .or, closable := frame.closer != .paren }, frame :: outer⟩ := by
      unfold Frame.enter
      rw [← depth, fits]
    rw [depth]
    rw [depth] at inner
    exact inner ((comes_on (enter ▸ hstep)).mp comes)

theorem bracketed_foreseen (calls : ForeseenCalls input v call place number) (frame : Frame)
    (hcloser : frame.closer ≠ .paren) (le : place ≤ s.current) (ends : input.EndsFrom s.current)
    (depth : s.depth = outer.length) (calm : s.furthest ≤ s.current)
    (opens : input.BracketAt frame.closer s.current) {o : Outlook}
    (hstep : input.step? s.current o = some (frame.enter input.config s.current outer))
    (comes : input.Comes s.current o v) :
    Heeds input v (bracketed input call frame.closer) s
      (Enclosed input v frame outer (s.current + frame.closer.width)) := by
  have here := Input.kindAt_of_bracketAt opens
  unfold bracketed
  refine .current (.advance ends here (by cases frame.closer <;> decide)
    fun opening hopening ends => ?_)
  have inner {t : State} (at_start : t.current = s.current + frame.closer.width)
      (ends : input.EndsFrom t.current) (depth : t.depth = outer.length)
      (furthest : t.furthest = s.furthest) :
      Heeds input v (nested input s.current opening (sequence input call frame.closer)) t
        (Enclosed input v frame outer (s.current + frame.closer.width)) := by
    have pos := frame.closer.width_pos
    rw [← at_start]
    refine nested_foreseen depth hopening hstep comes fun comes => ?_
    have closable : (frame.closer != .paren) = true := by simpa using hcloser
    rw [closable, ← at_start] at comes
    exact sequence_foreseen calls hcloser (by simp only [State.current_atDepth]; omega) ends
      (by simp [State.atDepth, depth])
      (by simp only [State.furthest_atDepth, State.current_atDepth]; omega) comes
  by_cases double : frame.closer = .doubleBracket
  · rw [if_pos double]
    have second : input.kindAt (s.current + 1) = some .leftBracket := by
      rw [double] at opens
      exact (Input.kindAt_of_pairAt opens).2
    refine .advance ends second (by decide) fun _ _ ends => ?_
    exact inner (by rw [double]; rfl) ends depth rfl
  · rw [if_neg double]
    have width : frame.closer.width = 1 := by
      cases h : frame.closer <;> first | rfl | exact absurd h double
    exact inner (by rw [width]; rfl) ends depth rfl

end Sequences

/-! ## The rules for brackets -/

section Steps
variable {input : Input} {p spans : Nat} {need : Need} {frames : List Frame} {closer : Closer}
  {pending : Bool}

/-- Parentheses and braces are opened where an operand is needed. -/
theorem step?_enclosure (enclosure : closer = .paren ∨ closer = .brace)
    (start : need.rule.canStart closer.opener = true)
    (here : input.kindAt p = some closer.opener) :
    input.step? p ⟨.needed need, frames⟩ =
      some (Frame.enter input.config p ⟨closer, need.spans, need.held⟩ frames) := by
  obtain ⟨sight, seen, kind⟩ := Input.exists_sight here
  rw [Input.step?_of_sight? seen, step_needed (kind ▸ start)]
  rcases enclosure with rfl | rfl <;> simp_all [Need.step, Closer.opener]

theorem step?_identifier (start : need.rule.canStart .identifier = true)
    (here : input.kindAt p = some .identifier) :
    input.step? p ⟨.needed need, frames⟩ =
      some (.on 1 ⟨.complete need.spans true false, frames⟩) := by
  obtain ⟨sight, seen, kind⟩ := Input.exists_sight here
  rw [Input.step?_of_sight? seen, step_needed (kind ▸ start)]
  simp [Need.step, kind, start]

theorem step?_number (start : need.rule.canStart .number = true)
    (here : input.kindAt p = some .number) :
    input.step? p ⟨.needed need, frames⟩ =
      some (.on 1 ⟨.complete need.spans false (input.pendingAt need.signed p (p + 1)),
        frames⟩) := by
  obtain ⟨sight, seen, kind⟩ := Input.exists_sight here
  rw [Input.step?_of_sight? seen, step_needed (kind ▸ start)]
  simp [Need.step, kind, start, Input.pendingAt, seen]

theorem step?_string (start : need.rule.canStart .string = true)
    (here : input.kindAt p = some .string) :
    input.step? p ⟨.needed need, frames⟩ =
      some (.on 1 ⟨.complete need.spans false false, frames⟩) := by
  obtain ⟨sight, seen, kind⟩ := Input.exists_sight here
  rw [Input.step?_of_sight? seen, step_needed (kind ▸ start)]
  simp [Need.step, kind, start]

theorem step?_indices (pair : pairAt input p .leftBracket = true) :
    input.step? p ⟨.complete spans false pending, frames⟩ =
      some (Frame.enter input.config p ⟨.doubleBracket, spans, pending⟩ frames) := by
  obtain ⟨sight, seen, kind⟩ := Input.exists_sight (Input.kindAt_of_pairAt pair).1
  rw [Input.step?_of_sight? seen]
  simp [Outlook.step, Outlook.endOperand, kind, Input.opensPair_of_sight? seen, pair]

theorem step?_arguments (opens : input.OpensArguments p) :
    input.step? p ⟨.complete spans true false, frames⟩ =
      some (Frame.enter input.config p ⟨.bracket, spans, false⟩ frames) := by
  obtain ⟨sight, seen, kind⟩ := Input.exists_sight opens.1
  rw [Input.step?_of_sight? seen]
  simp [Outlook.step, Outlook.endOperand, kind, Input.opensPair_of_sight? seen, opens.2]

/-- Where no arguments start it does not matter whether they could. -/
theorem step?_applicable (other : ¬ input.OpensArguments p) :
    input.step? p ⟨.complete spans true false, frames⟩ =
      input.step? p ⟨.complete spans false false, frames⟩ := by
  unfold Input.step?
  cases seen : input.sight? p with
  | none => rfl
  | some sight =>
    have pair : sight.kind = .leftBracket → sight.opensPair = true := by
      intro kind
      rw [Input.opensPair_of_sight? seen, ← Bool.not_eq_false]
      exact fun single => other ⟨kind ▸ Input.kindAt_of_sight? seen, single⟩
    have refusal : Outlook.refusal ⟨.complete spans true false, frames⟩ p =
        Outlook.refusal ⟨.complete spans false false, frames⟩ p := by
      cases frames <;> rfl
    have ends : Outlook.endExpression p sight ⟨.complete spans true false, frames⟩ =
        Outlook.endExpression p sight ⟨.complete spans false false, frames⟩ := by
      cases frames <;> simp only [Outlook.endExpression, refusal]
    cases kind : sight.kind <;>
      simp [Outlook.step, Outlook.endOperand, Outlook.endSum, kind, startsAtom, tightOperand?,
        looseOperand?, refusal, ends, pair]

end Steps

section Rules
variable {input : Input} {v : Verdict} {call : Rule → ParseM (Option Expr)}
  {place number spans : Nat} {s t : State} {rule : Rule} {need : Need} {frames : List Frame}

theorem pendingAt_of_kind {signed : Bool} {start stop : Nat}
    (h : input.kindAt start ≠ some .number) : input.pendingAt signed start stop = false := by
  have : (input.sight? start).any (fun sight => sight.kind == .number && sight.valueless) =
      false := by
    cases seen : input.sight? start with
    | none => rfl
    | some sight =>
      have : sight.kind ≠ .number := fun same => h (same ▸ Input.kindAt_of_sight? seen)
      simp [this]
  simp [Input.pendingAt, this]

/-- Behind an atom only the kind of atom matters that was read. -/
theorem Landed.atom {pending : Bool}
    (landed : Landed input v rule (.complete spans false pending) frames s)
    (le : Rule.atom.index ≤ rule.index) :
    Landed input v .atom (.complete spans false pending) frames s := by
  cases landed with
  | calm meets comes _ =>
    obtain ⟨first, hfirst⟩ := meets.ends.token
    exact .calm meets comes (declines_atom _ _ (Input.kindAt_of_getElem? hfirst))
  | stuck ends depth failed stuck blamed =>
    exact .stuck ends depth failed (fun follow => stuck (follow.mono le)) blamed

/-- What an atom is that is nothing but brackets. -/
theorem Enclosed.ended {closer : Closer} {r : Option Expr}
    (enclosed : Enclosed input v ⟨closer, need.spans, need.held⟩ frames (s.current + 1) r t)
    (hcloser : closer = .paren ∨ closer = .brace) (hrule : rule = .group ∨ rule = .list)
    (meets : Meets input ⟨.needed need, frames⟩ s) (start : input.StartsAt rule s.current)
    (here : input.kindAt s.current = some closer.opener) :
    Ended input v rule need frames s r t := by
  have noNumber : input.kindAt s.current ≠ some .number := by
    rw [here]
    cases closer <;> decide
  have noArguments : (closer == .bracket) = false := by
    rcases hcloser with rfl | rfl <;> rfl
  cases r with
  | none =>
    obtain ⟨depth, failed, blamed⟩ := enclosed
    refine (ended_none ?_).mpr ⟨depth.trans meets.depth.symm, .inr ⟨start, failed, blamed⟩⟩
    rcases hrule with rfl | rfl <;> decide
  | some e =>
    obtain ⟨lt, meets', comes⟩ := enclosed
    rw [noArguments] at meets' comes
    refine ⟨Nat.lt_of_succ_lt lt, fun _ number => absurd number noNumber,
      .complete need.spans false false, ?_, .calm meets' comes ?_⟩
    · rw [pendingAt_of_kind noNumber]
      rcases hrule with rfl | rfl <;> rfl
    · obtain ⟨first, hfirst⟩ := meets'.ends.token
      refine (declines_atom _ _ (Input.kindAt_of_getElem? hfirst)).imp_left fun follow => ?_
      rcases hrule with rfl | rfl <;> exact follow.mono (by decide)

theorem group_foreseen (poised : Poised input v .group need frames s)
    (calls : ForeseenCalls input v call s.current (Rule.group.index + 1)) :
    Heeds input v (group input call) s (Ended input v .group need frames s) := by
  have here := poised.opening .leftParen rfl
  have start : input.StartsAt .group s.current := ⟨_, here, rfl⟩
  have step : input.step? s.current ⟨.needed need, frames⟩ =
      some (Frame.enter input.config s.current ⟨.paren, need.spans, need.held⟩ frames) :=
    step?_enclosure (.inl rfl) rfl here
  have calm := poised.meets.furthest_le
  unfold group
  refine .current (.advance poised.meets.ends here (by decide) fun opening hopening ends => ?_)
  have depth : (s.moveTo (s.current + 1)).depth = frames.length := poised.meets.depth
  refine (nested_foreseen depth hopening step (poised.comes start) fun comes => ?_).mono
    fun r t enclosed => enclosed.ended (.inl rfl) (.inl rfl) poised.meets start here
  have inner : Poised input v .or { rule := .or } (⟨.paren, need.spans, need.held⟩ :: frames)
      ((s.moveTo (s.current + 1)).atDepth (s.depth + 1)) :=
    { meets :=
        { ends
          depth := congrArg (· + 1) depth
          furthest_le := Nat.le_succ_of_le calm
          needed := State.neededHere_of_lt (Nat.lt_succ_of_le calm) }
      opening := nofun
      tighter := Nat.le_refl _
      fresh := fun _ => rfl
      unsigned := fun _ => rfl
      unheld := fun _ => rfl
      comes := fun _ => comes }
  refine (calls .or _ _ _ inner (.inl (Nat.lt_succ_self _))).bind ?_
  rintro (_ | e) t ⟨ended, -⟩
  · have missed := (ended_none (by decide)).mp ended
    obtain ⟨failed, blamed⟩ := missed.blamed inner.meets comes (fun _ _ h => h) nofun
    exact .pure ⟨rfl, failed, blamed⟩
  · have le : s.current + 1 ≤ t.current := Nat.le_of_lt ended.lt
    obtain ⟨spot, fits, landed⟩ := ended.landed
    rw [inner.pendingAt (by decide)] at fits
    refine .close landed.ends (fun closes ends => ?_) fun unclosed => ?_
    · obtain ⟨calm, comes⟩ := landed.closed fits closes
      exact .pure (enclosed_of_closed le calm ends comes)
    · obtain ⟨failed, blamed⟩ := landed.lack fits unclosed fun _ => rfl
      exact .pure ⟨rfl, Nat.le_trans le failed, blamed⟩

theorem list_foreseen (poised : Poised input v .list need frames s)
    (calls : ForeseenCalls input v call s.current (Rule.list.index + 1)) :
    Heeds input v (list input call) s (Ended input v .list need frames s) := by
  have here := poised.opening .leftBrace rfl
  have start : input.StartsAt .list s.current := ⟨_, here, rfl⟩
  have step : input.step? s.current ⟨.needed need, frames⟩ =
      some (Frame.enter input.config s.current ⟨.brace, need.spans, need.held⟩ frames) :=
    step?_enclosure (.inr rfl) rfl here
  unfold list
  refine (bracketed_foreseen calls ⟨.brace, need.spans, need.held⟩ nofun (Nat.le_refl _)
    poised.meets.ends poised.meets.depth poised.meets.furthest_le here step
    (poised.comes start)).bind ?_
  have ended (r : Option Expr) (t : State) (enclosed : Enclosed input v
      ⟨.brace, need.spans, need.held⟩ frames (s.current + 1) r t) :
      Ended input v .list need frames s r t :=
    enclosed.ended (.inr rfl) (.inr rfl) poised.meets start here
  rintro (_ | elements) t enclosed
  · exact .pure (ended none t enclosed)
  · exact .pure (ended (some _) t enclosed)

/-! ## Applications -/

theorem curried_foreseen (calls : ForeseenCalls input v call place number) (bound : Nat)
    (e : Expr) (lt : place < s.current) (enough : input.tokens.size < s.current + bound)
    (meets : Meets input ⟨.complete spans true false, frames⟩ s)
    (comes : input.Comes s.current ⟨.complete spans true false, frames⟩ v) :
    Heeds input v (curried input call bound e) s fun _ t => s.current ≤ t.current ∧
      Landed input v .application (.complete spans false false) frames t := by
  induction bound generalizing s e with
  | zero =>
    have := meets.ends.lt
    omega
  | succ bound ih =>
    unfold curried
    refine .opensArguments meets.ends (fun opens => ?_) fun other => ?_
    · simp only [if_true]
      refine .current ?_
      refine (bracketed_foreseen calls ⟨.bracket, spans, false⟩ nofun (Nat.le_of_lt lt) meets.ends
        meets.depth meets.furthest_le opens.1 (step?_arguments opens) comes).bind ?_
      rintro (_ | args) t enclosed
      · obtain ⟨depth, failed, blamed⟩ := enclosed
        refine .rewind (.pure ⟨Nat.le_refl _, ?_⟩)
        exact .stuck meets.ends depth (Nat.lt_of_succ_le failed)
          (Input.not_followsAt_of_opensArguments opens) blamed
      · obtain ⟨lt', meets', comes'⟩ := enclosed
        have lt' : s.current < t.current := Nat.lt_of_succ_lt lt'
        refine (ih _ (Nat.lt_trans lt lt') (by omega) meets' comes').mono fun _ u h => ?_
        exact ⟨Nat.le_trans (Nat.le_of_lt lt') h.1, h.2⟩
    · obtain ⟨first, hfirst⟩ := meets.ends.token
      refine .pure ⟨Nat.le_refl _, .calm ⟨meets.ends, meets.depth, meets.furthest_le, meets.needed⟩
        ((comes_congr (step?_applicable other)).mp comes) ?_⟩
      exact (declines_atom _ _ (Input.kindAt_of_getElem? hfirst)).imp_left fun follow =>
        follow.mono (by decide)

theorem application_foreseen (poised : Poised input v .application need frames s)
    (calls : ForeseenCalls input v call s.current (Rule.application.index + 1)) :
    Heeds input v (application input call) s (Ended input v .application need frames s) := by
  have here := poised.opening .identifier rfl
  have start : input.StartsAt .application s.current := ⟨_, here, rfl⟩
  have comes := (comes_on (step?_identifier rfl here)).mp (poised.comes start)
  unfold application
  refine .advance poised.meets.ends here (by decide) fun name _ ends => ?_
  have meets : Meets input ⟨.complete need.spans true false, frames⟩ (s.moveTo (s.current + 1)) :=
    poised.meets.forward (Nat.lt_succ_self _) ends rfl rfl
  refine .opensArguments meets.ends (fun opens => ?_) fun other => ?_
  · simp only [if_true]
    refine (bracketed_foreseen calls ⟨.bracket, need.spans, false⟩ nofun (Nat.le_succ _)
      meets.ends meets.depth meets.furthest_le opens.1 (step?_arguments opens) comes).bind ?_
    rintro (_ | args) t enclosed
    · obtain ⟨depth, failed, blamed⟩ := enclosed
      exact .pure (.inr ⟨opens, depth.trans poised.meets.depth.symm, Nat.lt_of_succ_le failed,
        blamed⟩)
    · obtain ⟨lt, meets', comes'⟩ := enclosed
      have lt : s.current < t.current := Nat.lt_of_succ_lt (Nat.lt_of_succ_lt lt)
      refine .map ((curried_foreseen calls input.bound _ lt (input.size_lt_bound _) meets'
        comes').mono ?_)
      rintro e u ⟨le, landed⟩
      have noNumber : input.kindAt s.current ≠ some .number := by simp [here]
      refine ⟨Nat.lt_of_lt_of_le lt le, fun _ number => absurd number noNumber,
        .complete need.spans false false, ?_, landed⟩
      rw [pendingAt_of_kind noNumber]
      rfl
  · exact .pure (.inl ⟨other, rfl⟩)

/-! ## Indices -/

theorem indexed_foreseen (calls : ForeseenCalls input v call place number) (bound : Nat)
    (left : Expr) (lt : place < s.current) (enough : input.tokens.size < s.current + bound)
    {pending : Bool} (landed : Landed input v .atom (.complete spans false pending) frames s) :
    Heeds input v (indexed input call bound left) s fun e t =>
      (t.current = s.current ∧ e = left ∧
        Landed input v .part (.complete spans false pending) frames t) ∨
      (s.current < t.current ∧ (∀ text, e ≠ .number text) ∧
        Landed input v .part (.complete spans false false) frames t) := by
  induction bound generalizing s left pending with
  | zero =>
    have := landed.ends.lt
    omega
  | succ bound ih =>
    unfold indexed
    refine .current ?_
    cases pair : pairAt input s.current .leftBracket with
    | false =>
      refine .pure (.inl ⟨rfl, rfl, landed.looser (by decide) fun follow => ?_⟩)
      rcases follow with ⟨kind, here, follow⟩ | ⟨-, opens⟩
      · exact Input.followsAt_of_canFollow here
          (canFollow_of_between follow (.inr (.inr ⟨rfl, rfl⟩)))
      · rw [pair] at opens
        cases opens
    | true =>
      simp only [if_true]
      obtain ⟨meets, comes⟩ := landed.of_followsAt (.inr ⟨Nat.le_refl _, pair⟩)
      refine (bracketed_foreseen calls ⟨.doubleBracket, spans, pending⟩ nofun (Nat.le_of_lt lt)
        meets.ends meets.depth meets.furthest_le pair (step?_indices pair) comes).bind ?_
      rintro (_ | indices) t enclosed
      · obtain ⟨depth, failed, blamed⟩ := enclosed
        refine .rewind (.pure (.inl ⟨rfl, rfl, ?_⟩))
        exact .stuck meets.ends depth (Nat.lt_of_succ_lt failed)
          (Input.not_followsAt_of_leftBracket (by decide) (Input.kindAt_of_pairAt pair).1) blamed
      · obtain ⟨lt', meets', comes'⟩ := enclosed
        have lt' : s.current < t.current := Nat.lt_of_le_of_lt (Nat.le_add_right _ _) lt'
        obtain ⟨first, hfirst⟩ := meets'.ends.token
        have landed' : Landed input v .atom (.complete spans false false) frames t :=
          .calm meets' comes' (declines_atom _ _ (Input.kindAt_of_getElem? hfirst))
        refine (ih _ (Nat.lt_trans lt lt') (by omega) landed').mono ?_
        rintro e u (⟨back, rfl, landed⟩ | ⟨more, noNumber, landed⟩)
        · exact .inr ⟨back ▸ lt', nofun, landed⟩
        · exact .inr ⟨Nat.lt_trans lt' more, noNumber, landed⟩

theorem part_foreseen (poised : Poised input v .part need frames s)
    (calls : ForeseenCalls input v call s.current (Rule.part.index + 1)) :
    Heeds input v (part input call) s (Ended input v .part need frames s) := by
  unfold part
  refine (calls .atom need frames s (poised.tighten (by decide) nofun)
    (.inr ⟨rfl, by decide⟩)).bind ?_
  rintro (_ | e) t ⟨ended, -⟩
  · have missed := (ended_none (by decide)).mp ended
    exact .pure ((ended_none (by decide)).mpr (missed.looser Iff.rfl))
  · have lt := ended.lt
    obtain ⟨spot, rfl, landed⟩ := ended.landed
    refine .map ((indexed_foreseen calls input.bound e lt (input.size_lt_bound _) landed).mono ?_)
    rintro e' u (⟨back, rfl, landed⟩ | ⟨more, noNumber, landed⟩)
    · refine ⟨back ▸ lt, fun _ number => ?_, _, rfl, back ▸ landed⟩
      rw [back]
      exact ended.number (by decide) number
    · have far : u.current ≠ s.current + 1 := by omega
      refine ⟨Nat.lt_trans lt more, fun _ _ => ?_, _, rfl, pendingAt_of_ne far ▸ landed⟩
      exact ⟨fun ⟨text, same⟩ => absurd same (noNumber text), fun near => absurd near far⟩

/-! ## Atoms -/

/-- An atom that is one token. -/
theorem taken_foreseen {e : Expr} {kind : Token.Kind} {pending : Bool}
    (poised : Poised input v .atom need frames s) (here : input.kindAt s.current = some kind)
    (hend : kind ≠ .endOfInput) (number : kind = .number → ∃ text, e = .number text)
    (hpending : pending = input.pendingAt need.signed s.current (s.current + 1))
    (comes : input.Comes (s.current + 1) ⟨.complete need.spans false pending, frames⟩ v) :
    Heeds input v (do
      let _ ← advance input
      return some e) s (Ended input v .atom need frames s) := by
  refine .advance poised.meets.ends here hend fun _ _ ends => .pure ?_
  obtain ⟨next, hnext⟩ := ends.token
  refine ⟨Nat.lt_succ_self _, fun _ isNumber => ?_, _, rfl, ?_⟩
  · rw [here] at isNumber
    exact ⟨fun _ => rfl, fun _ => number (Option.some.inj isNumber)⟩
  · rw [State.current_moveTo, ← hpending]
    exact .calm (poised.meets.forward (Nat.lt_succ_self _) ends rfl rfl) comes
      (declines_atom _ _ (Input.kindAt_of_getElem? hnext))

/-- What a rule for brackets read is an atom. -/
theorem Foreseen.atom {start : Nat} {e : Expr}
    (foreseen : Foreseen input v rule need frames start e t) (le : Rule.atom.index ≤ rule.index) :
    Foreseen input v .atom need frames start e t := by
  obtain ⟨spot, fits, landed⟩ := foreseen.landed
  have tight : ¬ rule.index ≤ Rule.span.index :=
    Nat.not_le_of_lt (Nat.lt_of_lt_of_le (by decide) le)
  unfold Spot.Fits at fits
  rw [if_neg tight] at fits
  subst fits
  exact ⟨foreseen.lt, fun _ => foreseen.number (Nat.le_trans (by decide) le), _, rfl,
    landed.atom le⟩

theorem atom_foreseen (poised : Poised input v .atom need frames s)
    (calls : ForeseenCalls input v call s.current (Rule.atom.index + 1)) :
    Heeds input v (atom input call) s (Ended input v .atom need frames s) := by
  have ends := poised.meets.ends
  unfold atom
  refine .peek ends fun first hfirst => ?_
  have here := Input.kindAt_of_getElem? hfirst
  have comes (start : startsAtom first.kind = true) :
      input.Comes s.current ⟨.needed need, frames⟩ v :=
    poised.comes ⟨_, here, by simp [Rule.canStart, start]⟩
  -- A rule for brackets is applied in front of them.
  have enclosed (rule : Rule) (hrule : rule = .group ∨ rule = .list)
      (opener : rule.opener? = some first.kind) :
      Heeds input v (call rule) s (Ended input v .atom need frames s) := by
    have lt : Rule.atom.index < rule.index := by rcases hrule with rfl | rfl <;> decide
    have opening (kind : Token.Kind) (hkind : rule.opener? = some kind) :
        input.kindAt s.current = some kind := by rw [here, ← opener, hkind]
    refine (calls rule need frames s (poised.tighten (Nat.le_of_lt lt) opening)
      (.inr ⟨rfl, lt⟩)).mono ?_
    rintro (_ | e) t ⟨ended, -⟩
    · have missed := (ended_none (by rcases hrule with rfl | rfl <;> decide)).mp ended
      refine (ended_none (by decide)).mpr (missed.looser ?_)
      rcases hrule with rfl | rfl <;> exact Iff.rfl
    · exact Foreseen.atom ended (Nat.le_of_lt lt)
  cases kind : first.kind with
  | leftParen => exact enclosed .group (.inl rfl) (by rw [kind]; rfl)
  | leftBrace => exact enclosed .list (.inr rfl) (by rw [kind]; rfl)
  | identifier =>
    rw [kind] at here comes
    have comes := (comes_on (step?_identifier rfl here)).mp (comes rfl)
    have opening (kind : Token.Kind) (hkind : Rule.application.opener? = some kind) :
        input.kindAt s.current = some kind := by cases hkind; exact here
    refine (calls .application need frames s (poised.tighten (by decide) opening)
      (.inr ⟨rfl, by decide⟩)).bind ?_
    rintro (_ | e) t ⟨ended, back⟩
    · have back := back rfl
      have nameless : Nameless input v frames s t := ended
      have noNumber : input.kindAt s.current ≠ some .number := by simp [here]
      refine .advance (back ▸ ends) (back ▸ here) (by decide) fun name _ ends => .pure ?_
      rw [back] at ends ⊢
      refine ⟨Nat.lt_succ_self _, fun _ number => absurd number noNumber,
        .complete need.spans false false, by rw [pendingAt_of_kind noNumber]; rfl, ?_⟩
      rcases nameless with ⟨other, same⟩ | ⟨opens, depth, failed, blamed⟩
      · rw [same, State.moveTo_moveTo]
        obtain ⟨next, hnext⟩ := ends.token
        exact .calm (poised.meets.forward (Nat.lt_succ_self _) ends rfl rfl)
          ((comes_congr (step?_applicable other)).mp comes)
          (declines_atom _ _ (Input.kindAt_of_getElem? hnext))
      · exact .stuck ends (depth.trans poised.meets.depth) failed
          (Input.not_followsAt_of_opensArguments opens) blamed
    · exact .pure (Foreseen.atom ended (by decide))
  | number =>
    rw [kind] at here comes
    exact taken_foreseen poised here (by decide) (fun _ => ⟨_, rfl⟩) rfl
      ((comes_on (step?_number rfl here)).mp (comes rfl))
  | string =>
    rw [kind] at here comes
    exact taken_foreseen poised here (by decide) (by rintro ⟨⟩)
      (pendingAt_of_kind (by simp [here])).symm ((comes_on (step?_string rfl here)).mp (comes rfl))
  | _ =>
    refine .expect (.pure ((ended_none (by decide)).mpr ?_))
    have calm := poised.meets.furthest_le
    refine ⟨State.depth_expect _, .inl ⟨?_, ?_, State.expected_expect calm _⟩⟩
    · rintro ⟨other, hother, start⟩
      rw [here, kind] at hother
      cases hother
      cases start
    · rw [State.furthest_expect, Nat.max_eq_right calm]

/-! ## All rules -/

/-- If the rules that a rule applies end as foreseen, then so does the rule. -/
theorem body_foreseen (poised : Poised input v rule need frames s)
    (calls : ForeseenCalls input v call s.current (rule.index + 1)) :
    Heeds input v (body input call rule) s (Ended input v rule need frames s) := by
  cases rule with
  | or => exact foldLeft_foreseen poised calls rfl (by decide)
  | and => exact foldLeft_foreseen poised calls rfl (by decide)
  | not => exact negated_foreseen poised calls
  | equality => exact foldLeft_foreseen poised calls rfl (by decide)
  | relational => exact foldLeft_foreseen poised calls rfl (by decide)
  | span => exact span_foreseen poised calls
  | additive => exact foldLeft_foreseen poised calls rfl (by decide)
  | multiplicative => exact product_foreseen poised calls
  | unary => exact signed_foreseen poised calls
  | power => exact power_foreseen poised calls
  | part => exact part_foreseen poised calls
  | atom => exact atom_foreseen poised calls
  | group => exact group_foreseen poised calls
  | list => exact list_foreseen poised calls
  | application => exact application_foreseen poised calls

end Rules

end Grammar
end Formula
