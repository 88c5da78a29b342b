import Formula.Proofs.Grammar.Carrying
import Formula.Proofs.Grammar.Formulas

/-! # Factors side by side

Where operands may stand side by side they are multiplied as if a sign stood between them.  A
formula without such factors is the same in both dialects, and a formula with them is one in the
other dialect once the signs are put in (`reads_explicit`).

Where a sign has to be put in is seen from two tokens: one with which an operand can end and one
with which an operand can start.  Such tokens are next to each other only where factors are side by
side.  Both the derivation and the pass are followed from the tokens without the signs to those with
them (`Separates.carries`, `Separates.comes`).
-/
namespace Formula
namespace Grammar

/-- Some tokens with a sign in front of each operand that starts directly behind another one.
`behind` says whether an operand ends directly in front of them all. -/
def separate (sign : Token) : (behind : Bool) → List Token → List Token
  | _, [] => []
  | behind, t :: ts =>
    let later := separate sign (endsOperand t.kind) ts
    if behind && startsAtom t.kind then sign :: t :: later else t :: later

/-! ## Tokens with signs put in -/

/-- Factors stand side by side at a place. -/
def Input.Beside (input : Input) (p : Nat) : Prop :=
  input.EndsOperand p ∧ ∃ kind, input.kindAt p = some kind ∧ startsAtom kind = true

/-- The tokens of an input are those of another one, with the token at place `p` at place
`start p` and what is in front of it up to place `stop p`, and signs of products between factors
side by side. -/
structure Input.Separates (input other : Input) (start stop : Nat → Nat) : Prop where
  blank : other.blank = input.blank
  fold : other.config.foldNegativeLiterals = input.config.foldNegativeLiterals
  resolve : other.config.resolveBuiltins = input.config.resolveBuiltins
  cap : other.config.maxNestingDepth = input.config.maxNestingDepth
  zero : stop 0 = 0
  token : ∀ {p t}, input.tokens[p]? = some t → other.tokens[start p]? = some t
  next : ∀ {p t}, input.tokens[p]? = some t → stop (p + 1) = start p + 1
  beyond : ∀ {p}, input.tokens[p]? = none → other.tokens[stop p]? = none
  plain : ∀ {p}, ¬ input.Beside p → start p = stop p
  beside : ∀ {p}, input.Beside p → start p = stop p + 1 ∧ other.kindAt (stop p) = some .times

section Beside
variable {input : Input} {p : Nat} {kind : Token.Kind}

theorem Input.not_beside_of_start (h : input.kindAt p = some kind)
    (starts : startsAtom kind = false) : ¬ input.Beside p := by
  rintro ⟨-, other, here, starts'⟩
  rw [h] at here
  cases here
  rw [starts] at starts'
  cases starts'

theorem Input.not_beside_of_end (h : input.kindAt p = some kind)
    (ends : endsOperand kind = false) : ¬ input.Beside (p + 1) := by
  rintro ⟨ends', -⟩
  rw [Input.endsOperand_iff h, ends] at ends'
  cases ends'

end Beside

namespace Input.Separates
variable {input other : Input} {start stop : Nat → Nat} {p : Nat} {kind : Token.Kind}
  (separates : input.Separates other start stop)

include separates

theorem kindAt (h : input.kindAt p = some kind) : other.kindAt (start p) = some kind := by
  obtain ⟨t, here, rfl⟩ := Option.map_eq_some_iff.mp h
  exact Input.kindAt_of_getElem? (separates.token here)

theorem next_of_kindAt (h : input.kindAt p = some kind) : stop (p + 1) = start p + 1 := by
  obtain ⟨t, here, -⟩ := Option.map_eq_some_iff.mp h
  exact separates.next here

/-- A sign is never put in in front of a square bracket. -/
theorem bracket_next {t : Token} (h : input.kindAt p = some kind)
    (bracket : t.kind = .leftBracket ∨ t.kind = .rightBracket) :
    other.tokens[start p + 1]? = some t ↔ input.tokens[p + 1]? = some t := by
  have starts : startsAtom t.kind = false := by
    rcases bracket with same | same <;> rw [same] <;> rfl
  rw [← separates.next_of_kindAt h]
  refine ⟨fun here => ?_, fun here => ?_⟩
  · cases second : input.tokens[p + 1]? with
    | none =>
      rw [separates.beyond second] at here
      cases here
    | some next =>
      by_cases beside : input.Beside (p + 1)
      · -- What stands there is a sign and no bracket.
        have isTimes := (separates.beside beside).2
        rw [Input.kindAt_of_getElem? here] at isTimes
        rcases bracket with same | same <;> rw [same] at isTimes <;> cases isTimes
      · rw [← separates.plain beside, separates.token second] at here
        exact here
  · rw [← separates.plain (Input.not_beside_of_start (Input.kindAt_of_getElem? here) starts)]
    exact separates.token here

theorem valueAt (h : input.kindAt p = some kind) :
    other.valueAt (start p) = input.valueAt p := by
  obtain ⟨t, here, -⟩ := Option.map_eq_some_iff.mp h
  unfold Input.valueAt
  rw [separates.token here, here, separates.blank]

theorem sight? {sight : Sight} (h : input.sight? p = some sight) :
    other.sight? (start p) = some sight := by
  have kind := Input.kindAt_of_sight? h
  obtain ⟨t, here, -⟩ := Option.map_eq_some_iff.mp kind
  rw [Input.sight?_elsewhere ((separates.token here).trans here.symm) fun _ bracket =>
    separates.bracket_next kind bracket, h]

theorem stop_le (p : Nat) : stop p ≤ start p := by
  by_cases beside : input.Beside p
  · exact Nat.le_of_lt (Nat.lt_of_succ_le (separates.beside beside).1.ge)
  · exact (separates.plain beside).ge

/-- **A derivation is one in the tokens with the signs**, whatever the dialect. -/
theorem carries {last : Nat} (inside : last ≤ input.tokens.size) :
    input.Carries other start stop id last where
  keeps := Expr.keepsForm_id
  fold := separates.fold
  grows p lt := by
    have next := separates.next (Array.getElem?_eq_getElem (Nat.lt_of_lt_of_le lt inside))
    have le := separates.stop_le p
    omega
  front h starts := separates.plain (Input.not_beside_of_start h starts)
  back h ends := separates.plain (Input.not_beside_of_end h ends)
  token _ h _ := ⟨separates.kindAt h, separates.next_of_kindAt h⟩
  number p lt h := by
    have here := Array.getElem?_eq_getElem (Nat.lt_of_lt_of_le lt inside)
    rwa [Input.kindAt_of_getElem? (separates.token here), ← Input.kindAt_of_getElem? here] at h
  value p _ h := h.elim separates.valueAt separates.valueAt
  pair _ h bracket := by
    obtain ⟨t, here, -⟩ := Option.map_eq_some_iff.mp h
    exact pairAt_elsewhere ((separates.token here).trans here.symm) fun _ same =>
      separates.bracket_next h (same ▸ bracket)
  name _ here isName := by
    rw [separates.next here, namedConstant_congr separates.resolve.symm]
    exact .name (separates.token here) isName
  call _ here isName _ := by
    refine ⟨_, separates.token here, isName, separates.next here, fun es => ?_⟩
    rw [List.map_id, namedApplication_congr separates.resolve]
    rfl
  beside _ _ ends starts right later := by
    obtain ⟨kind, here, start⟩ := starts
    have beside : input.Beside _ :=
      ⟨ends, kind, here, by simpa [Rule.canStart, Rule.index] using start⟩
    obtain ⟨place, isTimes⟩ := separates.beside beside
    rw [place] at right
    exact .sign rfl isTimes rfl right.unary_of_power later

end Input.Separates

/-! ## Passes -/

/-- Whether an operand is complete. -/
def Spot.isComplete : Spot → Bool
  | complete .. => true
  | needed _ | optional => false

/-- Behind a step an operand is complete just if it is over a token with which one can end. -/
def Move.Completes (kind : Token.Kind) : Move → Prop
  | on _ next => next.spot.isComplete = endsOperand kind
  | halt _ => True

section Completes
variable {config : Config} {place : Nat} {sight : Sight} {o : Outlook} {need : Need}
  {frame : Frame} {frames : List Frame} {spans : Nat} {applicable pending : Bool}

theorem completes_enter {kind : Token.Kind} (ends : endsOperand kind = false) :
    (frame.enter config place frames).Completes kind := by
  unfold Frame.enter
  split
  · trivial
  · exact ends.symm

theorem completes_close (closes : sight.closes frame.closer = true) :
    (frame.close frames).Completes sight.kind := by
  simp only [Sight.closes, Bool.and_eq_true, beq_iff_eq] at closes
  rw [closes.1]
  cases closer : frame.closer <;> simp [Frame.close, Move.Completes, Spot.isComplete, Closer.kind,
    endsOperand]

theorem completes_need : (need.step config place sight frames).Completes sight.kind := by
  unfold Need.step
  split
  · next start =>
    cases kind : sight.kind with
    | leftParen | leftBrace => exact completes_enter rfl
    | identifier | string | number | minus | span | not => rfl
    | _ =>
      rw [kind] at start
      simp [Rule.canStart, startsAtom] at start
  · trivial

theorem completes_endExpression : (o.endExpression place sight).Completes sight.kind := by
  unfold Outlook.endExpression
  split
  · trivial
  · split
    · next closes => exact completes_close closes
    · split
      · next comma =>
        rw [comma.1]
        rfl
      · trivial

theorem completes_endSum : (o.endSum place sight spans).Completes sight.kind := by
  unfold Outlook.endSum
  split
  · next isSpan =>
    rw [isSpan]
    split <;> first | rfl | trivial
  · split
    · next loose =>
      cases kind : sight.kind <;> rw [kind] at loose <;> first | rfl | cases loose
    · exact completes_endExpression

theorem completes_endOperand :
    (o.endOperand config place sight spans applicable pending).Completes sight.kind := by
  unfold Outlook.endOperand
  split
  · next isPower =>
    rw [isPower]
    rfl
  · next isLeft =>
    have ends : endsOperand sight.kind = false := by rw [isLeft]; rfl
    split
    · exact completes_enter ends
    · split
      · exact completes_enter ends
      · trivial
  · split
    · trivial
    · split
      · split
        · exact completes_need
        · trivial
      · split
        · next tight =>
          cases kind : sight.kind <;> rw [kind] at tight <;> first | rfl | cases tight
        · exact completes_endSum

/-- **Whether an operand is complete is seen from the last token.** -/
theorem completes_step : (o.step config place sight).Completes sight.kind := by
  obtain ⟨spot, frames⟩ := o
  unfold Outlook.step
  cases spot with
  | needed need =>
    cases frames with
    | nil => exact completes_need
    | cons frame outer =>
      dsimp only
      split
      · next closes => exact completes_close closes.2
      · exact completes_need
  | optional =>
    dsimp only
    split
    · exact completes_need
    · exact completes_endSum
  | complete => exact completes_endOperand

end Completes

section Passes
variable {input other : Input} {start stop : Nat → Nat} {p n width : Nat} {o next : Outlook}
  {kind : Token.Kind}

/-- Whether an operand is complete in a pass is seen from the last token. -/
theorem completes_of_step? {sight : Sight} (seen : input.sight? p = some sight)
    (h : o.step input.config p sight = .on width next) :
    next.spot.isComplete = true ↔ input.EndsOperand (p + width) := by
  have completes : (Move.on width next).Completes sight.kind := h ▸ completes_step
  have ends : next.spot.isComplete = endsOperand sight.kind := completes
  rw [ends]
  rcases Input.last_of_step? seen h with rfl | ⟨rfl, second, -⟩
  · exact (Input.endsOperand_iff (Input.kindAt_of_sight? seen)).symm
  · exact (Input.endsOperand_iff second).symm

/-- Behind a step the tokens are found again. -/
theorem Input.Separates.next_of_step? (separates : input.Separates other start stop)
    {sight : Sight} (seen : input.sight? p = some sight)
    (h : o.step input.config p sight = .on width next) : stop (p + width) = start p + width := by
  have first := separates.next_of_kindAt (Input.kindAt_of_sight? seen)
  rcases Input.last_of_step? seen h with rfl | ⟨rfl, second, starts⟩
  · exact first
  · have place := separates.plain (Input.not_beside_of_start second starts)
    rw [separates.next_of_kindAt second, place, first]

/-- An atom is read alike by every rule that may read one. -/
theorem need_of_startsAtom {config : Config} {place spans : Nat} {sight : Sight}
    {frames : List Frame} (atom : startsAtom sight.kind = true) (a b : Rule) :
    Need.step config place sight { rule := a, spans } frames =
      Need.step config place sight { rule := b, spans } frames := by
  have start (rule : Rule) : rule.canStart sight.kind = true := by simp [Rule.canStart, atom]
  unfold Need.step
  rw [if_pos (start a), if_pos (start b)]

theorem Input.Separates.hosts (separates : input.Separates other start stop) :
    other.config.Hosts input.config 0 :=
  .of_cap separates.cap separates.fold

/-- A step over a sign and one over the factor behind it are the step over the factor. -/
theorem Input.Separates.beside_step? (separates : input.Separates other start stop)
    {sight : Sight} (seen : input.sight? p = some sight) (beside : input.Beside p)
    (complete : o.spot.isComplete = true) (h : o.step input.config p sight = .on width next) :
    ∃ between, other.step? (stop p) o = some (.on 1 between) ∧
      other.step? (start p) between = some (.on width next) := by
  obtain ⟨times, seen', isTimes⟩ := Input.exists_sight (separates.beside beside).2
  obtain ⟨-, kind, here, atom⟩ := beside
  obtain ⟨spot, frames⟩ := o
  cases spot with
  | needed | optional => cases complete
  | complete spans applicable pending =>
    rw [Input.kindAt_of_sight? seen] at here
    cases here
    have h : Outlook.endOperand input.config p sight _ spans applicable pending =
        .on width next := h
    rw [endOperand_atom atom] at h
    split at h
    · cases h
    · next calm =>
      split at h
      · refine ⟨⟨.needed { rule := .unary, spans }, frames⟩, ?_, ?_⟩
        · rw [Input.step?_of_sight? seen']
          simp [Outlook.step, Outlook.endOperand, isTimes, calm, startsAtom, tightOperand?]
        · rw [Input.step?_of_sight? (separates.sight? seen),
            step_needed (by simp [Rule.canStart, atom]), need_of_startsAtom atom .unary .power]
          exact congrArg some (need_elsewhere separates.hosts .refl h)
      · cases h

/-- **A pass accepts the tokens with the signs** where it accepts those without. -/
theorem Input.Separates.comes (separates : input.Separates other start stop)
    (comes : input.Comes p o (.accepted n))
    (completes : o.spot.isComplete = true ↔ input.EndsOperand p) :
    other.Comes (stop p) o (.accepted (stop n)) := by
  refine comes.carry stop id (fun p o => o.spot.isComplete = true ↔ input.EndsOperand p)
    (fun o halts => ?_) (fun {p o width next} _ go completes => ?_) completes
  · obtain ⟨sight, seen, move⟩ := Option.map_eq_some_iff.mp halts
    have isEnd := (of_step_accepted move).1
    have place := separates.plain
      (Input.not_beside_of_start (Input.kindAt_of_sight? seen) (by rw [isEnd]; rfl))
    exact comes_accepted ((place ▸ separates.sight? seen).trans seen.symm) halts
  · obtain ⟨sight, seen, move⟩ := Option.map_eq_some_iff.mp go
    refine ⟨completes_of_step? seen move, fun later => ?_⟩
    rw [separates.next_of_step? seen move] at later
    by_cases beside : input.Beside p
    · obtain ⟨between, first, second⟩ :=
        separates.beside_step? seen beside (completes.mpr beside.1) move
      rw [(separates.beside beside).1] at second later
      exact .on first (.on second later)
    · rw [separates.plain beside] at later
      refine .on ?_ later
      rw [← separates.plain beside, Input.step?_of_sight? (separates.sight? seen)]
      refine congrArg some (step_elsewhere separates.hosts .refl ?_ move)
      -- No operand starts where one is complete.
      rintro ⟨spans, applicable, pending, complete⟩ starts -
      have complete : o.spot = .complete spans applicable pending := complete
      have ends := completes.mp (by rw [complete]; rfl)
      exact absurd ⟨ends, _, Input.kindAt_of_sight? seen, starts⟩ beside

/-- **Tokens are parsed alike with the signs**, in all dialects with the same other options. -/
theorem Input.Separates.reads (separates : input.Separates other start stop) {e : Expr}
    (h : input.Reads e) : other.Reads e := by
  obtain ⟨n, ends, derives, comes⟩ := reads_iff.mp h
  have start_zero : start 0 = 0 :=
    (separates.plain fun beside => Input.not_endsOperand_zero beside.1).trans separates.zero
  have ends' := separates.kindAt ends
  rw [separates.plain (Input.not_beside_of_start ends rfl)] at ends'
  have derives' := (separates.carries (Nat.le_of_lt (Input.kindAt_lt ends))).derives derives
    (Nat.le_refl n)
  have comes' := separates.comes comes ⟨nofun, fun ends => absurd ends Input.not_endsOperand_zero⟩
  rw [start_zero] at derives'
  rw [separates.zero] at comes'
  exact reads_iff.mpr ⟨stop n, ends', derives', comes'⟩

end Passes

/-! ## Formulas without factors side by side -/

/-- The same tokens in the dialect where factors may stand side by side. -/
def Input.implicit (input : Input) : Input :=
  { input with config := { input.config with implicitMultiplication := true } }

section Implicit
variable {input : Input} {p n last : Nat} {o : Outlook}

theorem Input.carries_implicit : input.Carries input.implicit id id id last where
  keeps := Expr.keepsForm_id
  fold := rfl
  grows p _ := Nat.lt_succ_self p
  front _ _ := rfl
  back _ _ := rfl
  token _ h _ := ⟨h, rfl⟩
  number _ _ h := h
  value _ _ _ := rfl
  pair _ _ _ := rfl
  name _ here isName := .name here isName
  call _ here isName _ := ⟨_, here, isName, rfl, fun es => by rw [List.map_id]; rfl⟩
  beside _ _ _ _ right later := .beside rfl right later

theorem Input.Comes.implicit (comes : input.Comes p o (.accepted n)) :
    input.implicit.Comes p o (.accepted n) := by
  have same (p : Nat) : input.implicit.sight? p = input.sight? p := rfl
  have hosts : input.implicit.config.Hosts input.config 0 := .of_cap rfl rfl
  refine comes.carry id id (fun _ _ => True) (fun o halts => comes_accepted (same n) halts)
    (fun {p o width next} _ go _ => ⟨trivial, .on ?_⟩) trivial
  obtain ⟨sight, seen, move⟩ := Option.map_eq_some_iff.mp go
  rw [Input.step?_of_sight? ((same p).trans seen)]
  exact congrArg some (step_elsewhere hosts .refl (fun _ _ _ => rfl) move)

/-- A formula is the same where factors may stand side by side. -/
theorem Input.Reads.implicit {e : Expr} (h : input.Reads e) : input.implicit.Reads e := by
  obtain ⟨n, ends, derives, comes⟩ := reads_iff.mp h
  exact reads_iff.mpr
    ⟨n, ends, Input.carries_implicit.derives derives (Nat.le_refl n), comes.implicit⟩

end Implicit

/-! ## Lists of tokens -/

section Lists
variable {sign t : Token} {ts us : List Token} {p : Nat} {config config' : Config} {blank : String}

/-- Whether an operand ends with the last of some tokens. -/
def endsBehind (behind : Bool) (ts : List Token) : Bool :=
  ts.foldl (fun _ t => endsOperand t.kind) behind

theorem separate_append (behind : Bool) :
    separate sign behind (ts ++ us) =
      separate sign behind ts ++ separate sign (endsBehind behind ts) us := by
  induction ts generalizing behind with
  | nil => rfl
  | cons t ts ih =>
    have later : endsBehind behind (t :: ts) = endsBehind (endsOperand t.kind) ts := rfl
    rw [later, List.cons_append, separate, separate, ih]
    split <;> rfl

/-- What is in front of a place, the sign in front of its token, its token and what follows. -/
theorem separate_cut (h : ts[p]? = some t) :
    separate sign false ts = separate sign false (ts.take p) ++
      ((if endsBehind false (ts.take p) && startsAtom t.kind then [sign] else []) ++
        t :: separate sign (endsOperand t.kind) (ts.drop (p + 1))) := by
  obtain ⟨lt, rfl⟩ := List.getElem?_eq_some_iff.mp h
  conv_lhs => rw [← List.take_append_drop p ts, List.drop_eq_getElem_cons lt, separate_append]
  rw [separate]
  split <;> rfl

/-- Where the tokens in front of a place end when the signs are put in. -/
def separatedStop (sign : Token) (ts : List Token) (p : Nat) : Nat :=
  (separate sign false (ts.take p)).length

/-- Where the token at a place is when the signs are put in. -/
def separatedStart (sign : Token) (ts : List Token) (p : Nat) : Nat :=
  separatedStop sign ts p +
    if endsBehind false (ts.take p) && ts[p]?.any (startsAtom ·.kind) then 1 else 0

theorem endsBehind_take (lt : p < ts.length) : endsBehind false (ts.take p) = true ↔
    Input.EndsOperand { tokens := ts.toArray, config, blank } p := by
  cases p with
  | zero =>
    rw [List.take_zero, iff_false_right Input.not_endsOperand_zero]
    exact Bool.false_ne_true
  | succ p =>
    have last : endsBehind false (ts.take (p + 1)) = endsOperand ts[p].kind := by
      rw [List.take_succ_eq_append_getElem (by omega), endsBehind, List.foldl_append]
      rfl
    rw [last, Input.endsOperand_iff (kindAt_toArray (List.getElem?_eq_getElem (by omega)))]

theorem beside_iff (h : ts[p]? = some t) :
    (endsBehind false (ts.take p) && ts[p]?.any (startsAtom ·.kind)) = true ↔
      Input.Beside { tokens := ts.toArray, config, blank } p := by
  have here : Input.kindAt { tokens := ts.toArray, config, blank } p = some t.kind :=
    kindAt_toArray h
  rw [h, Bool.and_eq_true, endsBehind_take (List.getElem?_eq_some_iff.mp h).1]
  refine and_congr_right fun _ => ⟨fun starts => ⟨_, here, starts⟩, fun ⟨kind, here', starts⟩ => ?_⟩
  rw [here] at here'
  cases here'
  exact starts

/-- **The tokens are found again in the list with the signs.** -/
theorem separates_separate (times : sign.kind = .times) :
    Input.Separates { tokens := ts.toArray, config, blank }
      { tokens := (separate sign false ts).toArray,
        config := { config with implicitMultiplication := false }, blank }
      (separatedStart sign ts) (separatedStop sign ts) where
  blank := rfl
  fold := rfl
  resolve := rfl
  cap := rfl
  zero := rfl
  token {p t} h := by
    simp only [List.getElem?_toArray] at h ⊢
    rw [separate_cut h, separatedStart, separatedStop,
      List.getElem?_append_right (Nat.le_add_right _ _), Nat.add_sub_cancel_left, h,
      Option.any_some]
    cases endsBehind false (ts.take p) && startsAtom t.kind <;> rfl
  next {p t} h := by
    simp only [List.getElem?_toArray] at h
    obtain ⟨lt, rfl⟩ := List.getElem?_eq_some_iff.mp h
    rw [separatedStart, separatedStop, separatedStop, List.take_succ_eq_append_getElem lt,
      separate_append, List.length_append, h, Option.any_some, separate]
    split <;> rfl
  beyond {p} h := by
    simp only [List.getElem?_toArray] at h ⊢
    rw [separatedStop, List.take_of_length_le (List.getElem?_eq_none_iff.mp h)]
    exact List.getElem?_eq_none (Nat.le_refl _)
  plain {p} h := by
    rw [separatedStart]
    cases here : ts[p]? with
    | none => simp
    | some t =>
      rw [← beside_iff here, here] at h
      rw [if_neg h, Nat.add_zero]
  beside {p} h := by
    obtain ⟨-, kind, isKind, -⟩ := id h
    obtain ⟨t, here, -⟩ := Option.map_eq_some_iff.mp isKind
    simp only [List.getElem?_toArray] at here
    rw [← beside_iff here, here] at h
    refine ⟨by rw [separatedStart, here, if_pos h], ?_⟩
    have isSign : (separate sign false ts)[separatedStop sign ts p]? = some sign := by
      rw [separate_cut here, separatedStop, List.getElem?_append_right (Nat.le_refl _),
        Nat.sub_self, if_pos (by simpa using h)]
      rfl
    exact (kindAt_toArray isSign).trans (congrArg some times)

/-- **Factors side by side are multiplied as if a sign stood between them.**  A formula that has
none is the same where factors may be side by side.  And a formula that may have some is the same
where they may not, with a sign put in between any two tokens with which an operand can end and one
can start.  Numbers and strings need not carry texts, and nothing depends on the other options or on
where the tokens stand, as long as the same brackets have no gap between them. -/
theorem reads_explicit (times : sign.kind = .times) (alike : Token.Alike (separate sign false ts) us)
    (config : Config) (blank : String) (e : Expr) :
    let input (tokens : List Token) (implicit : Bool) : Input :=
      { tokens := tokens.toArray
        config := { config with implicitMultiplication := implicit }
        blank }
    ((input ts false).Reads e → (input ts true).Reads e) ∧
      ((input ts true).Reads e → (input us false).Reads e) := by
  intro input
  refine ⟨Input.Reads.implicit, fun h => ?_⟩
  have separates : (input ts true).Separates (input (separate sign false ts) false)
      (separatedStart sign ts) (separatedStop sign ts) := separates_separate times
  exact reads_of_alike alike (separates.reads h)

/-- A number beside a name, and with a sign between them. -/
theorem reads_explicit_number :
    let token (kind : Token.Kind) (lexeme : String) (offset : Int) : Token :=
      ⟨kind, lexeme, some lexeme, ⟨"", 1, offset + 1, offset⟩⟩
    let input (tokens : List Token) (implicit : Bool) : Input :=
      { tokens := tokens.toArray
        config := { memoize := false, implicitMultiplication := implicit } }
    let ts := [token .number "2" 0, token .identifier "x" 1, token .endOfInput "" 2]
    let us := [token .number "2" 0, token .times "*" 1, token .identifier "x" 2,
      token .endOfInput "" 3]
    let e : Expr := .node .times [.number "2", .symbol "x"]
    Token.Alike (separate (token .times "*" 1) false ts) us ∧ (input ts true).Reads e ∧
      (input us false).Reads e := by
  intro token input ts us e
  have alike : Token.Alike (separate (token .times "*" 1) false ts) us :=
    alike_of_plain rfl (by decide)
  have read : (input ts true).Reads e := ⟨_, rfl⟩
  exact ⟨alike, read, (reads_explicit rfl alike { memoize := false } "" e).2 read⟩

end Lists
end Grammar
end Formula
