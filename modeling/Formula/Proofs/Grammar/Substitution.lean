import Formula.Proofs.Grammar.Carrying
import Formula.Proofs.Grammar.Formulas

/-! # Formulas in parentheses for names

A formula in parentheses can stand for a name wherever the name has no arguments
(`reads_substitute`): what is read then is what was read before, with the expression of the
formula in place of the name.

A pass over the formula goes the same way between the parentheses, with the brackets around it
open (`step_framed`, `Holds.comes`), and behind them the pass is where it was behind the name.  Only
arguments cannot follow there.  A derivation of the formula is found again between the parentheses
(`Holds.carries`), and makes a group of them: an atom, as the name was.
-/
namespace Formula

namespace Expr

mutual

/-- An expression with another one in place of a name. -/
def subst (name : String) (value : Expr) : Expr → Expr
  | symbol other => if other = name then value else symbol other
  | number text => number text
  | string text => string text
  | singleton other => singleton other
  | node op args => node op (substArgs name value args)
  | apply head args => apply (subst name value head) (substArgs name value args)

/-- Arguments with an expression in place of a name. -/
def substArgs (name : String) (value : Expr) : List Expr → List Expr
  | [] => []
  | e :: es => subst name value e :: substArgs name value es

end

section Subst
variable {name : String} {value : Expr}

theorem substArgs_eq_map (es : List Expr) :
    substArgs name value es = es.map (subst name value) := by
  induction es with
  | nil => rw [substArgs, List.map_nil]
  | cons e es ih => rw [substArgs, List.map_cons, ih]

theorem keepsForm_subst : KeepsForm (subst name value) where
  number _ := by rw [subst]
  string _ := by rw [subst]
  singleton _ := by rw [subst]
  node _ es := by rw [subst, substArgs_eq_map]
  apply _ es := by rw [subst, substArgs_eq_map]

theorem subst_symbol_self : subst name value (symbol name) = value := by
  rw [subst, if_pos rfl]

theorem subst_symbol_of_ne {other : String} (h : other ≠ name) :
    subst name value (symbol other) = symbol other := by
  rw [subst, if_neg h]

end Subst
end Expr

namespace Grammar

/-! ## A formula between parentheses -/

/-- The tokens of a formula, up to its end at place `length`, are found in other tokens from a place
on, with a closing parenthesis behind them. -/
structure Input.Holds (other inner : Input) (place length : Nat) : Prop where
  config : other.config = inner.config
  blank : other.blank = inner.blank
  token : ∀ i < length, other.tokens[place + i]? = inner.tokens[i]?
  ends : inner.kindAt length = some .endOfInput
  closes : other.kindAt (place + length) = some .rightParen

namespace Input.Holds
variable {other inner : Input} {place length p q : Nat} (holds : other.Holds inner place length)
include holds

theorem kindAt (lt : p < length) : other.kindAt (place + p) = inner.kindAt p := by
  unfold Input.kindAt
  rw [holds.token p lt]

/-- The formula is not cut between two square brackets. -/
theorem bracket_next (lt : p < length) {t : Token}
    (bracket : t.kind = .leftBracket ∨ t.kind = .rightBracket) :
    other.tokens[place + p + 1]? = some t ↔ inner.tokens[p + 1]? = some t := by
  rcases Nat.lt_or_eq_of_le (Nat.succ_le_of_lt lt) with lt | rfl
  · rw [Nat.add_assoc, holds.token (p + 1) lt]
  · -- The end of the formula is no bracket, and neither is a parenthesis.
    refine ⟨fun here => ?_, fun here => ?_⟩
    · have closes : other.kindAt (place + p + 1) = some .rightParen := holds.closes
      rw [Input.kindAt_of_getElem? here] at closes
      rcases bracket with same | same <;> rw [same] at closes <;> cases closes
    · have ends := holds.ends
      rw [Input.kindAt_of_getElem? here] at ends
      rcases bracket with same | same <;> rw [same] at ends <;> cases ends

theorem sight? (lt : p < length) : other.sight? (place + p) = inner.sight? p :=
  Input.sight?_elsewhere (holds.token p lt) fun _ => holds.bracket_next lt

/-- A derivation of the formula is found again. -/
theorem carries : inner.Carries other (place + ·) (place + ·) id length where
  keeps := Expr.keepsForm_id
  fold := by rw [holds.config]
  grows p _ := Nat.lt_succ_self (place + p)
  front _ _ := rfl
  back _ _ := rfl
  token lt h _ := ⟨(holds.kindAt lt).trans h, rfl⟩
  number p lt h := (holds.kindAt lt).symm.trans h
  value p lt _ := by
    unfold Input.valueAt
    rw [holds.token p lt, holds.blank]
  pair lt _ bracket := by
    have lt := Nat.lt_of_succ_lt lt
    exact pairAt_elsewhere (holds.token _ lt) fun _ same => holds.bracket_next lt (same ▸ bracket)
  name lt here isName := by
    rw [← holds.config]
    exact .name ((holds.token _ lt).trans here) isName
  call lt here isName _ := by
    refine ⟨_, (holds.token _ (Nat.lt_of_succ_lt lt)).trans here, isName, rfl, fun es => ?_⟩
    rw [List.map_id, holds.config]
    rfl
  beside _ implicit _ _ right later := .beside (holds.config.symm ▸ implicit) right later

/-- The formula in its parentheses is an atom. -/
theorem atom {e : Expr} (opens : other.kindAt p = some .leftParen) (start : place = p + 1)
    (h : Derives inner (.rule .or) 0 length e) :
    Derives other (.rule .atom) p (place + length + 1) e := by
  subst start
  exact .bracketed (.inl rfl) (.group opens (holds.carries.derives h (Nat.le_refl length))
    holds.closes)

/-- **A pass that accepts the formula goes over it between the parentheses**, to behind the closing
one. -/
theorem comes (uncapped : inner.config.maxNestingDepth = none) {o : Outlook} {v : Verdict}
    {spans : Nat} {held : Bool} {outer : List Frame}
    (accepts : inner.Comes p o (.accepted length))
    (behind : other.Comes (place + length + 1) ⟨.complete spans false false, outer⟩ v) :
    other.Comes (place + p) (o.framed (⟨.paren, spans, held⟩ :: outer)) v := by
  refine accepts.carry (place + ·) (·.framed (⟨.paren, spans, held⟩ :: outer)) (fun _ _ => True)
    (fun o halts => ?_) (fun {p o width next} lt go _ => ⟨trivial, fun later => ?_⟩) trivial
  · obtain ⟨sight, -, move⟩ := Option.map_eq_some_iff.mp halts
    obtain ⟨-, closed, complete⟩ := of_step_accepted move
    obtain ⟨spot, frames⟩ := o
    cases closed
    obtain ⟨sight', seen, isClose⟩ := Input.exists_sight holds.closes
    have closes : sight'.closes .paren = true := by simp [Sight.closes, isClose, Closer.kind]
    have step : Outlook.step other.config (place + length) sight'
        ⟨spot, ⟨.paren, spans, held⟩ :: outer⟩ = Frame.close ⟨.paren, spans, held⟩ outer :=
      step_close closes complete
    exact .on ((Input.step?_of_sight? seen _).trans (congrArg some step)) behind
  · obtain ⟨sight, seen, move⟩ := Option.map_eq_some_iff.mp go
    rw [← Nat.add_assoc] at later
    refine .on ?_ later
    rw [Input.step?_of_sight? ((holds.sight? lt).trans seen), holds.config]
    exact congrArg some (step_framed _ (.of_uncapped uncapped _) .refl (fun _ _ => id) move)

end Input.Holds

/-! ## Steps over a name and over a parenthesis -/

section Steps
variable {config : Config} {place place' width : Nat} {sight sight' : Sight} {o next : Outlook}
  {need : Need} {frames : List Frame} {spans : Nat} {pending : Bool}

/-- Two steps are over a name and over an opening parenthesis in its place. -/
def Parenthesizes (frames : List Frame) (move move' : Move) : Prop :=
  ∃ spans held, move = .on 1 ⟨.complete spans true false, frames⟩ ∧
    move' = .on 1 (Outlook.start.framed (⟨.paren, spans, held⟩ :: frames))

theorem need_parenthesized (uncapped : config.maxNestingDepth = none)
    (isName : sight.kind = .identifier) (isParen : sight'.kind = .leftParen) :
    Parenthesizes frames (need.step config place sight frames)
      (need.step config place' sight' frames) := by
  have none := Config.exceededCap?_of_uncapped uncapped
  refine ⟨need.spans, need.held, ?_, ?_⟩
  · simp [Need.step, isName, Rule.canStart, startsAtom]
  · simp [Need.step, isParen, Rule.canStart, startsAtom, Frame.enter, none, Closer.width,
      Outlook.framed, Outlook.start]

/-- **Where a name can stand a parenthesis can open.** -/
theorem step_parenthesized (uncapped : config.maxNestingDepth = none) (place' : Nat)
    (isName : sight.kind = .identifier) (isParen : sight'.kind = .leftParen)
    (h : o.step config place sight = .on width next) :
    Parenthesizes o.frames (o.step config place sight) (o.step config place' sight') := by
  have start : startsAtom sight.kind = true := by rw [isName]; rfl
  have start' : startsAtom sight'.kind = true := by rw [isParen]; rfl
  obtain ⟨spot, frames⟩ := o
  cases spot with
  | needed need =>
    rw [step_needed (by simp [Rule.canStart, start]), step_needed (by simp [Rule.canStart, start'])]
    exact need_parenthesized uncapped isName isParen
  | optional =>
    have canStart : Rule.additive.canStart sight.kind = true := by simp [Rule.canStart, start]
    have canStart' : Rule.additive.canStart sight'.kind = true := by simp [Rule.canStart, start']
    simp only [Outlook.step, canStart, canStart', if_true]
    exact need_parenthesized uncapped isName isParen
  | complete spans applicable pending =>
    simp only [Outlook.step, endOperand_atom start, endOperand_atom start'] at h ⊢
    split at h
    · cases h
    · next calm =>
      split at h
      · next beside =>
        rw [if_neg calm, if_neg calm, if_pos beside, if_pos beside]
        exact need_parenthesized uncapped isName isParen
      · cases h

/-- Where no arguments open it does not matter whether they could. -/
theorem step_unapplied (unopened : sight.kind = .leftBracket → sight.opensPair = true) :
    (⟨.complete spans true pending, frames⟩ : Outlook).step config place sight =
      (⟨.complete spans false pending, frames⟩ : Outlook).step config place sight := by
  have refusal : Outlook.refusal ⟨.complete spans true pending, frames⟩ place =
      Outlook.refusal ⟨.complete spans false pending, frames⟩ place := by
    cases frames <;> rfl
  have endExpression : Outlook.endExpression place sight ⟨.complete spans true pending, frames⟩ =
      Outlook.endExpression place sight ⟨.complete spans false pending, frames⟩ := by
    simp only [Outlook.endExpression, refusal]
  have endSum : Outlook.endSum place sight ⟨.complete spans true pending, frames⟩ spans =
      Outlook.endSum place sight ⟨.complete spans false pending, frames⟩ spans := by
    simp only [Outlook.endSum, refusal, endExpression]
  simp only [Outlook.step, Outlook.endOperand, refusal, endSum]
  split
  · rfl
  · next isLeft => rw [if_pos (unopened isLeft), if_pos (unopened isLeft)]
  · rfl

end Steps

/-! ## Formulas in place of names -/

/-- Whether a token is a name. -/
def isNamed (name : String) (t : Token) : Bool :=
  t.kind == .identifier && t.lexeme == name

/-- The tokens of an input are those of another one, with the token at place `p` at place `place p`,
but where a name stands there is a formula in parentheses. -/
structure Input.Replaces (input other inner : Input) (name : String) (place : Nat → Nat)
    (length : Nat) : Prop where
  config : other.config = input.config
  blank : other.blank = input.blank
  zero : place 0 = 0
  kept : ∀ {p t}, input.tokens[p]? = some t → isNamed name t = false →
    other.tokens[place p]? = some t ∧ place (p + 1) = place p + 1
  group : ∀ {p t}, input.tokens[p]? = some t → isNamed name t = true →
    other.kindAt (place p) = some .leftParen ∧ other.Holds inner (place p + 1) length ∧
      place (p + 1) = place p + 1 + length + 1
  beyond : ∀ {p}, input.tokens[p]? = none → other.tokens[place p]? = none

/-- No arguments open directly behind a name. -/
def Input.Unapplied (input : Input) (name : String) : Prop :=
  ∀ p t, input.tokens[p]? = some t → isNamed name t = true → ¬ input.OpensArguments (p + 1)

section Named
variable {name : String} {t : Token} {config : Config} {value : Expr}

theorem isNamed_iff : isNamed name t = true ↔ t.kind = .identifier ∧ t.lexeme = name := by
  simp [isNamed]

/-- Only an identifier is a name. -/
theorem isNamed_of_ne (h : t.kind ≠ .identifier) : isNamed name t = false := by
  simp [isNamed, h]

theorem ne_of_isNamed (isName : t.kind = .identifier) (h : isNamed name t = false) :
    t.lexeme ≠ name := by
  simpa [isNamed, isName] using h

/-- A name that is not that of a constant stands for itself. -/
theorem namedConstant_of_not_mem (free : name ∉ Expr.constantNames) :
    namedConstant config name = .symbol name := by
  simp [namedConstant, free]

theorem subst_namedConstant {other : String} (h : other ≠ name) :
    Expr.subst name value (namedConstant config other) = namedConstant config other := by
  unfold namedConstant
  split
  · rw [Expr.subst]
  · exact Expr.subst_symbol_of_ne h

theorem subst_namedApplication {other : String} (h : other ≠ name) (es : List Expr) :
    Expr.subst name value (namedApplication config other es) =
      namedApplication config other (es.map (Expr.subst name value)) := by
  unfold namedApplication Expr.build
  split
  · split
    · exact Expr.keepsForm_subst.node _ es
    · rw [Expr.keepsForm_subst.apply, Expr.subst_symbol_of_ne h]
  · rw [Expr.keepsForm_subst.apply, Expr.subst_symbol_of_ne h]

end Named

namespace Input.Replaces
variable {input other inner : Input} {name : String} {place : Nat → Nat} {length p n : Nat}
  {kind : Token.Kind} (replaces : input.Replaces other inner name place length)
include replaces

theorem kept_of_kindAt (h : input.kindAt p = some kind) (plain : kind ≠ .identifier) :
    ∃ t, input.tokens[p]? = some t ∧ t.kind = kind ∧ other.tokens[place p]? = some t ∧
      place (p + 1) = place p + 1 := by
  obtain ⟨t, here, rfl⟩ := Option.map_eq_some_iff.mp h
  exact ⟨t, here, rfl, replaces.kept here (isNamed_of_ne plain)⟩

/-- Square brackets are in the same places behind what is kept. -/
theorem bracket_next {t b : Token} (here : input.tokens[p]? = some t)
    (kept : isNamed name t = false) (bracket : b.kind = .leftBracket ∨ b.kind = .rightBracket) :
    other.tokens[place p + 1]? = some b ↔ input.tokens[p + 1]? = some b := by
  rw [← (replaces.kept here kept).2]
  refine ⟨fun found => ?_, fun found => ?_⟩
  · cases second : input.tokens[p + 1]? with
    | none =>
      rw [replaces.beyond second] at found
      cases found
    | some next =>
      cases named : isNamed name next with
      | true =>
        -- What stands there is a parenthesis.
        have opens := (replaces.group second named).1
        rw [Input.kindAt_of_getElem? found] at opens
        rcases bracket with same | same <;> rw [same] at opens <;> cases opens
      | false =>
        rw [(replaces.kept second named).1] at found
        exact found
  · have plain : b.kind ≠ .identifier := by
      rcases bracket with same | same <;> rw [same] <;> decide
    exact (replaces.kept found (isNamed_of_ne plain)).1

theorem sight? {t : Token} (here : input.tokens[p]? = some t) (kept : isNamed name t = false) :
    other.sight? (place p) = input.sight? p :=
  Input.sight?_elsewhere ((replaces.kept here kept).1.trans here.symm) fun _ =>
    replaces.bracket_next here kept

theorem grows {t : Token} (here : input.tokens[p]? = some t) : place p < place (p + 1) := by
  cases named : isNamed name t with
  | true =>
    have next := (replaces.group here named).2.2
    omega
  | false =>
    have next := (replaces.kept here named).2
    omega

/-- **A derivation is one with the expression of the formula in place of the name.** -/
theorem carries {last : Nat} {value : Expr} (inside : last ≤ input.tokens.size)
    (free : name ∉ Expr.constantNames) (unapplied : input.Unapplied name)
    (h : Derives inner (.rule .or) 0 length value) :
    input.Carries other place place (Expr.subst name value) last where
  keeps := Expr.keepsForm_subst
  fold := by rw [replaces.config]
  grows p lt := replaces.grows (Array.getElem?_eq_getElem (Nat.lt_of_lt_of_le lt inside))
  front _ _ := rfl
  back _ _ := rfl
  token _ h plain := by
    obtain ⟨t, -, rfl, here, next⟩ := replaces.kept_of_kindAt h plain
    exact ⟨Input.kindAt_of_getElem? here, next⟩
  number p lt h := by
    have here := Array.getElem?_eq_getElem (Nat.lt_of_lt_of_le lt inside)
    cases named : isNamed name input.tokens[p] with
    | true =>
      rw [(replaces.group here named).1] at h
      cases h
    | false =>
      rw [Input.kindAt_of_getElem? (replaces.kept here named).1] at h
      rwa [Input.kindAt_of_getElem? here]
  value p _ h := by
    have found {kind : Token.Kind} (h : input.kindAt p = some kind) (plain : kind ≠ .identifier) :
        other.valueAt (place p) = input.valueAt p := by
      obtain ⟨t, here, -, here', -⟩ := replaces.kept_of_kindAt h plain
      unfold Input.valueAt
      rw [here, here', replaces.blank]
    exact h.elim (found · (by decide)) (found · (by decide))
  pair {p kind} _ h bracket := by
    have plain : kind ≠ .identifier := by
      rcases bracket with same | same <;> rw [same] <;> decide
    obtain ⟨t, here, isKind, here', -⟩ := replaces.kept_of_kindAt h plain
    refine pairAt_elsewhere (here'.trans here.symm) fun _ same => ?_
    exact replaces.bracket_next here (isNamed_of_ne (isKind ▸ plain)) (same ▸ bracket)
  name {p t} _ here isName := by
    cases named : isNamed name t with
    | true =>
      obtain ⟨opens, holds, next⟩ := replaces.group here named
      rw [(isNamed_iff.mp named).2, namedConstant_of_not_mem free, Expr.subst_symbol_self, next]
      exact holds.atom opens rfl h
    | false =>
      obtain ⟨here', next⟩ := replaces.kept here named
      rw [subst_namedConstant (ne_of_isNamed isName named), next, ← replaces.config]
      exact .name here' isName
  call {p t} _ here isName opens := by
    have named : isNamed name t = false := by
      rw [← Bool.not_eq_true]
      exact fun named => unapplied p t here named opens
    obtain ⟨here', next⟩ := replaces.kept here named
    refine ⟨t, here', isName, next, fun es => ?_⟩
    rw [subst_namedApplication (ne_of_isNamed isName named), replaces.config]
  beside _ implicit _ _ right later := .beside (replaces.config.symm ▸ implicit) right later

/-- No arguments open behind the formula. -/
theorem opensPair {t : Token} (here : input.tokens[p]? = some t) (named : isNamed name t = true)
    (unapplied : input.Unapplied name) {sight : Sight}
    (seen : other.sight? (place (p + 1)) = some sight) (isLeft : sight.kind = .leftBracket) :
    sight.opensPair = true := by
  have bracket := Input.kindAt_of_sight? seen
  rw [isLeft] at bracket
  cases second : input.tokens[p + 1]? with
  | none =>
    rw [Input.kindAt, replaces.beyond second] at bracket
    cases bracket
  | some next =>
    cases named' : isNamed name next with
    | true =>
      rw [(replaces.group second named').1] at bracket
      cases bracket
    | false =>
      rw [replaces.sight? second named'] at seen
      have isBracket := Input.kindAt_of_sight? seen
      rw [isLeft] at isBracket
      rw [Input.opensPair_of_sight? seen]
      by_contra single
      exact unapplied p t here named ⟨isBracket, by simpa using single⟩

/-- A step over a token that is kept is the same. -/
theorem step?_kept {t : Token} (here : input.tokens[p]? = some t) (kept : isNamed name t = false)
    {o next : Outlook} {width : Nat} (h : input.step? p o = some (.on width next)) :
    other.step? (place p) o = some (.on width next) ∧ place (p + width) = place p + width := by
  obtain ⟨sight, seen, move⟩ := Option.map_eq_some_iff.mp h
  refine ⟨?_, ?_⟩
  · rw [Input.step?_of_sight? ((replaces.sight? here kept).trans seen), replaces.config]
    exact congrArg some (step_elsewhere (.of_cap rfl rfl) .refl (fun _ _ => id) move)
  · have first := (replaces.kept here kept).2
    rcases Input.last_of_step? seen move with rfl | ⟨rfl, second, starts⟩
    · exact first
    · -- The second bracket of a pair is kept, too.
      have plain : sight.kind ≠ .identifier := fun same => by
        rw [same] at starts
        cases starts
      obtain ⟨-, -, -, -, next⟩ := replaces.kept_of_kindAt second plain
      rw [next, first]

/-- **A pass accepts the tokens with the formulas** where it accepts those with the names. -/
theorem comes (uncapped : input.config.maxNestingDepth = none) (unapplied : input.Unapplied name)
    (accepts : inner.Comes 0 .start (.accepted length)) {o : Outlook}
    (comes : input.Comes p o (.accepted n)) : other.Comes (place p) o (.accepted (place n)) := by
  refine comes.carry place id (fun _ _ => True) (fun o halts => ?_)
    (fun {p o width next} _ go _ => ⟨trivial, fun later => ?_⟩) trivial
  · obtain ⟨sight, seen, move⟩ := Option.map_eq_some_iff.mp halts
    have here := Input.kindAt_of_sight? seen
    rw [(of_step_accepted move).1] at here
    obtain ⟨t, here, isEnd, -⟩ := replaces.kept_of_kindAt here (by decide)
    exact comes_accepted (replaces.sight? here (isNamed_of_ne (by rw [isEnd]; decide))) halts
  · obtain ⟨sight, seen, move⟩ := Option.map_eq_some_iff.mp go
    obtain ⟨t, here, isKind⟩ := Option.map_eq_some_iff.mp (Input.kindAt_of_sight? seen)
    cases named : isNamed name t with
    | false =>
      obtain ⟨step, next⟩ := replaces.step?_kept here named go
      exact .on step (next ▸ later)
    | true =>
      obtain ⟨opens, holds, next⟩ := replaces.group here named
      obtain ⟨sight', seen', isParen⟩ := Input.exists_sight opens
      have isName : sight.kind = .identifier := isKind ▸ (isNamed_iff.mp named).1
      obtain ⟨spans, held, named', opened⟩ :=
        step_parenthesized uncapped (place p) isName isParen move
      cases move.symm.trans named'
      -- Behind the formula the pass goes on as behind the name, since no arguments follow.
      have behind : other.Comes (place (p + 1)) ⟨.complete spans false false, o.frames⟩
          (.accepted (place n)) := by
        refine (comes_congr ?_).mp later
        unfold Input.step?
        cases ahead : other.sight? (place (p + 1)) with
        | none => rfl
        | some sight =>
          exact congrArg some (step_unapplied (replaces.opensPair here named unapplied ahead))
      rw [next] at behind
      have step : other.step? (place p) o =
          some (.on 1 (Outlook.start.framed (⟨.paren, spans, held⟩ :: o.frames))) := by
        rw [Input.step?_of_sight? seen', replaces.config, opened]
      exact .on step (holds.comes (holds.config ▸ replaces.config ▸ uncapped) accepts behind)

/-- **A formula stands for a name**, also where values are missing. -/
theorem reads (uncapped : input.config.maxNestingDepth = none) (free : name ∉ Expr.constantNames)
    (unapplied : input.Unapplied name) {e value : Expr}
    (derives : Derives inner (.rule .or) 0 length value)
    (accepts : inner.Comes 0 .start (.accepted length)) (h : input.Reads e) :
    other.Reads (Expr.subst name value e) := by
  obtain ⟨n, ends, derived, comes⟩ := reads_iff.mp h
  obtain ⟨t, -, isEnd, here, -⟩ := replaces.kept_of_kindAt ends (by decide)
  have carries := replaces.carries (Nat.le_of_lt (Input.kindAt_lt ends)) free unapplied derives
  have derived' := carries.derives derived (Nat.le_refl n)
  have comes' := replaces.comes uncapped unapplied accepts comes
  rw [replaces.zero] at derived' comes'
  exact reads_iff.mpr
    ⟨place n, (Input.kindAt_of_getElem? here).trans (congrArg some isEnd), derived', comes'⟩

end Input.Replaces

/-! ## Lists of tokens -/

/-- The tokens in front of the end of the input. -/
def beforeEnd (ts : List Token) : List Token :=
  ts.takeWhile fun t => t.kind != .endOfInput

/-- A formula in parentheses. -/
def grouped (opening closing : Token) (formula : List Token) : List Token :=
  opening :: (beforeEnd formula ++ [closing])

/-- Some tokens with others in place of a name. -/
def substitute (name : String) (value ts : List Token) : List Token :=
  ts.flatMap fun t => if isNamed name t then value else [t]

section Lists
variable {name : String} {opening closing t : Token} {ts formula us : List Token} {p n : Nat}
  {config : Config} {blank : String}

/-- In front of the first end there are as many tokens as its place says. -/
theorem beforeEnd_eq_take
    (ends : Input.EndsAt { tokens := ts.toArray, config, blank } n) : beforeEnd ts = ts.take n := by
  induction ts generalizing n with
  | nil =>
    have here := ends.1
    simp [Input.kindAt] at here
  | cons t ts ih =>
    have here := ends.1
    cases n with
    | zero =>
      have isEnd : t.kind = .endOfInput := by simpa [Input.kindAt] using here
      simp [beforeEnd, isEnd]
    | succ n =>
      have other : t.kind ≠ .endOfInput := by
        simpa [Input.kindAt] using ends.2 0 (Nat.succ_pos n)
      have later : beforeEnd ts = ts.take n :=
        ih ⟨by simpa [Input.kindAt] using here, fun i lt => by
          simpa [Input.kindAt] using ends.2 (i + 1) (Nat.succ_lt_succ lt)⟩
      rw [List.take_succ_cons, ← later]
      simp [beforeEnd, other]

/-- Where the token at a place is when others stand for a name. -/
def substitutedPlace (name : String) (value ts : List Token) (p : Nat) : Nat :=
  (substitute name value (ts.take p)).length

/-- What stands for a token is found from its place on, and what stands for the next one directly
behind. -/
theorem substitute_found {value block : List Token} (h : ts[p]? = some t)
    (stands : (if isNamed name t then value else [t]) = block) :
    (∀ i < block.length,
      (substitute name value ts)[substitutedPlace name value ts p + i]? = block[i]?) ∧
      substitutedPlace name value ts (p + 1) = substitutedPlace name value ts p + block.length := by
  obtain ⟨lt, rfl⟩ := List.getElem?_eq_some_iff.mp h
  have cut : substitute name value ts = substitute name value (ts.take p) ++
      (block ++ substitute name value (ts.drop (p + 1))) := by
    conv_lhs => rw [← List.take_append_drop p ts, List.drop_eq_getElem_cons lt]
    unfold substitute
    rw [List.flatMap_append, List.flatMap_cons, stands]
  have next : substitute name value (ts.take (p + 1)) =
      substitute name value (ts.take p) ++ block := by
    unfold substitute
    rw [List.take_succ_eq_append_getElem lt, List.flatMap_append, List.flatMap_singleton, stands]
  refine ⟨fun i inside => ?_, ?_⟩
  · rw [cut, substitutedPlace, List.getElem?_append_right (Nat.le_add_right _ _),
      Nat.add_sub_cancel_left, List.getElem?_append_left inside]
  · rw [substitutedPlace, next, List.length_append, substitutedPlace]

/-- **The tokens are found again in the list with the formulas.** -/
theorem replaces_substitute (name : String) (ts : List Token)
    (isOpening : opening.kind = .leftParen) (isClosing : closing.kind = .rightParen)
    (ends : Input.EndsAt { tokens := formula.toArray, config, blank } n) :
    Input.Replaces { tokens := ts.toArray, config, blank }
      { tokens := (substitute name (grouped opening closing formula) ts).toArray, config, blank }
      { tokens := formula.toArray, config, blank }
      name (substitutedPlace name (grouped opening closing formula) ts) n where
  config := rfl
  blank := rfl
  zero := rfl
  kept {p t} h kept := by
    simp only [List.getElem?_toArray] at h ⊢
    obtain ⟨found, next⟩ := substitute_found h (if_neg (Bool.not_eq_true _ ▸ kept))
    exact ⟨found 0 Nat.one_pos, next⟩
  group {p t} h named := by
    simp only [List.getElem?_toArray] at h
    obtain ⟨found, next⟩ := substitute_found h (if_pos named)
    have inside : n < formula.length := by simpa using Input.kindAt_lt ends.1
    have length : (beforeEnd formula).length = n := by
      rw [beforeEnd_eq_take ends, List.length_take, Nat.min_eq_left (Nat.le_of_lt inside)]
    have width : (grouped opening closing formula).length = n + 2 := by
      rw [grouped, List.length_cons, List.length_append, length, List.length_singleton]
    rw [width] at found next
    have closes := found (n + 1) (Nat.lt_succ_self _)
    refine ⟨(kindAt_toArray (found 0 (Nat.succ_pos _))).trans (congrArg some isOpening), ?_, ?_⟩
    · refine ⟨rfl, rfl, fun i lt => ?_, ends.1, ?_⟩
      · have token := found (i + 1) (by omega)
        rw [Nat.add_assoc, Nat.add_comm 1 i, List.getElem?_toArray, List.getElem?_toArray, token,
          grouped, List.getElem?_cons_succ, List.getElem?_append_left (by omega),
          beforeEnd_eq_take ends, List.getElem?_take_of_lt lt]
      · have last : (grouped opening closing formula)[n + 1]? = some closing := by
          rw [grouped, List.getElem?_cons_succ, List.getElem?_append_right (by omega), length,
            Nat.sub_self]
          rfl
        rw [Nat.add_assoc, Nat.add_comm 1 n]
        exact (kindAt_toArray (closes.trans last)).trans (congrArg some isClosing)
    · omega
  beyond {p} h := by
    simp only [List.getElem?_toArray] at h ⊢
    rw [substitutedPlace, List.take_of_length_le (List.getElem?_eq_none_iff.mp h)]
    exact List.getElem?_eq_none (Nat.le_refl _)

/-- A formula in parentheses stands for a name in a list of tokens. -/
theorem reads_substitute {value e : Expr} (uncapped : config.maxNestingDepth = none)
    (isOpening : opening.kind = .leftParen) (isClosing : closing.kind = .rightParen)
    (free : name ∉ Expr.constantNames)
    (unapplied : Input.Unapplied { tokens := ts.toArray, config, blank } name)
    (alike : Token.Alike (substitute name (grouped opening closing formula) ts) us)
    (read : Input.Reads { tokens := formula.toArray, config, blank } value)
    (h : Input.Reads { tokens := ts.toArray, config, blank } e) :
    Input.Reads { tokens := us.toArray, config, blank } (Expr.subst name value e) := by
  obtain ⟨n, ends, derives, accepts⟩ := reads_iff.mp read
  have first : Input.EndsAt { tokens := formula.toArray, config, blank } n :=
    ⟨ends, fun i lt => derives.endless i (Nat.zero_le i) lt⟩
  have replaces := replaces_substitute name ts isOpening isClosing first
  exact reads_of_alike alike (replaces.reads uncapped free unapplied derives accepts h)

/-- Without square brackets there are no arguments. -/
theorem unapplied_of_plain (plain : ∀ t ∈ ts, t.kind ≠ .leftBracket) :
    Input.Unapplied { tokens := ts.toArray, config, blank } name := by
  rintro p t - - ⟨isLeft, -⟩
  obtain ⟨b, here, kind⟩ := Option.map_eq_some_iff.mp isLeft
  rw [List.getElem?_toArray] at here
  exact plain b (List.mem_of_getElem? here) kind

/-- A name is the last operand of a formula. -/
theorem last_name {input : Input} {need : Need} (here : input.tokens[p]? = some t)
    (isName : t.kind = .identifier) (free : t.lexeme ∉ Expr.constantNames)
    (ends : input.kindAt (p + 1) = some .endOfInput) :
    Derives input (.rule .power) p (p + 1) (.symbol t.lexeme) ∧
      input.Comes p ⟨.needed need, []⟩ (.accepted (p + 1)) := by
  have same : namedConstant input.config t.lexeme = .symbol t.lexeme :=
    namedConstant_of_not_mem free
  refine ⟨.power_of_atom (same ▸ .name here isName), ?_⟩
  obtain ⟨sight, seen, kind⟩ := Input.exists_sight (Input.kindAt_of_getElem? here)
  obtain ⟨sight', seen', isEnd⟩ := Input.exists_sight ends
  rw [isName] at kind
  have step : Outlook.step input.config p sight ⟨.needed need, []⟩ =
      .on 1 ⟨.complete need.spans true false, []⟩ := by
    simp [Outlook.step, Need.step, kind, Rule.canStart, startsAtom]
  refine .on ((Input.step?_of_sight? seen _).trans (congrArg some step)) (.halt ?_)
  exact (Input.step?_of_sight? seen' _).trans (congrArg some (step_end isEnd (.inr ⟨_, _, rfl⟩)))

/-- A name is a formula. -/
theorem reads_name {last : Token} (isName : t.kind = .identifier)
    (free : t.lexeme ∉ Expr.constantNames) (isEnd : last.kind = .endOfInput) :
    Input.Reads { tokens := [t, last].toArray, config, blank } (.symbol t.lexeme) := by
  have ends : Input.kindAt { tokens := [t, last].toArray, config, blank } 1 = some .endOfInput :=
    (kindAt_toArray rfl).trans (congrArg some isEnd)
  obtain ⟨derives, comes⟩ := last_name (p := 0) rfl isName free ends
  exact reads_iff.mpr ⟨1, ends, .or_of_unary derives.unary_of_power, comes⟩

/-- A name with a minus sign in front is a formula. -/
theorem reads_minus_name {sign last : Token} (isMinus : sign.kind = .minus)
    (isName : t.kind = .identifier) (free : t.lexeme ∉ Expr.constantNames)
    (isEnd : last.kind = .endOfInput) :
    Input.Reads { tokens := [sign, t, last].toArray, config, blank }
      (minus (.symbol t.lexeme)) := by
  set input : Input := { tokens := [sign, t, last].toArray, config, blank }
  have first : input.kindAt 0 = some .minus := (kindAt_toArray rfl).trans (congrArg some isMinus)
  have second : input.kindAt 1 = some .identifier :=
    (kindAt_toArray rfl).trans (congrArg some isName)
  have ends : input.kindAt 2 = some .endOfInput := (kindAt_toArray rfl).trans (congrArg some isEnd)
  obtain ⟨derives, comes⟩ := last_name (p := 1) rfl isName free ends
  have signs : input.SignsAt .minus 0 1 := by
    intro i lt
    obtain rfl : i = 0 := by omega
    exact first
  -- The sign stays in front, since no number follows it.
  have prefixed : input.prefixed 1 1 2 (.symbol t.lexeme) = minus (.symbol t.lexeme) := by
    simp [Input.prefixed, second, Nat.repeat]
  have derives : Derives input (.rule .unary) 0 2 (minus (.symbol t.lexeme)) :=
    prefixed ▸ .unary signs derives
  refine reads_iff.mpr ⟨2, ends, .or_of_unary derives, ?_⟩
  obtain ⟨sight, seen, kind⟩ := Input.exists_sight first
  have step : Outlook.step input.config 0 sight .start =
      .on 1 ⟨.needed { rule := .unary, signed := true }, []⟩ := by
    simp [Outlook.start, Outlook.step, Need.step, kind, Rule.canStart, startsAtom, Rule.index]
  exact .on ((Input.step?_of_sight? seen _).trans (congrArg some step)) comes

/-- **A formula in parentheses can stand for a name.**  Let there be no cap on open brackets, and
let some tokens be a formula.  In any other formula they may stand, in parentheses, in place of a
name, if the name is not that of a constant and no arguments open directly behind it: what is read
then is what was read before, with the expression of the tokens in place of the name.  So
parentheses add nothing to what is in them, and a minus sign in front of them does not become part
of a number in them.  Numbers and strings need not carry texts. -/
theorem reads_in_parentheses (uncapped : config.maxNestingDepth = none)
    (isOpening : opening.kind = .leftParen) (isClosing : closing.kind = .rightParen)
    {value : Expr} (read : Input.Reads { tokens := formula.toArray, config, blank } value) :
    let input (tokens : List Token) : Input := { tokens := tokens.toArray, config, blank }
    (∀ name ts us e, name ∉ Expr.constantNames → (input ts).Unapplied name →
      Token.Alike (substitute name (grouped opening closing formula) ts) us →
        (input ts).Reads e → (input us).Reads (Expr.subst name value e)) ∧
    (∀ last us, last.kind = .endOfInput →
      Token.Alike (grouped opening closing formula ++ [last]) us → (input us).Reads value) ∧
    ∀ sign last us, sign.kind = .minus → last.kind = .endOfInput →
      Token.Alike (sign :: grouped opening closing formula ++ [last]) us →
        (input us).Reads (minus value) := by
  intro input
  have free : "x" ∉ Expr.constantNames := by decide
  refine ⟨fun name ts us e free unapplied alike h => ?_, fun last us isEnd alike => ?_,
    fun sign last us isMinus isEnd alike => ?_⟩
  · exact reads_substitute uncapped isOpening isClosing free unapplied alike read h
  -- The parentheses stand for a name that is a formula, or one behind a sign.
  · let t : Token := ⟨.identifier, "x", none, last.location⟩
    have kept : isNamed "x" last = false := isNamed_of_ne (by rw [isEnd]; decide)
    have same : substitute "x" (grouped opening closing formula) [t, last] =
        grouped opening closing formula ++ [last] := by
      simp [substitute, kept, show isNamed "x" t = true from rfl]
    have unapplied : (input [t, last]).Unapplied "x" := unapplied_of_plain (by simp [t, isEnd])
    have named : (input [t, last]).Reads (.symbol "x") := reads_name rfl free isEnd
    have stands := reads_substitute uncapped isOpening isClosing free unapplied
      (same ▸ alike) read named
    rwa [Expr.subst_symbol_self] at stands
  · let t : Token := ⟨.identifier, "x", none, last.location⟩
    have kept : isNamed "x" last = false := isNamed_of_ne (by rw [isEnd]; decide)
    have keptSign : isNamed "x" sign = false := isNamed_of_ne (by rw [isMinus]; decide)
    have same : substitute "x" (grouped opening closing formula) [sign, t, last] =
        sign :: grouped opening closing formula ++ [last] := by
      simp [substitute, kept, keptSign, show isNamed "x" t = true from rfl]
    have unapplied : (input [sign, t, last]).Unapplied "x" :=
      unapplied_of_plain (by simp [t, isEnd, isMinus])
    have named : (input [sign, t, last]).Reads (minus (.symbol "x")) :=
      reads_minus_name isMinus rfl free isEnd
    have stands := reads_substitute uncapped isOpening isClosing free unapplied
      (same ▸ alike) read named
    have signed : Expr.subst "x" value (minus (.symbol "x")) = minus value := by
      simp [minus, Expr.subst, Expr.substArgs]
    rwa [signed] at stands

/-- A number in parentheses stands for a name behind a minus sign. -/
theorem reads_in_parentheses_number :
    let token (kind : Token.Kind) (lexeme : String) (offset : Int) : Token :=
      ⟨kind, lexeme, some lexeme, ⟨"", 1, offset + 1, offset⟩⟩
    let input (tokens : List Token) : Input :=
      { tokens := tokens.toArray, config := { memoize := false } }
    let formula := [token .number "2" 0, token .endOfInput "" 1]
    let ts := [token .minus "-" 0, token .identifier "x" 1, token .endOfInput "" 2]
    let us := [token .minus "-" 0, token .leftParen "(" 1, token .number "2" 2,
      token .rightParen ")" 3, token .endOfInput "" 4]
    (input formula).Reads (.number "2") ∧ (input ts).Unapplied "x" ∧
      (input ts).Reads (.node .times [.number "-1", .symbol "x"]) ∧
      (input us).Reads (.node .times [.number "-1", .number "2"]) := by
  intro token input formula ts us
  have read : (input formula).Reads (.number "2") := ⟨_, rfl⟩
  have named : (input ts).Reads (.node .times [.number "-1", .symbol "x"]) := ⟨_, rfl⟩
  have unapplied : (input ts).Unapplied "x" := unapplied_of_plain (by decide)
  have alike : Token.Alike
      (substitute "x" (grouped (token .leftParen "(" 1) (token .rightParen ")" 3) formula) ts) us :=
    alike_of_plain rfl (by decide)
  have stands := (reads_in_parentheses rfl rfl rfl read).1 "x" ts us _ (by decide) unapplied alike
    named
  refine ⟨read, unapplied, named, ?_⟩
  simpa [Expr.subst, Expr.substArgs] using stands

end Lists
end Grammar
end Formula
