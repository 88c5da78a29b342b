import Formula.Proofs.Grammar.Relocation

/-! # Which tokens are a formula

Some tokens are parsed as an expression just if the grammar derives the expression up to an end of
the input, and one pass over the tokens comes to accept them there (`reads_iff`).  Numbers and
strings need not carry texts: the grammar derives no two expressions even then, and it is the pass
that stops at a number that would have to take a sign in.

So whatever carries over derivations and passes from some tokens to others carries over what the
tokens are parsed as.
-/
namespace Formula
namespace Grammar

/-- The tokens are parsed as an expression. -/
def Input.Reads (input : Input) (e : Expr) : Prop :=
  ∃ s, parse input .start = .ok e s

/-! ## Missing texts -/

/-- The same tokens with the text for missing values where one is missing. -/
def Input.filled (input : Input) : Input :=
  { input with
    tokens := input.tokens.map fun t => { t with value := some (t.value.getD input.blank) } }

section Filled
variable {input : Input} {place n : Nat} {e e' : Expr}

theorem Input.getElem?_filled : input.filled.tokens[place]? =
    input.tokens[place]?.map fun t => { t with value := some (t.value.getD input.blank) } := by
  simp [Input.filled]

theorem Input.valued_filled : input.filled.Valued := by
  intro t member _
  obtain ⟨place, ht⟩ := Array.getElem?_of_mem member
  rw [Input.getElem?_filled] at ht
  obtain ⟨t', -, rfl⟩ := Option.map_eq_some_iff.mp ht
  exact Option.some_ne_none _

theorem Input.agrees_filled (stop : Nat) : input.Agrees input.filled stop where
  implicitMultiplication := rfl
  foldNegativeLiterals := rfl
  resolveBuiltins := rfl
  kindAt place _ := by
    unfold Input.kindAt
    rw [Input.getElem?_filled, Option.map_map]
    rfl
  lexeme place _ := by
    rw [Input.getElem?_filled, Option.map_map]
    rfl
  valueAt place _ _ := by
    unfold Input.valueAt
    rw [Input.getElem?_filled]
    cases h : input.tokens[place]? <;> rfl
  pairAt place _ kind _ := by
    unfold Grammar.pairAt
    rw [Input.getElem?_filled, Input.getElem?_filled]
    cases input.tokens[place]? <;> cases input.tokens[place + 1]? <;> rfl

/-- **The grammar derives no two expressions**, also where values are missing. -/
theorem Derives.expr_unique (ends : input.kindAt n = some .endOfInput)
    (h : Derives input (.rule .or) 0 n e) (h' : Derives input (.rule .or) 0 n e') : e = e' := by
  have agrees := input.agrees_filled (n + 1)
  exact Derives.unique Input.valued_filled (agrees.kind_eq (Nat.lt_succ_self n) ends)
    (agrees.derives h (Nat.le_succ n)) (agrees.derives h' (Nat.le_succ n))

end Filled

/-! ## Accepted passes -/

section Accepted
variable {input : Input} {place n : Nat} {sight : Sight} {config : Config} {o : Outlook}

theorem refusal_ne_accepted : o.refusal place ≠ .accepted n := by
  unfold Outlook.refusal
  split
  · exact nofun
  · split <;> exact nofun

/-- A pass accepts a formula where one is complete outside all brackets and the input ends. -/
theorem of_step_accepted (h : o.step config place sight = .halt (.accepted n)) :
    sight.kind = .endOfInput ∧ o.frames = [] ∧ o.spot.Completed := by
  have moves := @moves_step config place sight o
  rw [h] at moves
  generalize same : Move.halt (.accepted n) = move at moves
  cases moves with
  | refuse => exact absurd (Move.halt.inj same).symm refusal_ne_accepted
  | pending | close | take => cases same
  | enter =>
    unfold Frame.enter at same
    split at same <;> cases same
  | accept isEnd closed =>
    obtain ⟨spot, frames⟩ := o
    cases closed
    refine ⟨isEnd, rfl, ?_⟩
    cases spot with
    | needed need =>
      rw [step_needed_refusal (by simp [isEnd, Rule.canStart, startsAtom]) (by simp)] at h
      exact absurd (Move.halt.inj h) refusal_ne_accepted
    | optional => exact .inl rfl
    | complete spans applicable pending =>
      cases pending with
      | false => exact .inr ⟨_, _, rfl⟩
      | true => simp [Outlook.step, Outlook.endOperand, isEnd] at h

end Accepted

/-! ## Tokens and steps at other places -/

section Sights
variable {input other : Input} {p q : Nat} {kind : Token.Kind}

/-- Two brackets have no gap between them if they have none at another place. -/
theorem pairAt_elsewhere (here : other.tokens[q]? = input.tokens[p]?)
    (next : ∀ t : Token, t.kind = kind →
      (other.tokens[q + 1]? = some t ↔ input.tokens[p + 1]? = some t)) :
    pairAt other q kind = pairAt input p kind := by
  rw [Bool.eq_iff_iff, pairAt_iff, pairAt_iff, here]
  refine exists_congr fun _ => exists_congr fun b => and_congr_right fun _ => ?_
  exact ⟨fun ⟨hb, kinds⟩ => ⟨(next b kinds.2.1).mp hb, kinds⟩,
    fun ⟨hb, kinds⟩ => ⟨(next b kinds.2.1).mpr hb, kinds⟩⟩

/-- Of a token the same is seen at another place if the same square bracket follows it, or none. -/
theorem Input.sight?_elsewhere (here : other.tokens[q]? = input.tokens[p]?)
    (next : ∀ t : Token, t.kind = .leftBracket ∨ t.kind = .rightBracket →
      (other.tokens[q + 1]? = some t ↔ input.tokens[p + 1]? = some t)) :
    other.sight? q = input.sight? p := by
  unfold Input.sight?
  rw [here, pairAt_elsewhere here fun t same => next t (.inl same),
    pairAt_elsewhere here fun t same => next t (.inr same)]

end Sights

section Steps
variable {config config' : Config} {place place' width spans : Nat} {sight : Sight}
  {o next : Outlook} {applicable pending : Bool}

/-- Behind an operand an atom is a factor, or the pass stops. -/
theorem endOperand_atom (atom : startsAtom sight.kind = true) :
    o.endOperand config place sight spans applicable pending =
      if pending then .halt .valueless
      else if config.implicitMultiplication then
        Need.step config place sight { rule := .power, spans } o.frames
      else .halt (o.refusal place) := by
  unfold Outlook.endOperand
  cases kind : sight.kind <;> rw [kind] at atom <;> first | rfl | cases atom

/-- A formula is accepted wherever it ends, in all dialects. -/
theorem step_accepted_elsewhere {n : Nat} (h : o.step config place sight = .halt (.accepted n)) :
    o.step config' place' sight = .halt (.accepted place') := by
  obtain ⟨isEnd, closed, complete⟩ := of_step_accepted h
  obtain ⟨spot, frames⟩ := o
  cases closed
  exact step_end isEnd complete

/-- A step is over one token, or over two brackets of one kind. -/
theorem Input.last_of_step? {input : Input} (seen : input.sight? place = some sight)
    (h : o.step input.config place sight = .on width next) :
    width = 1 ∨ width = 2 ∧ input.kindAt (place + 1) = some sight.kind ∧
      startsAtom sight.kind = false := by
  have proper : (Move.on width next).Proper place sight := h ▸ step_proper
  refine proper.2.imp_right fun ⟨two, pair⟩ => ⟨two, ?_⟩
  rw [Input.opensPair_of_sight? seen, Input.closesPair_of_sight? seen] at pair
  have here := Input.kindAt_of_sight? seen
  rcases pair with pair | pair <;>
  · obtain ⟨first, second⟩ := Input.kindAt_of_pairAt pair
    rw [here] at first
    rw [second, ← Option.some.inj first]
    exact ⟨first.symm ▸ rfl, by rw [Option.some.inj first]; rfl⟩

end Steps

section Carry
variable {input other : Input} {p q n : Nat} {o : Outlook} {w : Verdict}

/-- **A pass that accepts is carried over** to other tokens, and to other outlooks, if each of its
steps is.  What the steps need to know may be an invariant of the pass. -/
theorem Input.Comes.carry (place : Nat → Nat) (f : Outlook → Outlook)
    (inv : Nat → Outlook → Prop)
    (last : ∀ o, input.step? n o = some (.halt (.accepted n)) → other.Comes (place n) (f o) w)
    (step : ∀ {p o width next}, p < n → input.step? p o = some (.on width next) → inv p o →
      inv (p + width) next ∧
        (other.Comes (place (p + width)) (f next) w → other.Comes (place p) (f o) w))
    (comes : input.Comes p o (.accepted n)) (holds : inv p o) : other.Comes (place p) (f o) w := by
  generalize same : Verdict.accepted n = v at comes
  induction comes with
  | halt halts =>
    subst same
    obtain rfl := place_of_step? halts rfl
    exact last _ halts
  | @on p width o next v go rest ih =>
    subst same
    have lt : p < n :=
      Nat.lt_of_lt_of_le (Nat.lt_add_of_pos_right (width_pos_of_step? go)) (rest.le_place rfl)
    obtain ⟨later, back⟩ := step lt go holds
    exact back (ih later rfl)

/-- A formula is accepted where the same end of it is seen. -/
theorem comes_accepted (seen : other.sight? q = input.sight? n)
    (h : input.step? n o = some (.halt (.accepted n))) : other.Comes q o (.accepted q) := by
  obtain ⟨sight, here, move⟩ := Option.map_eq_some_iff.mp h
  exact .halt (by rw [Input.step?_of_sight? (seen.trans here), step_accepted_elsewhere move])

end Carry

/-! ## What is parsed -/

section Reads
variable {input other : Input} {e e' : Expr}

/-- **Tokens are parsed as what the grammar derives, if a pass accepts them.** -/
theorem reads_iff : input.Reads e ↔ ∃ n, input.kindAt n = some .endOfInput ∧
    Derives input (.rule .or) 0 n e ∧ input.Comes 0 .start (.accepted n) := by
  constructor
  · rintro ⟨s, h⟩
    obtain ⟨derives, ends⟩ := derives_of_parse h
    obtain ⟨v, comes⟩ := exists_comes (o := .start) ⟨_, Nat.zero_le _, ends⟩
    obtain rfl := accepted_of_parse ⟨_, Nat.zero_le _, ends⟩ comes h
    exact ⟨_, ends, derives, comes⟩
  · rintro ⟨n, ends, derives, comes⟩
    have heeds := parse_heeds ⟨n, Nat.zero_le n, ends⟩ comes
    unfold Heeds at heeds
    cases done : parse input .start with
    | error abort s =>
      rw [done] at heeds
      cases heeds
    | ok e' s =>
      rw [done] at heeds
      cases heeds
      obtain rfl := derives.expr_unique ends (derives_of_parse done).1
      exact ⟨s, done⟩

/-- Alike tokens are parsed as the same expressions. -/
theorem Input.Alike.reads (alike : input.Alike other) (h : input.Reads e) : other.Reads e := by
  obtain ⟨n, ends, derives, comes⟩ := reads_iff.mp h
  exact reads_iff.mpr ⟨n, by rw [alike.kindAt, ends], alike.derives derives, alike.comes comes⟩

/-- The kind of a token in a list. -/
theorem kindAt_toArray {ts : List Token} {config : Config} {blank : String} {p : Nat} {t : Token}
    (h : ts[p]? = some t) :
    Input.kindAt { tokens := ts.toArray, config, blank } p = some t.kind :=
  Input.kindAt_of_getElem? (List.getElem?_toArray.trans h)

/-- Where tokens stand does not matter without square brackets. -/
theorem alike_of_plain {ts ts' : List Token}
    (content : ts'.map Token.content = ts.map Token.content)
    (plain : ∀ t ∈ ts, ¬ (t.kind = .leftBracket ∨ t.kind = .rightBracket)) :
    Token.Alike ts ts' :=
  ⟨content, fun ha _ _ _ _ bracket => absurd bracket (plain _ (List.mem_of_getElem? ha))⟩

/-- Lists of tokens that are the same up to where they stand are parsed as the same. -/
theorem reads_of_alike {ts ts' : List Token} {config : Config} {blank : String}
    (alike : Token.Alike ts ts')
    (h : Input.Reads { tokens := ts.toArray, config, blank } e) :
    Input.Reads { tokens := ts'.toArray, config, blank } e := by
  have same : (Input.ofTokens ts config).Alike (.ofTokens ts' config) := alike_ofTokens alike
  have alike : Input.Alike { tokens := ts.toArray, config, blank }
      { tokens := ts'.toArray, config, blank } := ⟨rfl, rfl, same.content, same.pair⟩
  exact alike.reads h

end Reads
end Grammar
end Formula
