import Formula.Proofs.Grammar.Completeness
import Formula.Proofs.Grammar.Foresight

/-! # The levels of precedence, as foreseen

The rules of the module `Formula.Grammar.Levels`.  A level takes the sign of an operator
where the pass does.  Where the operand behind the sign is missing the parser goes back to
before the sign, and the verdict is known.
-/
namespace Formula
namespace Grammar

/-- How the loop of a level ends. -/
def Onward (input : Input) (v : Verdict) (level : Rule) (spans : Nat) (frames : List Frame)
    (start : Nat) (s : State) : Prop :=
  start ≤ s.current ∧
    ∃ spot, Spot.Fits level spans false spot ∧ Landed input v level spot frames s

section Levels
variable {input : Input} {v : Verdict} {call : Rule → ParseM (Option Expr)}
  {place number spans : Nat} {s t : State} {level next : Rule} {kind : Token.Kind}
  {op : Operator} {need : Need} {frames : List Frame} {spot : Spot}

theorem Onward.of_le {start : Nat} (onward : Onward input v level spans frames start s)
    (le : place ≤ start) : Onward input v level spans frames place s :=
  ⟨Nat.le_trans le onward.1, onward.2⟩

/-- A loop may end where it starts. -/
theorem Landed.onward (landed : Landed input v level spot frames s)
    (fits : spot.Fits level spans false) : Onward input v level spans frames s.current s :=
  ⟨Nat.le_refl _, spot, fits, landed⟩

/-- Behind an operand the pass is where it may be behind the level. -/
theorem Spot.Fits.of_operand? (fits : spot.Fits next spans false)
    (hnext : level.operand? = some next) : spot.Fits level spans false := by
  cases level <;> cases hnext <;> exact fits

theorem Spot.Fits.of_operand (fits : spot.Fits next (Need.operand next spans).spans false)
    (hnext : level.operand? = some next) : spot.Fits level spans false := by
  cases level <;> cases hnext <;> exact fits

/-- Without a pending number only the brackets may be held. -/
theorem Spot.Fits.held (fits : spot.Fits level spans false) :
    Outlook.held ⟨spot, frames⟩ = frames.any Frame.held := by
  unfold Spot.Fits at fits
  split at fits
  · rcases fits with rfl | ⟨n, rfl⟩ <;> simp [Outlook.held, Spot.held]
  · subst fits
    simp [Outlook.held, Spot.held]

theorem Spot.Fits.completed (fits : spot.Fits level spans false) : spot.Completed := by
  unfold Spot.Fits at fits
  split at fits
  · exact fits.imp_right fun ⟨n, same⟩ => ⟨n, false, same⟩
  · exact .inr ⟨spans, false, fits⟩

/-! ## Levels that group to the left -/

theorem takeSign_foreseen {left : Expr} {more : Expr → ParseM Expr}
    (calls : ForeseenCalls input v call place number) (le : place ≤ s.current)
    (hnext : level.operand? = some next) (hop : level.operator? kind = some op)
    (here : input.kindAt s.current = some kind) (landed : Landed input v next spot frames s)
    (fits : spot.Fits level spans false)
    (ih : ∀ right spot t, s.current < t.current → spot.Fits level spans false →
      Landed input v next spot frames t →
      Heeds input v (more (.node op [left, right])) t
        fun _ u => Onward input v level spans frames t.current u) :
    Heeds input v (takeSign input call next op left more) s
      fun _ u => Onward input v level spans frames s.current u := by
  obtain ⟨sight, seen, rfl⟩ := Input.exists_sight here
  obtain ⟨meets, comes⟩ :=
    landed.of_followsAt (Input.followsAt_of_canFollow here (canFollow_of_operator? hnext hop))
  have opener := (Rule.opener?_of_operand? hnext).2
  have comes := (comes_on (by rw [Input.step?_of_sight? seen, step_sign hnext hop fits])).mp comes
  unfold takeSign
  refine .current (.advance meets.ends here (Rule.ne_endOfInput_of_operator? hop)
    fun _ _ ends => ?_)
  have poised : Poised input v next (.operand next spans) frames (s.moveTo (s.current + 1)) :=
    meets.poised (Nat.lt_succ_self _) ends rfl opener (Nat.le_refl _) (fun loose => if_pos loose)
      (fun _ => rfl) (fun _ => rfl) rfl fun _ => comes
  refine (calls next _ frames _ poised (.inl (Nat.lt_succ_of_le le))).bind ?_
  rintro (_ | right) t ⟨ended, -⟩
  · have missed := (ended_none (by rintro rfl; cases opener)).mp ended
    obtain ⟨failed, blamed⟩ := missed.blamed poised.meets comes (fun _ _ h => h) nofun
    refine .rewind (.pure ⟨Nat.le_refl _, spot, fits, ?_⟩)
    exact .stuck meets.ends (missed.1.trans meets.depth) failed
      (Input.not_followsAt_of_operator? hop here) (fits.held ▸ blamed)
  · have lt : s.current < t.current := Nat.lt_of_succ_lt ended.lt
    obtain ⟨spot', fits', landed'⟩ := ended.landed
    refine (ih right spot' t lt (fits'.of_operand hnext) landed').mono ?_
    exact fun _ u onward => onward.of_le (Nat.le_of_lt lt)

theorem foldMore_foreseen (calls : ForeseenCalls input v call place number)
    (hnext : level.operand? = some next) (loose : level.index < Rule.multiplicative.index)
    (bound : Nat) (left : Expr) (le : place ≤ s.current)
    (enough : input.tokens.size < s.current + bound)
    (landed : Landed input v next spot frames s) (fits : spot.Fits level spans false) :
    Heeds input v (foldMore input call level next bound left) s
      fun _ u => Onward input v level spans frames s.current u := by
  induction bound generalizing s left spot with
  | zero =>
    have := landed.ends.lt
    omega
  | succ bound ih =>
    unfold foldMore
    refine .peek landed.ends fun first hfirst => ?_
    have here := Input.kindAt_of_getElem? hfirst
    cases hop : level.operator? first.kind with
    | none =>
      refine .pure (Landed.onward ?_ fits)
      have product : level ≠ .multiplicative := by rintro rfl; exact Nat.lt_irrefl _ loose
      have tight : next.index < Rule.atom.index := by
        cases level <;> cases hnext <;> first | decide | exact absurd loose (by decide)
      refine landed.of_canFollow (Nat.le_of_lt (Rule.index_lt_of_operand? hnext)) tight ?_
      intro kind here' follow
      obtain rfl := Option.some.inj (here.symm.trans here')
      exact canFollow_of_operand? hnext product hop follow
    | some op =>
      refine takeSign_foreseen calls le hnext hop here landed fits ?_
      intro right spot t lt fits landed
      exact ih _ (Nat.le_trans le (Nat.le_of_lt lt)) (by omega) landed fits

/-- A looser rule does not apply where its operand does not. -/
theorem Missed.looser {a b : Rule} (missed : Missed input v b need frames s t)
    (h : input.StartsAt a s.current ↔ input.StartsAt b s.current) :
    Missed input v a need frames s t := by
  unfold Missed
  rw [h]
  exact missed

/-- A rule starts at a place just where a tighter one does if the token there is no sign of it. -/
theorem startsAt_iff_of_le {a b : Rule} {place : Nat} (le : a.index ≤ b.index)
    (exact : ∀ kind, input.kindAt place = some kind → a.canStart kind = true →
      b.canStart kind = true) : input.StartsAt a place ↔ input.StartsAt b place :=
  ⟨fun ⟨kind, here, start⟩ => ⟨kind, here, exact kind here start⟩, fun start => start.mono le⟩

theorem startsAt_operand? (hnext : level.operand? = some next) (place : Nat) :
    input.StartsAt level place ↔ input.StartsAt next place := by
  unfold Input.StartsAt
  rw [Rule.canStart_operand? hnext]

/-- Behind a rule without a sign in front no number is pending. -/
theorem Poised.pendingAt (poised : Poised input v level need frames s)
    (loose : level.index ≤ Rule.unary.index) (stop : Nat) :
    input.pendingAt need.signed s.current stop = false := by
  rw [poised.unsigned loose]
  rfl

theorem Poised.foreseen (poised : Poised input v level need frames s) {start : Nat} {e : Expr}
    (loose : level.index ≤ Rule.unary.index) (lt : s.current < start)
    (onward : Onward input v level need.spans frames start t) :
    Foreseen input v level need frames s.current e t where
  lt := Nat.lt_of_lt_of_le lt onward.1
  number tight := absurd tight (Nat.not_le_of_lt (Nat.lt_succ_of_le loose))
  landed := by
    rw [poised.pendingAt loose]
    exact onward.2

theorem foldLeft_foreseen (poised : Poised input v level need frames s)
    (calls : ForeseenCalls input v call s.current (level.index + 1))
    (hnext : level.operand? = some next) (loose : level.index < Rule.multiplicative.index) :
    Heeds input v (foldLeft input call level next) s
      (Ended input v level need frames s) := by
  have lt := Rule.index_lt_of_operand? hnext
  obtain ⟨-, opener⟩ := Rule.opener?_of_operand? hnext
  have loose' : level.index ≤ Rule.unary.index := Nat.le_of_lt (Nat.lt_trans loose (by decide))
  unfold foldLeft
  have inner := poised.tighten (Nat.le_of_lt lt) (by simp [opener])
  refine (calls next need frames s inner (.inr ⟨rfl, lt⟩)).bind ?_
  rintro (_ | left) t ⟨ended, -⟩
  · have missed := (ended_none (by rintro rfl; cases opener)).mp ended
    refine .pure ((ended_none (by rintro rfl; cases hnext)).mpr ?_)
    exact missed.looser (startsAt_operand? hnext s.current)
  · obtain ⟨spot, fits, landed⟩ := ended.landed
    rw [poised.pendingAt loose'] at fits
    refine .map ((foldMore_foreseen calls hnext loose input.bound left (Nat.le_of_lt ended.lt)
      (input.size_lt_bound _) landed (fits.of_operand? hnext)).mono ?_)
    exact fun e u onward => poised.foreseen loose' ended.lt onward

/-! ## Products -/

theorem productMore_foreseen (calls : ForeseenCalls input v call place number) (bound : Nat)
    (left : Expr) (lt : place < s.current) (enough : input.tokens.size < s.current + bound)
    (landed : Landed input v .unary (.complete spans false false) frames s) :
    Heeds input v (productMore input call bound left) s
      fun _ u => Onward input v .multiplicative spans frames s.current u := by
  have fits : Spot.Fits .multiplicative spans false (.complete spans false false) := rfl
  induction bound generalizing s left with
  | zero =>
    have := landed.ends.lt
    omega
  | succ bound ih =>
    unfold productMore
    refine .peek landed.ends fun first hfirst => ?_
    have here := Input.kindAt_of_getElem? hfirst
    dsimp only
    cases hop : Rule.multiplicative.operator? first.kind with
    | some op =>
      refine takeSign_foreseen calls (Nat.le_of_lt lt) rfl hop here landed fits ?_
      rintro right _ t lt' rfl landed
      exact ih _ (Nat.lt_trans lt lt') (by omega) landed
    | none =>
      dsimp only
      by_cases beside : input.config.implicitMultiplication = true ∧ startsAtom first.kind = true
      · rw [if_pos beside]
        obtain ⟨implicit, atom⟩ := beside
        obtain ⟨meets, comes⟩ := landed.of_followsAt
          (Input.followsAt_of_canFollow here (canFollow_unary_of_startsAtom implicit atom))
        -- No sign is taken: the pass sees at once that an operand is there.
        obtain ⟨sight, seen, isFirst⟩ := Input.exists_sight here
        have same : input.step? s.current ⟨.complete spans false false, frames⟩ =
            input.step? s.current ⟨.needed { rule := .power, spans }, frames⟩ := by
          rw [Input.step?_of_sight? seen, Input.step?_of_sight? seen,
            step_beside implicit (isFirst ▸ atom)]
        have poised : Poised input v .power { rule := .power, spans } frames s :=
          { meets :=
              { ends := meets.ends, depth := meets.depth, furthest_le := meets.furthest_le
                needed := by
                  rw [meets.needed]
                  cases frames <;> rfl }
            opening := by rintro _ ⟨⟩
            tighter := Nat.le_refl _
            fresh := fun loose => absurd loose (by decide)
            unsigned := fun _ => rfl
            unheld := fun _ => rfl
            comes := fun _ => (comes_congr same).mp comes }
        refine (calls .power _ frames s poised (.inl lt)).bind ?_
        rintro (_ | right) t ⟨ended, back⟩
        · have missed := (ended_none (by decide)).mp ended
          have back := back rfl
          have start : input.StartsAt .power s.current :=
            ⟨first.kind, here, by simp [Rule.canStart, atom]⟩
          obtain ⟨depth, ⟨absent, -⟩ | ⟨-, failed, blamed⟩⟩ := missed
          · exact absurd start absent
          · refine .pure ⟨Nat.le_of_eq back.symm, _, fits, ?_⟩
            refine .stuck (back ▸ meets.ends) (depth.trans meets.depth) (back ▸ failed) ?_ blamed
            rw [back]
            exact Input.not_followsAt_of_canFollow (by decide) here
              (canFollow_multiplicative_of_startsAtom atom)
        · have lt' := ended.lt
          obtain ⟨spot, rfl, landed⟩ := ended.landed
          refine (ih _ (Nat.lt_trans lt lt') (by omega) ?_).mono fun e u onward =>
            onward.of_le (Nat.le_of_lt lt')
          refine landed.of_canFollow (by decide) (by decide) fun kind _ follow => ?_
          exact canFollow_of_between follow (.inr (.inl ⟨rfl, rfl⟩))
      · rw [if_neg beside]
        refine .pure (Landed.onward ?_ fits)
        refine landed.of_canFollow (by decide) (by decide) fun kind here' follow => ?_
        obtain rfl := Option.some.inj (here.symm.trans here')
        exact canFollow_product hop beside follow

theorem product_foreseen (poised : Poised input v .multiplicative need frames s)
    (calls : ForeseenCalls input v call s.current (Rule.multiplicative.index + 1)) :
    Heeds input v (product input call) s (Ended input v .multiplicative need frames s) := by
  unfold product
  refine (calls .unary need frames s (poised.tighten (by decide) nofun)
    (.inr ⟨rfl, by decide⟩)).bind ?_
  rintro (_ | left) t ⟨ended, -⟩
  · have missed := (ended_none (by decide)).mp ended
    exact .pure ((ended_none (by decide)).mpr (missed.looser Iff.rfl))
  · obtain ⟨spot, rfl, landed⟩ := ended.landed
    rw [poised.pendingAt (by decide)] at landed
    refine .map ((productMore_foreseen calls input.bound left ended.lt (input.size_lt_bound _)
      landed).mono ?_)
    exact fun e u onward => poised.foreseen (by decide) ended.lt onward

/-! ## Signs in front -/

/-- The pass goes over signs in front of an operand. -/
theorem comes_behind_signs {first again : Need} {p count : Nat}
    (hfirst : ∀ q, input.kindAt q = some kind →
      input.step? q ⟨.needed first, frames⟩ = some (.on 1 ⟨.needed again, frames⟩))
    (hagain : ∀ q, input.kindAt q = some kind →
      input.step? q ⟨.needed again, frames⟩ = some (.on 1 ⟨.needed again, frames⟩))
    (signs : input.SignsAt kind p (count + 1)) :
    input.Comes p ⟨.needed first, frames⟩ v ↔
      input.Comes (p + (count + 1)) ⟨.needed again, frames⟩ v := by
  induction count generalizing p first with
  | zero => exact comes_on (hfirst p (signs 0 Nat.one_pos))
  | succ count ih =>
    rw [comes_on (hfirst p (signs 0 (Nat.succ_pos _)))]
    have others : input.SignsAt kind (p + 1) (count + 1) := by
      intro i hi
      have := signs (i + 1) (by omega)
      rwa [show p + (i + 1) = p + 1 + i by omega] at this
    rw [ih hagain others, show p + 1 + (count + 1) = p + (count + 1 + 1) by omega]

theorem step?_minus {p : Nat} (start : need.rule.canStart .minus = true)
    (here : input.kindAt p = some .minus) :
    input.step? p ⟨.needed need, frames⟩ =
      some (.on 1 ⟨.needed
        { rule := .unary, spans := need.spans, signed := true, held := need.held }, frames⟩) := by
  obtain ⟨sight, seen, isMinus⟩ := Input.exists_sight here
  rw [Input.step?_of_sight? seen, step_needed (isMinus ▸ start)]
  simp [Need.step, isMinus, start]

theorem step?_not {p : Nat} (start : need.rule.canStart .not = true)
    (here : input.kindAt p = some .not) :
    input.step? p ⟨.needed need, frames⟩ = some (.on 1 ⟨.needed { rule := .not }, frames⟩) := by
  obtain ⟨sight, seen, isNot⟩ := Input.exists_sight here
  rw [Input.step?_of_sight? seen, step_needed (isNot ▸ start)]
  simp [Need.step, isNot, start]

/-- A rule that took signs got stuck where its operand does not apply. -/
theorem Missed.behind_signs {a b : Rule} {need' : Need}
    (missed : Missed input v b need' frames (s.moveTo place) t) (lt : s.current < place)
    (meets : Meets input ⟨.needed need', frames⟩ (s.moveTo place))
    (comes : input.Comes place ⟨.needed need', frames⟩ v)
    (exact : ∀ kind, input.kindAt place = some kind → need'.rule.canStart kind = true →
      b.canStart kind = true)
    (closable : need'.closable = false) (start : input.StartsAt a s.current)
    (held : need'.held = need.held) : Missed input v a need frames s t := by
  obtain ⟨failed, blamed⟩ := missed.blamed meets comes exact (by simp [closable])
  exact ⟨missed.1, .inr ⟨start, Nat.lt_of_lt_of_le lt failed, held ▸ blamed⟩⟩

theorem negated_foreseen (poised : Poised input v .not need frames s)
    (calls : ForeseenCalls input v call s.current (Rule.not.index + 1)) :
    Heeds input v (negated input call) s (Ended input v .not need frames s) := by
  unfold negated
  refine .acceptMany poised.meets.ends (by decide) (input.size_lt_bound _)
    fun count signs other ends => ?_
  -- Behind all signs of negation an equality starts like a negation.
  have exact (kind : Token.Kind) (here : input.kindAt (s.current + count) = some kind)
      (start : Rule.not.canStart kind = true) : Rule.equality.canStart kind = true := by
    cases kind <;> first | rfl | exact absurd here other | cases start
  cases count with
  | zero =>
    refine (calls .equality need frames s (poised.tighten (by decide) nofun)
      (.inr ⟨rfl, by decide⟩)).bind ?_
    rintro (_ | operand) t ⟨ended, -⟩
    · have missed := (ended_none (by decide)).mp ended
      exact .pure ((ended_none (by decide)).mpr
        (missed.looser (startsAt_iff_of_le (by decide) exact)))
    · obtain ⟨spot, fits, landed⟩ := ended.landed
      refine .pure (poised.foreseen (by decide) ended.lt (Landed.onward ?_ fits))
      refine landed.of_canFollow (by decide) (by decide) fun kind _ follow => ?_
      exact canFollow_of_between follow (.inl ⟨rfl, rfl⟩)
  | succ count =>
    have start : input.StartsAt .not s.current := ⟨.not, signs 0 (Nat.succ_pos _), by decide⟩
    have loosest : need.rule.canStart .not = true :=
      Rule.canStart_of_index_le poised.tighter (by decide)
    have comes := (comes_behind_signs (fun _ => step?_not loosest)
      (fun _ => step?_not (by decide)) signs).mp (poised.comes start)
    have inner : Poised input v .equality { rule := .not } frames
        (s.moveTo (s.current + (count + 1))) :=
      poised.meets.poised (by omega) ends rfl rfl (by decide) (fun _ => rfl) (fun _ => rfl)
        (fun _ => rfl) rfl fun _ => comes
    refine (calls .equality _ frames _ inner
      (.inl (Nat.lt_add_of_pos_right (Nat.succ_pos _)))).bind ?_
    rintro (_ | operand) t ⟨ended, -⟩
    · have missed := (ended_none (by decide)).mp ended
      exact .pure ((ended_none (by decide)).mpr (missed.behind_signs (by omega) inner.meets comes
        exact rfl start (poised.unheld (by decide)).symm))
    · have lt : s.current < t.current := Nat.lt_of_le_of_lt (Nat.le_add_right _ _) ended.lt
      obtain ⟨spot, fits, landed⟩ := ended.landed
      refine .pure (poised.foreseen (by decide) lt (Landed.onward ?_ fits))
      refine landed.of_canFollow (by decide) (by decide) fun kind _ follow => ?_
      exact canFollow_of_between follow (.inl ⟨rfl, rfl⟩)

/-- A sign cannot become part of a number just where the number is pending. -/
theorem pendingAt_iff {first : Token} {signed : Bool} {minuses start stop : Nat} {e : Expr}
    (hsigned : signed = (minuses != 0)) (hfirst : input.tokens[start]? = some first)
    (number : input.kindAt start = some .number →
      ((∃ text, e = .number text) ↔ stop = start + 1)) :
    input.pendingAt signed start stop = true ↔
      folds input.config minuses first e = true ∧ first.value = none := by
  have here := Input.kindAt_of_getElem? hfirst
  have seen : (input.sight? start).any (fun sight => sight.kind == .number && sight.valueless) =
      (first.kind == .number && first.value.isNone) := by
    simp [Input.sight?, hfirst]
  unfold Input.pendingAt
  rw [seen, hsigned]
  by_cases isNumber : first.kind = .number
  · have number := number (isNumber ▸ here)
    by_cases alone : stop = start + 1
    · obtain ⟨text, rfl⟩ := number.mpr alone
      simp [folds, alone, isNumber]
    · have : folds input.config minuses first e = false := by
        cases e <;> first | rfl | exact absurd (number.mp ⟨_, rfl⟩) alone
      simp [alone, this]
  · have : folds input.config minuses first e = false := by
      cases e <;> simp [folds, isNumber]
    simp [isNumber, this]

/-- The parse stops where a sign would become part of a number without a value. -/
theorem Heeds.needValue {α : Type} {minuses : Nat} {first : Token} {e : Expr}
    {k : Unit → ParseM α} {post : α → State → Prop}
    (pos : folds input.config minuses first e = true ∧ first.value = none → v = .valueless)
    (neg : ¬ (folds input.config minuses first e = true ∧ first.value = none) →
      Heeds input v (k ()) s post) :
    Heeds input v (Grammar.needValue input minuses first e >>= k) s post := by
  unfold Grammar.needValue
  by_cases missing : folds input.config minuses first e = true ∧ first.value = none
  · rw [if_pos missing, pos missing]
    exact rfl
  · rw [if_neg missing]
    exact neg missing

theorem signed_foreseen (poised : Poised input v .unary need frames s)
    (calls : ForeseenCalls input v call s.current (Rule.unary.index + 1)) :
    Heeds input v (signed input call) s (Ended input v .unary need frames s) := by
  unfold signed
  refine .acceptMany poised.meets.ends (by decide) (input.size_lt_bound _)
    fun count signs other ends => ?_
  refine .peek ends fun first hfirst => ?_
  rw [State.current_moveTo] at hfirst
  have unary {kind : Token.Kind} (follow : canFollow input.config .power kind = true) :
      canFollow input.config .unary kind = true :=
    canFollow_of_between follow (.inr (.inl ⟨rfl, rfl⟩))
  -- Behind all minus signs a power starts like an operand of a product.
  have exact (kind : Token.Kind) (here : input.kindAt (s.current + count) = some kind)
      (start : Rule.unary.canStart kind = true) : Rule.power.canStart kind = true := by
    cases kind <;> first | rfl | exact absurd here other | cases start
  cases count with
  | zero =>
    refine (calls .power need frames s (poised.tighten (by decide) nofun)
      (.inr ⟨rfl, by decide⟩)).bind ?_
    rintro (_ | operand) t ⟨ended, -⟩
    · have missed := (ended_none (by decide)).mp ended
      exact .pure ((ended_none (by decide)).mpr
        (missed.looser (startsAt_iff_of_le (by decide) exact)))
    · obtain ⟨spot, rfl, landed⟩ := ended.landed
      rw [poised.pendingAt (by decide)] at landed
      refine .needValue (fun folded => ?_) fun _ => ?_
      · cases operand <;> simp [folds] at folded
      · refine .pure (poised.foreseen (by decide) ended.lt (Landed.onward ?_ rfl))
        exact landed.of_canFollow (by decide) (by decide) fun kind _ follow => unary follow
  | succ count =>
    have start : input.StartsAt .unary s.current := ⟨.minus, signs 0 (Nat.succ_pos _), by decide⟩
    have loosest : need.rule.canStart .minus = true :=
      Rule.canStart_of_index_le poised.tighter (by decide)
    have comes := (comes_behind_signs (fun _ => step?_minus loosest)
      (fun _ => step?_minus rfl) signs).mp (poised.comes start)
    have inner : Poised input v .power
        { rule := .unary, spans := need.spans, signed := true, held := need.held } frames
        (s.moveTo (s.current + (count + 1))) :=
      poised.meets.poised (by omega) ends rfl rfl (Nat.le_succ _)
        (fun loose => absurd loose (by decide)) (fun loose => absurd loose (by decide))
        (fun _ => poised.unheld (by decide)) rfl
        fun _ => comes
    refine (calls .power _ frames _ inner (.inl (Nat.lt_add_of_pos_right (Nat.succ_pos _)))).bind ?_
    rintro (_ | operand) t ⟨ended, -⟩
    · have missed := (ended_none (by decide)).mp ended
      exact .pure ((ended_none (by decide)).mpr (missed.behind_signs (by omega) inner.meets comes
        exact rfl start rfl))
    · have lt : s.current < t.current := Nat.lt_of_le_of_lt (Nat.le_add_right _ _) ended.lt
      have pending : input.pendingAt true (s.current + (count + 1)) t.current = true ↔
          folds input.config (count + 1) first operand = true ∧ first.value = none :=
        pendingAt_iff rfl hfirst (ended.number (by decide))
      obtain ⟨spot, rfl, landed⟩ := ended.landed
      refine .needValue (fun folded => ?_) fun unfolded => ?_
      · rw [State.current_moveTo, pending.mpr folded] at landed
        exact landed.valueless
      · rw [State.current_moveTo, Bool.eq_false_iff.mpr (mt pending.mp unfolded)] at landed
        refine .pure (poised.foreseen (by decide) lt (Landed.onward ?_ rfl))
        exact landed.of_canFollow (by decide) (by decide) fun kind _ follow => unary follow

/-! ## Spans -/

theorem step?_span_needed {p : Nat} (start : need.rule.canStart .span = true)
    (here : input.kindAt p = some .span) :
    input.step? p ⟨.needed need, frames⟩ = some (.on 1 ⟨.optional, frames⟩) := by
  obtain ⟨sight, seen, isSpan⟩ := Input.exists_sight here
  rw [Input.step?_of_sight? seen, step_needed (isSpan ▸ start)]
  simp [Need.step, isSpan, start]

theorem step?_span_complete {p : Nat} (here : input.kindAt p = some .span) :
    input.step? p ⟨.complete 0 false false, frames⟩ = some (.on 1 ⟨.optional, frames⟩) := by
  obtain ⟨sight, seen, isSpan⟩ := Input.exists_sight here
  rw [Input.step?_of_sight? seen]
  simp [Outlook.step, Outlook.endOperand, Outlook.endSum, isSpan, startsAtom, tightOperand?]

theorem step?_second_span {p : Nat} (here : input.kindAt p = some .span)
    (first : spot = .complete 1 false false ∨ spot = .optional) :
    input.step? p ⟨spot, frames⟩ =
      some (.on 1 ⟨.needed { rule := .additive, spans := 2 }, frames⟩) := by
  obtain ⟨sight, seen, isSpan⟩ := Input.exists_sight here
  rw [Input.step?_of_sight? seen]
  rcases first with rfl | rfl
  · simp [Outlook.step, Outlook.endOperand, Outlook.endSum, isSpan, startsAtom, tightOperand?]
  · simp [Outlook.step, Outlook.endSum, isSpan, Rule.canStart, startsAtom, Rule.index]

/-- An operand behind the first sign of a span, which may be missing. -/
theorem stop_foreseen (calls : ForeseenCalls input v call place number) (lt : place < s.current)
    (meets : Meets input ⟨.needed { rule := .additive, spans := 1 }, frames⟩ s)
    (comes : input.Comes s.current ⟨.optional, frames⟩ v) :
    Heeds input v (call .additive) s fun _ t => s.current ≤ t.current ∧
      ∃ spot, (spot = .complete 1 false false ∨ spot = .optional) ∧
        Landed input v .additive spot frames t := by
  have poised : Poised input v .additive { rule := .additive, spans := 1 } frames s :=
    { meets
      opening := nofun
      tighter := Nat.le_refl _
      fresh := fun loose => absurd loose (by decide)
      unsigned := fun _ => rfl
      unheld := fun _ => rfl
      comes := by
        rintro ⟨kind, here, start⟩
        obtain ⟨sight, seen, rfl⟩ := Input.exists_sight here
        refine (comes_congr ?_).mp comes
        rw [Input.step?_of_sight? seen, Input.step?_of_sight? seen, step_needed start]
        simp [Outlook.step, start] }
  have noted : Outlook.noted ⟨.needed { rule := .additive, spans := 1 }, frames⟩ = .empty := by
    cases frames <;> rfl
  refine (calls .additive _ frames s poised (.inl lt)).mono ?_
  rintro (_ | stop) t ⟨ended, back⟩
  · have back := back rfl
    refine ⟨Nat.le_of_eq back.symm, .optional, .inr rfl, ?_⟩
    obtain ⟨first, hfirst⟩ := meets.ends.token
    have here := Input.kindAt_of_getElem? hfirst
    obtain ⟨depth, ⟨absent, furthest, expected⟩ | ⟨start, failed, blamed⟩⟩ :=
      (ended_none (by decide)).mp ended
    -- The missing operand is noted, and all is calm.
    · have missing : Rule.additive.canStart first.kind = false := by
        cases start : Rule.additive.canStart first.kind with
        | false => rfl
        | true => exact absurd ⟨_, here, start⟩ absent
      refine .calm ⟨back ▸ meets.ends, depth.trans meets.depth, ?_, ?_⟩ (back ▸ comes)
        (back ▸ declines_optional here missing)
      · exact Nat.le_of_eq (furthest.trans back.symm)
      · unfold State.neededHere
        rw [if_pos (furthest.trans back.symm), expected, meets.needed, noted]
        rfl
    · obtain ⟨kind, here, start⟩ := start
      refine .stuck (back ▸ meets.ends) (depth.trans meets.depth) (back ▸ failed) ?_ blamed
      rw [back]
      exact Input.not_followsAt_of_canFollow (by decide) here (canFollow_additive_of_canStart start)
  · obtain ⟨spot, rfl, landed⟩ := ended.landed
    exact ⟨Nat.le_of_lt ended.lt, _, .inl rfl, landed⟩

/-- A span goes on with a step only behind a second sign. -/
theorem takeStep_foreseen {ends : List Expr} (spans : Nat)
    (calls : ForeseenCalls input v call place number) (le : place ≤ s.current)
    (landed : Landed input v .additive spot frames s)
    (first : spot = .complete 1 false false ∨ spot = .optional) :
    Heeds input v (takeStep input call ends) s fun r u =>
      (∃ e, r = some e) ∧ Onward input v .span spans frames s.current u := by
  have fits : spot.Fits .span spans false := by
    rcases first with rfl | rfl
    · exact .inr ⟨1, rfl⟩
    · exact .inl rfl
  unfold takeStep
  refine .branch landed.ends (fun here => ?_) fun other => ?_
  · obtain ⟨meets, comes⟩ := landed.of_followsAt (Input.followsAt_of_canFollow here rfl)
    have comes := (comes_on (step?_second_span here first)).mp comes
    refine .current (.advance meets.ends here (by decide) fun _ _ ends => ?_)
    have poised : Poised input v .additive { rule := .additive, spans := 2 } frames
        (s.moveTo (s.current + 1)) :=
      meets.poised (Nat.lt_succ_self _) ends rfl rfl (Nat.le_refl _)
        (fun loose => absurd loose (by decide)) (fun _ => rfl) (fun _ => rfl) rfl fun _ => comes
    refine (calls .additive _ frames _ poised (.inl (Nat.lt_succ_of_le le))).bind ?_
    rintro (_ | step) t ⟨ended, -⟩
    · have missed := (ended_none (by decide)).mp ended
      obtain ⟨failed, blamed⟩ := missed.blamed poised.meets comes (fun _ _ h => h) nofun
      refine .rewind (.pure ⟨⟨_, rfl⟩, Nat.le_refl _, spot, fits, ?_⟩)
      exact .stuck meets.ends (missed.1.trans meets.depth) failed
        (Input.not_followsAt_of_canFollow (by decide) here rfl) (fits.held ▸ blamed)
    · have lt : s.current < t.current := Nat.lt_of_succ_lt ended.lt
      obtain ⟨spot', rfl, landed'⟩ := ended.landed
      refine .pure ⟨⟨_, rfl⟩, Nat.le_of_lt lt, _, .inr ⟨2, rfl⟩, ?_⟩
      cases landed' with
      | stuck ends depth failed stuck blamed =>
        exact .stuck ends depth failed (fun follow => stuck (follow.mono (by decide))) blamed
      | calm meets comes declines =>
        refine .calm meets comes ?_
        obtain ⟨third, hthird⟩ := meets.ends.token
        have here' := Input.kindAt_of_getElem? hthird
        by_cases isSpan : third.kind = .span
        · exact .inr (refuses_third_span (isSpan ▸ here'))
        · refine declines.imp_left fun follow => Input.followsAt_of_canFollow here' ?_
          exact canFollow_span isSpan (follow.canFollow (by decide) here')
  · refine .pure ⟨⟨_, rfl⟩, Landed.onward ?_ fits⟩
    refine landed.of_canFollow (by decide) (by decide) fun kind here follow => ?_
    exact canFollow_span (fun same => other (same ▸ here)) follow

theorem span_foreseen (poised : Poised input v .span need frames s)
    (calls : ForeseenCalls input v call s.current (Rule.span.index + 1)) :
    Heeds input v (span input call) s (Ended input v .span need frames s) := by
  -- Behind the first sign an operand may be missing.
  have behind {start : Option Expr} {t : State} (here : input.kindAt t.current = some .span)
      (ends : input.EndsFrom t.current) (depth : t.depth = frames.length)
      (calm : t.furthest ≤ t.current) (le : s.current ≤ t.current)
      (comes : input.Comes (t.current + 1) ⟨.optional, frames⟩ v) :
      Heeds input v (do
        let _ ← advance input
        let stop ← call .additive
        takeStep input call [start.getD (.number "1"), stop.getD .everything]) t
        (Ended input v .span need frames s) := by
    refine .advance ends here (by decide) fun _ _ ends => ?_
    have meets : Meets input ⟨.needed { rule := .additive, spans := 1 }, frames⟩
        (t.moveTo (t.current + 1)) :=
      { ends, depth
        furthest_le := Nat.le_succ_of_le calm
        needed := by
          rw [State.neededHere_of_lt (Nat.lt_succ_of_le calm)]
          cases frames <;> rfl }
    refine (stop_foreseen calls (Nat.lt_succ_of_le le) meets comes).bind ?_
    rintro stop u ⟨le', spot, first, landed⟩
    have lt : s.current < u.current := Nat.lt_of_lt_of_le (Nat.lt_succ_of_le le) le'
    refine (takeStep_foreseen need.spans calls (Nat.le_of_lt lt) landed first).mono ?_
    rintro _ w ⟨⟨e, rfl⟩, onward⟩
    exact poised.foreseen (by decide) lt onward
  unfold span
  refine (calls .additive need frames s (poised.tighten (by decide) nofun)
    (.inr ⟨rfl, by decide⟩)).bind ?_
  rintro (_ | start) t ⟨ended, back⟩
  · have missed := (ended_none (by decide)).mp ended
    have back := back rfl
    refine .branch (back ▸ poised.meets.ends) (fun here => ?_) fun other => ?_
    · have start : input.StartsAt .span s.current := ⟨.span, back ▸ here, by decide⟩
      have loosest : need.rule.canStart .span = true :=
        Rule.canStart_of_index_le poised.tighter (by decide)
      have comes := (comes_on (step?_span_needed loosest (back ▸ here))).mp (poised.comes start)
      obtain ⟨depth, ⟨-, furthest, -⟩ | ⟨⟨kind, hkind, start⟩, -⟩⟩ := missed
      · exact behind here (back ▸ poised.meets.ends) (depth.trans poised.meets.depth) (by omega)
          (Nat.le_of_eq back.symm) (back ▸ comes)
      · rw [back, hkind] at here
        cases here
        cases start
    · rw [back] at other
      refine .pure ((ended_none (by decide)).mpr
        (missed.looser (startsAt_iff_of_le (by decide) fun kind here start => ?_)))
      cases kind <;> first | rfl | exact absurd here other | cases start
  · obtain ⟨spot, rfl, landed⟩ := ended.landed
    rw [poised.pendingAt (by decide), poised.fresh (by decide)] at landed
    refine .branch landed.ends (fun here => ?_) fun other => ?_
    · obtain ⟨meets, comes⟩ := landed.of_followsAt (Input.followsAt_of_canFollow here rfl)
      exact behind here meets.ends meets.depth meets.furthest_le (Nat.le_of_lt ended.lt)
        ((comes_on (step?_span_complete here)).mp comes)
    · refine .pure (poised.foreseen (by decide) ended.lt (Landed.onward ?_ (.inr ⟨0, rfl⟩)))
      refine landed.of_canFollow (by decide) (by decide) fun kind here follow => ?_
      exact canFollow_span (fun same => other (same ▸ here)) follow

/-! ## Powers and indices -/

theorem pendingAt_of_ne {signed : Bool} {start stop : Nat} (h : stop ≠ start + 1) :
    input.pendingAt signed start stop = false := by
  simp [Input.pendingAt, h]

theorem step?_power {p : Nat} {pending : Bool} (here : input.kindAt p = some .power) :
    input.step? p ⟨.complete spans false pending, frames⟩ =
      some (.on 1 ⟨.needed { rule := .unary, spans, held := pending }, frames⟩) := by
  obtain ⟨sight, seen, isPower⟩ := Input.exists_sight here
  rw [Input.step?_of_sight? seen]
  simp [Outlook.step, Outlook.endOperand, isPower]

/-- How the exponents behind an operand end.  The last operand is pending if it has to take
in a sign and cannot. -/
def Raised (input : Input) (v : Verdict) (spans : Nat) (pending : Bool) (frames : List Frame)
    (start : Nat) (chain : List Exponent) (t : State) : Prop :=
  ∃ pending', Landed input v .power (.complete spans false pending') frames t ∧
    match chain.getLast? with
    | none => pending' = pending ∧ t.current = start
    | some last => start < t.current ∧
      (pending' = true ↔
        folds input.config last.minuses last.first last.operand = true ∧ last.first.value = none)

/-- Behind a power sign, minus signs may stand in front of the exponent. -/
theorem comes_behind_power {pending : Bool} {p count : Nat}
    (signs : input.SignsAt .minus (p + 1) count)
    (comes : input.Comes (p + 1) ⟨.needed { rule := .unary, spans, held := pending }, frames⟩ v) :
    input.Comes (p + 1 + count)
      ⟨.needed { rule := .unary, spans, signed := count != 0, held := pending }, frames⟩ v := by
  cases count with
  | zero => exact comes
  | succ count =>
    exact (comes_behind_signs (fun _ => step?_minus rfl) (fun _ => step?_minus rfl) signs).mp comes

theorem exponents_foreseen (calls : ForeseenCalls input v call place number) (bound : Nat)
    (le : place ≤ s.current) (enough : input.tokens.size < s.current + bound) {pending : Bool}
    (landed : Landed input v .part (.complete spans false pending) frames s) :
    Heeds input v (exponents input call bound) s
      (Raised input v spans pending frames s.current) := by
  induction bound generalizing s pending with
  | zero =>
    have := landed.ends.lt
    omega
  | succ bound ih =>
    unfold exponents
    refine .branch landed.ends (fun here => ?_) fun other => ?_
    · obtain ⟨meets, comes⟩ := landed.of_followsAt (Input.followsAt_of_canFollow here rfl)
      have comes := (comes_on (step?_power here)).mp comes
      refine .current (.advance meets.ends here (by decide) fun _ _ ends => ?_)
      refine .acceptMany ends (by decide) (input.size_lt_bound _) fun count signs other ends => ?_
      refine .peek ends fun first hfirst => ?_
      simp only [State.current_moveTo, State.moveTo_moveTo] at signs other ends hfirst ⊢
      have comes := comes_behind_power signs comes
      have tighter : Rule.unary.index ≤ Rule.part.index := by decide
      have poised : Poised input v .part
          { rule := .unary, spans, signed := count != 0, held := pending } frames
          (s.moveTo (s.current + 1 + count)) :=
        meets.poised (by omega) ends rfl rfl tighter
          (fun loose => absurd loose (by decide)) (fun loose => absurd loose (by decide))
          (fun loose => absurd loose (by decide)) rfl fun _ => comes
      refine (calls .part _ frames _ poised
        (.inl (by simp only [State.current_moveTo]; omega))).bind ?_
      rintro (_ | operand) t ⟨ended, -⟩
      · have missed := (ended_none (by decide)).mp ended
        obtain ⟨failed, blamed⟩ := missed.blamed poised.meets comes (fun kind here start => by
          cases kind <;> first | rfl | exact absurd here other | cases start) nofun
        simp only [State.current_moveTo] at failed
        refine .rewind (.pure ⟨pending, ?_, rfl, rfl⟩)
        exact .stuck meets.ends (missed.1.trans meets.depth) (by simp; omega)
          (Input.not_followsAt_of_canFollow (by decide) here rfl) blamed
      · have lt : s.current < t.current :=
          Nat.lt_of_le_of_lt (by simp only [State.current_moveTo]; omega) ended.lt
        have folded : input.pendingAt (count != 0) (s.current + 1 + count) t.current = true ↔
            folds input.config count first operand = true ∧ first.value = none :=
          pendingAt_iff rfl hfirst (ended.number (by decide))
        obtain ⟨spot, rfl, landed⟩ := ended.landed
        refine (ih (by omega) (by omega) landed).bind ?_
        rintro others u ⟨pending', landed', last⟩
        refine .pure ⟨pending', landed', ?_⟩
        rw [List.getLast?_cons]
        cases hlast : others.getLast? with
        | none =>
          rw [hlast] at last
          obtain ⟨rfl, back⟩ := last
          exact ⟨back ▸ lt, folded⟩
        | some x =>
          rw [hlast] at last
          exact ⟨Nat.lt_trans lt last.1, last.2⟩
    · refine .pure ⟨pending, ?_, rfl, rfl⟩
      refine landed.of_canFollow (by decide) (by decide) fun kind here follow => ?_
      exact canFollow_power (fun same => other (same ▸ here)) follow

theorem power_foreseen (poised : Poised input v .power need frames s)
    (calls : ForeseenCalls input v call s.current (Rule.power.index + 1)) :
    Heeds input v (power input call) s (Ended input v .power need frames s) := by
  unfold power
  refine (calls .part need frames s (poised.tighten (by decide) nofun)
    (.inr ⟨rfl, by decide⟩)).bind ?_
  rintro (_ | base) t ⟨ended, -⟩
  · have missed := (ended_none (by decide)).mp ended
    exact .pure ((ended_none (by decide)).mpr (missed.looser Iff.rfl))
  · have lt := ended.lt
    obtain ⟨spot, rfl, landed⟩ := ended.landed
    refine (exponents_foreseen calls input.bound (Nat.le_of_lt lt) (input.size_lt_bound _)
      landed).bind ?_
    rintro chain u ⟨pending, landed', last⟩
    dsimp only
    cases hlast : chain.getLast? with
    | none =>
      rw [hlast] at last
      obtain ⟨rfl, back⟩ := last
      obtain rfl := List.getLast?_eq_none_iff.mp hlast
      refine .pure ⟨back ▸ lt, fun _ number => ?_, _, rfl, back ▸ landed'⟩
      rw [back]
      exact ended.number (by decide) number
    | some x =>
      rw [hlast] at last
      obtain ⟨more, folded⟩ := last
      refine .needValue (fun missing => ?_) fun present => ?_
      · rw [folded.mpr missing] at landed'
        exact landed'.valueless
      · rw [Bool.eq_false_iff.mpr (mt folded.mp present)] at landed'
        have far : u.current ≠ s.current + 1 := by omega
        refine .pure ⟨Nat.lt_trans lt more, fun _ _ => ?_, _, rfl, pendingAt_of_ne far ▸ landed'⟩
        cases chain with
        | nil => cases hlast
        | cons => simp [powers, far]

end Levels
end Grammar
end Formula
