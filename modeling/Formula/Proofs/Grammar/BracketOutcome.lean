import Formula.Proofs.Grammar.Outcome

/-! # How the rules for brackets end

The rules of the module `Formula.Grammar.Brackets`, with and without memory side by
side.  A bracketed part is complete only if all is calm behind it.  If it is not
complete, something was missing behind its opener: so the rule that goes back to the
opener stands in front of a token that nothing can take in any more.
-/
namespace Formula
namespace Grammar

/-! ## Openers and closers -/

/-- The kind of the token, or of both tokens, that opens brackets with a closer. -/
def Closer.opener : Closer → Token.Kind
  | paren => .leftParen
  | bracket | doubleBracket => .leftBracket
  | brace => .leftBrace

/-- The brackets that belong to a closer open at a place. -/
def Input.BracketAt (input : Input) (closer : Closer) (place : Nat) : Prop :=
  match closer with
  | .doubleBracket => pairAt input place .leftBracket = true
  | closer => input.kindAt place = some closer.opener

section Closers
variable {input : Input} {closer : Closer} {place : Nat}

theorem Input.kindAt_of_closesAt (h : input.ClosesAt closer place) :
    input.kindAt place = some closer.kind := by
  cases closer with
  | doubleBracket => exact (Input.kindAt_of_pairAt h).1
  | paren | bracket | brace => exact h

theorem Input.kindAt_of_bracketAt (h : input.BracketAt closer place) :
    input.kindAt place = some closer.opener := by
  cases closer with
  | doubleBracket => exact (Input.kindAt_of_pairAt h).1
  | paren | bracket | brace => exact h

/-- A closer can follow every rule. -/
theorem Input.followsAt_of_closesAt (rule : Rule) (h : input.ClosesAt closer place) :
    input.FollowsAt rule place := by
  refine Input.followsAt_of_canFollow (Input.kindAt_of_closesAt h) ?_
  cases closer <;> simp [canFollow, behind?, Closer.kind, Rule.index]

/-- So can a comma. -/
theorem Input.followsAt_of_comma (rule : Rule) (h : input.kindAt place = some .comma) :
    input.FollowsAt rule place :=
  Input.followsAt_of_canFollow h (by simp [canFollow, behind?, Rule.index])

end Closers

/-! ## Expressions between brackets -/

/-- Behind brackets that were closed again: what is in them is a phrase, and all is
calm. -/
def Closed (input : Input) (closer : Closer) (phrase : Phrase) (start : Nat)
    (v : phrase.Value) (t : State) : Prop :=
  ∃ q, Derives input phrase start q v ∧ input.ClosesAt closer q ∧
    t.current = q + closer.width ∧ t.furthest ≤ t.current ∧ t.memo.Before t.current 0

section Sequences
variable {input : Input} {call₁ call₂ : Rule → ParseM (Option Expr)} {s : State}

theorem closed_of_standing {closer : Closer} {phrase : Phrase} {start : Nat}
    {v : phrase.Value} (derives : Derives input phrase start s.current v)
    (standing : Standing input .or s) (closes : input.ClosesAt closer s.current) :
    Closed input closer phrase start v (s.moveTo (s.current + closer.width)) := by
  have calm := standing.calm (Input.followsAt_of_closesAt .or closes)
  have pos : 0 < closer.width := by cases closer <;> decide
  have furthest := calm.furthest_le
  refine ⟨s.current, derives, closes, rfl, ?_, calm.before.of_lt ?_⟩
  · simp only [State.furthest_moveTo, State.current_moveTo]
    omega
  · simp only [State.current_moveTo]
    omega

theorem items_outcome (calls : Calls input call₁ call₂) (closer : Closer) (bound : Nat)
    (ready : Ready input .or s) (inside : s.current ≤ input.tokens.size)
    (enough : input.tokens.size < s.current + bound) :
    SideBySide (items input call₁ closer bound) (items input.forgetful call₂ closer bound) s
      fun r t =>
        match r with
        | some es => Closed input closer .items s.current es t
        | none => s.current ≤ t.furthest := by
  induction bound generalizing s with
  | zero => omega
  | succ bound ih =>
    unfold items
    refine (calls .or s ready).bind ?_
    rintro (_ | e) t ⟨outcome, -⟩
    · exact .pure (outcome.le_furthest rfl)
    · obtain ⟨derives, standing⟩ := outcome
      have lt := derives.lt
      refine (SideBySide.accept (by decide)).bind ?_
      rintro _ _ (⟨rfl, comma, rfl⟩ | ⟨rfl, -, rfl⟩)
      -- Behind a comma the same rules are ready once more.
      · have calm := standing.calm (Input.followsAt_of_comma .or comma)
        have size := Input.kindAt_lt comma
        simp only [if_true]
        refine (ih (calm.ready rfl (Nat.lt_succ_self _)) size
          (by simp only [State.current_moveTo]; omega)).bind ?_
        rintro (_ | es) u rest
        · refine .pure (Nat.le_trans ?_ rest)
          simp only [State.current_moveTo]
          omega
        · obtain ⟨q, others, rest⟩ := rest
          exact .pure ⟨q, .items derives comma others, rest⟩
      -- Without a comma the brackets are closed, or the closer is missing at the cursor.
      · simp only [Bool.false_eq_true, if_false]
        refine SideBySide.close.bind ?_
        rintro _ _ (⟨rfl, closes, rfl⟩ | ⟨rfl, rfl⟩)
        · exact .pure (closed_of_standing (.item derives) standing closes)
        · refine SideBySide.expect.bind ?_
          rintro _ _ rfl
          refine .pure ?_
          simp only [State.furthest_expect, State.current_expect]
          omega

theorem sequence_outcome (calls : Calls input call₁ call₂) (closer : Closer)
    (ready : Ready input .or s) (inside : s.current ≤ input.tokens.size) :
    SideBySide (sequence input call₁ closer) (sequence input.forgetful call₂ closer) s
      fun r t =>
        match r with
        | some es => Closed input closer .arguments s.current es t
        | none => s.current ≤ t.furthest := by
  unfold sequence
  refine SideBySide.close.bind ?_
  rintro _ _ (⟨rfl, closes, rfl⟩ | ⟨rfl, rfl⟩)
  · exact .pure (closed_of_standing .noArguments
      (Standing.of_calm ready.furthest_le ready.before) closes)
  · have ready' : Ready input .or (s.expect (.closer closer)) :=
      ⟨by simp [ready.furthest_le], by simpa using ready.before, by simp [Rule.opener?]⟩
    refine (items_outcome calls closer input.bound ready' (by simpa using inside)
      (by simp [Input.bound]; omega)).mono ?_
    rintro (_ | es) t h
    · simpa using h
    · obtain ⟨q, derives, rest⟩ := h
      exact ⟨q, .someArguments (by simpa using derives), rest⟩

theorem bracketed_outcome (calls : Calls input call₁ call₂) (closer : Closer)
    (calm : s.Calm) (opens : input.BracketAt closer s.current) :
    SideBySide (bracketed input call₁ closer) (bracketed input.forgetful call₂ closer) s
      fun r t =>
        match r with
        | some es => Closed input closer .arguments (s.current + closer.width) es t
        | none => s.current + closer.width ≤ t.furthest := by
  have here := Input.kindAt_of_bracketAt opens
  have opener_ne : closer.opener ≠ .endOfInput := by cases closer <;> decide
  unfold bracketed
  refine SideBySide.current.bind ?_
  rintro _ _ ⟨rfl, rfl⟩
  refine (SideBySide.advance here opener_ne).bind ?_
  rintro opening _ ⟨-, rfl⟩
  by_cases double : closer = .doubleBracket
  · subst double
    obtain ⟨-, next⟩ := Input.kindAt_of_pairAt opens
    have size := Input.kindAt_lt next
    simp only [if_true]
    refine (SideBySide.advance next (by decide)).bind ?_
    rintro _ _ ⟨-, rfl⟩
    have ready : Ready input .or (s.moveTo (s.current + 2)) := calm.ready rfl (by omega)
    refine .nested ((sequence_outcome calls _ (ready.atDepth _) size).mono ?_)
    exact fun r t h => by cases r <;> exact h
  · simp only [if_neg double]
    have size := Input.kindAt_lt here
    have width : closer.width = 1 := by cases closer <;> first | rfl | exact absurd rfl double
    have ready : Ready input .or (s.moveTo (s.current + 1)) := calm.ready rfl (by omega)
    rw [width]
    refine .nested ((sequence_outcome calls _ (ready.atDepth _) size).mono ?_)
    exact fun r t h => by cases r <;> exact h

end Sequences

/-! ## The rules for brackets -/

section Rules
variable {input : Input} {call₁ call₂ : Rule → ParseM (Option Expr)} {s : State}

theorem group_outcome (calls : Calls input call₁ call₂) (entered : Entered input .group s) :
    SideBySide (group input call₁) (group input.forgetful call₂) s
      (Outcome input .group s) := by
  have here := entered.opening .leftParen rfl
  unfold group
  refine SideBySide.current.bind ?_
  rintro _ _ ⟨rfl, rfl⟩
  refine (SideBySide.advance here (by decide)).bind ?_
  rintro opening _ ⟨-, rfl⟩
  have ready : Ready input .or (s.moveTo (s.current + 1)) :=
    entered.calm.ready rfl (Nat.lt_succ_self _)
  refine .nested ((calls .or _ (ready.atDepth _)).bind ?_)
  rintro (_ | e) t ⟨outcome, -⟩
  · exact .pure (outcome.le_furthest rfl)
  · obtain ⟨derives, standing⟩ := outcome
    have lt : s.current + 1 < t.current := derives.lt
    refine SideBySide.close.bind ?_
    rintro _ _ (⟨rfl, closes, rfl⟩ | ⟨rfl, rfl⟩)
    · have follow := Input.followsAt_of_closesAt .or closes
      have calm := standing.calm follow
      exact .pure ⟨.group here derives closes,
        .of_calm (Nat.le_succ_of_le calm.furthest_le) (calm.before.of_lt (Nat.lt_succ_self _))⟩
    · refine .pure (show s.current < (t.expect _).furthest from ?_)
      rw [State.furthest_expect]
      omega

theorem list_outcome (calls : Calls input call₁ call₂) (entered : Entered input .list s) :
    SideBySide (list input call₁) (list input.forgetful call₂) s
      (Outcome input .list s) := by
  have here := entered.opening .leftBrace rfl
  unfold list
  refine (bracketed_outcome calls .brace entered.calm here).bind ?_
  rintro (_ | es) t rest
  · exact .pure rest
  · obtain ⟨q, derives, closes, stop, furthest, before⟩ := rest
    refine .pure ⟨?_, .of_calm furthest before⟩
    rw [stop]
    exact .list here derives closes

/-- An opening bracket that does not lead to arguments stays in front of the cursor, and
nothing is complete there. -/
theorem curried_outcome (calls : Calls input call₁ call₂) (bound : Nat) (left : Expr)
    (furthest : s.furthest ≤ s.current) (before : s.memo.Before s.current 0) :
    SideBySide (curried input call₁ bound left) (curried input.forgetful call₂ bound left) s
      (Continued input .application left s) := by
  induction bound generalizing s left with
  | zero => exact .pure ⟨.stop, .of_calm furthest before⟩
  | succ bound ih =>
    unfold curried
    refine SideBySide.opensArguments.bind ?_
    rintro _ _ (⟨rfl, opens, rfl⟩ | ⟨rfl, -, rfl⟩)
    · simp only [if_true]
      refine SideBySide.current.bind ?_
      rintro _ _ ⟨rfl, rfl⟩
      have calm : s.Calm := ⟨furthest, before.of_le (Nat.zero_le _)⟩
      refine (bracketed_outcome calls .bracket calm opens.1).bind ?_
      rintro (_ | es) t rest
      · refine SideBySide.rewind.bind ?_
        rintro _ _ rfl
        exact .pure ⟨.stop,
          .of_stuck rest (Input.not_followsAt_of_opensArguments opens)⟩
      · obtain ⟨q, derives, closes, stop, furthest, before⟩ := rest
        refine (ih (.apply left es) furthest before).mono ?_
        rintro e u ⟨others, standing⟩
        rw [stop] at others
        exact ⟨.curried opens derives closes others, standing⟩
    · exact .pure ⟨.stop, .of_calm furthest before⟩

theorem application_outcome (calls : Calls input call₁ call₂)
    (entered : Entered input .application s) :
    SideBySide (application input call₁) (application input.forgetful call₂) s
      (Outcome input .application s) := by
  have here := entered.opening .identifier rfl
  have calm := entered.calm
  unfold application
  refine (SideBySide.advance here (by decide)).bind ?_
  rintro name _ ⟨hname, rfl⟩
  have kind : name.kind = .identifier := by simpa [Input.kindAt, hname] using here
  refine SideBySide.opensArguments.bind ?_
  rintro _ _ (⟨rfl, opens, rfl⟩ | ⟨rfl, -, rfl⟩)
  · simp only [if_true]
    have calm' : (s.moveTo (s.current + 1)).Calm :=
      ⟨Nat.le_succ_of_le calm.furthest_le, calm.before.of_lt (Nat.lt_succ_self _)⟩
    refine (bracketed_outcome calls .bracket calm' opens.1).bind ?_
    rintro (_ | es) t rest
    · exact .pure (.inr ⟨rest, opens⟩)
    · obtain ⟨q, derives, closes, stop, furthest, before⟩ := rest
      refine .map ((curried_outcome calls input.bound _ furthest before).mono ?_)
      rintro e u ⟨others, standing⟩
      rw [stop] at others
      exact ⟨.application hname kind opens derives closes others, standing⟩
  · exact .pure (.inl ⟨calm.furthest_le, calm.before⟩)

theorem indexed_outcome (calls : Calls input call₁ call₂) (bound : Nat) (left : Expr)
    (standing : Standing input .atom s) :
    SideBySide (indexed input call₁ bound left) (indexed input.forgetful call₂ bound left) s
      (Continued input .part left s) := by
  induction bound generalizing s left with
  | zero => exact .pure (standing.continued (by decide))
  | succ bound ih =>
    unfold indexed
    refine SideBySide.current.bind ?_
    rintro _ _ ⟨rfl, rfl⟩
    have same : pairAt input.forgetful = pairAt input := rfl
    rw [same]
    cases pair : pairAt input s.current .leftBracket with
    | false => exact .pure (standing.continued (by decide))
    | true =>
      simp only [if_true]
      have calm := standing.calm (.inr ⟨Nat.le_refl _, pair⟩)
      refine (bracketed_outcome calls .doubleBracket calm pair).bind ?_
      rintro (_ | es) t rest
      · have bracket := (Input.kindAt_of_pairAt pair).1
        refine SideBySide.rewind.bind ?_
        rintro _ _ rfl
        have failed := Nat.lt_of_lt_of_le (Nat.lt_add_of_pos_right (by decide)) rest
        exact .pure ⟨.stop, .of_stuck failed
          (Input.not_followsAt_of_leftBracket (by decide) bracket)⟩
      · obtain ⟨q, derives, closes, stop, furthest, before⟩ := rest
        refine (ih _ (.of_calm furthest before)).mono ?_
        rintro e u ⟨others, standing⟩
        rw [stop] at others
        exact ⟨.indices pair derives closes others, standing⟩

/-! ## Atoms -/

/-- What an atom becomes that a rule for brackets has to read. -/
theorem Outcome.atom {rule : Rule} {r : Option Expr} {t : State}
    (hrule : rule = .group ∨ rule = .list ∨ rule = .application)
    (outcome : Outcome input rule s r t) (h : r ≠ none ∨ s.current < t.furthest)
    (start : input.StartsAt .atom s.current) : Outcome input .atom s r t := by
  cases r with
  | none => exact .inr ⟨h.resolve_left (absurd rfl), start⟩
  | some e =>
    obtain ⟨derives, standing⟩ := outcome
    refine ⟨.bracketed hrule derives, standing.mono ?_⟩
    rcases hrule with rfl | rfl | rfl <;> decide

/-- An atom that is nothing but brackets. -/
theorem enclosed_outcome {rule : Rule} {kind : Token.Kind} (calls : Calls input call₁ call₂)
    (entered : Entered input .atom s) (hrule : rule = .group ∨ rule = .list)
    (hopener : rule.opener? = some kind) (here : input.kindAt s.current = some kind) :
    SideBySide (call₁ rule) (call₂ rule) s (Outcome input .atom s) := by
  have start : input.StartsAt .atom s.current := by
    refine ⟨kind, here, ?_⟩
    rcases hrule with rfl | rfl <;> cases hopener <;> rfl
  refine (calls rule s (entered.ready ?_ ?_)).mono ?_
  · rcases hrule with rfl | rfl <;> decide
  · intro other hother
    rw [hopener] at hother
    cases hother
    exact here
  · rintro r t ⟨outcome, -⟩
    refine outcome.atom (hrule.imp_right .inl) ?_ start
    cases r with
    | none =>
      refine .inr ?_
      rcases hrule with rfl | rfl <;> exact outcome
    | some e => exact .inl (Option.some_ne_none e)

theorem atom_outcome (calls : Calls input call₁ call₂) (entered : Entered input .atom s) :
    SideBySide (atom input call₁) (atom input.forgetful call₂) s
      (Outcome input .atom s) := by
  have calm := entered.calm
  have furthest := calm.furthest_le
  unfold atom
  refine SideBySide.peek.bind ?_
  rintro first _ ⟨hfirst, rfl⟩
  obtain ⟨kind, hkind⟩ : ∃ kind, first.kind = kind := ⟨_, rfl⟩
  have here : input.kindAt s.current = some kind := by rw [Input.kindAt_of_getElem? hfirst, hkind]
  -- A token that is an atom of its own leaves the state calm behind it.
  have single {e : Expr} (derives : Derives input (.rule .atom) s.current (s.current + 1) e) :
      Outcome input .atom s (some e) (s.moveTo (s.current + 1)) :=
    ⟨derives, .of_calm (Nat.le_succ_of_le furthest) (calm.before.of_lt (Nat.lt_succ_self _))⟩
  have value : first.value.getD input.blank = input.valueAt s.current := by
    simp [Input.valueAt, hfirst]
  rw [hkind]
  cases kind with
  | leftParen => exact enclosed_outcome calls entered (.inl rfl) rfl here
  | leftBrace => exact enclosed_outcome calls entered (.inr rfl) rfl here
  | identifier =>
    refine (calls .application s (entered.ready (by decide) ?_)).bind ?_
    · rintro _ ⟨⟩
      exact here
    · rintro (_ | e) t ⟨outcome, back⟩
      -- The name is read alone.  If its arguments got stuck, nothing follows it.
      · have back := back rfl
        refine (SideBySide.advance (back ▸ here) (by decide)).bind ?_
        rintro name _ ⟨hname, rfl⟩
        rw [back] at hname ⊢
        refine .pure ⟨.name hname ?_, ?_⟩
        · rw [hfirst] at hname
          cases hname
          exact hkind
        · rcases outcome with ⟨furthest, before⟩ | ⟨failed, opens⟩
          · exact .of_calm (Nat.le_succ_of_le furthest) (before.of_lt (Nat.lt_succ_self _))
          · exact .of_stuck failed (Input.not_followsAt_of_opensArguments opens)
      · exact .pure (outcome.atom (.inr (.inr rfl)) (.inl (Option.some_ne_none e)) ⟨_, here, rfl⟩)
  | number =>
    refine (SideBySide.advance here (by decide)).bind ?_
    rintro _ _ ⟨-, rfl⟩
    refine .pure (single ?_)
    rw [value]
    exact .number here
  | string =>
    refine (SideBySide.advance here (by decide)).bind ?_
    rintro _ _ ⟨-, rfl⟩
    refine .pure (single ?_)
    rw [value]
    exact .string here
  | _ =>
    refine SideBySide.expect.bind ?_
    rintro _ _ rfl
    refine .pure (.inl ⟨?_, ?_⟩)
    · rw [State.furthest_expect]
      omega
    · rw [State.memo_expect]
      exact calm.before

end Rules

end Grammar
end Formula
