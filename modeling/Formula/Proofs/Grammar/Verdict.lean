import Formula.Proofs.Grammar.BracketForesight

/-! # What a parse reports is foreseen in one pass

The verdict of one pass over the tokens is what the parser reports, whatever it tries before
(`parse_heeds`).  A step of the pass looks at one token and at whether it forms a pair with the
next one.  So a report does not depend on anything behind the token that it blames and the
next one (`parse_of_agreement`).
-/
namespace Formula
namespace Grammar

/-! ## All rules together -/

section Run
variable {input : Input} {v : Verdict} {rule : Rule} {need : Need} {frames : List Frame}
  {s t : State}

/-- How a rule ends that does not apply does not depend on where it left the cursor. -/
theorem Ended.moveTo (ended : Ended input v rule need frames s none t) (place : Nat) :
    Ended input v rule need frames s none (t.moveTo place) := by
  by_cases application : rule = .application
  · subst application
    rcases (ended : Nameless input v frames s t) with ⟨other, same⟩ | named
    · refine (.inl ⟨other, ?_⟩ : Nameless input v frames s (t.moveTo place))
      rw [same]
      rfl
    · exact (.inr named : Nameless input v frames s (t.moveTo place))
  · have missed := (ended_none application).mp ended
    exact (ended_none application).mpr ⟨missed.1, missed.2⟩

/-- **Every rule ends as foreseen**, in the dialect that remembers nothing. -/
theorem run_foreseen (off : input.config.memoize = false) {n : Nat}
    (enough : input.Enough n rule s.current) (poised : Poised input v rule need frames s) :
    Heeds input v (run input n rule) s fun r t =>
      Ended input v rule need frames s r t ∧ (r = none → t.current = s.current) := by
  induction n generalizing rule need frames s with
  | zero =>
    obtain ⟨m, hm, -⟩ := enough.supply poised.meets.ends.lt
    cases hm
  | succ n ih =>
    obtain ⟨m, hm, supply⟩ := enough.supply poised.meets.ends.lt
    cases hm
    have calls : ForeseenCalls input v (run input n) s.current (rule.index + 1) := by
      intro rule' need' frames' s' poised' later
      refine ih ?_ poised'
      rcases later with lt | ⟨same, le⟩
      · exact supply.beyond _ _ lt
      · exact same ▸ supply.tighter _ le
    unfold run
    rw [remembered_of_off off]
    unfold attempt
    refine .current ((body_foreseen poised calls).bind ?_)
    rintro (_ | e) t ended
    · exact .rewind (.pure ⟨ended.moveTo s.current, fun _ => rfl⟩)
    · exact .pure ⟨ended, by simp⟩

end Run

/-! ## The end of a parse -/

section Parse
variable {input : Input} {v : Verdict}

/-- At the end of the input the pass accepts a formula, and it refuses what follows one. -/
theorem step_formula {config : Config} {place spans : Nat} {sight : Sight} {spot : Spot}
    (follow : canFollow config .or sight.kind = true) (fits : spot.Fits .or spans false) :
    (⟨spot, []⟩ : Outlook).step config place sight =
      .halt (if sight.kind = .endOfInput then .accepted place else .trailing place) := by
  rcases fits with rfl | ⟨n, rfl⟩ <;> cases kind : sight.kind <;> rw [kind] at follow <;> first
    | (exfalso; revert follow; simp [canFollow, behind?, Rule.index]; done)
    | (exfalso; revert follow; simp only [canFollow, behind?]; split <;> decide)
    | simp [Outlook.step, Outlook.endOperand, Outlook.endSum, Outlook.endExpression,
        Outlook.refusal, Outlook.held, Spot.held, kind, Rule.canStart, startsAtom,
        tightOperand?, looseOperand?]

theorem Heeds.reject {α : Type} {place : Nat} {cause : ParseError.Cause} {s : State}
    {post : α → State → Prop} (h : v.abort? input = some (input.blame place cause)) :
    Heeds input v (Grammar.reject input place cause : ParseM α) s post := by
  unfold Heeds
  rw [reject_eq_blame]
  exact h

/-- Where the pass begins the parser does. -/
theorem poised_start (ends : input.EndsFrom 0) (comes : input.Comes 0 .start v) :
    Poised input v .or { rule := .or } [] .start where
  meets :=
    { ends, depth := rfl, furthest_le := Nat.le_refl _, needed := rfl }
  opening := nofun
  tighter := Nat.le_refl _
  fresh := fun _ => rfl
  unsigned := fun _ => rfl
  unheld := fun _ => rfl
  comes := fun _ => comes

theorem parseWithin_heeds (off : input.config.memoize = false) {n : Nat}
    (enough : input.Enough n .or 0) (ends : input.EndsFrom 0)
    (comes : input.Comes 0 .start v) :
    Heeds input v (parseWithin input n) .start fun _ t => v = .accepted t.current := by
  have poised := poised_start ends comes
  unfold parseWithin
  refine (run_foreseen off enough poised).bind ?_
  rintro (_ | e) t ⟨ended, -⟩
  · have missed := (ended_none (by decide)).mp ended
    obtain ⟨-, blamed⟩ := missed.blamed poised.meets comes (fun _ _ h => h) nofun
    have known : v = .unexpected t.furthest t.expected := blamed
    exact Heeds.reject (by rw [known]; rfl)
  · obtain ⟨spot, fits, landed⟩ := ended.landed
    rw [poised.pendingAt (by decide)] at fits
    have held : Outlook.held ⟨spot, []⟩ = false := fits.held
    refine .branch landed.ends (fun isEnd => ?_) fun other => ?_
    · obtain ⟨meets, comes⟩ := landed.of_followsAt (Input.followsAt_of_canFollow isEnd rfl)
      obtain ⟨sight, seen, kind⟩ := Input.exists_sight isEnd
      refine .pure ((comes_halt ?_).mp comes)
      rw [Input.step?_of_sight? seen, step_formula (kind ▸ rfl) fits, if_pos kind]
    · show Heeds input v (if t.furthest ≤ t.current then reject input t.current .trailingInput
        else rejectFurthest input) t _
      cases landed with
      | stuck _ _ failed _ blamed =>
        rw [if_neg (Nat.not_le.mpr failed)]
        have known : v = .unexpected t.furthest t.expected := by
          rw [held] at blamed
          exact blamed
        exact Heeds.reject (by rw [known]; rfl)
      | calm meets comes declines =>
        rw [if_pos meets.furthest_le]
        refine .reject ?_
        obtain ⟨first, hfirst⟩ := meets.ends.token
        obtain ⟨sight, seen, kind⟩ := Input.exists_sight (Input.kindAt_of_getElem? hfirst)
        have here := Input.kindAt_of_sight? seen
        have refused : input.step? t.current ⟨spot, []⟩ = some (.halt (.trailing t.current)) := by
          rcases declines with follow | refuses
          · have notEnd : sight.kind ≠ .endOfInput := fun isEnd => other (isEnd ▸ here)
            rw [Input.step?_of_sight? seen, step_formula (follow.canFollow (by decide) here) fits,
              if_neg notEnd]
          · rw [refuses []]
            rcases fits with rfl | ⟨n, rfl⟩ <;> rfl
        rw [(comes_halt refused).mp comes]
        rfl

theorem Input.Comes.le_place {place k : Nat} {o : Outlook} (comes : input.Comes place o v)
    (h : v.place? = some k) : place ≤ k := by
  induction comes with
  | halt stop => exact Nat.le_of_eq (place_of_step? stop h).symm
  | on _ _ ih => exact Nat.le_of_add_right_le (ih h)

/-- A verdict is about a token that is there. -/
theorem Input.Comes.exists_token {place k : Nat} {o : Outlook} (comes : input.Comes place o v)
    (h : v.place? = some k) : ∃ t, input.tokens[k]? = some t := by
  induction comes with
  | halt stop =>
    obtain rfl := place_of_step? stop h
    obtain ⟨sight, seen, -⟩ := Option.map_eq_some_iff.mp stop
    obtain ⟨t, here, -⟩ := Option.map_eq_some_iff.mp seen
    exact ⟨t, here⟩
  | on _ _ ih => exact ih h

/-- Passes over two lists of tokens come to the same verdict if their steps are the same up to
the token that is to blame. -/
theorem Input.Comes.transfer {other : Input} {place : Nat} {o : Outlook}
    (comes : input.Comes place o v)
    (same : ∀ q o, (∀ k, v.place? = some k → q ≤ k) → other.step? q o = input.step? q o) :
    other.Comes place o v := by
  induction comes with
  | halt stop => exact .halt ((same _ _ fun k h => (Input.Comes.halt stop).le_place h).trans stop)
  | on go rest ih =>
    exact .on ((same _ _ fun k h => (Input.Comes.on go rest).le_place h).trans go) (ih same)

/-- **A parse reports what the pass comes to**: an expression up to the end of the input, or
the error of the verdict. -/
theorem parse_heeds (ends : input.EndsFrom 0) (comes : input.Comes 0 .start v) :
    Heeds input v (parse input) .start fun _ t => v = .accepted t.current := by
  have forgetful : Heeds input.forgetful v (parseWithin input.forgetful input.allowance) .start
      fun _ t => v = .accepted t.current :=
    parseWithin_heeds rfl (by simp [Input.Enough, Input.allowance]; rfl) ends
      (comes.transfer fun _ _ _ => rfl)
  unfold Heeds at forgetful ⊢
  rw [parseWithin_forgetful] at forgetful
  unfold parse
  cases done : parseWithin input input.allowance .start with
  | ok e t =>
    rw [done] at forgetful
    exact forgetful
  | error abort t =>
    rw [done] at forgetful
    exact forgetful

/-- A formula ends where the verdict says. -/
theorem accepted_of_parse (ends : input.EndsFrom 0) (comes : input.Comes 0 .start v) {e : Expr}
    {s : State} (h : parse input .start = .ok e s) : v = .accepted s.current := by
  have heeds := parse_heeds ends comes
  unfold Heeds at heeds
  rwa [h] at heeds

/-- A failure is that of the verdict. -/
theorem abort_of_parse (ends : input.EndsFrom 0) (comes : input.Comes 0 .start v) {abort : Abort}
    {s : State} (h : parse input .start = .error abort s) : v.abort? input = some abort := by
  have heeds := parse_heeds ends comes
  unfold Heeds at heeds
  rwa [h] at heeds

/-! ## Texts behind the error -/

/-- The place of a rejection is that of the verdict. -/
theorem Verdict.place?_of_abort? {place : Nat} {error : ParseError}
    (h : v.abort? input = some (.rejected place error)) : v.place? = some place := by
  cases v with
  | accepted | valueless => cases h
  | trailing | unexpected | tooDeep =>
    exact congrArg some (Input.of_blame (Option.some.inj h)).1

/-- The token of a rejection stands at its place. -/
theorem Verdict.token_of_abort? {place : Nat} {error : ParseError}
    (h : v.abort? input = some (.rejected place error)) :
    input.tokens[place]? = some error.found := by
  cases v with
  | accepted | valueless => cases h
  | trailing | unexpected | tooDeep =>
    obtain ⟨rfl, -, here⟩ := Input.of_blame (Option.some.inj h)
    exact here

/-- An error says the same wherever the token that is to blame is the same. -/
theorem Verdict.abort?_congr {other : Input} {k : Nat} (h : v.place? = some k)
    (token : other.tokens[k]? = input.tokens[k]?) : v.abort? other = v.abort? input := by
  have blame (cause : ParseError.Cause) : other.blame k cause = input.blame k cause := by
    unfold Input.blame
    rw [token]
  cases v <;> cases h <;> first | rfl | exact congrArg some (blame _)

/-- What is seen at a place is in the token there and the next one. -/
theorem Input.sight?_congr {other : Input} {place : Nat}
    (here : other.tokens[place]? = input.tokens[place]?)
    (next : input.kindAt place = some .endOfInput ∨
      other.tokens[place + 1]? = input.tokens[place + 1]?) :
    other.sight? place = input.sight? place := by
  have pair (kind : Token.Kind) (hend : kind ≠ .endOfInput) :
      pairAt other place kind = pairAt input place kind := by
    rcases next with isEnd | next
    -- The end of the input is in no pair.
    · have single {i : Input} (at_end : i.kindAt place = some .endOfInput) :
          pairAt i place kind = false := by
        rw [← Bool.not_eq_true]
        intro pair
        rw [(Input.kindAt_of_pairAt pair).1] at at_end
        exact hend (Option.some.inj at_end)
      have isEnd' : other.kindAt place = some .endOfInput := by
        unfold Input.kindAt at isEnd ⊢
        rwa [here]
      rw [single isEnd, single isEnd']
    · unfold pairAt
      rw [here, next]
  unfold Input.sight?
  rw [here, pair _ (by decide), pair _ (by decide)]

/-- **An error shows at the first token that is to blame.**  Let a parse of some tokens stop
with an error at place `k`.  Then it stops with the same error at the same place for all
tokens that agree with these up to place `k + 1`, or up to place `k` if the input ends there,
as long as the end of the input is marked.  What follows does not matter. -/
theorem parse_of_agreement {other : Input} {k : Nat} {error : ParseError} {s : State}
    (config : other.config = input.config) (ends : ∃ n, input.kindAt n = some .endOfInput)
    (ends' : ∃ n, other.kindAt n = some .endOfInput)
    (h : parse input .start = .error (.rejected k error) s)
    (agree : ∀ i ≤ k, other.tokens[i]? = input.tokens[i]?)
    (next : input.kindAt k = some .endOfInput ∨
      other.tokens[k + 1]? = input.tokens[k + 1]?) :
    ∃ t, parse other .start = .error (.rejected k error) t := by
  have endsFrom {i : Input} : (∃ n, i.kindAt n = some .endOfInput) → i.EndsFrom 0 :=
    fun ⟨n, hn⟩ => ⟨n, Nat.zero_le n, hn⟩
  obtain ⟨v, comes⟩ := exists_comes (o := .start) (endsFrom ends)
  have reported := parse_heeds (endsFrom ends) comes
  unfold Heeds at reported
  rw [h] at reported
  have place := Verdict.place?_of_abort? reported
  have same (q : Nat) (o : Outlook) (le : ∀ k, v.place? = some k → q ≤ k) :
      other.step? q o = input.step? q o := by
    have le := le k place
    unfold Input.step?
    rw [config, Input.sight?_congr (agree q le)]
    rcases Nat.lt_or_eq_of_le le with lt | rfl
    · exact .inr (agree (q + 1) lt)
    · exact next
  have reported' := parse_heeds (endsFrom ends') (comes.transfer same)
  unfold Heeds at reported'
  cases done : parse other .start with
  | ok e t =>
    rw [done] at reported'
    rw [reported'] at reported
    cases reported
  | error abort t =>
    rw [done] at reported'
    rw [Verdict.abort?_congr place (agree k (Nat.le_refl k)), reported] at reported'
    cases reported'
    exact ⟨t, rfl⟩

/-- A closing parenthesis is to blame, and not what follows it. -/
theorem parse_of_agreement_paren :
    let token (kind : Token.Kind) (lexeme : String) (value : Option String) (offset : Int) :=
      (⟨kind, lexeme, value, ⟨"", 1, offset + 1, offset⟩⟩ : Token)
    let start := [token .number "1" "1" 0, token .plus "+" none 1, token .rightParen ")" none 2]
    let config : Config := { memoize := false }
    let input : Input :=
      { tokens := (start ++ [token .number "2" "2" 3, token .endOfInput "" none 4]).toArray, config }
    let other : Input :=
      { tokens := (start ++ [token .number "2" "2" 3, token .times "*" none 4,
          token .endOfInput "" none 5]).toArray, config }
    let error : ParseError := ⟨.unexpectedToken ["expression"], token .rightParen ")" none 2⟩
    (∃ s, parse input .start = .error (.rejected 2 error) s) ∧
      ∃ t, parse other .start = .error (.rejected 2 error) t := by
  intro token start config input other error
  have rejected : ∃ s, parse input .start = .error (.rejected 2 error) s := ⟨_, rfl⟩
  obtain ⟨s, h⟩ := rejected
  have agree : ∀ i ≤ 2, other.tokens[i]? = input.tokens[i]? := by decide
  have config : other.config = input.config := rfl
  exact ⟨⟨s, h⟩, parse_of_agreement config ⟨4, rfl⟩ ⟨5, rfl⟩ h agree (.inr rfl)⟩

end Parse
end Grammar
end Formula
