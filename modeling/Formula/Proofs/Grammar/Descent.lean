import Formula.Proofs.Grammar.DepthBalance
import Formula.Proofs.Grammar.Progress

/-! # Rules descend

No allowance is needed for the rules to come to an end.  A rule applies rules for which fewer
tokens are left than for itself, or as many tokens and fewer levels of precedence.  `descend` is
the recursion that this measure alone justifies: it puts a guard in front of every rule that is
applied, which lets the rule through only if the measure has dropped.

The guard always opens (`descend_eq`), so `descend` does what the rules say, without guard and
without allowance.  And a rule with an allowance that is enough does the same
(`run_eq_descend`).

All this presupposes a memory that advances.  Such is the memory behind the turns of any session
(`Session.Kept.takeAll`), and so the main statement is about sessions (`Session.rules_advance`).
-/
namespace Formula
namespace Grammar

/-! ## A recursion without allowance -/

/-- What is left for a rule at a place: so many tokens, and so many levels of precedence. -/
def Input.left (input : Input) (rule : Rule) (p : Nat) : Nat × Nat :=
  (input.tokens.size - p, Rule.count - rule.index)

/-- Less is left for a rule at a place than for another: fewer tokens, or as many tokens and
fewer levels. -/
def Input.Less (input : Input) (rule : Rule) (p : Nat) (other : Rule) (q : Nat) : Prop :=
  Prod.Lex (· < ·) (· < ·) (input.left rule p) (input.left other q)

instance (input : Input) (rule other : Rule) (p q : Nat) :
    Decidable (input.Less rule p other q) :=
  inferInstanceAs (Decidable (Prod.Lex _ _ _ _))

/-- Apply a rule at the cursor, and in it only rules for which less is left. -/
def descend (input : Input) (rule : Rule) (s : State) :
    EStateM.Result Abort State (Option Expr) :=
  remembered input rule (body input (fun tighter t =>
    if _less : input.Less tighter t.current rule s.current then descend input tighter t
    else .error .outOfTokens t) rule) s
termination_by input.left rule s.current
decreasing_by exact _less

/-- Apply a rule if less is left for it than for another one, as `descend` does. -/
def guarded (input : Input) (rule : Rule) (place : Nat) : Rule → ParseM (Option Expr) :=
  fun tighter t =>
    if input.Less tighter t.current rule place then descend input tighter t
    else .error .outOfTokens t

section Descent
variable {input : Input} {last p q : Nat} {rule other : Rule} {s : State}

theorem descend_apply (input : Input) (rule : Rule) (s : State) :
    descend input rule s =
      remembered input rule (body input (guarded input rule s.current) rule) s := by
  rw [descend]
  rfl

/-- Less is left for the rules that a rule applies. -/
theorem Rule.Later.less (later : other.Later p (rule.index + 1) q)
    (inside : p < input.tokens.size) : input.Less other q rule p := by
  have index := other.index_lt_count
  rcases later with lt | ⟨rfl, lt⟩
  · exact .left _ _ (by omega)
  · exact .right _ (by omega)

/-- The guard opens for the rules that a rule applies. -/
theorem guarded_apply (later : other.Later p (rule.index + 1) s.current)
    (inside : p < input.tokens.size) : guarded input rule p other s = descend input other s :=
  if_pos (later.less inside)

/-! ## The guard always opens -/

/-- Steps tread that each do what one of a family does. -/
theorem Treads.of_same {I J α : Type} {base : Nat} {m : J → ParseM α} {m' : I → ParseM α}
    {post : α → Nat → Prop} (h : Treads last base m p post)
    (same : ∀ s : State, s.current = p → ∀ i, ∃ j, m' i s = m j s) :
    Treads last base m' p post := by
  intro s hs advancing
  obtain ⟨outcome, all, settles⟩ := h s hs advancing
  refine ⟨outcome, fun i => ?_, settles⟩
  obtain ⟨j, hj⟩ := same s hs i
  exact hj.trans (all j)

/-- All steps of a family do the same. -/
theorem Treads.eq {J α : Type} {base : Nat} {m : J → ParseM α} {post : α → Nat → Prop}
    (h : Treads last base m p post) (hs : s.current = p) (advancing : s.memo.Advancing last)
    (i j : J) : m i s = m j s := by
  obtain ⟨outcome, all, -⟩ := h s hs advancing
  exact (all i).trans (all j).symm

/-- A rule with an allowance that is enough treads as one without allowance. -/
theorem descend_treads (ends : input.kindAt last = some .endOfInput) {n : Nat} (le : p ≤ last)
    (opens : input.Opens rule p) (enough : input.Enough n rule p) :
    Treads last p (fun limited : Bool => cond limited (run input n rule) (descend input rule)) p
      (Advances (InFront last p) p) := by
  have size := Input.kindAt_lt ends
  have inside : p < input.tokens.size := Nat.lt_of_le_of_lt le size
  induction n generalizing rule p with
  | zero =>
    obtain ⟨n, impossible, -⟩ := enough.supply inside
    cases impossible
  | succ n ih =>
    obtain ⟨m, same, supply⟩ := enough.supply inside
    obtain rfl := Nat.succ.inj same
    have step := rule_treads (J := Bool) ends
      (fun limited => cond limited (run input n) (guarded input rule p))
      (fun other q here opens later => ?_) opens
    · refine step.of_same fun s hs limited => ⟨limited, ?_⟩
      subst hs
      cases limited with
      | true => rfl
      | false => exact descend_apply input rule s
    · have le := here le
      refine (ih le opens (supply.later later) (Nat.lt_of_le_of_lt le size)).of_same
        fun s hs limited => ⟨limited, ?_⟩
      subst hs
      cases limited with
      | true => rfl
      | false => exact guarded_apply later inside

/-- **An allowance that is enough might as well not be there.** -/
theorem run_eq_descend (ends : input.kindAt last = some .endOfInput)
    (advancing : s.memo.Advancing last) (le : s.current ≤ last)
    (opens : input.Opens rule s.current) {n : Nat} (enough : input.Enough n rule s.current) :
    run input n rule s = descend input rule s :=
  (descend_treads ends le opens enough).eq rfl advancing true false

/-- **Every rule comes to an end without allowance or guard**, as the measure drops with every
rule that it applies. -/
theorem descend_eq (ends : input.kindAt last = some .endOfInput)
    (advancing : s.memo.Advancing last) (le : s.current ≤ last)
    (opens : input.Opens rule s.current) :
    descend input rule s = remembered input rule (body input (descend input) rule) s := by
  have inside : s.current < input.tokens.size := Nat.lt_of_le_of_lt le (Input.kindAt_lt ends)
  have step := rule_treads (J := Bool) ends
    (fun free => cond free (descend input) (guarded input rule s.current))
    (fun other q here opens later => ?_) opens
  · exact (descend_apply input rule s).trans (step.eq rfl advancing false true)
  · have enough : input.Enough input.allowance other q :=
      Nat.le_add_right_of_le (Nat.le_add_right _ _)
    refine (descend_treads ends (here le) opens enough).of_same fun t ht free => ⟨false, ?_⟩
    subst ht
    cases free with
    | true => rfl
    | false => exact guarded_apply later inside

end Descent

/-! ## Sessions -/

section Parse
variable {input : Input} {last : Nat} {α : Type} {p : Nat} {post : α → Nat → Prop}

/-- Nothing is asked of the places of a step that starts behind the end of the input. -/
theorem inFront_succ (last q : Nat) : InFront last (last + 1) q :=
  fun le => absurd le (Nat.not_succ_le_self last)

theorem reject_treads (place : Nat) (cause : ParseError.Cause) :
    Treads last (last + 1) (fun _ : Unit => reject input place cause) p post :=
  fun s _ advancing => ⟨_, fun _ => reject_eq_blame (s := s) place cause, advancing,
    fun le => absurd le (Nat.not_succ_le_self last)⟩

theorem rejectFurthest_treads :
    Treads last (last + 1) (fun _ : Unit => rejectFurthest input) p post :=
  fun s hs advancing => reject_treads s.furthest (.unexpectedToken s.expected.texts) s hs advancing

/-- A parse from any place leaves a memory that advances. -/
theorem parseWithin_treads (ends : input.kindAt last = some .endOfInput) (allowance : Nat) :
    Treads last (last + 1) (fun _ : Unit => parseWithin input allowance) p fun _ _ => True := by
  have logic := treads_placewise (J := Unit) ends (last + 1)
  have opens : input.Opens .or p := nofun
  have formula := (run_treads ends allowance opens).widen (inFront_succ last p)
  refine logic.bind formula ?_
  rintro (_ | e) q -
  · exact rejectFurthest_treads
  · refine logic.branch (inFront_succ last q) (fun _ _ _ => logic.pure trivial) ?_
    intro s hs advancing
    show ∃ outcome, (∀ _ : Unit, (if s.furthest ≤ s.current then
      reject input s.current .trailingInput else rejectFurthest input) s = outcome) ∧ _
    split
    · exact reject_treads _ _ s hs advancing
    · exact rejectFurthest_treads s hs advancing

end Parse

namespace Session

/-- A session over some tokens with a memory that advances. -/
structure Kept (tokens : Array Token) (last : Nat) (session : Session) : Prop where
  tokens : session.input.tokens = tokens
  advancing : session.state.memo.Advancing last

section Kept
variable {tokens : Array Token} {last : Nat} {session : Session}

theorem Kept.ends (kept : Kept tokens last session)
    (ends : tokens[last]?.map Token.kind = some .endOfInput) :
    session.input.kindAt last = some .endOfInput := by
  rw [Input.kindAt, kept.tokens, ends]

theorem Kept.parse (ends : tokens[last]?.map Token.kind = some .endOfInput)
    (kept : Kept tokens last session) : Kept tokens last session.parse.2 := by
  refine ⟨by rw [input_parse]; exact kept.tokens, ?_⟩
  unfold Session.parse
  split
  · next place _ =>
    have settles := (parseWithin_treads (kept.ends ends) session.input.allowance).settles
      (s := { session.state with current := place }) rfl kept.advancing
    unfold parseFrom Grammar.parse
    split <;> next done =>
      rw [done] at settles
      exact settles.1
  -- What is remembered of places counted back from the end is kept apart.
  · unfold parseFromEnd
    dsimp only
    split
    · exact kept.advancing
    · split <;> exact kept.advancing

theorem Kept.takeAll (ends : tokens[last]?.map Token.kind = some .endOfInput)
    (kept : Kept tokens last session) (turns : List Turn) :
    Kept tokens last (session.takeAll turns) := by
  induction turns generalizing session with
  | nil => exact kept
  | cons turn turns ih =>
    refine ih ?_
    cases turn with
    | seek place => exact ⟨kept.tokens, kept.advancing⟩
    | configure config => exact ⟨kept.tokens, kept.advancing⟩
    | parse => exact kept.parse ends

end Kept

/-- **Every rule makes progress or leaves the cursor alone, and the rules come to an end.**  Let
there be an end of the input among some tokens, the first one for instance.  Behind any turns of a
session all that is remembered of rules is that they advance.  With such a memory, at any place
that is not behind the end of the input and in any dialect, whether it remembers results or not:

* every loop takes a token in each round after which it goes on, and stops by itself;
* a rule that applies takes tokens and does not pass the end, a rule that does not leaves the
  cursor in its place, the tokens never run out, and the memory stays like that;
* a rule does the same with an allowance that is enough as without any, where each rule applies
  rules for which fewer tokens are left, or as many tokens and fewer levels of precedence. -/
theorem rules_advance {tokens : List Token} {last : Nat}
    (ends : tokens[last]?.map Token.kind = some .endOfInput) (config : Config)
    (turns : List Turn) :
    let session := (start tokens config).takeAll turns
    let input := session.input
    session.state.memo.Advancing last ∧
    ∀ s : State, s.memo.Advancing last → s.current ≤ last →
      (∀ allowance, LoopsStride input (run input allowance) s) ∧
      ∀ rule, input.Opens rule s.current →
        (∀ allowance e t, run input allowance rule s = .ok (some e) t →
          s.current < t.current ∧ t.current ≤ last ∧ t.memo.Advancing last) ∧
        (∀ allowance t, run input allowance rule s = .ok none t →
          t.current = s.current ∧ t.memo.Advancing last) ∧
        (∀ allowance abort t, run input allowance rule s = .error abort t →
          abort ≠ .outOfTokens ∧ t.memo.Advancing last) ∧
        (∀ allowance, input.Enough allowance rule s.current →
          run input allowance rule s = descend input rule s) ∧
        descend input rule s = remembered input rule (body input (descend input) rule) s := by
  intro session input
  have ends' : tokens.toArray[last]?.map Token.kind = some .endOfInput := by
    rw [List.getElem?_toArray]
    exact ends
  have kept : Kept tokens.toArray last session :=
    Kept.takeAll ends' ⟨rfl, .empty⟩ turns
  have ends : input.kindAt last = some .endOfInput := kept.ends ends'
  refine ⟨kept.advancing, fun s advancing le =>
    ⟨fun allowance => loopsStride ends allowance advancing le, fun rule opens => ?_⟩⟩
  have settles (allowance : Nat) := (run_treads ends allowance opens).settles rfl advancing
  refine ⟨fun allowance e t done => ?_, fun allowance t done => ?_,
    fun allowance abort t done => ?_, fun _ enough => run_eq_descend ends advancing le opens enough,
    descend_eq ends advancing le opens⟩
  · obtain ⟨kept, advances⟩ := done ▸ settles allowance
    exact ⟨advances.lt (Option.some_ne_none e), advances.inside le, kept⟩
  · obtain ⟨kept, advances⟩ := done ▸ settles allowance
    exact ⟨advances.back rfl, kept⟩
  · obtain ⟨kept, notOut⟩ := done ▸ settles allowance
    exact ⟨notOut le, kept⟩

set_option maxRecDepth 4000 in
/-- A span without a start, whose stop was read before, ends in front of a sign without an
operand. -/
theorem rules_advance_span :
    let token (kind : Token.Kind) (lexeme : String) (value : Option String) (offset : Int) : Token :=
      ⟨kind, lexeme, value, ⟨"", 1, offset + 1, offset⟩⟩
    let tokens := [token .span ";;" none 0, token .number "1" "1" 2, token .plus "+" none 3,
      token .endOfInput "" none 4]
    let session := (start tokens {}).takeAll [.seek 1, .parse]
    let s := session.state.moveTo 0
    tokens[3]?.map Token.kind = some .endOfInput ∧
      s.memo.find? .or 1 = some (.done (some (.number "1")) 2) ∧
      ∃ t, run session.input session.input.allowance .or s =
          .ok (some (.node .span [.number "1", .number "1"])) t ∧
        s.current < t.current ∧ t.current ≤ 3 := by
  intro token tokens
  have ends : tokens[3]?.map Token.kind = some .endOfInput := rfl
  have progress := rules_advance ends {} [.seek 1, .parse]
  have remembered : ((start tokens {}).takeAll [.seek 1, .parse]).state.memo.find? .or 1 =
      some (.done (some (.number "1")) 2) := by
    cbv
  have result : (run ((start tokens {}).takeAll [.seek 1, .parse]).input
        ((start tokens {}).takeAll [.seek 1, .parse]).input.allowance .or).run'
        (((start tokens {}).takeAll [.seek 1, .parse]).state.moveTo 0) =
      some (some (.node .span [.number "1", .number "1"])) := by
    cbv
  -- From here on the session matters only by what was found out of it.
  revert progress remembered result
  generalize (start tokens {}).takeAll [.seek 1, .parse] = session
  intro progress remembered result
  refine ⟨ends, remembered, ?_⟩
  unfold EStateM.run' EStateM.run at result
  cases done : run session.input session.input.allowance .or (session.state.moveTo 0) with
  | error abort t =>
    rw [done] at result
    cases result
  | ok r t =>
    rw [done] at result
    obtain rfl := Option.some.inj result
    have opens : session.input.Opens .or 0 := by
      intro kind opener
      cases opener
    obtain ⟨-, rules⟩ := progress.2 (session.state.moveTo 0) progress.1 (Nat.zero_le 3)
    obtain ⟨read, -⟩ := rules .or opens
    obtain ⟨lt, le, -⟩ := read _ _ t done
    exact ⟨t, rfl, lt, le⟩

end Session
end Grammar
end Formula
