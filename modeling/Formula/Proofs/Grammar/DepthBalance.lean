import Formula.Grammar.Session
import Formula.Proofs.Grammar.Composition
import Formula.Proofs.Grammar.Conclusion
import Formula.Proofs.Grammar.Heeds

/-! # The count of open brackets

A bracket is counted where it opens, and what stands behind it restores the count from before,
whether the part in brackets was read, did not apply or stopped the parse.  The one exception is
a bracket that is itself one too many for the dialect: it is counted, and stops the parse before
anything restores the count.  An open bracket around it does that.  So a parse leaves the count
one too high just where the cap stops it and not even one bracket may be opened (`depthBehind`),
and the next parse of a session starts from the wrong count (`Session.depth_takeAll`).

Nothing else is asked of the tokens, the cursor or the memory: each step of a parse restores the
count (`Restores`), and so does whatever is put together of such steps.
-/
namespace Formula
namespace Grammar

/-- A parse was stopped because more brackets were open than the dialect allows. -/
def Abort.isCapped : Abort → Bool
  | .rejected _ ⟨.nestedTooDeeply (some _), _⟩ => true
  | .rejected .. | .outOfTokens | .valueless => false

/-- How many brackets count as open where a parse was stopped that started with `depth` of
them. -/
def depthBehind (config : Config) (depth : Nat) (abort : Abort) : Nat :=
  if abort.isCapped ∧ config.exceededCap? (depth + 1) ≠ none then depth + 1 else depth

/-- Behind a step as many brackets count as open as before, but for one that the dialect does not
allow where no other is open. -/
def Restores {α : Type} (input : Input) (m : ParseM α) : Prop :=
  ∀ s, match m s with
    | .ok _ t => t.depth = s.depth
    | .error abort t => t.depth = depthBehind input.config s.depth abort

/-- Only the cap makes a bracket count too many. -/
theorem depthBehind_of_not_capped {config : Config} {abort : Abort} (h : abort.isCapped = false)
    (depth : Nat) : depthBehind config depth abort = depth := by
  rw [depthBehind, h]
  rfl

/-- Where one more bracket is allowed none counts too many. -/
theorem depthBehind_of_allowed {config : Config} {depth : Nat}
    (h : config.exceededCap? (depth + 1) = none) (abort : Abort) :
    depthBehind config depth abort = depth := by
  rw [depthBehind, h]
  simp

namespace Restores
variable {α β : Type} {input : Input}

/-! ## Elementary steps -/

/-- A step that only looks at the state, or changes another part of it. -/
theorem of_ok {m : ParseM α} (h : ∀ s, ∃ a t, m s = .ok a t ∧ t.depth = s.depth) :
    Restores input m := by
  intro s
  obtain ⟨a, t, done, same⟩ := h s
  rw [done]
  exact same

theorem pure {a : α} : Restores input (Pure.pure a) :=
  of_ok fun s => ⟨a, s, rfl, rfl⟩

theorem bind {m : ParseM β} {f : β → ParseM α} (first : Restores input m)
    (next : ∀ b, Restores input (f b)) : Restores input (m >>= f) := by
  intro s
  have ends := first s
  rw [bind_apply]
  cases h : m s with
  | ok b t =>
    rw [h] at ends
    have ends : t.depth = s.depth := ends
    rw [← ends]
    exact next b t
  | error abort t =>
    rw [h] at ends
    exact ends

theorem throw {abort : Abort} (h : abort.isCapped = false) :
    Restores input (MonadExcept.throw abort : ParseM α) :=
  fun s => (depthBehind_of_not_capped h s.depth).symm

theorem get : Restores input (MonadState.get : ParseM State) :=
  of_ok fun s => ⟨s, s, rfl, rfl⟩

theorem change {f : State → State} (h : ∀ s, (f s).depth = s.depth) :
    Restores input (modify f : ParseM Unit) :=
  of_ok fun s => ⟨(), f s, rfl, h s⟩

theorem current : Restores input Grammar.current :=
  get.bind fun _ => pure

theorem rewind {place : Nat} : Restores input (Grammar.rewind place) :=
  change fun _ => rfl

theorem tokenAt {place : Nat} : Restores input (Grammar.tokenAt input place) := by
  unfold Grammar.tokenAt
  split
  · exact pure
  · exact throw rfl

theorem peek : Restores input (Grammar.peek input) :=
  current.bind fun _ => tokenAt

theorem advance : Restores input (Grammar.advance input) := by
  unfold Grammar.advance
  refine peek.bind fun t => ?_
  dsimp only
  split
  · refine bind (change ?_) fun _ => pure
    exact fun _ => rfl
  · exact pure

theorem expect {e : Expectation} : Restores input (Grammar.expect e) :=
  change fun s => s.depth_expect e

/-- **A bracketed part restores the count**, unless the bracket itself is one too many. -/
theorem nested {m : ParseM α} {place : Nat} {opening : Token} :
    Restores input (Grammar.nested input place opening m) := by
  intro s
  unfold Grammar.nested
  dsimp only
  cases cap : input.config.exceededCap? (s.depth + 1) with
  | some limit =>
    show s.depth + 1 = depthBehind input.config s.depth _
    rw [depthBehind, if_pos ⟨rfl, by rw [cap]; exact nofun⟩]
  | none =>
    dsimp only
    cases m { s with depth := s.depth + 1 } with
    | ok a t => rfl
    | error abort t => exact (depthBehind_of_allowed cap abort).symm

/-- What a rule is put together of restores the count, whatever it gives.  Of what stands in
brackets not even that is asked. -/
theorem compositional (input : Input) :
    Compositional input .nothing fun m _ => Restores input m where
  pure _ := pure
  bind := bind
  mark next := current.bind fun place => next place trivial
  look next := peek.bind fun t => next t trivial
  opening next := current.bind fun place => advance.bind fun t => next place t trivial
  nested _ _ := nested
  rewind _ := rewind
  advance := advance
  expect _ := expect
  valueless _ _ _ := throw rfl

theorem remembered {rule : Rule} {m : ParseM (Option Expr)} (h : Restores input m) :
    Restores input (Grammar.remembered input rule m) := by
  have attempts : Restores input (attempt m) :=
    @Compositional.attempt input _ _ (compositional input) m m h
  unfold Grammar.remembered
  split
  · refine current.bind fun start => get.bind fun s => ?_
    split
    · exact pure
    · exact rewind.bind fun _ => pure
    · refine bind (change ?_) fun _ => attempts.bind fun r => bind (change ?_) fun _ => pure
      · exact fun _ => rfl
      · exact fun _ => rfl
  · exact attempts

/-- A rule restores the count if the rules that it applies do. -/
theorem body {call : Rule → ParseM (Option Expr)} (calls : ∀ rule, Restores input (call rule))
    (rule : Rule) : Restores input (Grammar.body input call rule) :=
  @Compositional.body input _ _ (compositional input) call call calls rule

/-! ## Parses -/

/-- **Every rule restores the count**, whatever is remembered. -/
theorem run (allowance : Nat) (rule : Rule) :
    Restores input (Grammar.run input allowance rule) := by
  induction allowance generalizing rule with
  | zero => exact current.bind fun place => peek.bind fun t => throw rfl
  | succ allowance ih => exact remembered (body ih rule)

theorem reject {place : Nat} {cause : ParseError.Cause}
    (h : ∀ t, (Abort.rejected place ⟨cause, t⟩).isCapped = false) :
    Restores input (Grammar.reject input place cause : ParseM α) :=
  tokenAt.bind fun t => throw (h t)

theorem rejectFurthest : Restores input (Grammar.rejectFurthest input : ParseM α) :=
  get.bind fun _ => reject fun _ => rfl

theorem parseWithin (allowance : Nat) : Restores input (Grammar.parseWithin input allowance) := by
  refine (run allowance .or).bind ?_
  rintro (_ | e)
  · exact rejectFurthest
  · refine (peek.bind fun t => pure).bind ?_
    rintro (_ | _)
    · refine get.bind fun s => ?_
      split
      · exact reject fun _ => rfl
      · exact rejectFurthest
    · exact pure

end Restores

/-! ## Sessions -/

/-- How many brackets count as open behind a parse that started with `depth` of them. -/
def depthAfter (config : Config) (depth : Nat) : Except Abort Expr → Nat
  | .ok _ => depth
  | .error abort => depthBehind config depth abort

namespace Session

/-- A turn of a session: the cursor is moved to a place, another dialect is chosen, or the tokens
are parsed. -/
inductive Turn
  | seek (place : Int)
  | configure (config : Config)
  | parse

/-- The session behind a turn. -/
def take (session : Session) : Turn → Session
  | .seek place => session.seek place
  | .configure config => session.configure config
  | .parse => session.parse.2

/-- The session behind some turns. -/
def takeAll (session : Session) (turns : List Turn) : Session :=
  turns.foldl take session

section Depth
variable (session : Session)

theorem depth_parseFrom (place : Nat) :
    (session.parseFrom place).2.state.depth =
      depthAfter session.input.config session.state.depth (session.parseFrom place).1 := by
  have ends := @Restores.parseWithin session.input session.input.allowance
    { session.state with current := place }
  unfold parseFrom Grammar.parse
  split <;> next h =>
    rw [h] at ends
    exact ends

/-- What is reported instead of a place that the tokens do not have is not the cap. -/
theorem isCapped_furthestError : session.furthestError.isCapped = false := by
  unfold furthestError rejectFurthest
  rw [get_bind_apply, reject_eq_blame]
  unfold Input.blame
  cases session.input.tokens[session.state.furthest]? <;> rfl

theorem depth_parseFromEnd (distance : Nat) :
    (session.parseFromEnd distance).2.state.depth =
      depthAfter session.input.config session.state.depth (session.parseFromEnd distance).1 := by
  unfold parseFromEnd
  dsimp only
  split
  · exact (depthBehind_of_not_capped rfl _).symm
  · have ends := @Restores.parseWithin session.input session.input.allowance
      { session.state with
        current := session.input.tokens.size - distance
        furthest := session.input.tokens.size
        memo := session.fromEnd }
    unfold Grammar.parse
    split
    · next h =>
      rw [h] at ends
      exact ends
    -- Both errors leave the count as it was.
    · next h =>
      rw [h] at ends
      exact ends.trans (depthBehind_of_not_capped session.isCapped_furthestError _).symm
    · next h =>
      rw [h] at ends
      exact ends

/-- The count of open brackets behind a parse depends on nothing but the count before it, the cap
and whether the cap stopped the parse. -/
theorem depth_parse :
    session.parse.2.state.depth =
      depthAfter session.input.config session.state.depth session.parse.1 := by
  unfold parse
  split
  · exact session.depth_parseFrom _
  · exact session.depth_parseFromEnd _

theorem input_parse : session.parse.2.input = session.input := by
  unfold parse
  split
  · unfold parseFrom
    split <;> rfl
  · unfold parseFromEnd
    dsimp only
    split
    · rfl
    · split <;> rfl

end Depth

/-- So many brackets count as open in a session, and its dialect allows one more. -/
structure Level (session : Session) (depth : Nat) : Prop where
  counted : session.state.depth = depth
  allowed : session.input.config.exceededCap? (depth + 1) = none

/-- A parse does not change the count where one more bracket is allowed. -/
theorem Level.parse {session : Session} {depth : Nat} (level : session.Level depth) :
    session.parse.2.Level depth := by
  obtain ⟨rfl, allowed⟩ := level
  refine ⟨?_, by rw [input_parse]; exact allowed⟩
  rw [depth_parse]
  unfold depthAfter
  split
  · rfl
  · exact depthBehind_of_allowed allowed _

theorem Level.take {session : Session} {depth : Nat} {turn : Turn} (level : session.Level depth)
    (allowed : ∀ config, turn = .configure config → config.exceededCap? (depth + 1) = none) :
    (session.take turn).Level depth := by
  cases turn with
  | seek place => exact ⟨level.counted, level.allowed⟩
  | configure config => exact ⟨level.counted, allowed config rfl⟩
  | parse => exact level.parse

theorem Level.takeAll {session : Session} {depth : Nat} {turns : List Turn}
    (level : session.Level depth)
    (allowed : ∀ config, .configure config ∈ turns → config.exceededCap? (depth + 1) = none) :
    (session.takeAll turns).Level depth := by
  induction turns generalizing session with
  | nil => exact level
  | cons turn turns ih =>
    have next : (session.take turn).Level depth := by
      refine level.take fun config same => allowed config ?_
      rw [same]
      exact List.mem_cons_self
    exact ih next fun config member => allowed config (List.mem_cons_of_mem _ member)

/-- **The count of open brackets is balanced where a bracket may be opened.**  Behind a parse of
any session the count is what it was before, or one more if the cap stopped the parse and did not
allow a single bracket.  So it never changes in a session in which every dialect allows one more
bracket than were open at the start. -/
theorem depth_takeAll (session : Session) :
    session.parse.2.state.depth =
        depthAfter session.input.config session.state.depth session.parse.1 ∧
      ∀ turns : List Turn, session.input.config.exceededCap? (session.state.depth + 1) = none →
        (∀ config, .configure config ∈ turns →
          config.exceededCap? (session.state.depth + 1) = none) →
        (session.takeAll turns).state.depth = session.state.depth := by
  refine ⟨session.depth_parse, fun turns allowed configured => ?_⟩
  have level : session.Level session.state.depth := ⟨rfl, allowed⟩
  exact (level.takeAll configured).counted

/-- The second of two brackets is one too many, and the count is as before.  So both are read where
two are allowed. -/
theorem depth_takeAll_inner :
    let token (kind : Token.Kind) (lexeme : String) (value : Option String) (offset : Int) : Token :=
      ⟨kind, lexeme, value, ⟨"", 1, offset + 1, offset⟩⟩
    let capped (cap : Int) : Config := { memoize := false, maxNestingDepth := some cap }
    let session := start [token .leftParen "(" none 0, token .leftParen "(" none 1,
      token .number "1" "1" 2, token .rightParen ")" none 3, token .rightParen ")" none 4,
      token .endOfInput "" none 5] (capped 1)
    let turns : List Turn := [.parse, .configure (capped 2), .seek 0]
    session.parse.1 =
        .error (.rejected 1 ⟨.nestedTooDeeply (some 1), token .leftParen "(" none 1⟩) ∧
      session.parse.2.state.depth = 0 ∧ (session.takeAll turns).state.depth = 0 ∧
      (session.takeAll turns).parse.1 = .ok (.number "1") := by
  intro token capped session turns
  have allowed : session.input.config.exceededCap? (session.state.depth + 1) = none := by decide
  have configured : ∀ config, Turn.configure config ∈ turns →
      config.exceededCap? (session.state.depth + 1) = none := by
    intro config member
    simp only [turns, List.mem_cons, Turn.configure.injEq, reduceCtorEq, List.not_mem_nil, or_false,
      false_or] at member
    subst member
    decide
  have stopped : session.parse.1 =
      .error (.rejected 1 ⟨.nestedTooDeeply (some 1), token .leftParen "(" none 1⟩) := by
    rfl
  obtain ⟨behind, balanced⟩ := depth_takeAll session
  rw [stopped] at behind
  have read : (session.takeAll turns).parse.1 = .ok (.number "1") := by
    cbv
  exact ⟨stopped, behind.trans rfl, balanced turns allowed configured, read⟩

/-- A bracket where none is allowed leaves the count one too high.  One bracket is too many then
for a cap of one, although a new session reads it. -/
theorem depth_parse_one_too_many :
    let token (kind : Token.Kind) (lexeme : String) (value : Option String) (offset : Int) : Token :=
      ⟨kind, lexeme, value, ⟨"", 1, offset + 1, offset⟩⟩
    let capped (cap : Int) : Config := { memoize := false, maxNestingDepth := some cap }
    let tokens := [token .leftParen "(" none 0, token .number "1" "1" 1,
      token .rightParen ")" none 2, token .endOfInput "" none 3]
    let stopped := (start tokens (capped 0)).parse.2
    (start tokens (capped 0)).state.depth = 0 ∧ stopped.state.depth = 1 ∧
      ((stopped.configure (capped 1)).seek 0).parse.1 =
        .error (.rejected 0 ⟨.nestedTooDeeply (some 1), token .leftParen "(" none 0⟩) ∧
      (start tokens (capped 1)).parse.1 = .ok (.number "1") :=
  ⟨rfl, rfl, rfl, rfl⟩

end Session
end Grammar
end Formula
