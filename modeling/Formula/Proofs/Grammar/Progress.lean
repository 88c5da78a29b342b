import Formula.Proofs.Grammar.Completeness
import Formula.Proofs.Grammar.Placewise
import Formula.Proofs.Grammar.Shortfall

/-! # Rules make progress

A rule that applies takes at least one token, and one that does not leaves the cursor where it
was.  This goes for what is remembered as well (`Memo.Advancing`), so that it makes no difference
whether a rule reads the tokens or finds its result, and how the memory came about.  Neither moves
the cursor from a place in front of an end of the input to one behind it.

The judgement `Treads` says so of a step at a place.  It is one of those of the module
`Formula.Proofs.Grammar.Placewise`, so it holds of every rule with any allowance (`run_treads`),
and each loop of the grammar makes its way in rounds that take tokens (`loopsStride`).
-/
namespace Formula
namespace Grammar

/-! ## What is remembered -/

/-- A place is in front of an end of the input if the place that was started from is. -/
def InFront (last base : Nat) (q : Nat) : Prop :=
  base ≤ last → q ≤ last

/-- All that is remembered of rules is that they advance. -/
def Memo.Advancing (last : Nat) (memo : Memo) : Prop :=
  ∀ rule p result stop, memo.find? rule p = some (.done result stop) →
    Advances (InFront last p) p result stop

section Memory
variable {last p : Nat} {memo : Memo} {rule : Rule}

theorem Memo.Advancing.empty : Memo.empty.Advancing last := by
  intro rule p result stop found
  rw [Memo.find?_empty] at found
  cases found

theorem Memo.Advancing.store {entry : Memo.Entry} (advancing : memo.Advancing last)
    (advances : ∀ result stop, entry = .done result stop →
      Advances (InFront last p) p result stop) :
    (memo.store rule p entry).Advancing last := by
  intro rule' p' result stop found
  rw [Memo.find?_store] at found
  split at found
  · next same =>
    obtain ⟨rfl, rfl⟩ := same
    exact advances result stop (Option.some.inj found)
  · exact advancing rule' p' result stop found

theorem Advances.widen {base stop : Nat} {result : Option Expr}
    (advances : Advances (InFront last p) p result stop) (here : InFront last base p) :
    Advances (InFront last base) p result stop :=
  ⟨fun le => advances.inside (here le), advances.back, advances.lt⟩

end Memory

/-! ## Steps that tread -/

/-- An outcome with an advancing memory.  A result and the place behind it meet the
postcondition.  The tokens run out only behind the end of the input. -/
def Settles {α : Type} (last base : Nat) (post : α → Nat → Prop) :
    EStateM.Result Abort State α → Prop
  | .ok a t => t.memo.Advancing last ∧ post a t.current
  | .error abort t => t.memo.Advancing last ∧ (base ≤ last → abort ≠ .outOfTokens)

/-- With an advancing memory all steps of a family come to the same outcome at a place, and it
settles. -/
def Treads {J : Type} (last base : Nat) {α : Type} (m : J → ParseM α) (p : Nat)
    (post : α → Nat → Prop) : Prop :=
  ∀ s : State, s.current = p → s.memo.Advancing last →
    ∃ outcome, (∀ j, m j s = outcome) ∧ Settles last base post outcome

section Treads
variable {J : Type} {input : Input} {α β : Type} {last base p q : Nat} {post : α → Nat → Prop}

/-- What a single step that treads comes to. -/
theorem Treads.settles {m : ParseM α} {s : State}
    (h : Treads last base (fun _ : Unit => m) p post) (hs : s.current = p)
    (advancing : s.memo.Advancing last) : Settles last base post (m s) := by
  obtain ⟨outcome, same, settles⟩ := h s hs advancing
  obtain rfl := same ()
  exact settles

/-- A step that depends on its place only treads. -/
theorem Steady.treads {m : ParseM α} {a : α} {f : Shortfall} (h : Steady m p a q f)
    (ha : post a q) : Treads last base (fun _ : J => m) p post :=
  fun s hs advancing => ⟨_, fun _ => h s hs, advancing, ha⟩

theorem Treads.bind {m : J → ParseM β} {k : J → β → ParseM α} {mid : β → Nat → Prop}
    (first : Treads last base m p mid)
    (next : ∀ b q, mid b q → Treads last base (fun j => k j b) q post) :
    Treads last base (fun j => m j >>= k j) p post := by
  intro s hs advancing
  obtain ⟨outcome, same, settles⟩ := first s hs advancing
  simp only [bind_apply, same]
  cases outcome with
  | ok b t => exact next b t.current settles.2 t rfl settles.1
  | error abort t => exact ⟨_, fun _ => rfl, settles⟩

/-- In front of the end of the input there is a token. -/
theorem peek_treads (ends : input.kindAt last = some .endOfInput) (here : InFront last base p) :
    Treads last base (fun _ : J => peek input) p
      fun first q => input.tokens[p]? = some first ∧ q = p := by
  rintro s rfl advancing
  cases found : input.tokens[s.current]? with
  | some first => exact (Steady.peek found).treads ⟨rfl, rfl⟩ s rfl advancing
  | none =>
    have missing : peek input s = .error .outOfTokens s := by
      unfold peek tokenAt
      rw [current_bind_apply, found]
      rfl
    refine ⟨_, fun _ => missing, advancing, fun le => ?_⟩
    have lt := Nat.lt_of_le_of_lt (here le) (Input.kindAt_lt ends)
    rw [Array.getElem?_eq_getElem lt] at found
    cases found

theorem nested_treads {m : J → ParseM α} {place : Nat} {opening : Token}
    (h : Treads last base m p post) :
    Treads last base (fun j => nested input place opening (m j)) p post := by
  intro s hs advancing
  unfold nested
  dsimp only
  cases input.config.exceededCap? (s.depth + 1) with
  | some limit => exact ⟨_, fun _ => rfl, advancing, nofun⟩
  | none =>
    obtain ⟨outcome, same, settles⟩ := h (s.atDepth (s.depth + 1)) hs advancing
    unfold State.atDepth at same
    simp only [same]
    cases outcome with
    | ok a t => exact ⟨_, fun _ => rfl, settles⟩
    | error abort t => exact ⟨_, fun _ => rfl, settles⟩

/-- The judgement holds of the elementary steps and of what is put together of them. -/
theorem treads_placewise (ends : input.kindAt last = some .endOfInput) (base : Nat) :
    Placewise input (InFront last base) (@Treads J last base) where
  pure h := Steady.pure.treads h
  bind := Treads.bind
  current := Steady.current.treads ⟨rfl, rfl⟩
  rewind := Steady.rewind.treads rfl
  peek := peek_treads ends
  advance {p first} here found notEnd := by
    refine (Steady.advance found notEnd).treads ⟨rfl, fun le => ?_, rfl⟩
    refine Nat.lt_of_le_of_ne (here le) fun same => notEnd ?_
    rw [← same, Input.kindAt_of_getElem? found] at ends
    exact Option.some.inj ends
  expect _ := Steady.expect.treads rfl
  nested := nested_treads
  needValue {p minuses first e} _ := by
    unfold needValue
    split
    · exact fun s _ advancing => ⟨.error .valueless s, fun _ => rfl, advancing, nofun⟩
    · exact Steady.pure.treads rfl

/-- A rule treads from its own place.  So it does from one in front of it. -/
theorem Treads.widen {m : J → ParseM (Option Expr)}
    (h : Treads last p m p (Advances (InFront last p) p)) (here : InFront last base p) :
    Treads last base m p (Advances (InFront last base) p) := by
  intro s hs advancing
  obtain ⟨outcome, same, settles⟩ := h s hs advancing
  refine ⟨outcome, same, ?_⟩
  cases outcome with
  | ok r t => exact ⟨settles.1, settles.2.widen here⟩
  | error abort t => exact ⟨settles.1, fun le => settles.2 (here le)⟩

/-- What is remembered of a rule is as good as the rule. -/
theorem remembered_treads {rule : Rule} {m : J → ParseM (Option Expr)}
    (h : Treads last p (fun j => attempt (m j)) p (Advances (InFront last p) p)) :
    Treads last p (fun j => remembered input rule (m j)) p (Advances (InFront last p) p) := by
  rintro s rfl advancing
  cases memoize : input.config.memoize with
  | false =>
    simp only [remembered_of_off memoize]
    exact h s rfl advancing
  | true =>
    cases found : s.memo.find? rule s.current with
    | some entry =>
      cases entry with
      | inProgress =>
        exact ⟨_, fun _ => remembered_of_atWork memoize found, advancing, id, fun _ => rfl, nofun⟩
      | done result stop =>
        exact ⟨_, fun _ => remembered_of_hit memoize found, advancing, advancing _ _ _ _ found⟩
    | none =>
      have marked : (s.remember rule s.current .inProgress).memo.Advancing last :=
        advancing.store nofun
      obtain ⟨outcome, same, settles⟩ := h (s.remember rule s.current .inProgress) rfl marked
      simp only [remembered_of_miss memoize found, same]
      cases outcome with
      | error abort t => exact ⟨_, fun _ => rfl, settles⟩
      | ok r t =>
        refine ⟨_, fun _ => rfl, settles.1.store fun result stop same => ?_, settles.2⟩
        cases same
        exact settles.2

end Treads

/-! ## Rules -/

section Run
variable {input : Input} {last : Nat}

/-- If the rules that a rule applies tread, then so does the rule. -/
theorem rule_treads {J : Type} {p : Nat} {rule : Rule}
    (ends : input.kindAt last = some .endOfInput) (call : J → Rule → ParseM (Option Expr))
    (calls : ∀ rule' q, InFront last p q → input.Opens rule' q → rule'.Later p (rule.index + 1) q →
      Treads last q (fun j => call j rule') q (Advances (InFront last q) q))
    (opens : input.Opens rule p) :
    Treads last p (fun j => remembered input rule (body input (call j) rule)) p
      (Advances (InFront last p) p) := by
  have logic := treads_placewise (J := J) ends p
  refine remembered_treads (logic.attempt id (logic.body call ?_ id opens))
  exact fun rule' q here opens later => (calls rule' q here opens later).widen here

/-- **A rule that applies takes a token, and one that does not leaves the cursor in its place**,
whatever the allowance and the memory. -/
theorem run_treads (ends : input.kindAt last = some .endOfInput) (allowance : Nat) {rule : Rule}
    {p : Nat} (opens : input.Opens rule p) :
    Treads last p (fun _ : Unit => run input allowance rule) p (Advances (InFront last p) p) := by
  induction allowance generalizing rule p with
  | zero =>
    have logic := treads_placewise (J := Unit) ends p
    refine logic.mark (logic.look id fun first _ => ?_)
    exact fun s _ advancing => ⟨_, fun _ => rfl, advancing, nofun⟩
  | succ allowance ih => exact rule_treads ends _ (fun _ _ _ opens _ => ih opens) opens

/-! ## Loops -/

/-- Every loop of the grammar strides at a state, whatever has been read before, if rules are
applied by `call`. -/
structure LoopsStride (input : Input) (call : Rule → ParseM (Option Expr)) (s : State) :
    Prop where
  signs : ∀ kind ≠ .endOfInput,
    Strides (acceptRound input kind) 0 s (acceptMany input kind input.bound s)
  level : ∀ level operand left, level.operand? = some operand →
    Strides (foldRound input call level operand) left s
      (foldMore input call level operand input.bound left s)
  factors : ∀ left,
    Strides (productRound input call) left s (productMore input call input.bound left s)
  exponents : Strides (exponentRound input call) [] s (exponents input call input.bound s)
  indices : ∀ e, Strides (indexRound input call) e s (indexed input call input.bound e s)
  arguments : ∀ e, Strides (curryRound input call) e s (curried input call input.bound e s)
  items : ∀ closer,
    Strides (itemRound input call closer) [] s (items input call closer input.bound s)

/-- A loop strides if its rounds tread. -/
theorem strides_of_treads {α β : Type} {round : α → ParseM (Round α β)} {spent : α → β}
    {going : α → Nat → Prop} {post : β → Nat → Prop} {base : Nat}
    (ends : input.kindAt last = some .endOfInput) (le : base ≤ last)
    (inside : ∀ a q, going a q → InFront last base q)
    (each : ∀ a p, going a p →
      Treads last base (fun _ : Unit => round a) p (Round.After going post p))
    {a : α} {s : State} (start : going a s.current) (advancing : s.memo.Advancing last) :
    Strides round a s (rounds round spent input.bound a s) := by
  have bound := Input.kindAt_lt ends
  refine strides_rounds (last + 1)
    (fun a s => going a s.current ∧ s.memo.Advancing last) ?_ ⟨start, advancing⟩
    (by rw [Input.bound]; omega)
  rintro a s ⟨start, advancing⟩
  refine ⟨Nat.lt_succ_of_le (inside a _ start le), fun b t first => ?_⟩
  have settles := (each a s.current start).settles rfl advancing
  rw [first] at settles
  exact ⟨⟨settles.2.2, settles.1⟩, settles.2.1⟩

/-- **Every loop takes a token in each round after which it goes on.** -/
theorem loopsStride (ends : input.kindAt last = some .endOfInput) (allowance : Nat) {s : State}
    (advancing : s.memo.Advancing last) (le : s.current ≤ last) :
    LoopsStride input (run input allowance) s := by
  have logic := treads_placewise (J := Unit) ends s.current
  have calls (place : Nat) : Placewise.Calls input (InFront last s.current)
      (@Treads Unit last s.current) place 0 fun _ => run input allowance :=
    fun rule q here opens _ => (run_treads ends allowance opens).widen here
  have start : NotBefore (InFront last s.current) s.current s.current := ⟨id, Nat.le_refl _⟩
  -- Four of the loops extend an expression.
  have extending {round : Expr → ParseM (Round Expr Expr)} (e : Expr)
      (each : ∀ e q, NotBefore (InFront last s.current) s.current q →
        Treads last s.current (fun _ : Unit => round e) q
          (Round.Extends (InFront last s.current) s.current q)) :
      Strides round e s (rounds round id input.bound e s) :=
    strides_of_treads ends le (fun _ _ going => going.inside) each start advancing
  exact
    { signs := fun kind notEnd => by
        rw [acceptMany_eq_rounds]
        exact strides_of_treads ends le (fun _ _ going => going.1)
          (fun count q going => logic.acceptRound notEnd count going.1 going.2) ⟨id, rfl⟩ advancing
      level := fun level operand left hnext => by
        rw [foldMore_eq_rounds]
        have opener := (Rule.opener?_of_operand? hnext).2
        exact extending left fun left q going =>
          logic.foldRound (calls q) opener going (Nat.le_refl q) left
      factors := fun left => by
        rw [productMore_eq_rounds]
        exact extending left fun left q going =>
          logic.productRound (calls q) going (.inr ⟨rfl, Nat.zero_le _⟩) left
      exponents := by
        rw [exponents_eq_rounds]
        exact strides_of_treads ends le (fun _ _ going => going.1.inside)
          (fun chain q going => logic.exponentRound (calls q) going (Nat.le_refl q))
          ⟨start, nofun⟩ advancing
      indices := fun e => by
        rw [indexed_eq_rounds]
        exact extending e fun e q going => logic.indexRound (calls q) going (Nat.le_refl q) e
      arguments := fun e => by
        rw [curried_eq_rounds]
        exact extending e fun e q going => logic.curryRound (calls q) going (Nat.le_refl q) e
      items := fun closer => by
        rw [items_eq_rounds]
        exact strides_of_treads ends le (fun _ _ going => going.inside)
          (fun before q going =>
            logic.itemRound (calls q) closer going (.inr ⟨rfl, Nat.le_refl 0⟩) before)
          start advancing }

end Run
end Grammar
end Formula
