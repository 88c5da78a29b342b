import Formula.Proofs.Grammar.Memoization

/-! # Dialects that go in step

Two options of a dialect only say which expressions the parser makes: whether names of operators
and constants stand for them, and whether a minus becomes part of a number.  No rule looks at the
expressions that it made, so parsers of dialects that differ in these options go in step
(`Lockstep`): they take the same tokens, record the same failures and stop with the same errors.
What they make is related by any relation between expressions that all ways of making them keep
(`Relabels`).

This is shown of the dialects that remember nothing.
-/
namespace Formula
namespace Grammar

/-- The same input in another dialect. -/
def Input.inDialect (input : Input) (config : Config) : Input :=
  { input with config }

/-- From every state two steps leave the same state behind them.  They give related values, or
they stop the parse with the same abort. -/
def Lockstep {α β : Type} (rel : α → β → Prop) (m : ParseM α) (m' : ParseM β) : Prop :=
  ∀ s, match m s, m' s with
    | .ok a t, .ok b u => u = t ∧ rel a b
    | .error x t, .error y u => y = x ∧ u = t
    | _, _ => False

/-- Dialects read the same formulas, and remember nothing: they differ at most in what they make
of them. -/
structure SameLanguage (config config' : Config) : Prop where
  implicitMultiplication : config'.implicitMultiplication = config.implicitMultiplication
  maxNestingDepth : config'.maxNestingDepth = config.maxNestingDepth
  off : config.memoize = false
  off' : config'.memoize = false

/-- All ways in which two dialects make expressions keep a relation between them, and a narrower
one between those that arguments may be applied to. -/
structure Relabels (config config' : Config) (rel heads : Expr → Expr → Prop) : Prop where
  number (text : String) : rel (.number text) (.number text)
  string (text : String) : rel (.string text) (.string text)
  everything : rel .everything .everything
  constant (name : String) : rel (namedConstant config name) (namedConstant config' name)
  node (op : Operator) {es es' : List Expr} : List.Forall₂ rel es es' →
    rel (.node op es) (.node op es')
  named (name : String) {es es' : List Expr} : List.Forall₂ rel es es' →
    heads (namedApplication config name es) (namedApplication config' name es')
  applied {e e' : Expr} {es es' : List Expr} : heads e e' → List.Forall₂ rel es es' →
    heads (.apply e es) (.apply e' es')
  of_head {e e' : Expr} : heads e e' → rel e e'
  negate (minuses : Nat) (first : Token) {e e' : Expr} : rel e e' →
    rel (negate config minuses first e) (negate config' minuses first e')

namespace Lockstep
variable {α β γ δ : Type} {rel : α → β → Prop} {other : γ → δ → Prop}

theorem pure {a : α} {b : β} (h : rel a b) : Lockstep rel (Pure.pure a) (Pure.pure b) :=
  fun _ => ⟨rfl, h⟩

/-- A step goes in step with itself. -/
theorem same (m : ParseM α) : Lockstep Eq m m := by
  intro s
  cases m s with
  | ok a t => exact ⟨rfl, rfl⟩
  | error x t => exact ⟨rfl, rfl⟩

theorem bind {m : ParseM α} {m' : ParseM β} {f : α → ParseM γ} {f' : β → ParseM δ}
    (first : Lockstep rel m m') (next : ∀ a b, rel a b → Lockstep other (f a) (f' b)) :
    Lockstep other (m >>= f) (m' >>= f') := by
  intro s
  have ends := first s
  rw [bind_apply, bind_apply]
  cases h : m s <;> cases h' : m' s <;> rw [h, h'] at ends
  · obtain ⟨rfl, related⟩ := ends
    exact next _ _ related _
  · exact ends.elim
  · exact ends.elim
  · exact ends

theorem mono {rel' : α → β → Prop} {m : ParseM α} {m' : ParseM β} (h : Lockstep rel m m')
    (imp : ∀ a b, rel a b → rel' a b) : Lockstep rel' m m' := by
  intro s
  have ends := h s
  cases hm : m s <;> cases hm' : m' s <;> rw [hm, hm'] at ends
  · exact ⟨ends.1, imp _ _ ends.2⟩
  · exact ends
  · exact ends
  · exact ends

/-- Steps go on alike behind a step that is the same. -/
theorem then_ {m : ParseM α} {f : α → ParseM γ} {f' : α → ParseM δ}
    (next : ∀ a, Lockstep other (f a) (f' a)) : Lockstep other (m >>= f) (m >>= f') := by
  refine (same m).bind ?_
  rintro a _ rfl
  exact next a

/-- A result with constructors around it. -/
theorem map {m : ParseM α} {m' : ParseM β} {c : α → γ} {c' : β → δ}
    (h : Lockstep (fun a b => other (c a) (c' b)) m m') : Lockstep other (c <$> m) (c' <$> m') :=
  h.bind fun _ _ hab => pure hab

/-- A step that stops both parses. -/
theorem throw {abort : Abort} :
    Lockstep rel (MonadExcept.throw abort : ParseM α) (MonadExcept.throw abort) :=
  fun _ => ⟨rfl, rfl⟩

/-- Two ways to go on, of which a step that is the same chooses one. -/
theorem branch {m : ParseM Bool} {f g : ParseM γ} {f' g' : ParseM δ} (pos : Lockstep other f f')
    (neg : Lockstep other g g') :
    Lockstep other (do if ← m then f else g) (do if ← m then f' else g') := by
  refine then_ ?_
  rintro (_ | _)
  · exact neg
  · exact pos

/-! ## Brackets -/

section Rules
variable {input : Input} {config' : Config} {rel' heads : Expr → Expr → Prop}
  {call call' : Rule → ParseM (Option Expr)} {e e' : Expr} {bound : Nat}

/-- Signs are counted without a look at the dialect. -/
theorem acceptMany_inDialect (kind : Token.Kind) (bound : Nat) :
    acceptMany (input.inDialect config') kind bound = acceptMany input kind bound := by
  induction bound with
  | zero => rfl
  | succ bound ih =>
    unfold acceptMany
    rw [ih]
    rfl

/-- The token at the cursor is one of the input. -/
theorem peek :
    Lockstep (fun a b => a = b ∧ a ∈ input.tokens) (Grammar.peek input)
      (Grammar.peek (input.inDialect config')) := by
  refine then_ fun place => ?_
  show Lockstep _ (tokenAt input place) (tokenAt input place)
  unfold tokenAt
  cases found : input.tokens[place]? with
  | none => exact throw
  | some t => exact pure ⟨rfl, Array.mem_of_getElem? found⟩

theorem nested (language : SameLanguage input.config config') {m : ParseM α} {m' : ParseM β}
    {place : Nat} {opening : Token} (h : Lockstep rel m m') :
    Lockstep rel (Grammar.nested input place opening m)
      (Grammar.nested (input.inDialect config') place opening m') := by
  intro s
  have inside := h { s with depth := s.depth + 1 }
  have cap : (input.inDialect config').config.exceededCap? (s.depth + 1) =
      input.config.exceededCap? (s.depth + 1) := by
    unfold Config.exceededCap?
    rw [← language.maxNestingDepth]
    rfl
  unfold Grammar.nested
  simp only [cap]
  cases input.config.exceededCap? (s.depth + 1) with
  | some limit => exact ⟨rfl, rfl⟩
  | none =>
    cases hm : m { s with depth := s.depth + 1 } <;>
      cases hm' : m' { s with depth := s.depth + 1 } <;> rw [hm, hm'] at inside
    · exact ⟨congrArg (State.atDepth · s.depth) inside.1, inside.2⟩
    · exact inside
    · exact inside
    · exact ⟨inside.1, congrArg (State.atDepth · s.depth) inside.2⟩

variable (calls : ∀ rule, Lockstep (Option.Rel rel') (call rule) (call' rule))
include calls

theorem items (closer : Closer) (bound : Nat) :
    Lockstep (Option.Rel (List.Forall₂ rel')) (Grammar.items input call closer bound)
      (Grammar.items (input.inDialect config') call' closer bound) := by
  induction bound with
  | zero => exact pure .none
  | succ bound ih =>
    refine (calls .or).bind ?_
    rintro _ _ (item | _)
    · refine branch (ih.bind ?_)
        (branch (pure (.some (.cons item .nil))) (then_ fun _ => pure .none))
      rintro _ _ (others | _)
      · exact pure (.some (.cons item others))
      · exact pure .none
    · exact pure .none

theorem sequence (closer : Closer) :
    Lockstep (Option.Rel (List.Forall₂ rel')) (Grammar.sequence input call closer)
      (Grammar.sequence (input.inDialect config') call' closer) :=
  branch (pure (.some .nil)) (items calls closer _)

theorem bracketed (language : SameLanguage input.config config') (closer : Closer) :
    Lockstep (Option.Rel (List.Forall₂ rel')) (Grammar.bracketed input call closer)
      (Grammar.bracketed (input.inDialect config') call' closer) := by
  refine then_ fun place => then_ fun opening => ?_
  have inside : Lockstep (Option.Rel (List.Forall₂ rel'))
      (Grammar.nested input place opening (Grammar.sequence input call closer))
      (Grammar.nested (input.inDialect config') place opening
        (Grammar.sequence (input.inDialect config') call' closer)) :=
    nested language (sequence calls closer)
  by_cases double : closer = .doubleBracket
  · simp only [double, if_true] at inside ⊢
    exact then_ fun _ => inside
  · simp only [double, if_false] at inside ⊢
    exact inside

theorem group (language : SameLanguage input.config config') :
    Lockstep (Option.Rel rel') (Grammar.group input call)
      (Grammar.group (input.inDialect config') call') := by
  refine then_ fun place => then_ fun opening => nested language ((calls .or).bind ?_)
  rintro _ _ (inner | _)
  · exact branch (pure (.some inner)) (pure .none)
  · exact pure .none

variable (relabels : Relabels input.config config' rel' heads)
include relabels

theorem list (language : SameLanguage input.config config') :
    Lockstep (Option.Rel rel') (Grammar.list input call)
      (Grammar.list (input.inDialect config') call') := by
  refine (bracketed calls language .brace).bind ?_
  rintro _ _ (elements | _)
  · exact pure (.some (relabels.node .list elements))
  · exact pure .none

theorem curried (language : SameLanguage input.config config') (head : heads e e') :
    Lockstep heads (Grammar.curried input call bound e)
      (Grammar.curried (input.inDialect config') call' bound e') := by
  induction bound generalizing e e' with
  | zero => exact pure head
  | succ bound ih =>
    refine branch (then_ fun mark => (bracketed calls language .bracket).bind ?_) (pure head)
    rintro _ _ (arguments | _)
    · exact ih (relabels.applied head arguments)
    · exact then_ fun _ => pure head

theorem application (language : SameLanguage input.config config') :
    Lockstep (Option.Rel rel') (Grammar.application input call)
      (Grammar.application (input.inDialect config') call') := by
  refine then_ fun name => branch ((bracketed calls language .bracket).bind ?_) (pure .none)
  rintro _ _ (arguments | _)
  · refine map ((curried calls relabels language (relabels.named name.lexeme arguments)).mono ?_)
    exact fun _ _ head => .some (relabels.of_head head)
  · exact pure .none

theorem indexed (language : SameLanguage input.config config') (base : rel' e e') :
    Lockstep rel' (Grammar.indexed input call bound e)
      (Grammar.indexed (input.inDialect config') call' bound e') := by
  induction bound generalizing e e' with
  | zero => exact pure base
  | succ bound ih =>
    refine then_ fun mark => ?_
    show Lockstep _ (if pairAt input mark .leftBracket then _ else _)
      (if pairAt input mark .leftBracket then _ else _)
    split
    · refine (bracketed calls language .doubleBracket).bind ?_
      rintro _ _ (indices | _)
      · exact ih (relabels.node .part (.cons base indices))
      · exact then_ fun _ => pure base
    · exact pure base

theorem atom :
    Lockstep (Option.Rel rel') (Grammar.atom input call)
      (Grammar.atom (input.inDialect config') call') := by
  refine peek.bind ?_
  rintro t _ ⟨rfl, -⟩
  split
  · exact calls .group
  · exact calls .list
  · refine (calls .application).bind ?_
    rintro _ _ (applied | _)
    · exact pure (.some applied)
    · exact then_ fun name => pure (.some (relabels.constant name.lexeme))
  · exact then_ fun _ => pure (.some (relabels.number _))
  · exact then_ fun _ => pure (.some (relabels.string _))
  · exact then_ fun _ => pure .none

/-! ## Levels -/

theorem foldMore (level operand : Rule) (left : rel' e e') :
    Lockstep rel' (Grammar.foldMore input call level operand bound e)
      (Grammar.foldMore (input.inDialect config') call' level operand bound e') := by
  induction bound generalizing e e' with
  | zero => exact pure left
  | succ bound ih =>
    refine then_ fun t => ?_
    cases level.operator? t.kind with
    | none => exact pure left
    | some op =>
      refine then_ fun mark => then_ fun _ => (calls operand).bind ?_
      rintro _ _ (right | _)
      · exact ih (relabels.node op (.cons left (.cons right .nil)))
      · exact then_ fun _ => pure left

theorem foldLeft (level operand : Rule) :
    Lockstep (Option.Rel rel') (Grammar.foldLeft input call level operand)
      (Grammar.foldLeft (input.inDialect config') call' level operand) := by
  refine (calls operand).bind ?_
  rintro _ _ (left | _)
  · exact map ((foldMore calls relabels level operand left).mono fun _ _ => .some)
  · exact pure .none

theorem productMore (language : SameLanguage input.config config') (left : rel' e e') :
    Lockstep rel' (Grammar.productMore input call bound e)
      (Grammar.productMore (input.inDialect config') call' bound e') := by
  induction bound generalizing e e' with
  | zero => exact pure left
  | succ bound ih =>
    refine then_ fun t => ?_
    dsimp only
    cases Rule.multiplicative.operator? t.kind with
    | some op =>
      refine then_ fun mark => then_ fun _ => (calls .unary).bind ?_
      rintro _ _ (right | _)
      · exact ih (relabels.node op (.cons left (.cons right .nil)))
      · exact then_ fun _ => pure left
    | none =>
      have implicit : (input.inDialect config').config.implicitMultiplication =
          input.config.implicitMultiplication := language.implicitMultiplication
      simp only [implicit]
      split
      · refine (calls .power).bind ?_
        rintro _ _ (right | _)
        · exact ih (relabels.node .times (.cons left (.cons right .nil)))
        · exact pure left
      · exact pure left

theorem product (language : SameLanguage input.config config') :
    Lockstep (Option.Rel rel') (Grammar.product input call)
      (Grammar.product (input.inDialect config') call') := by
  refine (calls .unary).bind ?_
  rintro _ _ (left | _)
  · exact map ((productMore calls relabels language left).mono fun _ _ => .some)
  · exact pure .none

/-! ## Signs, powers and spans -/

theorem negated :
    Lockstep (Option.Rel rel') (Grammar.negated input call)
      (Grammar.negated (input.inDialect config') call') := by
  unfold Grammar.negated
  rw [acceptMany_inDialect]
  refine then_ fun signs => (calls .equality).bind ?_
  rintro _ _ (operand | _)
  · refine pure (.some ?_)
    induction signs with
    | zero => exact operand
    | succ signs ih => exact relabels.node .not (.cons ih .nil)
  · exact pure .none

omit calls relabels in
/-- A number that carries its text can take in a sign. -/
theorem needValue_of_valued (valued : input.Valued) {first : Token} (member : first ∈ input.tokens)
    (minuses : Nat) (e : Expr) : needValue input minuses first e = Pure.pure () := by
  unfold needValue
  rw [if_neg]
  rintro ⟨folds, valueless⟩
  unfold Grammar.folds at folds
  split at folds
  · simp only [Bool.and_eq_true, beq_iff_eq] at folds
    exact valued first member (.inl folds.2) valueless
  · cases folds

variable (valued : input.Valued)
include valued

theorem signed :
    Lockstep (Option.Rel rel') (Grammar.signed input call)
      (Grammar.signed (input.inDialect config') call') := by
  unfold Grammar.signed
  have bounds : (input.inDialect config').bound = input.bound := rfl
  rw [acceptMany_inDialect, bounds]
  refine then_ fun minuses => peek.bind ?_
  rintro first _ ⟨rfl, member⟩
  refine (calls .power).bind ?_
  rintro _ _ (operand | _)
  · have valued' : (input.inDialect config').Valued := valued
    dsimp only
    rw [needValue_of_valued valued member, needValue_of_valued valued' member]
    exact pure (.some (relabels.negate minuses first operand))
  · exact pure .none

omit valued in
theorem span :
    Lockstep (Option.Rel rel') (Grammar.span input call)
      (Grammar.span (input.inDialect config') call') := by
  have ends {start start' stop stop' : Option Expr} (hstart : Option.Rel rel' start start')
      (hstop : Option.Rel rel' stop stop') :
      List.Forall₂ rel' [start.getD (.number "1"), stop.getD .everything]
        [start'.getD (.number "1"), stop'.getD .everything] := by
    refine .cons ?_ (.cons ?_ .nil)
    · cases hstart with
      | some h => exact h
      | none => exact relabels.number "1"
    · cases hstop with
      | some h => exact h
      | none => exact relabels.everything
  refine (calls .additive).bind fun start start' hstart => branch ?_ (pure hstart)
  refine then_ fun _ => (calls .additive).bind fun stop stop' hstop => branch ?_ ?_
  · refine then_ fun mark => then_ fun _ => (calls .additive).bind ?_
    rintro _ _ (step | _)
    · have strided := List.rel_append (ends hstart hstop) (.cons step .nil)
      exact pure (.some (relabels.node .span strided))
    · exact then_ fun _ => pure (.some (relabels.node .span (ends hstart hstop)))
  · exact pure (.some (relabels.node .span (ends hstart hstop)))

/-- Chains of exponents are alike: they are behind the same signs, and the operands are
related. -/
def Chains (input : Input) (rel : Expr → Expr → Prop) : List Exponent → List Exponent → Prop :=
  List.Forall₂ fun x y => y.minuses = x.minuses ∧ y.first = x.first ∧ x.first ∈ input.tokens ∧
    rel x.operand y.operand

omit relabels valued in
theorem exponents :
    Lockstep (Chains input rel') (Grammar.exponents input call bound)
      (Grammar.exponents (input.inDialect config') call' bound) := by
  induction bound with
  | zero => exact pure .nil
  | succ bound ih =>
    unfold Grammar.exponents
    have bounds : (input.inDialect config').bound = input.bound := rfl
    rw [acceptMany_inDialect, bounds]
    refine branch (then_ fun mark => then_ fun _ => then_ fun minuses => peek.bind ?_) (pure .nil)
    rintro first _ ⟨rfl, member⟩
    refine (calls .part).bind ?_
    rintro _ _ (operand | _)
    · exact ih.bind fun _ _ others => pure (.cons ⟨rfl, rfl, member, operand⟩ others)
    · exact then_ fun _ => pure .nil

omit calls valued in
theorem powers {chain chain' : List Exponent} (chains : Chains input rel' chain chain')
    (base : rel' e e') :
    rel' (Grammar.powers input.config e chain) (Grammar.powers config' e' chain') := by
  induction chains generalizing e e' with
  | nil => exact base
  | @cons x y _ _ same _ ih =>
    obtain ⟨minuses, first, -, operand⟩ := same
    rw [Grammar.powers, Grammar.powers, minuses, first]
    exact relabels.node .power (.cons base (.cons (relabels.negate _ _ (ih operand)) .nil))

omit calls relabels valued in
/-- The signs of alike chains are in front of tokens of the input. -/
theorem Chains.mem {chain chain' : List Exponent} (chains : Chains input rel' chain chain') :
    (∀ x ∈ chain, x.first ∈ input.tokens) ∧ ∀ y ∈ chain', y.first ∈ input.tokens := by
  induction chains with
  | nil => exact ⟨nofun, nofun⟩
  | cons same _ ih =>
    obtain ⟨-, first, member, -⟩ := same
    exact ⟨List.forall_mem_cons.mpr ⟨member, ih.1⟩,
      List.forall_mem_cons.mpr ⟨first ▸ member, ih.2⟩⟩

omit calls relabels in
/-- No number at the end of a chain is in want of a text. -/
theorem needLast_of_valued {chain : List Exponent} (members : ∀ x ∈ chain, x.first ∈ input.tokens)
    (e : Expr) :
    (do
      if let some last := chain.getLast? then
        needValue input last.minuses last.first last.operand
      return some e : ParseM (Option Expr)) = Pure.pure (some e) := by
  cases last : chain.getLast? with
  | none => rfl
  | some x =>
    dsimp only
    rw [needValue_of_valued valued (members x (List.mem_of_getLast? last))]
    rfl

theorem power :
    Lockstep (Option.Rel rel') (Grammar.power input call)
      (Grammar.power (input.inDialect config') call') := by
  refine (calls .part).bind ?_
  rintro _ _ (base | _)
  · refine (exponents calls).bind fun chain chain' chains => ?_
    have valued' : (input.inDialect config').Valued := valued
    exact (congrArg₂ (Lockstep (Option.Rel rel'))
      (needLast_of_valued valued (Chains.mem chains).1 _)
      (needLast_of_valued valued' (Chains.mem chains).2 _)).mpr
      (pure (.some (powers relabels chains base)))
  · exact pure .none

omit valued in
theorem part (language : SameLanguage input.config config') :
    Lockstep (Option.Rel rel') (Grammar.part input call)
      (Grammar.part (input.inDialect config') call') := by
  refine (calls .atom).bind ?_
  rintro _ _ (base | _)
  · exact map ((indexed calls relabels language base).mono fun _ _ => .some)
  · exact pure .none

/-! ## All rules -/

theorem body (language : SameLanguage input.config config') (rule : Rule) :
    Lockstep (Option.Rel rel') (Grammar.body input call rule)
      (Grammar.body (input.inDialect config') call' rule) := by
  cases rule with
  | or | and | equality | relational | additive => exact foldLeft calls relabels _ _
  | not => exact negated calls relabels
  | span => exact span calls relabels
  | multiplicative => exact product calls relabels language
  | unary => exact signed calls relabels valued
  | power => exact power calls relabels valued
  | part => exact part calls relabels language
  | atom => exact atom calls relabels
  | group => exact group calls language
  | list => exact list calls relabels language
  | application => exact application calls relabels language

end Rules
end Lockstep

/-! ## Parses -/

section Parse
variable {input : Input} {config' : Config} {rel heads : Expr → Expr → Prop}
  (language : SameLanguage input.config config')
  (relabels : Relabels input.config config' rel heads) (valued : input.Valued)
include language relabels valued

theorem run_lockstep (allowance : Nat) (rule : Rule) :
    Lockstep (Option.Rel rel) (run input allowance rule)
      (run (input.inDialect config') allowance rule) := by
  induction allowance generalizing rule with
  | zero =>
    refine .then_ fun place => Lockstep.peek.bind ?_
    rintro t _ ⟨rfl, -⟩
    exact fun _ => ⟨rfl, rfl⟩
  | succ allowance ih =>
    unfold run
    rw [remembered_of_off language.off, remembered_of_off language.off']
    refine .then_ fun start => (Lockstep.body ih relabels valued language rule).bind ?_
    rintro _ _ (made | _)
    · exact .pure (.some made)
    · exact .then_ fun _ => .pure .none

theorem parseWithin_lockstep (allowance : Nat) :
    Lockstep rel (parseWithin input allowance)
      (parseWithin (input.inDialect config') allowance) := by
  have rejected (place : Nat) (cause : ParseError.Cause) :
      Lockstep rel (reject input place cause)
        (reject (input.inDialect config') place cause) :=
    .then_ fun _ => .throw
  refine (run_lockstep language relabels valued allowance .or).bind ?_
  rintro _ _ (made | _)
  · refine .branch (.pure made) (.then_ fun s => ?_)
    split
    · exact rejected _ _
    · exact .then_ fun s => rejected _ _
  · exact .then_ fun s => rejected _ _

end Parse
end Grammar
end Formula
