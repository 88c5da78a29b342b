import Formula.Grammar.Parse

/-! # Steps put together

A rule is put together of a few elementary steps and of the rules that it applies, one after the
other or inside brackets.  So a relation between steps that the elementary steps have to
themselves, and that the ways of putting steps together keep (`Compositional`), need not be shown
of one rule after the other: a rule is related to itself if the two ways to apply rules are
(`Compositional.body`).

Such a relation says nothing of the values that steps give.  But a rule uses some values later: it
goes back to a place where it was, it blames a token that it saw, and a bracket that it opened.
What has to be known of these is a parameter (`Known`).
-/
namespace Formula
namespace Grammar

/-- What is known of a place to go back to, of a token at the cursor, and of the place and the
token where a bracket opens. -/
structure Known where
  back : Nat → Prop
  seen : Token → Prop
  opens : Nat → Token → Prop

/-- Nothing is known of them. -/
def Known.nothing : Known where
  back _ := True
  seen _ := True
  opens _ _ := True

/-- A relation between steps that the elementary steps have to themselves, and that steps have
that are put together of related ones. -/
structure Compositional (input : Input) (known : Known)
    (rel : {α : Type} → ParseM α → ParseM α → Prop) : Prop where
  pure {α : Type} (a : α) : rel (Pure.pure a) (Pure.pure a)
  bind {α β : Type} {m m' : ParseM β} {f f' : β → ParseM α} :
    rel m m' → (∀ b, rel (f b) (f' b)) → rel (m >>= f) (m' >>= f')
  mark {α : Type} {f f' : Nat → ParseM α} :
    (∀ place, known.back place → rel (f place) (f' place)) → rel (current >>= f) (current >>= f')
  look {α : Type} {f f' : Token → ParseM α} :
    (∀ t, known.seen t → rel (f t) (f' t)) → rel (peek input >>= f) (peek input >>= f')
  opening {α : Type} {f f' : Nat → Token → ParseM α} :
    (∀ place t, known.opens place t → rel (f place t) (f' place t)) →
    rel (do let place ← current; let t ← advance input; f place t)
      (do let place ← current; let t ← advance input; f' place t)
  nested {α : Type} {m m' : ParseM α} {place : Nat} {t : Token} : known.opens place t →
    rel m m' → rel (nested input place t m) (nested input place t m')
  rewind {place : Nat} : known.back place → rel (rewind place) (rewind place)
  advance : rel (advance input) (advance input)
  expect (e : Expectation) : rel (expect e) (expect e)
  /-- A number without a value was seen. -/
  valueless {t : Token} : known.seen t → t.kind = .number → t.value = none →
    rel (throw .valueless : ParseM Unit) (throw .valueless)

namespace Compositional
variable {input : Input} {known : Known} {rel : {α : Type} → ParseM α → ParseM α → Prop}
  (comp : Compositional input known rel) {α β : Type}
include comp

/-! ## Steps without rules -/

/-- A result with a constructor around it. -/
theorem map {m m' : ParseM β} {c : β → α} (h : rel m m') : rel (c <$> m) (c <$> m') :=
  comp.bind h fun _ => comp.pure _

/-- Two ways to go on. -/
theorem branch {m m' : ParseM Bool} {f f' g g' : ParseM α} (first : rel m m') (pos : rel f f')
    (neg : rel g g') :
    rel (do if ← m then f else g) (do if ← m' then f' else g') := by
  refine comp.bind first ?_
  rintro (_ | _)
  · exact neg
  · exact pos

theorem check (kind : Token.Kind) : rel (Grammar.check input kind) (Grammar.check input kind) :=
  comp.look fun _ _ => comp.pure _

theorem accept (kind : Token.Kind) : rel (Grammar.accept input kind) (Grammar.accept input kind) :=
  comp.branch (comp.check kind) (comp.bind comp.advance fun _ => comp.pure _) (comp.pure _)

theorem acceptMany (kind : Token.Kind) (bound : Nat) :
    rel (Grammar.acceptMany input kind bound) (Grammar.acceptMany input kind bound) := by
  induction bound with
  | zero => exact comp.pure _
  | succ bound ih =>
    exact comp.branch (comp.accept kind) (comp.bind ih fun _ => comp.pure _) (comp.pure _)

theorem close (closer : Closer) :
    rel (Grammar.close input closer) (Grammar.close input closer) := by
  have missing : rel (do Grammar.expect (.closer closer); return false)
      (do Grammar.expect (.closer closer); return false) :=
    comp.bind (comp.expect _) fun _ => comp.pure _
  unfold Grammar.close
  by_cases double : closer = .doubleBracket
  · simp only [if_pos double]
    refine comp.mark fun place _ => ?_
    cases pairAt input place closer.kind with
    | true => exact comp.bind comp.advance fun _ => comp.bind comp.advance fun _ => comp.pure _
    | false => exact missing
  · simp only [if_neg double]
    exact comp.branch (comp.accept _) (comp.pure _) missing

theorem opensArguments : rel (Grammar.opensArguments input) (Grammar.opensArguments input) :=
  comp.branch (comp.check _) (comp.mark fun _ _ => comp.pure _) (comp.pure _)

/-- Only a number can lack the value that a minus sign needs. -/
theorem needValue (minuses : Nat) {first : Token} (seen : known.seen first) (e : Expr) :
    rel (Grammar.needValue input minuses first e) (Grammar.needValue input minuses first e) := by
  unfold Grammar.needValue
  split
  · next missing =>
    have kind : first.kind = .number := by
      cases e <;> simp_all [folds]
    exact comp.valueless seen kind missing.2
  · exact comp.pure _

/-- A rule that does not apply leaves the cursor in its place. -/
theorem attempt {m m' : ParseM (Option Expr)} (h : rel m m') :
    rel (Grammar.attempt m) (Grammar.attempt m') := by
  refine comp.mark fun start back => comp.bind h ?_
  rintro (_ | e)
  · exact comp.bind (comp.rewind back) fun _ => comp.pure _
  · exact comp.pure _

section Rules
variable {call call' : Rule → ParseM (Option Expr)}
  (calls : ∀ rule, rel (call rule) (call' rule))
include calls

/-! ## Brackets -/

theorem items (closer : Closer) (bound : Nat) :
    rel (Grammar.items input call closer bound) (Grammar.items input call' closer bound) := by
  induction bound with
  | zero => exact comp.pure _
  | succ bound ih =>
    refine comp.bind (calls .or) ?_
    rintro (_ | item)
    · exact comp.pure _
    · refine comp.branch (comp.accept _) (comp.bind ih ?_)
        (comp.branch (comp.close closer) (comp.pure _) ?_)
      · rintro (_ | others)
        · exact comp.pure _
        · exact comp.pure _
      · exact comp.bind (comp.expect _) fun _ => comp.pure _

theorem sequence (closer : Closer) :
    rel (Grammar.sequence input call closer) (Grammar.sequence input call' closer) :=
  comp.branch (comp.close closer) (comp.pure _) (comp.items calls closer _)

theorem bracketed (closer : Closer) :
    rel (Grammar.bracketed input call closer) (Grammar.bracketed input call' closer) := by
  refine comp.opening fun place t opens => ?_
  have inside := comp.nested opens (comp.sequence calls closer)
  by_cases double : closer = .doubleBracket
  · simp only [if_pos double]
    exact comp.bind comp.advance fun _ => inside
  · simp only [if_neg double]
    exact inside

theorem group : rel (Grammar.group input call) (Grammar.group input call') := by
  refine comp.opening fun place t opens => comp.nested opens (comp.bind (calls .or) ?_)
  rintro (_ | e)
  · exact comp.pure _
  · exact comp.branch (comp.close _) (comp.pure _) (comp.pure _)

theorem list : rel (Grammar.list input call) (Grammar.list input call') := by
  refine comp.bind (comp.bracketed calls _) ?_
  rintro (_ | elements)
  · exact comp.pure _
  · exact comp.pure _

theorem curried (bound : Nat) (e : Expr) :
    rel (Grammar.curried input call bound e) (Grammar.curried input call' bound e) := by
  induction bound generalizing e with
  | zero => exact comp.pure _
  | succ bound ih =>
    refine comp.branch comp.opensArguments (comp.mark fun mark back => ?_) (comp.pure _)
    refine comp.bind (comp.bracketed calls _) ?_
    rintro (_ | args)
    · exact comp.bind (comp.rewind back) fun _ => comp.pure _
    · exact ih _

theorem application : rel (Grammar.application input call) (Grammar.application input call') := by
  refine comp.bind comp.advance fun name => comp.branch comp.opensArguments ?_ (comp.pure _)
  refine comp.bind (comp.bracketed calls _) ?_
  rintro (_ | args)
  · exact comp.pure _
  · exact comp.map (comp.curried calls _ _)

theorem indexed (bound : Nat) (e : Expr) :
    rel (Grammar.indexed input call bound e) (Grammar.indexed input call' bound e) := by
  induction bound generalizing e with
  | zero => exact comp.pure _
  | succ bound ih =>
    unfold Grammar.indexed
    refine comp.mark fun mark back => ?_
    split
    · refine comp.bind (comp.bracketed calls _) ?_
      rintro (_ | indices)
      · exact comp.bind (comp.rewind back) fun _ => comp.pure _
      · exact ih _
    · exact comp.pure _

theorem atom : rel (Grammar.atom input call) (Grammar.atom input call') := by
  unfold Grammar.atom
  refine comp.look fun t _ => ?_
  split
  · exact calls .group
  · exact calls .list
  · refine comp.bind (calls .application) ?_
    rintro (_ | e)
    · exact comp.bind comp.advance fun _ => comp.pure _
    · exact comp.pure _
  · exact comp.bind comp.advance fun _ => comp.pure _
  · exact comp.bind comp.advance fun _ => comp.pure _
  · exact comp.bind (comp.expect _) fun _ => comp.pure _

/-! ## Levels -/

theorem foldMore (level operand : Rule) (bound : Nat) (left : Expr) :
    rel (Grammar.foldMore input call level operand bound left)
      (Grammar.foldMore input call' level operand bound left) := by
  induction bound generalizing left with
  | zero => exact comp.pure _
  | succ bound ih =>
    unfold Grammar.foldMore
    refine comp.look fun first _ => ?_
    split
    · exact comp.pure _
    · refine comp.mark fun mark back => comp.bind comp.advance fun _ => ?_
      refine comp.bind (calls operand) ?_
      rintro (_ | right)
      · exact comp.bind (comp.rewind back) fun _ => comp.pure _
      · exact ih _

theorem foldLeft (level operand : Rule) :
    rel (Grammar.foldLeft input call level operand)
      (Grammar.foldLeft input call' level operand) := by
  refine comp.bind (calls operand) ?_
  rintro (_ | left)
  · exact comp.pure _
  · exact comp.map (comp.foldMore calls level operand _ left)

theorem productMore (bound : Nat) (left : Expr) :
    rel (Grammar.productMore input call bound left)
      (Grammar.productMore input call' bound left) := by
  induction bound generalizing left with
  | zero => exact comp.pure _
  | succ bound ih =>
    unfold Grammar.productMore
    refine comp.look fun first _ => ?_
    dsimp only
    split
    · refine comp.mark fun mark back => comp.bind comp.advance fun _ => ?_
      refine comp.bind (calls .unary) ?_
      rintro (_ | right)
      · exact comp.bind (comp.rewind back) fun _ => comp.pure _
      · exact ih _
    · split
      · refine comp.bind (calls .power) ?_
        rintro (_ | right)
        · exact comp.pure _
        · exact ih _
      · exact comp.pure _

theorem product : rel (Grammar.product input call) (Grammar.product input call') := by
  refine comp.bind (calls .unary) ?_
  rintro (_ | left)
  · exact comp.pure _
  · exact comp.map (comp.productMore calls _ left)

theorem negated : rel (Grammar.negated input call) (Grammar.negated input call') := by
  refine comp.bind (comp.acceptMany _ _) fun signs => comp.bind (calls .equality) ?_
  rintro (_ | operand)
  · exact comp.pure _
  · exact comp.pure _

theorem signed : rel (Grammar.signed input call) (Grammar.signed input call') := by
  refine comp.bind (comp.acceptMany _ _) fun minuses => comp.look fun first seen => ?_
  refine comp.bind (calls .power) ?_
  rintro (_ | operand)
  · exact comp.pure _
  · exact comp.bind (comp.needValue minuses seen operand) fun _ => comp.pure _

theorem span : rel (Grammar.span input call) (Grammar.span input call') := by
  refine comp.bind (calls .additive) fun start => comp.branch (comp.check _) ?_ (comp.pure _)
  refine comp.bind comp.advance fun _ => comp.bind (calls .additive) fun stop => ?_
  refine comp.branch (comp.check _) ?_ (comp.pure _)
  refine comp.mark fun mark back => comp.bind comp.advance fun _ => ?_
  refine comp.bind (calls .additive) ?_
  rintro (_ | step)
  · exact comp.bind (comp.rewind back) fun _ => comp.pure _
  · exact comp.pure _

/-- A power goes on with exponents that each start with a token that was seen. -/
theorem exponents (bound : Nat) {f f' : List Exponent → ParseM α}
    (next : ∀ chain, (∀ x ∈ chain, known.seen x.first) → rel (f chain) (f' chain)) :
    rel (Grammar.exponents input call bound >>= f)
      (Grammar.exponents input call' bound >>= f') := by
  induction bound generalizing f f' with
  | zero => exact next [] nofun
  | succ bound ih =>
    unfold Grammar.exponents
    simp only [bind_assoc]
    refine comp.bind (comp.check _) ?_
    rintro (_ | _)
    · exact next [] nofun
    · simp only [if_true, bind_assoc]
      refine comp.mark fun mark back => comp.bind comp.advance fun _ => ?_
      refine comp.bind (comp.acceptMany _ _) fun minuses => comp.look fun first seen => ?_
      refine comp.bind (calls .part) ?_
      rintro (_ | operand)
      · simp only [bind_assoc]
        exact comp.bind (comp.rewind back) fun _ => next [] nofun
      · simp only [bind_assoc]
        exact ih fun others all => next _ (List.forall_mem_cons.mpr ⟨seen, all⟩)

theorem power : rel (Grammar.power input call) (Grammar.power input call') := by
  refine comp.bind (calls .part) ?_
  rintro (_ | base)
  · exact comp.pure _
  · refine comp.exponents calls _ fun chain seen => ?_
    dsimp only
    cases found : chain.getLast? with
    | none => exact comp.pure _
    | some last =>
      have seen := seen last (List.mem_of_getLast? found)
      exact comp.bind (comp.needValue last.minuses seen last.operand) fun _ => comp.pure _

theorem part : rel (Grammar.part input call) (Grammar.part input call') := by
  refine comp.bind (calls .atom) ?_
  rintro (_ | e)
  · exact comp.pure _
  · exact comp.map (comp.indexed calls _ e)

/-- **A rule is related to itself if the rules that it applies are.** -/
theorem body (rule : Rule) :
    rel (Grammar.body input call rule) (Grammar.body input call' rule) := by
  cases rule with
  | or | and | equality | relational | additive => exact comp.foldLeft calls _ _
  | not => exact comp.negated calls
  | span => exact comp.span calls
  | multiplicative => exact comp.product calls
  | unary => exact comp.signed calls
  | power => exact comp.power calls
  | part => exact comp.part calls
  | atom => exact comp.atom calls
  | group => exact comp.group calls
  | list => exact comp.list calls
  | application => exact comp.application calls

end Rules
end Compositional
end Grammar
end Formula
