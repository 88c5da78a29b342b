import Formula.Proofs.Grammar.LevelOutcome
import Formula.Proofs.Grammar.Rounds

/-! # What rules do from place to place

A rule goes from place to place: it takes tokens, it applies rules behind them, and it goes back
to where it was.  A judgement on steps at a place that says what results they give and at which
places they stop need not be shown of one rule after the other: it holds of every rule if it holds
of the elementary steps and of steps put together (`Placewise`), and of the rules that a rule
applies (`Placewise.body`).

These are applied behind the rule's own place or, where the rule has taken nothing yet, are
tighter than it (`Placewise.Calls`).  The same goes for each round of a loop, and a round after
which the loop goes on has taken a token.

As the module `Formula.Proofs.Grammar.Composition` compares steps wherever the cursor is, so this
one speaks of one place at a time.
-/
namespace Formula
namespace Grammar

/-- What there is a result of has taken tokens. -/
def Advanced {α : Type} (inside : Nat → Prop) (p : Nat) (result : Option α) (q : Nat) : Prop :=
  inside q ∧ (result ≠ none → p < q)

/-- A rule that applies has taken tokens, and one that does not stands where it was. -/
structure Advances (inside : Nat → Prop) (p : Nat) (result : Option Expr) (q : Nat) : Prop where
  inside : inside q
  back : result = none → q = p
  lt : result ≠ none → p < q

/-- A place that is inside and not before another. -/
structure NotBefore (inside : Nat → Prop) (start q : Nat) : Prop where
  inside : inside q
  le : start ≤ q

/-- A chain of exponents, each of which starts with a token of the input. -/
def SeenChain (input : Input) (inside : Nat → Prop) (start : Nat) (chain : List Exponent)
    (q : Nat) : Prop :=
  NotBefore inside start q ∧ ∀ x ∈ chain, x.first ∈ input.tokens

/-- What a round comes to: a loop that goes on has taken a token. -/
def Round.After {α β : Type} (going : α → Nat → Prop) (post : β → Nat → Prop) (p : Nat) :
    Round α β → Nat → Prop
  | .more a, q => p < q ∧ going a q
  | .done b, q => post b q

/-- What a round of a loop that extends an expression comes to. -/
def Round.Extends (inside : Nat → Prop) (start p : Nat) : Round Expr Expr → Nat → Prop :=
  Round.After (fun _ => NotBefore inside start) (fun _ => NotBefore inside start) p

/-- A judgement on steps at a place, each a family of one or more, and on the results they give
and the places where they stop.  It holds of the elementary steps, and of steps that are put
together of such.  The places are inside of some part of the input. -/
structure Placewise (input : Input) (inside : Nat → Prop) {J : Type}
    (does : {α : Type} → (J → ParseM α) → Nat → (α → Nat → Prop) → Prop) : Prop where
  pure {α : Type} {a : α} {p : Nat} {post : α → Nat → Prop} :
    post a p → does (fun _ => Pure.pure a) p post
  bind {α β : Type} {m : J → ParseM β} {k : J → β → ParseM α} {p : Nat}
    {mid : β → Nat → Prop} {post : α → Nat → Prop} :
    does m p mid → (∀ b q, mid b q → does (fun j => k j b) q post) →
    does (fun j => m j >>= k j) p post
  current {p : Nat} : does (fun _ => current) p fun place q => place = p ∧ q = p
  rewind {p place : Nat} : does (fun _ => rewind place) p fun _ q => q = place
  peek {p : Nat} : inside p →
    does (fun _ => peek input) p fun first q => input.tokens[p]? = some first ∧ q = p
  advance {p : Nat} {first : Token} : inside p → input.tokens[p]? = some first →
    first.kind ≠ .endOfInput →
    does (fun _ => advance input) p fun t q => t = first ∧ inside q ∧ q = p + 1
  expect {p : Nat} {e : Expectation} : inside p → does (fun _ => expect e) p fun _ q => q = p
  nested {α : Type} {m : J → ParseM α} {p place : Nat} {opening : Token}
    {post : α → Nat → Prop} :
    does m p post → does (fun j => nested input place opening (m j)) p post
  needValue {p minuses : Nat} {first : Token} {e : Expr} : first ∈ input.tokens →
    does (fun _ => needValue input minuses first e) p fun _ q => q = p

namespace Placewise
variable {input : Input} {inside : Nat → Prop} {J : Type}
  {does : {α : Type} → (J → ParseM α) → Nat → (α → Nat → Prop) → Prop}
  (logic : Placewise input inside does) {α β : Type} {p q : Nat} {post : α → Nat → Prop}
include logic

/-! ## Steps without rules -/

theorem mono {m : J → ParseM α} {mid : α → Nat → Prop} (h : does m p mid)
    (imp : ∀ a q, mid a q → post a q) : does m p post := by
  have := logic.bind h fun a q ha => logic.pure (imp a q ha)
  simpa only [bind_pure] using this

/-- A result with a constructor around it. -/
theorem map {m : J → ParseM β} {c : β → α} (h : does m p fun b q => post (c b) q) :
    does (fun j => c <$> m j) p post := by
  have := logic.bind h fun _ _ hb => logic.pure hb
  simpa only [map_eq_pure_bind] using this

theorem mark {k : J → Nat → ParseM α} (next : does (fun j => k j p) p post) :
    does (fun j => Grammar.current >>= k j) p post :=
  logic.bind logic.current (by rintro _ _ ⟨rfl, rfl⟩; exact next)

theorem goBack {k : J → Unit → ParseM α} (next : does (fun j => k j ()) q post) :
    does (fun j => Grammar.rewind q >>= k j) p post :=
  logic.bind logic.rewind (by rintro _ _ rfl; exact next)

theorem look {k : J → Token → ParseM α} (here : inside p)
    (next : ∀ first, input.tokens[p]? = some first → does (fun j => k j first) p post) :
    does (fun j => Grammar.peek input >>= k j) p post :=
  logic.bind (logic.peek here) (by rintro first _ ⟨found, rfl⟩; exact next first found)

theorem take {k : J → Token → ParseM α} {first : Token} (here : inside p)
    (found : input.tokens[p]? = some first) (notEnd : first.kind ≠ .endOfInput)
    (next : inside (p + 1) → does (fun j => k j first) (p + 1) post) :
    does (fun j => Grammar.advance input >>= k j) p post :=
  logic.bind (logic.advance here found notEnd)
    (by rintro _ _ ⟨rfl, within, rfl⟩; exact next within)

theorem miss {k : J → Unit → ParseM α} {e : Expectation} (here : inside p)
    (next : does (fun j => k j ()) p post) :
    does (fun j => Grammar.expect e >>= k j) p post :=
  logic.bind (logic.expect here) (by rintro _ _ rfl; exact next)

/-- Two ways to go on, of which the token at the cursor chooses one. -/
theorem branch {kind : Token.Kind} {f g : J → ParseM α} (here : inside p)
    (pos : ∀ first, input.tokens[p]? = some first → first.kind = kind → does f p post)
    (neg : does g p post) :
    does (fun j => do if ← Grammar.check input kind then f j else g j) p post := by
  unfold Grammar.check
  simp only [bind_assoc, pure_bind]
  refine logic.look here fun first found => ?_
  by_cases same : first.kind = kind
  · simp only [same, BEq.rfl, if_true]
    exact pos first found same
  · simp only [beq_false_of_ne same, Bool.false_eq_true, if_false]
    exact neg

theorem accept {kind : Token.Kind} (here : inside p) (notEnd : kind ≠ .endOfInput) :
    does (fun _ => Grammar.accept input kind) p
      fun b q => inside q ∧ (b = true ∧ q = p + 1 ∨ b = false ∧ q = p) := by
  refine logic.branch here (fun first found same => ?_) (logic.pure ⟨here, .inr ⟨rfl, rfl⟩⟩)
  refine logic.take here found (same ▸ notEnd) fun within => ?_
  exact logic.pure ⟨within, .inl ⟨rfl, rfl⟩⟩

/-- Arguments may start at the cursor only at a bracket. -/
theorem opensArguments (here : inside p) :
    does (fun _ => Grammar.opensArguments input) p
      fun b q => q = p ∧ (b = true → input.BracketAt .bracket p) := by
  refine logic.branch here (fun first found same => ?_) (logic.pure ⟨rfl, nofun⟩)
  refine logic.mark (logic.pure ⟨rfl, fun _ => ?_⟩)
  exact (Input.kindAt_of_getElem? found).trans (congrArg some same)

theorem close {closer : Closer} (here : inside p) :
    does (fun _ => Grammar.close input closer) p
      fun b q => inside q ∧ (b = true ∧ p < q ∨ b = false ∧ q = p) := by
  have missing : does (fun _ => do
      Grammar.expect (.closer closer)
      return false) p fun b q => inside q ∧ (b = true ∧ p < q ∨ b = false ∧ q = p) :=
    logic.miss here (logic.pure ⟨here, .inr ⟨rfl, rfl⟩⟩)
  unfold Grammar.close
  by_cases double : closer = .doubleBracket
  · subst double
    simp only [if_true]
    refine logic.mark ?_
    cases pair : pairAt input p Closer.doubleBracket.kind with
    | true =>
      obtain ⟨first, next⟩ := Input.kindAt_of_pairAt pair
      obtain ⟨first, hfirst, isFirst⟩ := Option.map_eq_some_iff.mp first
      obtain ⟨second, hsecond, isSecond⟩ := Option.map_eq_some_iff.mp next
      simp only [if_true]
      refine logic.take here hfirst (by rw [isFirst]; decide) fun within => ?_
      refine logic.take within hsecond (by rw [isSecond]; decide) fun within => ?_
      exact logic.pure ⟨within, .inl ⟨rfl, by omega⟩⟩
    | false => exact missing
  · simp only [if_neg double]
    refine logic.bind (logic.accept here (by cases closer <;> decide)) ?_
    rintro _ _ ⟨within, ⟨rfl, rfl⟩ | ⟨rfl, rfl⟩⟩
    · exact logic.pure ⟨within, .inl ⟨rfl, Nat.lt_succ_self p⟩⟩
    · exact missing

/-! ## Loops -/

/-- A loop does what its rounds do. -/
theorem rounds {round : J → α → ParseM (Round α β)} {spent : α → β} {post : β → Nat → Prop}
    (going : α → Nat → Prop)
    (each : ∀ a p, going a p → does (fun j => round j a) p (Round.After going post p))
    (out : ∀ a p, going a p → post (spent a) p) (bound : Nat) {a : α} (start : going a p) :
    does (fun j => Grammar.rounds (round j) spent bound a) p post := by
  induction bound generalizing p a with
  | zero => exact logic.pure (out a p start)
  | succ bound ih =>
    unfold Grammar.rounds
    refine logic.bind (each a p start) ?_
    rintro (b | b) q after
    · exact ih after.2
    · exact logic.pure after

/-- A loop behind what a rule has read. -/
theorem loop {round : J → Expr → ParseM (Round Expr Expr)} {place : Nat}
    (each : ∀ e q, NotBefore inside (place + 1) q →
      does (fun j => round j e) q (Round.Extends inside (place + 1) q))
    (e : Expr) (here : NotBefore inside (place + 1) p) :
    does (fun j => some <$> Grammar.rounds (round j) id input.bound e) p
      (Advanced inside place) := by
  have reached : does (fun j => Grammar.rounds (round j) id input.bound e) p
      fun _ => NotBefore inside (place + 1) :=
    logic.rounds _ each (fun _ _ going => going) input.bound here
  exact logic.map (logic.mono reached fun _ _ h => ⟨h.inside, fun _ => h.le⟩)

theorem acceptRound {kind : Token.Kind} {start : Nat} (notEnd : kind ≠ .endOfInput)
    (count : Nat) (here : inside p) (counted : p = start + count) :
    does (fun _ => Grammar.acceptRound input kind count) p
      (Round.After (fun count q => inside q ∧ q = start + count)
        (fun count q => inside q ∧ q = start + count) p) := by
  refine logic.bind (logic.accept here notEnd) ?_
  rintro _ _ ⟨within, ⟨rfl, rfl⟩ | ⟨rfl, rfl⟩⟩
  · exact logic.pure ⟨Nat.lt_succ_self p, within, congrArg Nat.succ counted⟩
  · exact logic.pure ⟨here, counted⟩

theorem acceptMany {kind : Token.Kind} (notEnd : kind ≠ .endOfInput) (here : inside p)
    (bound : Nat) :
    does (fun _ => Grammar.acceptMany input kind bound) p
      fun count q => inside q ∧ q = p + count := by
  rw [acceptMany_eq_rounds]
  exact logic.rounds (fun count q => inside q ∧ q = p + count)
    (fun count q going => logic.acceptRound notEnd count going.1 going.2) (fun _ _ going => going)
    bound ⟨here, rfl⟩

/-- A rule that does not apply leaves the cursor in its place. -/
theorem attempt {m : J → ParseM (Option Expr)} (here : inside p)
    (h : does m p (Advanced inside p)) :
    does (fun j => Grammar.attempt (m j)) p (Advances inside p) := by
  refine logic.mark (logic.bind h ?_)
  rintro (_ | e) q ⟨within, lt⟩
  · exact logic.goBack (logic.pure ⟨here, fun _ => rfl, nofun⟩)
  · exact logic.pure ⟨within, nofun, lt⟩

end Placewise

/-! ## Rules that are applied -/

/-- The rules that are applied from a place and a number on advance. -/
def Placewise.Calls (input : Input) (inside : Nat → Prop) {J : Type}
    (does : {α : Type} → (J → ParseM α) → Nat → (α → Nat → Prop) → Prop) (place number : Nat)
    (call : J → Rule → ParseM (Option Expr)) : Prop :=
  ∀ rule p, inside p → input.Opens rule p → rule.Later place number p →
    does (fun j => call j rule) p (Advances inside p)

namespace Placewise
variable {input : Input} {inside : Nat → Prop} {J : Type}
  {does : {α : Type} → (J → ParseM α) → Nat → (α → Nat → Prop) → Prop}
  {place number p : Nat} {call : J → Rule → ParseM (Option Expr)}

theorem Calls.beyond (calls : Calls input inside does place number call) (rule : Rule)
    (hrule : rule.opener? = none) (here : inside p) (lt : place < p) :
    does (fun j => call j rule) p (Advances inside p) :=
  calls rule p here (by simp [Input.Opens, hrule]) (.inl lt)

theorem Calls.tighter (calls : Calls input inside does place number call) (rule : Rule)
    (hrule : rule.opener? = none) (here : inside place) (le : number ≤ rule.index) :
    does (fun j => call j rule) place (Advances inside place) :=
  calls rule place here (by simp [Input.Opens, hrule]) (.inr ⟨rfl, le⟩)

variable (logic : Placewise input inside does)
  (calls : Calls input inside does place number call)
include logic calls

/-- Behind signs that may be missing a tighter rule is applied. -/
theorem behind_signs (rule : Rule) (hrule : rule.opener? = none) (le : number ≤ rule.index)
    (count : Nat) (here : inside (place + count)) :
    does (fun j => call j rule) (place + count) (Advanced inside place) := by
  cases count with
  | zero => exact logic.mono (calls.tighter rule hrule here le) fun _ _ h => ⟨h.inside, h.lt⟩
  | succ count =>
    have later := calls.beyond rule hrule here (by omega)
    refine logic.mono later fun _ _ h => ⟨h.inside, fun read => ?_⟩
    have := h.lt read
    omega

/-! ## Rounds -/

section Rounds
variable {start : Nat} {level operand : Rule}

theorem signRound (hnext : operand.opener? = none) {first : Token} (here : NotBefore inside start p)
    (found : input.tokens[p]? = some first) (notEnd : first.kind ≠ .endOfInput) (le : place ≤ p)
    (op : Operator) (left : Expr) :
    does (fun j => Grammar.signRound input (call j) operand op left) p
      (Round.Extends inside start p) := by
  refine logic.mark (logic.take here.inside found notEnd fun within => ?_)
  refine logic.bind (calls.beyond operand hnext within (Nat.lt_succ_of_le le)) ?_
  rintro (_ | right) q advances
  · exact logic.goBack (logic.pure here)
  · have lt : p < q := Nat.lt_of_succ_lt (advances.lt (Option.some_ne_none _))
    exact logic.pure ⟨lt, advances.inside, Nat.le_trans here.le (Nat.le_of_lt lt)⟩

theorem foldRound (hnext : operand.opener? = none) (here : NotBefore inside start p)
    (le : place ≤ p) (left : Expr) :
    does (fun j => Grammar.foldRound input (call j) level operand left) p
      (Round.Extends inside start p) := by
  refine logic.look here.inside fun first found => ?_
  cases hop : level.operator? first.kind with
  | none => exact logic.pure here
  | some op =>
    exact logic.signRound calls hnext here found (Rule.ne_endOfInput_of_operator? hop) le op left

/-- A factor side by side with what is in front is read from the same place. -/
theorem productRound (here : NotBefore inside start p)
    (later : Rule.power.Later place number p) (left : Expr) :
    does (fun j => Grammar.productRound input (call j) left) p
      (Round.Extends inside start p) := by
  have le : place ≤ p := by
    rcases later with lt | ⟨rfl, -⟩
    · exact Nat.le_of_lt lt
    · exact Nat.le_refl _
  refine logic.look here.inside fun first found => ?_
  dsimp only
  cases hop : Rule.multiplicative.operator? first.kind with
  | some op =>
    exact logic.signRound calls rfl here found (Rule.ne_endOfInput_of_operator? hop) le op left
  | none =>
    dsimp only
    split
    · refine logic.bind (calls .power p here.inside nofun later) ?_
      rintro (_ | right) q advances
      · obtain rfl := advances.back rfl
        exact logic.pure here
      · have lt := advances.lt (Option.some_ne_none _)
        exact logic.pure ⟨lt, advances.inside, Nat.le_trans here.le (Nat.le_of_lt lt)⟩
    · exact logic.pure here

theorem exponentRound {chain : List Exponent} (read : SeenChain input inside start chain p)
    (le : place ≤ p) :
    does (fun j => Grammar.exponentRound input (call j) chain) p
      (Round.After (SeenChain input inside start) (SeenChain input inside start) p) := by
  obtain ⟨here, seen⟩ := read
  refine logic.branch here.inside (fun sign hsign isPower => ?_) (logic.pure ⟨here, seen⟩)
  refine logic.mark (logic.take here.inside hsign (by rw [isPower]; decide) fun within => ?_)
  refine logic.bind (logic.acceptMany (by decide) within input.bound) ?_
  rintro minuses _ ⟨within, rfl⟩
  refine logic.look within fun first found => ?_
  refine logic.bind (calls.beyond .part rfl within (by omega)) ?_
  rintro (_ | operand) q advances
  · exact logic.goBack (logic.pure ⟨here, seen⟩)
  · have lt := advances.lt (Option.some_ne_none _)
    have := here.le
    refine logic.pure ⟨by omega, ⟨advances.inside, by omega⟩, fun x hx => ?_⟩
    rcases List.mem_append.mp hx with hx | hx
    · exact seen x hx
    · obtain rfl := List.mem_singleton.mp hx
      exact Array.mem_of_getElem? found

/-- An expression in brackets is read from the place where the last one left off. -/
theorem itemRound (closer : Closer) (here : NotBefore inside start p)
    (later : Rule.or.Later place number p) (before : List Expr) :
    does (fun j => Grammar.itemRound input (call j) closer before) p
      (Round.After (fun _ => NotBefore inside start)
        (fun es q => inside q ∧ (es ≠ none → start ≤ q)) p) := by
  refine logic.bind (calls .or p here.inside nofun later) ?_
  rintro (_ | item) q advances
  · exact logic.pure ⟨advances.inside, nofun⟩
  · have lt : p < q := advances.lt (Option.some_ne_none _)
    have le := here.le
    refine logic.bind (logic.accept advances.inside (by decide)) ?_
    rintro _ _ ⟨within, ⟨rfl, rfl⟩ | ⟨rfl, rfl⟩⟩
    · exact logic.pure ⟨by omega, within, by omega⟩
    · simp only [Bool.false_eq_true, if_false]
      refine logic.bind (logic.close within) ?_
      rintro _ r ⟨within, ⟨rfl, lt'⟩ | ⟨rfl, rfl⟩⟩
      · exact logic.pure ⟨within, fun _ => by omega⟩
      · exact logic.miss within (logic.pure ⟨within, nofun⟩)

/-! ## Brackets -/

theorem sequence (closer : Closer) (here : inside p) (lt : place < p) :
    does (fun j => Grammar.sequence input (call j) closer) p
      fun es q => inside q ∧ (es ≠ none → p ≤ q) := by
  refine logic.bind (logic.close here) ?_
  rintro _ q ⟨within, ⟨rfl, lt'⟩ | ⟨rfl, rfl⟩⟩
  · exact logic.pure ⟨within, fun _ => Nat.le_of_lt lt'⟩
  · simp only [Bool.false_eq_true, if_false, items_eq_rounds]
    refine logic.rounds (fun _ => NotBefore inside q) (fun before r going => ?_)
      (fun _ _ going => ⟨going.inside, nofun⟩) _ ⟨within, Nat.le_refl _⟩
    exact logic.itemRound calls closer going (.inl (Nat.lt_of_lt_of_le lt going.le)) before

/-- A bracket where a rule is at work, or behind it. -/
theorem bracketed (closer : Closer) (here : inside p) (opens : input.BracketAt closer p)
    (le : place ≤ p) :
    does (fun j => Grammar.bracketed input (call j) closer) p (Advanced inside p) := by
  obtain ⟨first, hfirst, isFirst⟩ :=
    Option.map_eq_some_iff.mp (Input.kindAt_of_bracketAt opens)
  refine logic.mark (logic.take here hfirst
    (by rw [isFirst]; cases closer <;> decide) fun within => ?_)
  by_cases double : closer = .doubleBracket
  · subst double
    obtain ⟨second, hsecond, isSecond⟩ :=
      Option.map_eq_some_iff.mp (Input.kindAt_of_pairAt opens).2
    simp only [if_true]
    refine logic.take within hsecond (by rw [isSecond]; decide) fun within => logic.nested ?_
    exact logic.mono (logic.sequence calls _ within (by omega)) fun _ _ h =>
      ⟨h.1, fun read => by have := h.2 read; omega⟩
  · simp only [if_neg double]
    exact logic.nested (logic.sequence calls _ within (by omega))

theorem indexRound (here : NotBefore inside start p) (le : place ≤ p) (e : Expr) :
    does (fun j => Grammar.indexRound input (call j) e) p
      (Round.Extends inside start p) := by
  refine logic.mark ?_
  cases pair : pairAt input p .leftBracket with
  | false => exact logic.pure here
  | true =>
    simp only [if_true]
    refine logic.bind (logic.bracketed calls .doubleBracket here.inside pair le) ?_
    rintro (_ | indices) q ⟨within, lt⟩
    · exact logic.goBack (logic.pure here)
    · have lt := lt (Option.some_ne_none _)
      exact logic.pure ⟨lt, within, Nat.le_trans here.le (Nat.le_of_lt lt)⟩

theorem curryRound (here : NotBefore inside start p) (le : place ≤ p) (e : Expr) :
    does (fun j => Grammar.curryRound input (call j) e) p
      (Round.Extends inside start p) := by
  refine logic.bind (logic.opensArguments here.inside) ?_
  rintro (_ | _) _ ⟨rfl, opens⟩
  · exact logic.pure here
  · simp only [if_true]
    refine logic.mark (logic.bind (logic.bracketed calls .bracket here.inside (opens rfl) le) ?_)
    rintro (_ | args) q ⟨within, lt⟩
    · exact logic.goBack (logic.pure here)
    · have lt := lt (Option.some_ne_none _)
      exact logic.pure ⟨lt, within, Nat.le_trans here.le (Nat.le_of_lt lt)⟩

end Rounds

/-! ## Rules -/

theorem foldLeft {level operand : Rule} (hnext : operand.opener? = none)
    (le : number ≤ operand.index) (here : inside place) :
    does (fun j => Grammar.foldLeft input (call j) level operand) place
      (Advanced inside place) := by
  unfold Grammar.foldLeft
  refine logic.bind (calls.tighter operand hnext here le) ?_
  rintro (_ | left) q advances
  · exact logic.pure ⟨advances.inside, nofun⟩
  · simp only [foldMore_eq_rounds]
    refine logic.loop (fun e q going => ?_) left
      ⟨advances.inside, advances.lt (Option.some_ne_none _)⟩
    exact logic.foldRound calls hnext going (Nat.le_of_lt going.le) e

theorem product (le : number ≤ Rule.unary.index) (here : inside place) :
    does (fun j => Grammar.product input (call j)) place (Advanced inside place) := by
  unfold Grammar.product
  refine logic.bind (calls.tighter .unary rfl here le) ?_
  rintro (_ | left) q advances
  · exact logic.pure ⟨advances.inside, nofun⟩
  · simp only [productMore_eq_rounds]
    refine logic.loop (fun e q going => ?_) left
      ⟨advances.inside, advances.lt (Option.some_ne_none _)⟩
    exact logic.productRound calls going (.inl going.le) e

theorem negated (le : number ≤ Rule.equality.index) (here : inside place) :
    does (fun j => Grammar.negated input (call j)) place (Advanced inside place) := by
  refine logic.bind (logic.acceptMany (by decide) here input.bound) ?_
  rintro count _ ⟨within, rfl⟩
  refine logic.bind (logic.behind_signs calls .equality rfl le count within) ?_
  rintro (_ | operand) q advanced
  · exact logic.pure ⟨advanced.1, nofun⟩
  · exact logic.pure ⟨advanced.1, fun _ => advanced.2 (Option.some_ne_none _)⟩

theorem signed (le : number ≤ Rule.power.index) (here : inside place) :
    does (fun j => Grammar.signed input (call j)) place (Advanced inside place) := by
  refine logic.bind (logic.acceptMany (by decide) here input.bound) ?_
  rintro count _ ⟨within, rfl⟩
  refine logic.look within fun first found => ?_
  refine logic.bind (logic.behind_signs calls .power rfl le count within) ?_
  rintro (_ | operand) q advanced
  · exact logic.pure ⟨advanced.1, nofun⟩
  · refine logic.bind (logic.needValue (Array.mem_of_getElem? found)) ?_
    rintro _ _ rfl
    exact logic.pure ⟨advanced.1, fun _ => advanced.2 (Option.some_ne_none _)⟩

theorem span (le : number ≤ Rule.additive.index) (here : inside place) :
    does (fun j => Grammar.span input (call j)) place (Advanced inside place) := by
  unfold Grammar.span
  refine logic.bind (calls.tighter .additive rfl here le) ?_
  intro start q advances
  have reached : place ≤ q := by
    cases start with
    | none => exact Nat.le_of_eq (advances.back rfl).symm
    | some e => exact Nat.le_of_lt (advances.lt (Option.some_ne_none e))
  refine logic.branch advances.inside (fun first found isSpan => ?_)
    (logic.pure ⟨advances.inside, advances.lt⟩)
  refine logic.take advances.inside found (by rw [isSpan]; decide) fun within => ?_
  refine logic.bind (calls.beyond .additive rfl within (Nat.lt_succ_of_le reached)) ?_
  intro stop r advances
  -- The sign has been taken, whether there are operands around it or not.
  have lt : place < r := by
    cases stop with
    | none => exact (advances.back rfl).symm ▸ Nat.lt_succ_of_le reached
    | some e =>
      exact Nat.lt_of_le_of_lt reached (Nat.lt_of_succ_lt (advances.lt (Option.some_ne_none e)))
  refine logic.branch advances.inside (fun first found isSpan => ?_)
    (logic.pure ⟨advances.inside, fun _ => lt⟩)
  refine logic.mark (logic.take advances.inside found (by rw [isSpan]; decide) fun within => ?_)
  refine logic.bind (calls.beyond .additive rfl within (Nat.lt_succ_of_lt lt)) ?_
  rintro (_ | step) t advances'
  · exact logic.goBack (logic.pure ⟨advances.inside, fun _ => lt⟩)
  · have := advances'.lt (Option.some_ne_none _)
    exact logic.pure ⟨advances'.inside, fun _ => by omega⟩

/-- Exponents of a power start with tokens of the input. -/
theorem exponents (here : NotBefore inside (place + 1) p) :
    does (fun j => Grammar.exponents input (call j) input.bound) p
      (SeenChain input inside (place + 1)) := by
  simp only [exponents_eq_rounds]
  refine logic.rounds (SeenChain input inside (place + 1)) (fun chain q going => ?_)
    (fun _ _ going => going) _ ⟨here, nofun⟩
  exact logic.exponentRound calls going (Nat.le_of_lt going.1.le)

theorem power (le : number ≤ Rule.part.index) (here : inside place) :
    does (fun j => Grammar.power input (call j)) place (Advanced inside place) := by
  refine logic.bind (calls.tighter .part rfl here le) ?_
  rintro (_ | base) q advances
  · exact logic.pure ⟨advances.inside, nofun⟩
  · refine logic.bind (logic.exponents calls
      ⟨advances.inside, advances.lt (Option.some_ne_none _)⟩) ?_
    rintro chain r ⟨going, seen⟩
    have done : Advanced inside place (some (powers input.config base chain)) r :=
      ⟨going.inside, fun _ => going.le⟩
    dsimp only
    cases last : chain.getLast? with
    | none => exact logic.pure done
    | some x =>
      refine logic.bind (logic.needValue (seen x (List.mem_of_getLast? last))) ?_
      rintro _ _ rfl
      exact logic.pure done

theorem part (le : number ≤ Rule.atom.index) (here : inside place) :
    does (fun j => Grammar.part input (call j)) place (Advanced inside place) := by
  unfold Grammar.part
  refine logic.bind (calls.tighter .atom rfl here le) ?_
  rintro (_ | e) q advances
  · exact logic.pure ⟨advances.inside, nofun⟩
  · simp only [indexed_eq_rounds]
    refine logic.loop (fun e q going => ?_) e
      ⟨advances.inside, advances.lt (Option.some_ne_none _)⟩
    exact logic.indexRound calls going (Nat.le_of_lt going.le) e

theorem atom (le : number ≤ Rule.group.index) (here : inside place) :
    does (fun j => Grammar.atom input (call j)) place (Advanced inside place) := by
  refine logic.look here fun first found => ?_
  -- A token that is an atom of its own is taken.
  have alone (e : Expr) (notEnd : first.kind ≠ .endOfInput) :
      does (fun _ => do
        let _ ← Grammar.advance input
        return some e) place (Advanced inside place) :=
    logic.take here found notEnd fun within =>
      logic.pure ⟨within, fun _ => Nat.lt_succ_self _⟩
  -- A rule for brackets is applied in front of them.
  have enclosed (rule : Rule) (hrule : rule.opener? = some first.kind)
      (tighter : Rule.group.index ≤ rule.index) :
      does (fun j => call j rule) place (Advances inside place) := by
    refine calls rule place here (fun kind hkind => ?_) (.inr ⟨rfl, Nat.le_trans le tighter⟩)
    rw [Input.kindAt_of_getElem? found, ← hrule, hkind]
  cases kind : first.kind with
  | leftParen =>
    exact logic.mono (enclosed .group (by rw [kind]; rfl) (by decide)) fun _ _ h => ⟨h.inside, h.lt⟩
  | leftBrace =>
    exact logic.mono (enclosed .list (by rw [kind]; rfl) (by decide)) fun _ _ h => ⟨h.inside, h.lt⟩
  | identifier =>
    refine logic.bind (enclosed .application (by rw [kind]; rfl) (by decide)) ?_
    rintro (_ | e) q advances
    · obtain rfl := advances.back rfl
      refine logic.take here found (by rw [kind]; decide) fun within => ?_
      exact logic.pure ⟨within, fun _ => Nat.lt_succ_self _⟩
    · exact logic.pure ⟨advances.inside, fun _ => advances.lt (Option.some_ne_none _)⟩
  | number | string => exact alone _ (by rw [kind]; decide)
  | _ => exact logic.miss here (logic.pure ⟨here, nofun⟩)

theorem group (here : inside place) (opens : input.kindAt place = some .leftParen) :
    does (fun j => Grammar.group input (call j)) place (Advanced inside place) := by
  obtain ⟨first, found, isFirst⟩ := Option.map_eq_some_iff.mp opens
  refine logic.mark (logic.take here found (by rw [isFirst]; decide) fun within => ?_)
  refine logic.nested (logic.bind (calls.beyond .or rfl within (Nat.lt_succ_self _)) ?_)
  rintro (_ | e) q advances
  · exact logic.pure ⟨advances.inside, nofun⟩
  · have lt := advances.lt (Option.some_ne_none _)
    refine logic.bind (logic.close advances.inside) ?_
    rintro _ _ ⟨within, ⟨rfl, lt'⟩ | ⟨rfl, rfl⟩⟩
    · exact logic.pure ⟨within, fun _ => by omega⟩
    · exact logic.pure ⟨within, nofun⟩

theorem list (here : inside place) (opens : input.kindAt place = some .leftBrace) :
    does (fun j => Grammar.list input (call j)) place (Advanced inside place) := by
  refine logic.bind (logic.bracketed calls .brace here opens (Nat.le_refl _)) ?_
  rintro (_ | es) q advanced
  · exact logic.pure ⟨advanced.1, nofun⟩
  · exact logic.pure ⟨advanced.1, fun _ => advanced.2 (Option.some_ne_none _)⟩

theorem application (here : inside place) (opens : input.kindAt place = some .identifier) :
    does (fun j => Grammar.application input (call j)) place (Advanced inside place) := by
  obtain ⟨name, found, isName⟩ := Option.map_eq_some_iff.mp opens
  unfold Grammar.application
  refine logic.take here found (by rw [isName]; decide) fun within => ?_
  refine logic.bind (logic.opensArguments within) ?_
  rintro (_ | _) _ ⟨rfl, opens⟩
  · exact logic.pure ⟨within, nofun⟩
  · simp only [if_true]
    refine logic.bind (logic.bracketed calls .bracket within (opens rfl) (Nat.le_succ _)) ?_
    rintro (_ | args) q advanced
    · exact logic.pure ⟨advanced.1, nofun⟩
    · have lt := advanced.2 (Option.some_ne_none _)
      simp only [curried_eq_rounds]
      refine logic.loop (fun e q going => ?_) _ ⟨advanced.1, Nat.lt_of_succ_lt lt⟩
      exact logic.curryRound calls going (Nat.le_of_lt going.le) e

omit calls in
/-- **What is read by a rule has at least one token**, if that goes for the rules that it
applies. -/
theorem body {rule : Rule} (call : J → Rule → ParseM (Option Expr))
    (calls : Calls input inside does place (rule.index + 1) call)
    (here : inside place) (opens : input.Opens rule place) :
    does (fun j => Grammar.body input (call j) rule) place (Advanced inside place) := by
  cases rule with
  | or | and | equality | relational | additive =>
    exact logic.foldLeft calls rfl (by decide) here
  | not => exact logic.negated calls (by decide) here
  | span => exact logic.span calls (by decide) here
  | multiplicative => exact logic.product calls (by decide) here
  | unary => exact logic.signed calls (by decide) here
  | power => exact logic.power calls (by decide) here
  | part => exact logic.part calls (by decide) here
  | atom => exact logic.atom calls (by decide) here
  | group => exact logic.group calls here (opens _ rfl)
  | list => exact logic.list calls here (opens _ rfl)
  | application => exact logic.application calls here (opens _ rfl)

end Placewise
end Grammar
end Formula
