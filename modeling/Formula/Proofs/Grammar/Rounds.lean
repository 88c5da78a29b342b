import Formula.Proofs.Grammar.SideBySide

/-! # Loops round by round

The loops of the grammar count down a bound, and what a round does and what follows it are
written as one.  Here the rounds stand on their own: `rounds` goes through them, and each loop is
`rounds` of its round (`foldMore_eq_rounds` and its likes).  What a round found before is part of
the loop's state, so that no loop has anything left to do behind its last round.

`Strides` is what a loop should do: each of its rounds takes a token, and the last one stops by
itself.  In that case the bound plays no part in the outcome.
-/
namespace Formula
namespace Grammar

/-- What a round of a loop comes to: the loop goes on, or it is done. -/
inductive Round (α β : Type)
  | more (a : α)
  | done (b : β)

section Rounds
variable {α β : Type}

/-- A loop of so many rounds, and what it gives when they are used up. -/
def rounds (round : α → ParseM (Round α β)) (spent : α → β) : (bound : Nat) → α → ParseM β
  | 0, a => return spent a
  | bound + 1, a => do
    match ← round a with
    | .more a => rounds round spent bound a
    | .done b => return b

/-- A loop comes to an outcome in rounds that each take a token, and its last round is done or
stops the parse. -/
inductive Strides (round : α → ParseM (Round α β)) :
    α → State → EStateM.Result Abort State β → Prop
  | done {a : α} {b : β} {s t : State} (last : round a s = .ok (.done b) t) :
      Strides round a s (.ok b t)
  | stopped {a : α} {s t : State} {abort : Abort} (last : round a s = .error abort t) :
      Strides round a s (.error abort t)
  | more {a b : α} {s t : State} {outcome : EStateM.Result Abort State β}
      (first : round a s = .ok (.more b) t) (takes : s.current < t.current)
      (rest : Strides round b t outcome) : Strides round a s outcome

/-- A loop strides if its rounds take tokens as long as there are some, and its bound is enough
for all of these. -/
theorem strides_rounds {round : α → ParseM (Round α β)} {spent : α → β} (size : Nat)
    (going : α → State → Prop)
    (takes : ∀ a s, going a s → s.current < size ∧
      ∀ b t, round a s = .ok (.more b) t → going b t ∧ s.current < t.current)
    {bound : Nat} {a : α} {s : State} (start : going a s) (enough : size ≤ s.current + bound) :
    Strides round a s (rounds round spent bound a s) := by
  induction bound generalizing a s with
  | zero =>
    have := (takes a s start).1
    omega
  | succ bound ih =>
    unfold rounds
    rw [bind_apply]
    cases first : round a s with
    | error abort t => exact .stopped first
    | ok r t =>
      cases r with
      | done b => exact .done first
      | more b =>
        obtain ⟨next, lt⟩ := (takes a s start).2 b t first
        exact .more first lt (ih next (by omega))

end Rounds

section Loops
variable (input : Input) (call : Rule → ParseM (Option Expr))

/-! ## The rounds of each loop -/

/-- One more token of a kind. -/
def acceptRound (kind : Token.Kind) (count : Nat) : ParseM (Round Nat Nat) := do
  if ← accept input kind then return .more (count + 1) else return .done count

/-- The sign of an operator with the operand behind it. -/
def signRound (operand : Rule) (op : Operator) (left : Expr) : ParseM (Round Expr Expr) := do
  let mark ← current
  let _ ← advance input
  match ← call operand with
  | none =>
    rewind mark
    return .done left
  | some right => return .more (.node op [left, right])

/-- One more operand of a level that groups to the left. -/
def foldRound (level operand : Rule) (left : Expr) : ParseM (Round Expr Expr) := do
  match level.operator? (← peek input).kind with
  | none => return .done left
  | some op => signRound input call operand op left

/-- One more factor. -/
def productRound (left : Expr) : ParseM (Round Expr Expr) := do
  let kind := (← peek input).kind
  match Rule.multiplicative.operator? kind with
  | some op => signRound input call .unary op left
  | none =>
    if input.config.implicitMultiplication ∧ startsAtom kind then
      match ← call .power with
      | none => return .done left
      | some right => return .more (.node .times [left, right])
    else return .done left

/-- One more exponent. -/
def exponentRound (chain : List Exponent) : ParseM (Round (List Exponent) (List Exponent)) := do
  if ← check input .power then
    let mark ← current
    let _ ← advance input
    let minuses ← acceptMany input .minus input.bound
    let first ← peek input
    match ← call .part with
    | none =>
      rewind mark
      return .done chain
    | some operand => return .more (chain ++ [⟨minuses, first, operand⟩])
  else return .done chain

/-- One more pair of brackets with indices. -/
def indexRound (e : Expr) : ParseM (Round Expr Expr) := do
  let mark ← current
  if pairAt input mark .leftBracket then
    match ← bracketed input call .doubleBracket with
    | none =>
      rewind mark
      return .done e
    | some indices => return .more (.node .part (e :: indices))
  else return .done e

/-- One more list of arguments. -/
def curryRound (e : Expr) : ParseM (Round Expr Expr) := do
  if ← opensArguments input then
    let mark ← current
    match ← bracketed input call .bracket with
    | none =>
      rewind mark
      return .done e
    | some args => return .more (.apply e args)
  else return .done e

/-- One more expression in front of a comma, or the last one in front of the closer. -/
def itemRound (closer : Closer) (before : List Expr) :
    ParseM (Round (List Expr) (Option (List Expr))) := do
  match ← call .or with
  | none => return .done none
  | some item =>
    if ← accept input .comma then return .more (before ++ [item])
    else if ← close input closer then return .done (some (before ++ [item]))
    else
      expect .comma
      return .done none

/-! ## The loops are made of their rounds -/

theorem add_acceptMany (kind : Token.Kind) (bound count : Nat) :
    (count + ·) <$> acceptMany input kind bound =
      rounds (acceptRound input kind) id bound count := by
  induction bound generalizing count with
  | zero => rfl
  | succ bound ih =>
    simp only [acceptMany, rounds, acceptRound, bind_assoc, map_bind]
    refine bind_congr fun taken => ?_
    cases taken with
    | false => rfl
    | true =>
      simp only [if_true, bind_assoc, pure_bind, ← ih (count + 1), map_eq_pure_bind]
      exact bind_congr fun n => congrArg Pure.pure (by omega)

theorem acceptMany_eq_rounds (kind : Token.Kind) (bound : Nat) :
    acceptMany input kind bound = rounds (acceptRound input kind) id bound 0 := by
  rw [← add_acceptMany]
  simp

theorem foldMore_eq_rounds (level operand : Rule) (bound : Nat) (left : Expr) :
    foldMore input call level operand bound left =
      rounds (foldRound input call level operand) id bound left := by
  induction bound generalizing left with
  | zero => rfl
  | succ bound ih =>
    simp only [foldMore, rounds, foldRound, signRound, bind_assoc]
    refine bind_congr fun first => ?_
    cases level.operator? first.kind with
    | none => simp
    | some op =>
      simp only [bind_assoc]
      refine bind_congr fun mark => bind_congr fun _ => bind_congr fun r => ?_
      cases r with
      | none => simp
      | some right => simp [ih]

theorem productMore_eq_rounds (bound : Nat) (left : Expr) :
    productMore input call bound left = rounds (productRound input call) id bound left := by
  induction bound generalizing left with
  | zero => rfl
  | succ bound ih =>
    simp only [productMore, rounds, productRound, signRound, bind_assoc]
    refine bind_congr fun first => ?_
    cases Rule.multiplicative.operator? first.kind with
    | none =>
      dsimp only
      split
      · simp only [bind_assoc]
        refine bind_congr fun r => ?_
        cases r with
        | none => simp
        | some right => simp [ih]
      · simp
    | some op =>
      simp only [bind_assoc]
      refine bind_congr fun mark => bind_congr fun _ => bind_congr fun r => ?_
      cases r with
      | none => simp
      | some right => simp [ih]

theorem append_exponents (bound : Nat) (chain : List Exponent) :
    (chain ++ ·) <$> exponents input call bound =
      rounds (exponentRound input call) id bound chain := by
  induction bound generalizing chain with
  | zero => simp [exponents, rounds]
  | succ bound ih =>
    simp only [exponents, rounds, exponentRound, bind_assoc, map_bind]
    refine bind_congr fun here => ?_
    cases here with
    | false => simp
    | true =>
      simp only [if_true, bind_assoc, map_bind]
      refine bind_congr fun mark => bind_congr fun _ => bind_congr fun minuses =>
        bind_congr fun first => bind_congr fun r => ?_
      cases r with
      | none => simp
      | some operand => simp [← ih]

theorem exponents_eq_rounds (bound : Nat) :
    exponents input call bound = rounds (exponentRound input call) id bound [] := by
  rw [← append_exponents]
  simp

theorem indexed_eq_rounds (bound : Nat) (e : Expr) :
    indexed input call bound e = rounds (indexRound input call) id bound e := by
  induction bound generalizing e with
  | zero => rfl
  | succ bound ih =>
    simp only [indexed, rounds, indexRound, bind_assoc]
    refine bind_congr fun mark => ?_
    split
    · simp only [bind_assoc]
      refine bind_congr fun r => ?_
      cases r with
      | none => simp
      | some indices => simp [ih]
    · simp

theorem curried_eq_rounds (bound : Nat) (e : Expr) :
    curried input call bound e = rounds (curryRound input call) id bound e := by
  induction bound generalizing e with
  | zero => rfl
  | succ bound ih =>
    simp only [curried, rounds, curryRound, bind_assoc]
    refine bind_congr fun here => ?_
    cases here with
    | false => simp
    | true =>
      simp only [if_true, bind_assoc]
      refine bind_congr fun mark => bind_congr fun r => ?_
      cases r with
      | none => simp
      | some args => simp [ih]

theorem append_items (closer : Closer) (bound : Nat) (before : List Expr) :
    Option.map (before ++ ·) <$> items input call closer bound =
      rounds (itemRound input call closer) (fun _ => none) bound before := by
  induction bound generalizing before with
  | zero => rfl
  | succ bound ih =>
    simp only [items, rounds, itemRound, bind_assoc, map_bind]
    refine bind_congr fun r => ?_
    cases r with
    | none => simp
    | some item =>
      simp only [bind_assoc, map_bind]
      refine bind_congr fun comma => ?_
      cases comma with
      | true =>
        simp only [if_true, bind_assoc, pure_bind, ← ih, map_eq_pure_bind]
        refine bind_congr fun others => ?_
        cases others <;> simp
      | false =>
        simp only [Bool.false_eq_true, if_false, bind_assoc, map_bind]
        refine bind_congr fun closed => ?_
        cases closed <;> simp

theorem items_eq_rounds (closer : Closer) (bound : Nat) :
    items input call closer bound =
      rounds (itemRound input call closer) (fun _ => none) bound [] := by
  rw [← append_items]
  simp

end Loops
end Grammar
end Formula
