import Formula.Proofs.Grammar.Atoms

/-! # Derivations in other tokens

A derivation is carried over to other tokens if each of its tokens is found there again
(`Input.Carries.derives`).  There may be more tokens.  A sign may be put in between two operands
that stand side by side, and something else may stand for a name, as long as it is an atom of what
the name becomes.
-/
namespace Formula

/-- A map of expressions that keeps their form, and changes nothing but names. -/
structure Expr.KeepsForm (f : Expr → Expr) : Prop where
  number : ∀ text, f (.number text) = .number text
  string : ∀ text, f (.string text) = .string text
  singleton : ∀ name, f (.singleton name) = .singleton name
  node : ∀ op es, f (.node op es) = .node op (es.map f)
  apply : ∀ head es, f (.apply head es) = .apply (f head) (es.map f)

theorem Expr.keepsForm_id : KeepsForm id where
  number _ := rfl
  string _ := rfl
  singleton _ := rfl
  node _ es := by rw [List.map_id]; rfl
  apply _ es := by rw [List.map_id]; rfl

section KeepsForm
variable {f : Expr → Expr} (keeps : Expr.KeepsForm f) (n : Nat) (e : Expr)
include keeps

theorem Expr.KeepsForm.minuses :
    f (Nat.repeat Grammar.minus n e) = Nat.repeat Grammar.minus n (f e) := by
  induction n with
  | zero => rfl
  | succ n ih =>
    show f (.node .times [.number "-1", Nat.repeat Grammar.minus n e]) =
      .node .times [.number "-1", Nat.repeat Grammar.minus n (f e)]
    rw [keeps.node, List.map_cons, keeps.number, List.map_singleton, ih]

theorem Expr.KeepsForm.negations :
    f (Nat.repeat Grammar.negation n e) = Nat.repeat Grammar.negation n (f e) := by
  induction n with
  | zero => rfl
  | succ n ih =>
    show f (.node .not [Nat.repeat Grammar.negation n e]) =
      .node .not [Nat.repeat Grammar.negation n (f e)]
    rw [keeps.node, List.map_singleton, ih]

/-- The bounds of a span that are missing are put in alike. -/
theorem Expr.KeepsForm.bounds (start stop : Option Expr) (others : List Expr) :
    f (.node .span (start.getD (.number "1") :: stop.getD .everything :: others)) =
      .node .span ((start.map f).getD (.number "1") :: (stop.map f).getD .everything ::
        others.map f) := by
  have first : f (start.getD (.number "1")) = (start.map f).getD (.number "1") := by
    cases start with
    | none => exact keeps.number "1"
    | some e => rfl
  have second : f (stop.getD .everything) = (stop.map f).getD .everything := by
    cases stop with
    | none => exact keeps.singleton "All"
    | some e => rfl
  rw [keeps.node, List.map_cons, List.map_cons, first, second]

end KeepsForm

namespace Grammar

/-! ## Ends of operands -/

/-- Whether an operand of a product can end with a token of this kind. -/
def endsOperand : Token.Kind → Bool
  | .identifier | .number | .string | .rightParen | .rightBracket | .rightBrace => true
  | _ => false

/-- A token with which an operand can end is directly in front of a place. -/
def Input.EndsOperand (input : Input) (p : Nat) : Prop :=
  ∃ q kind, p = q + 1 ∧ input.kindAt q = some kind ∧ endsOperand kind = true

/-- The sign of an operator neither starts nor ends an operand. -/
theorem apart_of_operator? {level : Rule} {kind : Token.Kind} {op : Operator}
    (h : level.operator? kind = some op) : startsAtom kind = false ∧ endsOperand kind = false := by
  unfold Rule.operator? at h
  split at h <;> first | exact ⟨rfl, rfl⟩ | cases h

/-- Whether what a rule reads is a sum or a part of one, which cannot end with a sign. -/
def Rule.isTight (rule : Rule) : Bool :=
  decide (additive.index ≤ rule.index)

/-- Whether a phrase is one of sums or of their parts. -/
def Phrase.isTight : Phrase → Bool
  | rule r | after r _ => r.isTight
  | operand | arguments | items => false

section Ends
variable {input : Input} {p q : Nat}

theorem Input.EndsOperand.of_kindAt {kind : Token.Kind} (h : input.kindAt p = some kind)
    (ends : endsOperand kind = true) : input.EndsOperand (p + 1) :=
  ⟨p, kind, rfl, h, ends⟩

theorem Input.endsOperand_iff {kind : Token.Kind} (h : input.kindAt p = some kind) :
    input.EndsOperand (p + 1) ↔ endsOperand kind = true := by
  refine ⟨?_, .of_kindAt h⟩
  rintro ⟨q, other, same, here, ends⟩
  obtain rfl := Nat.succ.inj same
  rw [h] at here
  cases here
  exact ends

theorem Input.not_endsOperand_zero : ¬ input.EndsOperand 0 := by
  rintro ⟨q, kind, same, -⟩
  cases same

theorem Rule.isTight_operand? {level next : Rule} (h : level.operand? = some next)
    (tight : level.isTight = true) : next.isTight = true := by
  have lt := index_lt_of_operand? h
  simp only [isTight, decide_eq_true_eq] at tight ⊢
  omega

theorem Derives.empty_or_endsOperand {phrase : Phrase} {v : phrase.Value}
    (h : Derives input phrase p q v) (tight : phrase.isTight = true) :
    p = q ∨ input.EndsOperand q := by
  induction h with
  | level hnext operand _ ih₁ ih₂ =>
    have lt := operand.lt
    have next := ih₁ (Rule.isTight_operand? hnext tight)
    rcases ih₂ tight with rfl | ends
    · exact .inr (next.resolve_left (Nat.ne_of_lt lt))
    · exact .inr ends
  | stop => exact .inl rfl
  | sign hnext _ _ right _ ih₁ ih₂ =>
    have lt := right.lt
    have next := ih₁ (Rule.isTight_operand? hnext tight)
    rcases ih₂ tight with rfl | ends
    · exact .inr (next.resolve_left (Nat.ne_of_lt lt))
    · exact .inr ends
  | beside _ right _ ih₁ ih₂ =>
    have lt := right.lt
    rcases ih₂ tight with rfl | ends
    · exact .inr ((ih₁ rfl).resolve_left (Nat.ne_of_lt lt))
    · exact .inr ends
  | indices _ _ closes _ _ ih =>
    rcases ih tight with rfl | ends
    · exact .inr (.of_kindAt (Input.kindAt_of_pairAt closes).2 rfl)
    · exact .inr ends
  | curried _ _ closes _ _ ih =>
    rcases ih tight with rfl | ends
    · exact .inr (.of_kindAt closes rfl)
    · exact .inr ends
  | not | single | span | spanStep => cases tight
  | unary _ operand ih =>
    have lt := operand.lt
    exact .inr ((ih rfl).resolve_left (Nat.ne_of_lt lt))
  | base _ ih => exact ih rfl
  | power _ _ _ exponent _ ih =>
    have lt := exponent.lt
    exact .inr ((ih rfl).resolve_left (Nat.ne_of_lt lt))
  | missing | present | noArguments | someArguments | item | items => cases tight
  | bracketed hrule _ ih =>
    refine ih ?_
    rcases hrule with rfl | rfl | rfl <;> rfl
  | name here isName =>
    exact .inr (.of_kindAt ((Input.kindAt_of_getElem? here).trans (congrArg some isName)) rfl)
  | number here | string here => exact .inr (.of_kindAt here rfl)
  | group _ _ closes | list _ _ closes => exact .inr (.of_kindAt closes rfl)
  | application _ _ _ _ closes _ _ ih =>
    rcases ih rfl with rfl | ends
    · exact .inr (.of_kindAt closes rfl)
    · exact .inr ends

/-- Sums and their parts end with a token with which an operand can end. -/
theorem Derives.endsOperand {rule : Rule} {e : Expr} (h : Derives input (.rule rule) p q e)
    (tight : rule.isTight = true) : input.EndsOperand q :=
  (h.empty_or_endsOperand tight).resolve_left (Nat.ne_of_lt h.lt)

end Ends

/-! ## Tokens that are found again -/

theorem namedConstant_congr {config config' : Config}
    (h : config'.resolveBuiltins = config.resolveBuiltins) :
    namedConstant config' = namedConstant config := by
  funext name
  simp only [namedConstant, h]

theorem namedApplication_congr {config config' : Config}
    (h : config'.resolveBuiltins = config.resolveBuiltins) :
    namedApplication config' = namedApplication config := by
  funext name es
  simp only [namedApplication, h]

/-- What is in front of place `p` of some tokens, up to place `last`, is in front of place `stop p`
of others, and the token at place `p` is found at place `start p`.  The two places differ only
between operands that stand side by side.  The expressions are those that a map makes. -/
structure Input.Carries (input other : Input) (start stop : Nat → Nat) (f : Expr → Expr)
    (last : Nat) : Prop where
  keeps : Expr.KeepsForm f
  fold : other.config.foldNegativeLiterals = input.config.foldNegativeLiterals
  grows : ∀ p < last, stop p < stop (p + 1)
  front : ∀ {p kind}, input.kindAt p = some kind → startsAtom kind = false → start p = stop p
  back : ∀ {p kind}, input.kindAt p = some kind → endsOperand kind = false →
    start (p + 1) = stop (p + 1)
  token : ∀ {p kind}, p < last → input.kindAt p = some kind → kind ≠ .identifier →
    other.kindAt (start p) = some kind ∧ stop (p + 1) = start p + 1
  number : ∀ p < last, other.kindAt (start p) = some .number → input.kindAt p = some .number
  value : ∀ p < last, input.kindAt p = some .number ∨ input.kindAt p = some .string →
    other.valueAt (start p) = input.valueAt p
  pair : ∀ {p kind}, p + 1 < last → input.kindAt p = some kind →
    kind = .leftBracket ∨ kind = .rightBracket →
      pairAt other (start p) kind = pairAt input p kind
  name : ∀ {p t}, p < last → input.tokens[p]? = some t → t.kind = .identifier →
    Derives other (.rule .atom) (start p) (stop (p + 1)) (f (namedConstant input.config t.lexeme))
  call : ∀ {p t}, p + 1 < last → input.tokens[p]? = some t → t.kind = .identifier →
    input.OpensArguments (p + 1) →
      ∃ t', other.tokens[start p]? = some t' ∧ t'.kind = .identifier ∧ stop (p + 1) = start p + 1 ∧
        ∀ es, namedApplication other.config t'.lexeme (es.map f) =
          f (namedApplication input.config t.lexeme es)
  beside : ∀ {p q r left right e}, p < last → input.config.implicitMultiplication = true →
    input.EndsOperand p → input.StartsAt .power p →
    Derives other (.rule .power) (start p) q right →
    Derives other (.after .multiplicative (.node .times [left, right])) q r e →
      Derives other (.after .multiplicative left) (stop p) r e

/-- What a phrase is carried over to. -/
def Phrase.Carried (input other : Input) (start stop : Nat → Nat) (f : Expr → Expr) :
    (phrase : Phrase) → Nat → Nat → phrase.Value → Prop
  | rule r, p, q, e => Derives other (.rule r) (start p) (stop q) (f e)
  -- Factors can only be side by side if there is one before.
  | after level left, p, q, e => (level = .multiplicative → input.EndsOperand p) →
      Derives other (.after level (f left)) (stop p) (stop q) (f e)
  -- What is missing is found only next to the signs or brackets around it.
  | operand, p, q, none => p = q
  | operand, p, q, some e => Derives other (.rule .additive) (start p) (stop q) (f e)
  | arguments, p, q, es =>
    (p = q ∧ es = []) ∨ Derives other .items (start p) (stop q) (es.map f)
  | items, p, q, es => Derives other .items (start p) (stop q) (es.map f)

section Carried
variable {input other : Input} {start stop : Nat → Nat} {f : Expr → Expr} {p q : Nat}

/-- Arguments are carried over between their brackets. -/
theorem Phrase.Carried.arguments {es : List Expr} (opens : start p = stop p)
    (closes : start q = stop q) (h : Phrase.Carried input other start stop f .arguments p q es) :
    Derives other .arguments (stop p) (stop q) (es.map f) := by
  rcases h with ⟨rfl, rfl⟩ | items
  · exact .noArguments
  · exact .someArguments (opens ▸ items)

/-- An operand in front of a sign is carried over. -/
theorem Phrase.Carried.before {v : Option Expr} (closes : start q = stop q)
    (h : Phrase.Carried input other start stop f .operand p q v) :
    Derives other .operand (start p) (stop q) (v.map f) := by
  cases v with
  | none =>
    obtain rfl : p = q := h
    exact closes ▸ .missing
  | some e => exact .present h

/-- An operand behind a sign is carried over. -/
theorem Phrase.Carried.behind {v : Option Expr} (opens : start p = stop p)
    (h : Phrase.Carried input other start stop f .operand p q v) :
    Derives other .operand (stop p) (stop q) (v.map f) := by
  cases v with
  | none =>
    obtain rfl : p = q := h
    exact .missing
  | some e => exact .present (opens ▸ h)

end Carried

namespace Input.Carries
variable {input other : Input} {start stop : Nat → Nat} {f : Expr → Expr} {last : Nat}
  {p q r n : Nat} {kind : Token.Kind} {e : Expr} {es : List Expr}
  (carries : input.Carries other start stop f last)

include carries

/-- A sign is found again behind what comes before it, and so is what follows it. -/
theorem sign (lt : p < last) (h : input.kindAt p = some kind) (starts : startsAtom kind = false)
    (ends : endsOperand kind = false) : other.kindAt (stop p) = some kind ∧ start p = stop p ∧
      stop (p + 1) = stop p + 1 ∧ start (p + 1) = stop (p + 1) := by
  have front := carries.front h starts
  have plain : kind ≠ .identifier := fun same => by
    rw [same] at starts
    cases starts
  obtain ⟨here, next⟩ := carries.token lt h plain
  rw [front] at here next
  exact ⟨here, front, next, carries.back h ends⟩

theorem signsAt (le : p + n ≤ last) (h : input.SignsAt kind p n)
    (starts : startsAtom kind = false) (ends : endsOperand kind = false) :
    other.SignsAt kind (start p) n ∧ start (p + n) = start p + n := by
  induction n with
  | zero => exact ⟨Input.signsAt_zero, rfl⟩
  | succ n ih =>
    obtain ⟨signs, place⟩ := ih (by omega) fun i hi => h i (by omega)
    obtain ⟨here, front, next, back⟩ :=
      carries.sign (by omega) (h n (Nat.lt_succ_self n)) starts ends
    rw [← front, place] at here next
    refine ⟨fun i hi => ?_, back.trans next⟩
    rcases Nat.lt_succ_iff_lt_or_eq.mp hi with lt | rfl
    · exact signs i lt
    · exact here

theorem stop_lt (lt : p < q) (le : q ≤ last) : stop p < stop q := by
  induction q with
  | zero => omega
  | succ q ih =>
    have next := carries.grows q (by omega)
    rcases Nat.lt_succ_iff_lt_or_eq.mp lt with lt | rfl
    · exact Nat.lt_trans (ih lt (by omega)) next
    · exact next

/-- Minus signs become part of the same numbers. -/
theorem prefixed (lt : p < q) (le : q ≤ last) (n : Nat) (e : Expr) :
    f (input.prefixed n p q e) = other.prefixed n (start p) (stop q) (f e) := by
  cases n with
  | zero => rfl
  | succ n =>
    have folds : (other.config.foldNegativeLiterals = true ∧
        other.kindAt (start p) = some .number ∧ stop q = start p + 1) ↔
        input.config.foldNegativeLiterals = true ∧ input.kindAt p = some .number ∧ q = p + 1 := by
      rw [carries.fold]
      refine and_congr_right fun _ => ⟨fun ⟨here, next⟩ => ?_, fun ⟨here, next⟩ => ?_⟩
      · have isNumber := carries.number p (by omega) here
        refine ⟨isNumber, ?_⟩
        by_contra further
        have := (carries.token (by omega) isNumber (by decide)).2
        have := carries.stop_lt (show p + 1 < q by omega) le
        omega
      · subst next
        exact carries.token (by omega) here (by decide)
    unfold Input.prefixed
    simp only [folds]
    split
    · next folded =>
      rw [carries.keeps.minuses, carries.keeps.number,
        carries.value p (by omega) (.inl folded.2.1)]
    · rw [carries.keeps.minuses]

theorem opensArguments (lt : p + 1 < last) (h : input.OpensArguments p) :
    other.OpensArguments (stop p) := by
  obtain ⟨here, front, -, -⟩ := carries.sign (by omega) h.1 rfl rfl
  exact ⟨here, front ▸ (carries.pair lt h.1 (.inl rfl)).trans h.2⟩

/-- A closing bracket is found again behind what comes before it. -/
theorem closer (lt : p < last) (h : input.kindAt p = some kind) (starts : startsAtom kind = false)
    (plain : kind ≠ .identifier) :
    other.kindAt (stop p) = some kind ∧ start p = stop p ∧ stop (p + 1) = stop p + 1 := by
  have front := carries.front h starts
  have token := carries.token lt h plain
  rw [front] at token
  exact ⟨token.1, front, token.2⟩

/-- Two brackets without a gap between them are found again. -/
theorem pairAt (lt : p + 1 < last) (h : Grammar.pairAt input p kind = true)
    (bracket : kind = .leftBracket ∨ kind = .rightBracket) :
    Grammar.pairAt other (stop p) kind = true ∧ start p = stop p ∧ stop (p + 2) = stop p + 2 := by
  obtain ⟨first, second⟩ := Input.kindAt_of_pairAt h
  have starts : startsAtom kind = false := by rcases bracket with rfl | rfl <;> rfl
  have plain : kind ≠ .identifier := by rcases bracket with rfl | rfl <;> decide
  obtain ⟨-, front, next⟩ := carries.closer (by omega) first starts plain
  obtain ⟨-, -, next'⟩ := carries.closer lt second starts plain
  rw [next] at next'
  exact ⟨front ▸ (carries.pair lt first bracket).trans h, front, next'⟩

/-! ## Phrases of several parts -/

section Parts
variable {level next : Rule} {op : Operator} {t : Nat} {token : Token}
  {left right inner step : Expr} {lower upper : Option Expr}

/-- Arguments and the bracket behind them are found again. -/
theorem enclosed (lt : q < last) (opens : start p = stop p) (closes : input.kindAt q = some kind)
    (starts : startsAtom kind = false) (plain : kind ≠ .identifier)
    (args : Phrase.Carried input other start stop f .arguments p q es) :
    Derives other .arguments (stop p) (stop q) (es.map f) ∧ other.kindAt (stop q) = some kind ∧
      stop (q + 1) = stop q + 1 := by
  obtain ⟨closes', front, next⟩ := carries.closer lt closes starts plain
  exact ⟨args.arguments opens front, closes', next⟩

theorem sign_carried (lt : p < last) (hnext : level.operand? = some next)
    (hkind : input.kindAt p = some kind) (hop : level.operator? kind = some op)
    (operand : Phrase.Carried input other start stop f (.rule next) (p + 1) q right)
    (later : Derives other (.after level (f (.node op [left, right]))) (stop q) (stop r) (f e)) :
    Derives other (.after level (f left)) (stop p) (stop r) (f e) := by
  have plain := apart_of_operator? hop
  obtain ⟨here, -, next, back⟩ := carries.sign lt hkind plain.1 plain.2
  rw [carries.keeps.node] at later
  refine .sign hnext here hop ?_ later
  rw [← next, ← back]
  exact operand

theorem indices_carried (inside : p + 2 ≤ q) (le : q + 2 ≤ last)
    (opens : Grammar.pairAt input p .leftBracket = true)
    (args : Phrase.Carried input other start stop f .arguments (p + 2) q es)
    (closes : Grammar.pairAt input q .rightBracket = true)
    (later : Derives other (.after .part (f (.node .part (left :: es)))) (stop (q + 2)) (stop r)
      (f e)) :
    Derives other (.after .part (f left)) (stop p) (stop r) (f e) := by
  obtain ⟨opens', -, next⟩ := carries.pairAt (by omega) opens (.inl rfl)
  obtain ⟨closes', front, next'⟩ := carries.pairAt (by omega) closes (.inr rfl)
  have back := carries.back (Input.kindAt_of_pairAt opens).2 rfl
  rw [carries.keeps.node, next'] at later
  refine .indices opens' ?_ closes' later
  rw [← next]
  exact args.arguments back front

theorem curried_carried (inside : p + 1 ≤ q) (lt : q < last) (opens : input.OpensArguments p)
    (args : Phrase.Carried input other start stop f .arguments (p + 1) q es)
    (closes : input.kindAt q = some .rightBracket)
    (later : Derives other (.after .application (f (.apply left es))) (stop (q + 1)) (stop r)
      (f e)) :
    Derives other (.after .application (f left)) (stop p) (stop r) (f e) := by
  obtain ⟨-, -, next, back⟩ := carries.sign (by omega) opens.1 rfl rfl
  obtain ⟨args', closes', next'⟩ := carries.enclosed lt back closes rfl (by decide) args
  rw [carries.keeps.apply, next'] at later
  exact .curried (carries.opensArguments (by omega) opens) (next ▸ args') closes' later

theorem power_carried (lt : q + 1 + n < r) (le : r ≤ last)
    (base : Derives other (.rule .part) (start p) (stop q) (f e))
    (power : input.kindAt q = some .power) (minuses : input.SignsAt .minus (q + 1) n)
    (exponent : Derives other (.rule .power) (start (q + 1 + n)) (stop r) (f inner)) :
    Derives other (.rule .power) (start p) (stop r)
      (f (.node .power [e, input.prefixed n (q + 1 + n) r inner])) := by
  obtain ⟨power', -, next, back⟩ := carries.sign (by omega) power rfl rfl
  obtain ⟨minuses', place⟩ := carries.signsAt (by omega) minuses rfl rfl
  rw [back, next] at minuses' place
  rw [carries.keeps.node, List.map_cons, List.map_cons, List.map_nil, carries.prefixed lt le,
    place]
  exact .power base power' minuses' (place ▸ exponent)

theorem span_carried (lt : q < last)
    (low : Phrase.Carried input other start stop f .operand p q lower)
    (kind : input.kindAt q = some .span)
    (high : Phrase.Carried input other start stop f .operand (q + 1) r upper) :
    Derives other (.rule .span) (start p) (stop r)
      (f (.node .span [lower.getD (.number "1"), upper.getD .everything])) := by
  obtain ⟨kind', front, next, back⟩ := carries.sign lt kind rfl rfl
  rw [carries.keeps.bounds _ _ []]
  exact .span (low.before front) kind' (next ▸ high.behind back)

theorem spanStep_carried (inside : q + 1 ≤ r) (lt : r < last)
    (low : Phrase.Carried input other start stop f .operand p q lower)
    (kind : input.kindAt q = some .span)
    (high : Phrase.Carried input other start stop f .operand (q + 1) r upper)
    (kind₂ : input.kindAt r = some .span)
    (stride : Derives other (.rule .additive) (start (r + 1)) (stop t) (f step)) :
    Derives other (.rule .span) (start p) (stop t)
      (f (.node .span [lower.getD (.number "1"), upper.getD .everything, step])) := by
  obtain ⟨kind', front, next, back⟩ := carries.sign (by omega) kind rfl rfl
  obtain ⟨kind₂', -, next₂, back₂⟩ := carries.sign lt kind₂ rfl rfl
  rw [back₂, next₂] at stride
  rw [carries.keeps.bounds _ _ [_]]
  exact .spanStep (low.before front) kind' (next ▸ high.behind back) kind₂' stride

theorem group_carried (inside : p < q) (lt : q < last) (opens : input.kindAt p = some .leftParen)
    (formula : Derives other (.rule .or) (start (p + 1)) (stop q) (f e))
    (closes : input.kindAt q = some .rightParen) :
    Derives other (.rule .group) (start p) (stop (q + 1)) (f e) := by
  obtain ⟨opens', next⟩ := carries.token (by omega) opens (by decide)
  obtain ⟨closes', -, next'⟩ := carries.closer lt closes rfl (by decide)
  rw [carries.back opens rfl, next] at formula
  rw [next']
  exact .group opens' formula closes'

theorem list_carried (inside : p < q) (lt : q < last) (opens : input.kindAt p = some .leftBrace)
    (args : Phrase.Carried input other start stop f .arguments (p + 1) q es)
    (closes : input.kindAt q = some .rightBrace) :
    Derives other (.rule .list) (start p) (stop (q + 1)) (f (.node .list es)) := by
  obtain ⟨opens', next⟩ := carries.token (by omega) opens (by decide)
  obtain ⟨args', closes', next'⟩ :=
    carries.enclosed lt (carries.back opens rfl) closes rfl (by decide) args
  rw [next', carries.keeps.node]
  exact .list opens' (next ▸ args') closes'

theorem application_carried (inside : p + 2 ≤ q) (lt : q < last)
    (here : input.tokens[p]? = some token) (isName : token.kind = .identifier)
    (opens : input.OpensArguments (p + 1))
    (args : Phrase.Carried input other start stop f .arguments (p + 2) q es)
    (closes : input.kindAt q = some .rightBracket)
    (later : Derives other
      (.after .application (f (namedApplication input.config token.lexeme es))) (stop (q + 1))
      (stop r) (f e)) :
    Derives other (.rule .application) (start p) (stop r) (f e) := by
  obtain ⟨token', here', isName', next, named⟩ := carries.call (by omega) here isName opens
  obtain ⟨-, -, next', back⟩ := carries.sign (by omega) opens.1 rfl rfl
  obtain ⟨args', closes', next''⟩ := carries.enclosed lt back closes rfl (by decide) args
  have opens' := carries.opensArguments (by omega) opens
  rw [← named, next''] at later
  rw [next] at opens'
  rw [next', next] at args'
  exact .application here' isName' opens' args' closes' later

end Parts

/-! ## Derivations -/

/-- **A derivation is carried over to tokens where its own are found again.** -/
theorem carried {phrase : Phrase} {v : phrase.Value} (h : Derives input phrase p q v)
    (le : q ≤ last) : phrase.Carried input other start stop f p q v := by
  induction h with
  | level hnext operand later ih₁ ih₂ =>
    have := later.after_le
    refine .level hnext (ih₁ (by omega)) (ih₂ le fun product => operand.endsOperand ?_)
    subst product
    cases hnext
    rfl
  | stop => exact fun _ => .stop
  | sign hnext hkind hop right later ih₁ ih₂ =>
    intro _
    have := right.lt
    have := later.after_le
    have later' := ih₂ le fun product => right.endsOperand (by subst product; cases hnext; rfl)
    exact carries.sign_carried (by omega) hnext hkind hop (ih₁ (by omega)) later'
  | beside implicit right later ih₁ ih₂ =>
    intro ends
    have := right.lt
    have := later.after_le
    have later := ih₂ le fun _ => right.endsOperand rfl
    rw [carries.keeps.node] at later
    exact carries.beside (by omega) implicit (ends rfl) right.startsAt (ih₁ (by omega)) later
  | indices opens args closes later ih₁ ih₂ =>
    intro _
    have inside := args.arguments_le
    have := later.after_le
    exact carries.indices_carried inside (by omega) opens (ih₁ (by omega)) closes (ih₂ le nofun)
  | curried opens args closes later ih₁ ih₂ =>
    intro _
    have inside := args.arguments_le
    have := later.after_le
    exact carries.curried_carried inside (by omega) opens (ih₁ (by omega)) closes (ih₂ le nofun)
  | not nots operand ih =>
    have := operand.lt
    obtain ⟨nots', place⟩ := carries.signsAt (by omega) nots rfl rfl
    have operand' := ih le
    show Derives other (.rule _) _ _ (f _)
    rw [carries.keeps.negations]
    exact .not nots' (place ▸ operand')
  | unary minuses operand ih =>
    have := operand.lt
    obtain ⟨minuses', place⟩ := carries.signsAt (by omega) minuses rfl rfl
    have operand' := ih le
    show Derives other (.rule _) _ _ (f _)
    rw [carries.prefixed this le, place]
    exact .unary minuses' (place ▸ operand')
  | base _ ih => exact .base (ih le)
  | power _ power minuses exponent ih₁ ih₂ =>
    have lt := exponent.lt
    exact carries.power_carried lt le (ih₁ (by omega)) power minuses (ih₂ le)
  | single _ ih => exact .single (ih le)
  | span _ kind bound ih₁ ih₂ =>
    have := bound.operand_le
    exact carries.span_carried (by omega) (ih₁ (by omega)) kind (ih₂ le)
  | spanStep _ kind bound kind₂ step ih₁ ih₂ ih₃ =>
    have := bound.operand_le
    have := step.lt
    exact carries.spanStep_carried (by omega) (by omega) (ih₁ (by omega)) kind (ih₂ (by omega))
      kind₂ (ih₃ le)
  | missing => exact rfl
  | present _ ih => exact ih le
  | bracketed rule _ ih => exact .bracketed rule (ih le)
  | name here isName => exact carries.name le here isName
  | number isNumber =>
    obtain ⟨here, next⟩ := carries.token le isNumber (by decide)
    show Derives other (.rule _) _ _ (f _)
    rw [carries.keeps.number, next, ← carries.value _ le (.inl isNumber)]
    exact .number here
  | string isString =>
    obtain ⟨here, next⟩ := carries.token le isString (by decide)
    show Derives other (.rule _) _ _ (f _)
    rw [carries.keeps.string, next, ← carries.value _ le (.inr isString)]
    exact .string here
  | group opens formula closes ih =>
    have := formula.lt
    exact carries.group_carried (by omega) le opens (ih (by omega)) closes
  | list opens args closes ih =>
    have inside := args.arguments_le
    exact carries.list_carried inside le opens (ih (by omega)) closes
  | application here isName opens args closes later ih₁ ih₂ =>
    have inside := args.arguments_le
    have := later.after_le
    exact carries.application_carried inside (by omega) here isName opens (ih₁ (by omega))
      closes (ih₂ le nofun)
  | noArguments => exact .inl ⟨rfl, rfl⟩
  | someArguments _ ih => exact .inr (ih le)
  | item _ ih => exact .item (ih le)
  | items first comma rest ih₁ ih₂ =>
    have := rest.items_lt
    obtain ⟨comma', -, next, back⟩ := carries.sign (by omega) comma rfl rfl
    have rest' := ih₂ le
    refine .items (ih₁ (by omega)) comma' ?_
    rw [← next, ← back]
    exact rest'

/-- A formula is carried over as a formula. -/
theorem derives (h : Derives input (.rule .or) p q e) (le : q ≤ last) :
    Derives other (.rule .or) (start p) (stop q) (f e) :=
  carries.carried h le

end Input.Carries
end Grammar
end Formula
