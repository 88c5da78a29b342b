import Formula.Proofs.Grammar.Carrying

/-! # Tokens that read the same up to a place

A phrase is made of the tokens between two places and of nothing behind them.  So the grammar
derives the same from two lists of tokens that agree up to where the phrase ends
(`Input.Agrees.derives`).  Of the options only those count that choose the dialect.
-/
namespace Formula
namespace Grammar

/-- In front of a place the tokens of two inputs read the same: they are of the same kinds, they
stand for the same names and texts, and the same brackets are there without a gap between
them. -/
structure Input.Agrees (input other : Input) (stop : Nat) : Prop where
  implicitMultiplication :
    other.config.implicitMultiplication = input.config.implicitMultiplication
  foldNegativeLiterals : other.config.foldNegativeLiterals = input.config.foldNegativeLiterals
  resolveBuiltins : other.config.resolveBuiltins = input.config.resolveBuiltins
  kindAt : ∀ place < stop, other.kindAt place = input.kindAt place
  lexeme : ∀ place < stop,
    other.tokens[place]?.map Token.lexeme = input.tokens[place]?.map Token.lexeme
  valueAt : ∀ place < stop,
    input.kindAt place = some .number ∨ input.kindAt place = some .string →
      other.valueAt place = input.valueAt place
  pairAt : ∀ place, place + 1 < stop → ∀ kind, kind = .leftBracket ∨ kind = .rightBracket →
    pairAt other place kind = pairAt input place kind

namespace Input.Agrees
variable {input other : Input} {stop place : Nat} {kind : Token.Kind}
  (agrees : input.Agrees other stop)

include agrees

theorem kind_eq (lt : place < stop) (h : input.kindAt place = some kind) :
    other.kindAt place = some kind :=
  (agrees.kindAt place lt).trans h

/-- A name is a name in both. -/
theorem name {t : Token} (lt : place < stop) (h : input.tokens[place]? = some t) :
    ∃ t', other.tokens[place]? = some t' ∧ t'.kind = t.kind ∧ t'.lexeme = t.lexeme := by
  have kind := agrees.kindAt place lt
  have lexeme := agrees.lexeme place lt
  unfold Input.kindAt at kind
  rw [h] at kind lexeme
  obtain ⟨t', here, same⟩ := Option.map_eq_some_iff.mp kind
  rw [here] at lexeme
  exact ⟨t', here, same, Option.some.inj lexeme⟩

/-- The tokens of a derivation are found again at their places. -/
theorem carries : input.Carries other id id id stop where
  keeps := Expr.keepsForm_id
  fold := agrees.foldNegativeLiterals
  grows p _ := Nat.lt_succ_self p
  front _ _ := rfl
  back _ _ := rfl
  token lt h _ := ⟨agrees.kind_eq lt h, rfl⟩
  number p lt h := (agrees.kindAt p lt).symm.trans h
  value := agrees.valueAt
  pair lt _ bracket := agrees.pairAt _ lt _ bracket
  name lt here isName := by
    obtain ⟨t', here', kind, lexeme⟩ := agrees.name lt here
    rw [← namedConstant_congr agrees.resolveBuiltins, ← lexeme]
    exact .name here' (kind.trans isName)
  call lt here isName _ := by
    obtain ⟨t', here', kind, lexeme⟩ := agrees.name (by omega) here
    refine ⟨t', here', kind.trans isName, rfl, fun es => ?_⟩
    rw [namedApplication_congr agrees.resolveBuiltins, lexeme, List.map_id]
    rfl
  beside _ implicit _ _ right later :=
    .beside (agrees.implicitMultiplication ▸ implicit) right later

/-- **The grammar derives the same from tokens that agree up to where a formula ends.** -/
theorem derives {rule : Rule} {p q : Nat} {e : Expr} (h : Derives input (.rule rule) p q e)
    (le : q ≤ stop) : Derives other (.rule rule) p q e :=
  agrees.carries.carried h le

end Input.Agrees
end Grammar
end Formula
