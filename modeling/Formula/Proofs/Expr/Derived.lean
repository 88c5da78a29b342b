import Formula.Proofs.Expr.WellFormed
import Formula.Proofs.Grammar.Derivation

/-! # What the grammar derives

The rules of the reference grammar make expressions of the tokens of a text in a few ways
only, and what all of them keep holds of everything that is derived (`Grows.of_derives`).

Where the names of operators and constants stand for them, expressions are well-formed.
A sign becomes part of a number at most once, because what was derived with a sign is no
token, and only names and applications are applied to arguments.
-/
namespace Formula
namespace Grammar

/-- All ways in which a dialect makes expressions of the tokens of a text keep a property,
and a narrower one of those that arguments may be applied to. -/
structure Grows (config : Config) (holds heads : Expr → Prop) : Prop where
  number {text : String} : Token.Numeral.IsNumeral text.toList → holds (.number text)
  negative {text : String} : Token.Numeral.IsNumeral text.toList → holds (.number ("-" ++ text))
  string (text : String) : holds (.string text)
  everything : holds .everything
  constant {name : String} : Token.IsName name.toList → holds (namedConstant config name)
  node (op : Operator) {es : List Expr} : (∀ e ∈ es, holds e) → holds (.node op es)
  named {name : String} {es : List Expr} : Token.IsName name.toList → (∀ e ∈ es, holds e) →
    heads (namedApplication config name es)
  applied {e : Expr} {es : List Expr} : heads e → (∀ a ∈ es, holds a) → heads (.apply e es)
  of_head {e : Expr} : heads e → holds e

namespace Grows
variable {input : Input} {holds heads : Expr → Prop} (grows : Grows input.config holds heads)
  {n p q : Nat} {e : Expr}

/-! ## Expressions made of others -/

section Parts
include grows

theorem pair {op : Operator} {left right : Expr} (hl : holds left) (hr : holds right) :
    holds (.node op [left, right]) := by
  refine grows.node op ?_
  simp only [List.forall_mem_cons]
  exact ⟨hl, hr, nofun⟩

omit grows in
theorem repeated {f : Expr → Expr} (keeps : ∀ e, holds e → holds (f e)) (h : holds e) (n : Nat) :
    holds (Nat.repeat f n e) := by
  induction n with
  | zero => exact h
  | succ n ih => exact keeps _ ih

theorem one : holds (.number "1") := grows.number (by decide)

theorem minus (e : Expr) (h : holds e) : holds (Grammar.minus e) := by
  have one : holds (.number ("-" ++ "1")) := grows.negative (by decide)
  exact grows.pair one h

theorem negation (e : Expr) (h : holds e) : holds (Grammar.negation e) := by
  refine grows.node .not ?_
  simp only [List.forall_mem_cons]
  exact ⟨h, nofun⟩

/-- A sign becomes part of a numeral that has none. -/
theorem prefixed (h : holds e)
    (numeral : input.kindAt p = some .number →
      Token.Numeral.IsNumeral (input.valueAt p).toList) :
    holds (input.prefixed n p q e) := by
  unfold Input.prefixed
  split
  · exact h
  · split
    · next folds => exact repeated grows.minus (grows.negative (numeral folds.2.1)) _
    · exact repeated grows.minus h _

theorem ends {start stop : Option Expr} (hstart : ∀ a, start = some a → holds a)
    (hstop : ∀ a, stop = some a → holds a) :
    holds (start.getD (.number "1")) ∧ holds (stop.getD .everything) := by
  constructor
  · cases start with
    | none => exact grows.one
    | some e => exact hstart e rfl
  · cases stop with
    | none => exact grows.everything
    | some e => exact hstop e rfl

end Parts

/-! ## All phrases -/

/-- What a phrase stands for has the property.  A level keeps the property of what it
started with, and only what arguments may be applied to gets more of them. -/
def All (holds heads : Expr → Prop) : (phrase : Phrase) → phrase.Value → Prop
  | .rule _, e => holds e
  | .after level left, e => holds left → (level = .application → heads left) → holds e
  | .operand, e => ∀ a, e = some a → holds a
  | .arguments, es | .items, es => ∀ e ∈ es, holds e

theorem isNumeral_valueAt (tokens : ∀ t ∈ input.tokens, Token.WellLexed t)
    (number : input.kindAt p = some .number) :
    Token.Numeral.IsNumeral (input.valueAt p).toList := by
  obtain ⟨t, ht, kind⟩ := Option.map_eq_some_iff.mp number
  obtain ⟨text, value, numeral⟩ := (tokens t (Array.mem_of_getElem? ht)).number kind
  rw [Input.valueAt, ht, Option.bind_some, value]
  exact numeral

include grows in
/-- **What all rules keep holds of whatever the grammar derives.** -/
theorem of_derives (tokens : ∀ t ∈ input.tokens, Token.WellLexed t) {phrase : Phrase}
    {v : phrase.Value} (h : Derives input phrase p q v) : All holds heads phrase v := by
  induction h with
  | @level level _ _ _ _ _ _ hnext _ _ ih₁ ih₂ =>
    refine ih₂ ih₁ ?_
    rintro rfl
    cases hnext
  | stop => exact fun hl _ => hl
  | @sign level _ _ _ _ _ _ _ _ _ hnext _ _ _ _ ih₁ ih₂ =>
    refine fun hl _ => ih₂ (grows.pair hl ih₁) ?_
    rintro rfl
    cases hnext
  | beside _ _ _ ih₁ ih₂ => exact fun hl _ => ih₂ (grows.pair hl ih₁) nofun
  | indices _ _ _ _ ih₁ ih₂ =>
    exact fun hl _ => ih₂ (grows.node .part (List.forall_mem_cons.mpr ⟨hl, ih₁⟩)) nofun
  -- Here the condition on levels is used: only what may be a head gets more arguments.
  | curried _ _ _ _ ih₁ ih₂ =>
    intro _ isHead
    have applied := grows.applied (isHead rfl) ih₁
    exact ih₂ (grows.of_head applied) fun _ => applied
  | not _ _ ih => exact repeated grows.negation ih _
  | unary _ _ ih => exact grows.prefixed ih (isNumeral_valueAt tokens)
  | base _ ih | single _ ih | bracketed _ _ ih | group _ _ _ ih => exact ih
  | power _ _ _ _ ih₁ ih₂ => exact grows.pair ih₁ (grows.prefixed ih₂ (isNumeral_valueAt tokens))
  | span _ _ _ ih₁ ih₂ =>
    obtain ⟨hstart, hstop⟩ := grows.ends ih₁ ih₂
    exact grows.pair hstart hstop
  | spanStep _ _ _ _ _ ih₁ ih₂ ih₃ =>
    obtain ⟨hstart, hstop⟩ := grows.ends ih₁ ih₂
    refine grows.node .span ?_
    simp only [List.forall_mem_cons]
    exact ⟨hstart, hstop, ih₃, nofun⟩
  | missing => exact nofun
  | present _ ih =>
    rintro a ⟨⟩
    exact ih
  | name hname isName =>
    exact grows.constant ((tokens _ (Array.mem_of_getElem? hname)).name isName)
  | number here => exact grows.number (isNumeral_valueAt tokens here)
  | string => exact grows.string _
  | list _ _ _ ih => exact grows.node .list ih
  | application hname isName _ _ _ _ ih₁ ih₂ =>
    have named := grows.named ((tokens _ (Array.mem_of_getElem? hname)).name isName) ih₁
    exact ih₂ (grows.of_head named) fun _ => named
  | noArguments => exact nofun
  | someArguments _ ih => exact ih
  | item _ ih => exact List.forall_mem_cons.mpr ⟨ih, nofun⟩
  | items _ _ _ ih₁ ih₂ => exact List.forall_mem_cons.mpr ⟨ih₁, ih₂⟩

end Grows
end Grammar

/-! ## Well-formed expressions -/

namespace Expr
open Grammar

section WellFormed
variable {config : Config} {name : String} {es : List Expr}

theorem wellFormed_named (builtins : config.resolveBuiltins = true)
    (isName : Token.IsName name.toList) (args : ∀ e ∈ es, e.WellFormed) :
    (namedApplication config name es).WellFormed ∧
      (namedApplication config name es).IsApplication := by
  rw [namedApplication, if_pos builtins, build]
  cases free : Operator.ofName? name with
  | some op => exact ⟨.node args, trivial⟩
  | none => exact ⟨.named isName free args, trivial⟩

theorem wellFormed_constant (builtins : config.resolveBuiltins = true)
    (isName : Token.IsName name.toList) : (namedConstant config name).WellFormed := by
  unfold namedConstant
  split
  · next constant => exact .singleton constant.2
  · next simple => exact .symbol isName fun h => simple ⟨builtins, h⟩

/-- The grammar makes well-formed expressions of well-formed ones. -/
theorem grows_wellFormed (builtins : config.resolveBuiltins = true) :
    Grows config WellFormed fun e => e.WellFormed ∧ e.IsApplication where
  number := .number
  negative := .negative
  string _ := .string
  everything := .singleton (by decide)
  constant := wellFormed_constant builtins
  node _ := .node
  named := wellFormed_named builtins
  applied head args := ⟨.applied head.2 head.1 args, trivial⟩
  of_head head := head.1

/-- **The grammar derives well-formed expressions.** -/
theorem wellFormed_of_derives {input : Input} (builtins : input.config.resolveBuiltins = true)
    (tokens : ∀ t ∈ input.tokens, Token.WellLexed t) {rule : Rule} {p q : Nat} {e : Expr}
    (h : Derives input (.rule rule) p q e) : e.WellFormed :=
  (grows_wellFormed builtins).of_derives tokens h

end WellFormed
end Expr
end Formula
