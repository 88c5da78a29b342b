import Formula.Proofs.Expr.WellFormed
import Formula.Proofs.Grammar.Lockstep

/-! # Options that only label expressions

Whether names are resolved, and whether signs are folded into numbers, changes neither which
tokens are a formula nor what is reported of those that are none (`parse_relabelled`).  Where
names are resolved the expression is the one that resolving gives of the other (`Expr.resolve`).
-/
namespace Formula

namespace Expr

mutual

/-- An expression with the names of operators and constants taken for what they name.  A name
in front of arguments names an operator, and any other name may be that of a constant. -/
def resolve : Expr → Expr
  | symbol name => if name ∈ constantNames then singleton name else symbol name
  | number text => number text
  | string text => string text
  | singleton name => singleton name
  | node op args => node op (resolveArgs args)
  | apply (symbol name) args => build name (resolveArgs args)
  | apply head args => apply head.resolve (resolveArgs args)

/-- Arguments with their names resolved. -/
def resolveArgs : List Expr → List Expr
  | [] => []
  | e :: es => e.resolve :: resolveArgs es

end

@[simp] theorem resolve_node (op : Operator) (args : List Expr) :
    (node op args).resolve = node op (resolveArgs args) := by
  rw [resolve]

@[simp] theorem resolve_number (text : String) : (number text).resolve = number text := by
  rw [resolve]

/-- Arguments that are applied to something with arguments stay apart from it. -/
theorem resolve_apply {head : Expr} (h : head.IsApplication) (args : List Expr) :
    (apply head args).resolve = apply head.resolve (resolveArgs args) := by
  cases head with
  | node | apply => simp only [resolve]
  | symbol | number | string | singleton => exact h.elim

theorem resolveArgs_of_forall₂ {es es' : List Expr}
    (h : List.Forall₂ (fun e e' => e' = e.resolve) es es') : es' = resolveArgs es := by
  induction h with
  | nil => rw [resolveArgs]
  | cons same _ ih => rw [resolveArgs, same, ih]

theorem isApplication_build (name : String) (args : List Expr) :
    (build name args).IsApplication := by
  unfold build
  split <;> trivial

theorem IsApplication.ne_number {e : Expr} (h : e.IsApplication) (text : String) :
    e ≠ number text := by
  rintro rfl
  exact h

/-- Only a number is resolved to a number. -/
theorem resolve_ne_number {e : Expr} (h : ∀ text, e ≠ number text) (text : String) :
    e.resolve ≠ number text := by
  cases e with
  | symbol name =>
    rw [resolve]
    split <;> exact nofun
  | number other => exact absurd rfl (h other)
  | string | singleton | node => rw [resolve]; exact nofun
  | apply head args =>
    cases head with
    | symbol name =>
      rw [resolve]
      exact (isApplication_build name _).ne_number text
    | _ => simp [resolve]

end Expr

namespace Grammar

section Resolving
variable {config : Config}

/-- Signs stay signs. -/
theorem resolve_repeat_minus (n : Nat) (e : Expr) :
    (Nat.repeat minus n e).resolve = Nat.repeat minus n e.resolve := by
  induction n with
  | zero => rfl
  | succ n ih =>
    show (Expr.node .times [.number "-1", Nat.repeat minus n e]).resolve =
      .node .times [.number "-1", Nat.repeat minus n e.resolve]
    simp [Expr.resolveArgs, ih]

/-- No sign becomes part of what is no number. -/
theorem negate_of_ne_number {e : Expr} (h : ∀ text, e ≠ .number text) (minuses : Nat)
    (first : Token) : negate config minuses first e = Nat.repeat minus minuses e := by
  cases minuses with
  | zero => rfl
  | succ n =>
    cases e with
    | number text => exact absurd rfl (h text)
    | _ => rfl

/-- The innermost sign becomes part of a number, where signs are folded. -/
theorem negate_number (minuses : Nat) (first : Token) (text : String) :
    negate config minuses first (.number text) =
      if config.foldNegativeLiterals = true ∧ first.kind = .number ∧ minuses ≠ 0 then
        Nat.repeat minus (minuses - 1) (.number ("-" ++ text))
      else Nat.repeat minus minuses (.number text) := by
  cases minuses with
  | zero => simp [negate, Nat.repeat]
  | succ n => simp [negate]

theorem resolve_negate {config' : Config}
    (fold : config'.foldNegativeLiterals = config.foldNegativeLiterals) (minuses : Nat)
    (first : Token) (e : Expr) :
    (negate config minuses first e).resolve = negate config' minuses first e.resolve := by
  by_cases number : ∃ text, e = .number text
  · obtain ⟨text, rfl⟩ := number
    rw [Expr.resolve_number, negate_number, negate_number, fold]
    split <;> rw [resolve_repeat_minus, Expr.resolve_number]
  · have other : ∀ text, e ≠ .number text := fun text same => number ⟨text, same⟩
    rw [negate_of_ne_number other, negate_of_ne_number (Expr.resolve_ne_number other),
      resolve_repeat_minus]

/-- An expression with names for what they name, where the other dialect has it. -/
theorem relabels_resolve {config' : Config} (off : config.resolveBuiltins = false)
    (on : config'.resolveBuiltins = true)
    (fold : config'.foldNegativeLiterals = config.foldNegativeLiterals) :
    Relabels config config' (fun e e' => e' = e.resolve)
      fun e e' => e.IsApplication ∧ e' = e.resolve where
  number text := by rw [Expr.resolve_number]
  string text := by rw [Expr.resolve]
  everything := by rw [Expr.everything, Expr.resolve]
  constant name := by simp [namedConstant, off, on, Expr.resolve]
  node op es es' args := by rw [Expr.resolve_node, Expr.resolveArgs_of_forall₂ args]
  named name es es' args := by
    unfold namedApplication
    rw [off, on, Expr.resolveArgs_of_forall₂ args]
    exact ⟨trivial, by simp [Expr.resolve]⟩
  applied head args := by
    obtain ⟨application, rfl⟩ := head
    rw [Expr.resolveArgs_of_forall₂ args]
    exact ⟨trivial, (Expr.resolve_apply application _).symm⟩
  of_head head := head.2
  negate minuses first e e' same := by rw [same, resolve_negate fold]

/-- Nothing is asked of the expressions. -/
theorem relabels_anything (config config' : Config) :
    Relabels config config' (fun _ _ => True) fun _ _ => True := by
  constructor <;> intros <;> trivial

end Resolving

/-! ## Parses -/

/-- Outcomes of two parses are expressions with a relation between them, or failures that are
reported alike.  Either way the parses leave the same cursor, count of open brackets, furthest
place and expectations. -/
def SameCourse (rel : Expr → Expr → Prop) :
    EStateM.Result Abort State Expr → EStateM.Result Abort State Expr → Prop
  | .ok e s, .ok e' s' => s'.forget = s.forget ∧ rel e e'
  | .error abort s, .error abort' s' => abort' = abort ∧ s'.forget = s.forget
  | _, _ => False

section Parse
variable {input : Input} {config' : Config} {rel heads : Expr → Expr → Prop}

/-- Dialects that read the same formulas take the same course. -/
theorem parse_sameCourse
    (implicit : config'.implicitMultiplication = input.config.implicitMultiplication)
    (cap : config'.maxNestingDepth = input.config.maxNestingDepth)
    (relabels : Relabels input.config config' rel heads) (valued : input.Valued) :
    SameCourse rel (parse input .start) (parse (input.inDialect config') .start) := by
  -- Both parses are compared with those that remember nothing.
  have language : SameLanguage input.forgetful.config { config' with memoize := false } :=
    ⟨implicit, cap, rfl, rfl⟩
  have relabels : Relabels input.forgetful.config { config' with memoize := false } rel heads :=
    { relabels with }
  have course := parseWithin_lockstep language relabels valued input.allowance .start
  have other : input.forgetful.inDialect { config' with memoize := false } =
      (input.inDialect config').forgetful := rfl
  have allowance : (input.inDialect config').allowance = input.allowance := rfl
  rw [other, parseWithin_forgetful, parseWithin_forgetful] at course
  unfold parse
  rw [allowance]
  cases h : parseWithin input input.allowance .start <;>
    cases h' : parseWithin (input.inDialect config') input.allowance .start <;>
    rw [h, h'] at course <;> exact course

/-- **Two options of a dialect only label expressions.**  Let numbers and strings carry their
texts.  Whatever a dialect does with the names of operators and constants, and with minus signs in
front of numbers, its parser accepts the same tokens, and on failure it reports the same error at
the same place, with the same furthest place and expectations.  And where names are resolved the
expression is the one that resolving makes of the other. -/
theorem parse_relabelled (valued : input.Valued) (resolve fold : Bool) :
    let dialect (resolve fold : Bool) : Config :=
      { input.config with resolveBuiltins := resolve, foldNegativeLiterals := fold }
    SameCourse (fun _ _ => True) (parse input .start)
        (parse (input.inDialect (dialect resolve fold)) .start) ∧
      SameCourse (fun e e' => e' = e.resolve)
        (parse (input.inDialect (dialect false fold)) .start)
        (parse (input.inDialect (dialect true fold)) .start) := by
  intro dialect
  refine ⟨parse_sameCourse rfl rfl (relabels_anything _ _) valued, ?_⟩
  have valued : (input.inDialect (dialect false fold)).Valued := valued
  exact parse_sameCourse rfl rfl (relabels_resolve rfl rfl rfl) valued

/-- The name of an operator in front of the name of a constant in brackets. -/
theorem parse_relabelled_call :
    let token (kind : Token.Kind) (lexeme : String) (offset : Int) : Token :=
      ⟨kind, lexeme, none, ⟨"", 1, offset + 1, offset⟩⟩
    let input (resolve : Bool) : Input :=
      { tokens := #[token .identifier "Plus" 0, token .leftBracket "[" 4,
          token .identifier "All" 5, token .rightBracket "]" 8, token .endOfInput "" 9]
        config := { memoize := false, resolveBuiltins := resolve } }
    (input false).Valued ∧
      (∃ s, parse (input false) .start = .ok (.apply (.symbol "Plus") [.symbol "All"]) s) ∧
      ∃ s, parse (input true) .start = .ok (.node .plus [.everything]) s := by
  intro token input
  have valued : (input false).Valued := by
    intro t ht
    simp only [input, List.mem_toArray, List.mem_cons, List.not_mem_nil, or_false] at ht
    rcases ht with rfl | rfl | rfl | rfl | rfl <;> decide
  obtain ⟨-, course⟩ := parse_relabelled valued true true
  have off : (input false).inDialect { (input false).config with
      resolveBuiltins := false, foldNegativeLiterals := true } = input false := rfl
  have on : (input false).inDialect { (input false).config with
      resolveBuiltins := true, foldNegativeLiterals := true } = input true := rfl
  rw [off, on] at course
  have parsed : (parse (input false)).run' .start =
      some (.apply (.symbol "Plus") [.symbol "All"]) := by decide +kernel
  simp only [EStateM.run', EStateM.run] at parsed
  cases plain : parse (input false) .start with
  | error abort s => simp [plain] at parsed
  | ok e s =>
    obtain rfl : e = .apply (.symbol "Plus") [.symbol "All"] := by simpa [plain] using parsed
    rw [plain] at course
    refine ⟨valued, ⟨s, rfl⟩, ?_⟩
    cases resolved : parse (input true) .start with
    | error abort t =>
      rw [resolved] at course
      exact course.elim
    | ok e t =>
      rw [resolved] at course
      obtain ⟨-, rfl⟩ := course
      exact ⟨t, by congr 1⟩

end Parse
end Grammar
end Formula
