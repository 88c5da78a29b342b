import Mathlib
import Formula.Grammar.Parse

/-! # The reference grammar

What the rules read, said without a parser.  `Derives input phrase p q v` says that
the tokens from place `p` up to place `q` are a phrase of the grammar, and that the
phrase stands for `v`.  Written with stars and marks of option, the grammar is

    or             = and ('||' and)*
    and            = not ('&&' not)*
    not            = '!'* equality
    equality       = relational (('==' | '!=') relational)*
    relational     = span (('<' | '>') span)*
    span           = additive
                   | additive? ';;' additive?
                   | additive? ';;' additive? ';;' additive
    additive       = multiplicative (('+' | '-') multiplicative)*
    multiplicative = unary (('*' | '/') unary | power)*
    unary          = '-'* power
    power          = part | part '^' '-'* power
    part           = atom ('[[' arguments ']]')*
    atom           = group | list | application | NAME | NUMBER | STRING
    group          = '(' or ')'
    list           = '{' arguments '}'
    application    = NAME '[' arguments ']' ('[' arguments ']')*
    arguments      = nothing | or (',' or)*

The bare power among the factors of a product is there only where the dialect has
implicit multiplication.  A star is a phrase of its own, `Phrase.after`, which
carries what was read so far: so the levels group to the left.
-/
namespace Formula
namespace Grammar

/-! ## Tokens at their places -/

/-- How many tokens a closer consists of. -/
def Closer.width : Closer → Nat
  | doubleBracket => 2
  | paren | bracket | brace => 1

namespace Input
variable (input : Input)

/-- The kind of the token at a place. -/
def kindAt (place : Nat) : Option Token.Kind :=
  input.tokens[place]?.map Token.kind

/-- The text that the number at a place stands for. -/
def valueAt (place : Nat) : String :=
  (input.tokens[place]?.bind Token.value).getD input.blank

/-- From a place on stand that many signs of a kind. -/
def SignsAt (kind : Token.Kind) (place count : Nat) : Prop :=
  ∀ i < count, input.kindAt (place + i) = some kind

/-- Arguments open at a place: a bracket that is not the first of two without a gap
between them. -/
def OpensArguments (place : Nat) : Prop :=
  input.kindAt place = some .leftBracket ∧ pairAt input place .leftBracket = false

/-- The closer of brackets stands at a place. -/
def ClosesAt (closer : Closer) (place : Nat) : Prop :=
  match closer with
  | .doubleBracket => pairAt input place .rightBracket = true
  | closer => input.kindAt place = some closer.kind

/-- An expression, read from the tokens between two places, with that many minus
signs in front.  The innermost of them becomes part of a number only if the token
of the number is all that stands between the places. -/
def prefixed (minuses start stop : Nat) (e : Expr) : Expr :=
  match minuses with
  | 0 => e
  | n + 1 =>
    if input.config.foldNegativeLiterals ∧ input.kindAt start = some .number ∧
        stop = start + 1 then
      Nat.repeat minus n (.number ("-" ++ input.valueAt start))
    else Nat.repeat minus (n + 1) e

/-- The first token that marks the end of the input stands at a place. -/
def EndsAt (place : Nat) : Prop :=
  input.kindAt place = some .endOfInput ∧ ∀ i < place, input.kindAt i ≠ some .endOfInput

/-- Numbers and strings carry the texts that they stand for. -/
def Valued : Prop :=
  ∀ t ∈ input.tokens, t.kind = .number ∨ t.kind = .string → t.value ≠ none

section Places
variable {input : Input} {place : Nat} {t : Token} {kind : Token.Kind}

theorem kindAt_of_getElem? (h : input.tokens[place]? = some t) :
    input.kindAt place = some t.kind := by
  simp [kindAt, h]

theorem kindAt_lt (h : input.kindAt place = some kind) : place < input.tokens.size := by
  obtain ⟨t, ht, -⟩ := Option.map_eq_some_iff.mp h
  exact (Array.getElem?_eq_some_iff.mp ht).1

/-- Everywhere stand no signs at least. -/
theorem signsAt_zero : input.SignsAt kind place 0 :=
  fun _ h => absurd h (Nat.not_lt_zero _)

end Places
end Input

/-! ## Phrases -/

/-- The rule for the operands of a level that groups to the left. -/
def Rule.operand? : Rule → Option Rule
  | or => some .and
  | and => some .not
  | equality => some .relational
  | relational => some .span
  | additive => some .multiplicative
  | multiplicative => some .unary
  | part => some .atom
  | _ => none

/-- The phrases of the grammar. -/
inductive Phrase
  /-- What a rule reads. -/
  | rule (rule : Rule)
  /-- All that the level of a rule takes in behind `left`, what was read so far. -/
  | after (level : Rule) (left : Expr)
  /-- An operand of a span, which may be missing. -/
  | operand
  /-- Expressions with commas between them, if there are any. -/
  | arguments
  /-- One or more expressions with commas between them. -/
  | items

/-- What kind of thing a phrase stands for. -/
abbrev Phrase.Value : Phrase → Type
  | rule _ | after .. => Expr
  | operand => Option Expr
  | arguments | items => List Expr

/-- The tokens between two places are a phrase that stands for a value. -/
inductive Derives (input : Input) : (phrase : Phrase) → Nat → Nat → phrase.Value → Prop
  /-- A level that groups to the left: an operand, and what follows it. -/
  | level {level next : Rule} {p q r : Nat} {left e : Expr} :
    level.operand? = some next → Derives input (.rule next) p q left →
    Derives input (.after level left) q r e → Derives input (.rule level) p r e
  | stop {level : Rule} {p : Nat} {left : Expr} : Derives input (.after level left) p p left
  | sign {level next : Rule} {kind : Token.Kind} {op : Operator} {p q r : Nat}
      {left right e : Expr} :
    level.operand? = some next → input.kindAt p = some kind →
    level.operator? kind = some op → Derives input (.rule next) (p + 1) q right →
    Derives input (.after level (.node op [left, right])) q r e →
    Derives input (.after level left) p r e
  | beside {p q r : Nat} {left right e : Expr} :
    input.config.implicitMultiplication → Derives input (.rule .power) p q right →
    Derives input (.after .multiplicative (.node .times [left, right])) q r e →
    Derives input (.after .multiplicative left) p r e
  | indices {p q r : Nat} {left e : Expr} {es : List Expr} :
    pairAt input p .leftBracket → Derives input .arguments (p + 2) q es →
    pairAt input q .rightBracket →
    Derives input (.after .part (.node .part (left :: es))) (q + 2) r e →
    Derives input (.after .part left) p r e
  | curried {p q r : Nat} {left e : Expr} {es : List Expr} :
    input.OpensArguments p → Derives input .arguments (p + 1) q es →
    input.kindAt q = some .rightBracket →
    Derives input (.after .application (.apply left es)) (q + 1) r e →
    Derives input (.after .application left) p r e
  /-- Signs in front. -/
  | not {p n q : Nat} {e : Expr} :
    input.SignsAt .not p n → Derives input (.rule .equality) (p + n) q e →
    Derives input (.rule .not) p q (Nat.repeat negation n e)
  | unary {p n q : Nat} {e : Expr} :
    input.SignsAt .minus p n → Derives input (.rule .power) (p + n) q e →
    Derives input (.rule .unary) p q (input.prefixed n (p + n) q e)
  /-- Powers. -/
  | base {p q : Nat} {e : Expr} :
    Derives input (.rule .part) p q e → Derives input (.rule .power) p q e
  | power {p q n r : Nat} {e exponent : Expr} :
    Derives input (.rule .part) p q e → input.kindAt q = some .power →
    input.SignsAt .minus (q + 1) n →
    Derives input (.rule .power) (q + 1 + n) r exponent →
    Derives input (.rule .power) p r
      (.node .power [e, input.prefixed n (q + 1 + n) r exponent])
  /-- Spans. -/
  | single {p q : Nat} {e : Expr} :
    Derives input (.rule .additive) p q e → Derives input (.rule .span) p q e
  | span {p q r : Nat} {start stop : Option Expr} :
    Derives input .operand p q start → input.kindAt q = some .span →
    Derives input .operand (q + 1) r stop →
    Derives input (.rule .span) p r
      (.node .span [start.getD (.number "1"), stop.getD .everything])
  | spanStep {p q r t : Nat} {start stop : Option Expr} {step : Expr} :
    Derives input .operand p q start → input.kindAt q = some .span →
    Derives input .operand (q + 1) r stop → input.kindAt r = some .span →
    Derives input (.rule .additive) (r + 1) t step →
    Derives input (.rule .span) p t
      (.node .span [start.getD (.number "1"), stop.getD .everything, step])
  | missing {p : Nat} : Derives input .operand p p none
  | present {p q : Nat} {e : Expr} :
    Derives input (.rule .additive) p q e → Derives input .operand p q (some e)
  /-- Atoms. -/
  | bracketed {rule : Rule} {p q : Nat} {e : Expr} :
    rule = .group ∨ rule = .list ∨ rule = .application → Derives input (.rule rule) p q e →
    Derives input (.rule .atom) p q e
  | name {p : Nat} {t : Token} :
    input.tokens[p]? = some t → t.kind = .identifier →
    Derives input (.rule .atom) p (p + 1) (namedConstant input.config t.lexeme)
  | number {p : Nat} :
    input.kindAt p = some .number →
    Derives input (.rule .atom) p (p + 1) (.number (input.valueAt p))
  | string {p : Nat} :
    input.kindAt p = some .string →
    Derives input (.rule .atom) p (p + 1) (.string (input.valueAt p))
  | group {p q : Nat} {e : Expr} :
    input.kindAt p = some .leftParen → Derives input (.rule .or) (p + 1) q e →
    input.kindAt q = some .rightParen → Derives input (.rule .group) p (q + 1) e
  | list {p q : Nat} {es : List Expr} :
    input.kindAt p = some .leftBrace → Derives input .arguments (p + 1) q es →
    input.kindAt q = some .rightBrace → Derives input (.rule .list) p (q + 1) (.node .list es)
  | application {p q r : Nat} {t : Token} {es : List Expr} {e : Expr} :
    input.tokens[p]? = some t → t.kind = .identifier → input.OpensArguments (p + 1) →
    Derives input .arguments (p + 2) q es → input.kindAt q = some .rightBracket →
    Derives input (.after .application (namedApplication input.config t.lexeme es))
      (q + 1) r e →
    Derives input (.rule .application) p r e
  /-- Arguments. -/
  | noArguments {p : Nat} : Derives input .arguments p p []
  | someArguments {p q : Nat} {es : List Expr} :
    Derives input .items p q es → Derives input .arguments p q es
  | item {p q : Nat} {e : Expr} :
    Derives input (.rule .or) p q e → Derives input .items p q [e]
  | items {p q r : Nat} {e : Expr} {es : List Expr} :
    Derives input (.rule .or) p q e → input.kindAt q = some .comma →
    Derives input .items (q + 1) r es → Derives input .items p r (e :: es)

/-! ## The segments of phrases -/

/-- How many tokens a phrase has at least. -/
def Phrase.least : Phrase → Nat
  | rule _ | items => 1
  | after .. | operand | arguments => 0

section Segments
variable {input : Input} {phrase : Phrase} {p q : Nat} {v : phrase.Value}

/-- A phrase ends behind its start, and only what may be missing ends there. -/
theorem Derives.least_le (h : Derives input phrase p q v) : p + phrase.least ≤ q := by
  induction h <;> simp only [Phrase.least] at * <;> omega

/-- What a rule reads is not empty. -/
theorem Derives.lt {rule : Rule} {e : Expr} (h : Derives input (.rule rule) p q e) : p < q :=
  h.least_le

theorem Derives.items_lt {es : List Expr} (h : Derives input .items p q es) : p < q :=
  h.least_le

theorem Derives.arguments_le {es : List Expr} (h : Derives input .arguments p q es) : p ≤ q :=
  h.least_le

theorem Derives.operand_le {r : Option Expr} (h : Derives input .operand p q r) : p ≤ q :=
  h.least_le

theorem Derives.after_le {level : Rule} {left e : Expr}
    (h : Derives input (.after level left) p q e) : p ≤ q :=
  h.least_le

end Segments

end Grammar
end Formula
