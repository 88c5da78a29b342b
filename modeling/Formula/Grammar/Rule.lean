import Formula.Expr.Operator
import Formula.Token.Kind

/-! # Rules of the grammar

The grammar has one rule for each level of precedence, from the loosest to the
tightest, and one rule for each kind of brackets around or behind an atom:

    ||   &&   ! in front   == !=   < >   ;;   + -   * / side by side
    - in front   ^   [[ ]] behind   atom

The levels of `||`, `&&`, `== !=`, `< >`, `+ -` and `* /` group to the left.
-/
namespace Formula
namespace Grammar

/-- The rules of the grammar, the levels of precedence from loose to tight. -/
inductive Rule
  | or
  | and
  | not
  | equality
  | relational
  | span
  | additive
  | multiplicative
  | unary
  | power
  | part
  | atom
  | group
  | list
  | application
deriving DecidableEq

namespace Rule

/-- How many rules there are. -/
def count : Nat := 15

/-- The place of a rule among all rules, counted from zero. -/
def index : Rule → Nat
  | or => 0
  | and => 1
  | not => 2
  | equality => 3
  | relational => 4
  | span => 5
  | additive => 6
  | multiplicative => 7
  | unary => 8
  | power => 9
  | part => 10
  | atom => 11
  | group => 12
  | list => 13
  | application => 14

theorem index_lt_count (rule : Rule) : rule.index < count := by
  cases rule <;> decide

theorem index_inj {a b : Rule} : a.index = b.index ↔ a = b := by
  constructor
  · cases a <;> cases b <;> decide
  · exact congrArg index

/-- The operator that a token stands for between two operands of a level that
groups to the left. -/
def operator? : Rule → Token.Kind → Option Operator
  | or, .or => some .or
  | and, .and => some .and
  | equality, .equal => some .equal
  | equality, .notEqual => some .unequal
  | relational, .less => some .less
  | relational, .greater => some .greater
  | additive, .plus => some .plus
  | additive, .minus => some .subtract
  | multiplicative, .times => some .times
  | multiplicative, .divide => some .divide
  | _, _ => none

end Rule

/-- Whether an atom can start with a token of this kind. -/
def startsAtom : Token.Kind → Bool
  | .identifier | .number | .string | .leftParen | .leftBrace => true
  | _ => false

end Grammar
end Formula
