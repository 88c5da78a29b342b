/-! # Operators

The operators have names, under which they can also be written as heads of
applications: `Plus[a, b]` is the same expression as `a + b`.
-/
namespace Formula

/-- The operators. -/
inductive Operator
  | plus
  | subtract
  | times
  | divide
  | power
  | exp
  | or
  | and
  | not
  | equal
  | unequal
  | less
  | greater
  | list
  | part
  | span
deriving DecidableEq

namespace Operator

/-- All operators. -/
def all : List Operator :=
  [plus, subtract, times, divide, power, exp, or, and, not, equal, unequal, less,
    greater, list, part, span]

/-- The name of an operator. -/
def name : Operator → String
  | plus => "Plus"
  | subtract => "Subtract"
  | times => "Times"
  | divide => "Divide"
  | power => "Power"
  | exp => "Exp"
  | or => "Or"
  | and => "And"
  | not => "Not"
  | equal => "Equal"
  | unequal => "Unequal"
  | less => "Less"
  | greater => "Greater"
  | list => "List"
  | part => "Part"
  | span => "Span"

/-- The operator of that name. -/
def ofName? (name : String) : Option Operator :=
  all.find? fun op => op.name == name

/-- No operator is missing from the list of all operators. -/
theorem mem_all (op : Operator) : op ∈ all := by
  cases op <;> decide

/-- An operator is found again by its name. -/
theorem ofName?_name (op : Operator) : ofName? op.name = some op := by
  cases op <;> decide +kernel

/-- Only the name of an operator finds it. -/
theorem name_of_ofName? {name : String} {op : Operator} (h : ofName? name = some op) :
    op.name = name := by
  have found := List.find?_some h
  exact beq_iff_eq.mp found

end Operator
end Formula
