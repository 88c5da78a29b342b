/-! # Options of the grammar

Four switches and a cap choose the dialect that is read.
-/
namespace Formula

/-- The options for reading formulas. -/
structure Config where
  /-- Operands that stand side by side are multiplied: `2 x` is a product. -/
  implicitMultiplication : Bool := true
  /-- A minus directly in front of a numeral becomes its sign. -/
  foldNegativeLiterals : Bool := true
  /-- The names of operators and constants stand for them. -/
  resolveBuiltins : Bool := true
  /-- What a rule made of a place is remembered. -/
  memoize : Bool := true
  /-- How many brackets may be open at once. -/
  maxNestingDepth : Option Int := none
deriving DecidableEq

/-- The cap on open brackets, if so many exceed it. -/
def Config.exceededCap? (config : Config) (depth : Nat) : Option Int :=
  config.maxNestingDepth.filter fun limit => limit < depth

/-- Without a cap no brackets are too many. -/
theorem Config.exceededCap?_of_uncapped {config : Config} (uncapped : config.maxNestingDepth = none)
    (depth : Nat) : config.exceededCap? depth = none := by
  rw [exceededCap?, uncapped, Option.filter_none]

end Formula
