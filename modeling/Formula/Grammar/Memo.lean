import Formula.Expr.Basic
import Formula.Grammar.Rule
import Std.Data.TreeMap

/-! # Remembered results

What a rule made of a place is remembered, so that it is found out only once.
While a rule is still at work on a place that is remembered, too: should the rule
be asked for the same place again, it fails there instead of going round in
circles.
-/
namespace Formula
namespace Grammar

/-- What is remembered of a rule at a place. -/
inductive Memo.Entry
  /-- The rule is still at work. -/
  | inProgress
  /-- The rule is done.  It made `result` of the tokens up to `stop`. -/
  | done (result : Option Expr) (stop : Nat)

/-- The remembered results of the rules at the places of one list of tokens.
The entries are kept under one number for each rule and place. -/
structure Memo where
  table : Std.TreeMap Nat Memo.Entry

namespace Memo

/-- The number of a rule at a place. -/
def key (rule : Rule) (place : Nat) : Nat :=
  place * Rule.count + rule.index

/-- Nothing is remembered. -/
def empty : Memo := ⟨∅⟩

/-- What is remembered of a rule at a place. -/
def find? (memo : Memo) (rule : Rule) (place : Nat) : Option Entry :=
  memo.table[key rule place]?

/-- Remember something of a rule at a place, instead of what was there. -/
def store (memo : Memo) (rule : Rule) (place : Nat) (entry : Entry) : Memo :=
  ⟨memo.table.insert (key rule place) entry⟩

/-- How many rules and places something is remembered of. -/
def size (memo : Memo) : Nat :=
  memo.table.size

theorem key_inj {a b : Rule} {i j : Nat} : key a i = key b j ↔ a = b ∧ i = j := by
  constructor
  · intro h
    have ha := a.index_lt_count
    have hb := b.index_lt_count
    simp only [key, Rule.count] at h ha hb
    obtain rfl : i = j := by omega
    exact ⟨Rule.index_inj.mp (by omega), rfl⟩
  · rintro ⟨rfl, rfl⟩
    rfl

theorem find?_empty (rule : Rule) (place : Nat) : empty.find? rule place = none := by
  simp [empty, find?]

theorem find?_store (memo : Memo) (a b : Rule) (i j : Nat) (entry : Entry) :
    (memo.store a i entry).find? b j =
      if a = b ∧ i = j then some entry else memo.find? b j := by
  simp only [find?, store, Std.TreeMap.getElem?_insert, Nat.compare_eq_eq, key_inj]

end Memo
end Grammar
end Formula
