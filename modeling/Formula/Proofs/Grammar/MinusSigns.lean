import Formula.Proofs.Grammar.Derivation

/-! # Minus signs in front of what the grammar derives

The parser decides by the first token behind minus signs, and by the expression that it
read there, whether the innermost sign becomes part of a number.  The reference grammar
decides by places: it does if the token of the number is all that was read.  Both say the
same, because a power that starts with a number and is one, too, is nothing but its
token.
-/
namespace Formula
namespace Grammar

section Numbers
variable {input : Input} {p q r : Nat} {e : Expr}

/-- What a level makes of `left` is `left`, or the level took in tokens and did not make
a number of them. -/
def Phrase.Grown : (phrase : Phrase) → Nat → Nat → phrase.Value → Prop
  | after _ left, p, q, e => (q = p ∧ e = left) ∨ (p < q ∧ ∀ text, e ≠ .number text)
  | _, _, _, _ => True

theorem Phrase.Grown.of_lt {level other : Rule} {left before : Expr}
    (rest : Phrase.Grown (.after level left) q r e) (lt : p < q)
    (hleft : ∀ text, left ≠ .number text) : Phrase.Grown (.after other before) p r e := by
  rcases rest with ⟨rfl, rfl⟩ | ⟨more, he⟩
  · exact .inr ⟨lt, hleft⟩
  · exact .inr ⟨Nat.lt_trans lt more, he⟩

theorem Derives.grown {phrase : Phrase} {v : phrase.Value} (h : Derives input phrase p q v) :
    phrase.Grown p q v := by
  induction h with
  | stop => exact .inl ⟨rfl, rfl⟩
  | sign _ _ _ right _ _ rest => exact rest.of_lt (Nat.lt_of_succ_lt right.lt) (by simp)
  | beside _ right _ _ rest => exact rest.of_lt right.lt (by simp)
  | indices _ arguments _ _ _ rest =>
    have := arguments.arguments_le
    exact rest.of_lt (by omega) (by simp)
  | curried _ arguments _ _ _ rest =>
    have := arguments.arguments_le
    exact rest.of_lt (by omega) (by simp)
  | _ => trivial

theorem Derives.atom_of_number (h : Derives input (.rule .atom) p q e)
    (number : input.kindAt p = some .number) : q = p + 1 ∧ e = .number (input.valueAt p) := by
  cases h with
  | level hnext => cases hnext
  | bracketed hrule inner =>
    rcases hrule with rfl | rfl | rfl
    · cases inner with
      | level hnext => cases hnext
      | group here => exact absurd (number.symm.trans here) (by decide)
    · cases inner with
      | level hnext => cases hnext
      | list here => exact absurd (number.symm.trans here) (by decide)
    · cases inner with
      | level hnext => cases hnext
      | application ht hkind => simp [Input.kindAt_of_getElem? ht, hkind] at number
  | name ht hkind => simp [Input.kindAt_of_getElem? ht, hkind] at number
  | number => exact ⟨rfl, rfl⟩
  | string here => exact absurd (number.symm.trans here) (by decide)

/-- A power that starts with a number is that number, or it is more and no number. -/
theorem Derives.power_of_number (h : Derives input (.rule .power) p q e)
    (number : input.kindAt p = some .number) :
    (q = p + 1 ∧ e = .number (input.valueAt p)) ∨ (p + 1 < q ∧ ∀ text, e ≠ .number text) := by
  cases h with
  | level hnext => cases hnext
  | power part _ _ exponent =>
    have := part.lt
    have := exponent.lt
    exact .inr ⟨by omega, nofun⟩
  | base part =>
    cases part with
    | level hnext atom rest =>
      cases hnext
      obtain ⟨rfl, rfl⟩ := atom.atom_of_number number
      exact rest.grown

/-- The parser puts minus signs in front of a power as the reference grammar does. -/
theorem negate_eq_prefixed {first : Token} (h : Derives input (.rule .power) p q e)
    (hfirst : input.tokens[p]? = some first) (minuses : Nat) :
    negate input.config minuses first e = input.prefixed minuses p q e := by
  have kind := Input.kindAt_of_getElem? hfirst
  cases minuses with
  | zero => rw [negate.eq_1, Input.prefixed]
  | succ n =>
    by_cases number : first.kind = .number
    · rw [number] at kind
      -- Either the number is all of the power, or the power is no number.
      rcases h.power_of_number kind with ⟨rfl, rfl⟩ | ⟨more, he⟩
      · simp [negate, Input.prefixed, kind, number]
      · have : q ≠ p + 1 := by omega
        cases e with
        | number text => exact absurd rfl (he text)
        | _ => simp [negate, Input.prefixed, this]
    · have : input.kindAt p ≠ some .number := by simp [kind, number]
      cases e <;> simp [negate, Input.prefixed, number, this]

end Numbers

end Grammar
end Formula
