import Formula.Proofs.Grammar.Follow

/-! # Derivations of atoms and applications

An atom is a formula of its own, because every level can do with one operand and every
sign in front may be missing.  An application with one more list of arguments behind it
is an application again.
-/
namespace Formula
namespace Grammar

section Atoms
variable {input : Input} {p q r : Nat} {e : Expr}

theorem Derives.power_of_atom (h : Derives input (.rule .atom) p q e) :
    Derives input (.rule .power) p q e :=
  .base (.level rfl h .stop)

theorem Derives.unary_of_power (h : Derives input (.rule .power) p q e) :
    Derives input (.rule .unary) p q e :=
  .unary Input.signsAt_zero h

theorem Derives.unary_of_application (h : Derives input (.rule .application) p q e) :
    Derives input (.rule .unary) p q e :=
  unary_of_power (.power_of_atom (.bracketed (.inr (.inr rfl)) h))

theorem Derives.or_of_unary (h : Derives input (.rule .unary) p q e) :
    Derives input (.rule .or) p q e := by
  have sum : Derives input (.rule .additive) p q e := .level rfl (.level rfl h .stop) .stop
  have comparison : Derives input (.rule .equality) p q e :=
    .level rfl (.level rfl (.single sum) .stop) .stop
  exact .level rfl (.level rfl (.not Input.signsAt_zero comparison) .stop) .stop

end Atoms

section Applications
variable {input : Input} {p q r : Nat} {left e : Expr} {es : List Expr}

/-- A bracket in front of arguments is not the first of two that are for indices. -/
theorem Derives.opensArguments (opens : input.kindAt p = some .leftBracket)
    (arguments : Derives input .arguments (p + 1) q es)
    (closes : input.kindAt q = some .rightBracket) : input.OpensArguments p := by
  refine ⟨opens, ?_⟩
  cases pair : pairAt input p .leftBracket with
  | false => rfl
  | true =>
    -- The second bracket would be a closer, or the start of an argument.
    have second := (Input.kindAt_of_pairAt pair).2
    cases arguments with
    | noArguments => exact absurd (second.symm.trans closes) (by decide)
    | someArguments items =>
      obtain ⟨kind, hkind, start⟩ : input.StartsAt .or (p + 1) := items.starts
      rw [second] at hkind
      cases hkind
      cases start

/-- What follows an application, with one more list of arguments behind it. -/
def Phrase.Curries (input : Input) : (phrase : Phrase) → Nat → Nat → phrase.Value → Prop
  | after .application left, p, q, e =>
    ∀ r es, input.OpensArguments q → Derives input .arguments (q + 1) r es →
      input.kindAt r = some .rightBracket →
      Derives input (.after .application left) p (r + 1) (.apply e es)
  | _, _, _, _ => True

theorem Derives.curries {phrase : Phrase} {v : phrase.Value}
    (h : Derives input phrase p q v) : phrase.Curries input p q v := by
  induction h with
  | @stop level =>
    cases level with
    | application => exact fun r es opens arguments closes => .curried opens arguments closes .stop
    | _ => trivial
  | @sign level _ _ _ _ _ _ _ _ _ hnext =>
    cases level with
    | application => cases hnext
    | _ => trivial
  | curried opens arguments closes _ _ ih =>
    exact fun r es opens' arguments' closes' =>
      .curried opens arguments closes (ih r es opens' arguments' closes')
  | _ => trivial

/-- An application with one more list of arguments is an application. -/
theorem Derives.applied (h : Derives input (.rule .application) p q e)
    (opens : input.OpensArguments q) (arguments : Derives input .arguments (q + 1) r es)
    (closes : input.kindAt r = some .rightBracket) :
    Derives input (.rule .application) p (r + 1) (.apply e es) := by
  cases h with
  | level hnext => cases hnext
  | application hname isName first firstArguments firstCloses rest =>
    exact .application hname isName first firstArguments firstCloses
      (rest.curries r es opens arguments closes)

end Applications
end Grammar
end Formula
