import Formula.Proofs.Token.GapLanguage
import Formula.Proofs.Token.WellLexed

/-! # Where tokens and errors are in a text

Every token that a scan finds, and the error that stops it, is located behind some part of the
text, at its end or in front of a character that is not blank (`InSight`).
-/
namespace Formula
namespace Token

/-- A location in a text that is read from a position on: it is behind some part of the text,
and no blank follows there. -/
def InSight (source : String) (here : Position) (text : List Char) (l : Location) : Prop :=
  ∃ before behind, text = before ++ behind ∧ l = (here.after before).locate source ∧
    ∀ c, behind.head? = some c → Text.isBlank c = false

section Whereabouts
variable {source : String} {here opener other stop : Position} {before behind text : List Char}
  {l : Location} {depth : Nat}

theorem InSight.append (before : List Char) (h : InSight source (here.after before) behind l) :
    InSight source here (before ++ behind) l := by
  obtain ⟨before', behind', rfl, rfl, visible⟩ := h
  refine ⟨before ++ before', behind', by rw [List.append_assoc], ?_, visible⟩
  rw [Position.after_append]

/-- A comment that is never closed was open before the text, or it opens in the text. -/
theorem Gap.inSight_of_skip (h : Gap.skip opener depth here text = .unclosed other stop) :
    0 < depth ∧ other = opener ∨ InSight source here text (other.locate source) := by
  fun_induction Gap.skip opener depth here text with
  | case1 => cases h
  | case2 opener depth here =>
    cases h
    exact .inl ⟨Nat.succ_pos _, rfl⟩
  | case3 opener here rest ih =>
    rcases ih h with ⟨-, rfl⟩ | later
    · exact .inr ⟨[], _, rfl, rfl, by rintro _ ⟨⟩; decide⟩
    · exact .inr (InSight.append ['(', '*'] later)
  | case4 opener depth here rest ih =>
    refine (ih h).imp (fun same => ⟨Nat.succ_pos _, same.2⟩) fun later => ?_
    exact InSight.append ['(', '*'] later
  | case5 opener depth here rest ih =>
    refine (ih h).imp (fun same => ⟨Nat.succ_pos _, same.2⟩) fun later => ?_
    exact InSight.append ['*', ')'] later
  | case6 opener depth here c rest _ _ ih =>
    refine (ih h).imp (fun same => ⟨Nat.succ_pos _, same.2⟩) fun later => ?_
    exact InSight.append [c] later
  | case7 opener here c rest _ _ ih =>
    refine (ih h).imp (fun same => absurd same.1 (Nat.lt_irrefl _)) fun later => ?_
    exact InSight.append [c] later
  | case8 => cases h

/-- **Every token and every error of a scan is in sight.** -/
theorem inSight_of_scanFrom (source : String) (here : Position) (text : List Char) :
    (∀ t ∈ (scanFrom source here text).tokens, InSight source here text t.location) ∧
      ∀ e, (scanFrom source here text).error? = some e →
        InSight source here text e.location := by
  fun_induction scanFrom source here text with
  | case1 here text opener stop gap =>
    refine ⟨by simp, ?_⟩
    rintro _ ⟨⟩
    rcases Gap.inSight_of_skip gap with ⟨inside, -⟩ | inSight
    · exact absurd inside (Nat.lt_irrefl _)
    · exact inSight
  | case2 here text start found =>
    obtain ⟨gap, rfl, rfl, -, -⟩ := Gap.isGap_of_ofText found
    refine ⟨?_, by simp⟩
    intro t member
    cases List.mem_singleton.mp member
    exact ⟨gap, [], rfl, rfl, by simp⟩
  | case3 here text start c rest found failure read =>
    obtain ⟨gap, rfl, rfl, -, ends⟩ := Gap.isGap_of_ofText found
    refine ⟨by simp, ?_⟩
    rintro _ ⟨⟩
    exact ⟨gap, c :: rest, rfl, rfl, ends.1⟩
  | case4 here text start c rest found lexeme read ih =>
    obtain ⟨gap, rfl, rfl, -, ends⟩ := Gap.isGap_of_ofText found
    rw [← Lexeme.read_append read] at ends ⊢
    obtain ⟨tokens, error⟩ := ih
    refine ⟨List.forall_mem_cons.mpr ⟨⟨gap, _, rfl, rfl, ends.1⟩, fun t member => ?_⟩,
      fun e failed => ?_⟩
    · exact InSight.append gap (InSight.append lexeme.text (tokens t member))
    · exact InSight.append gap (InSight.append lexeme.text (error e failed))

end Whereabouts
end Token
end Formula
