import Formula.Proofs.Grammar.Foresight

/-! # Steps at other places

A step of the pass over a token, or over a pair of brackets, is found again where they stand
elsewhere (`step_framed`).  The dialect may be another one that leaves as much room for brackets and
folds signs alike (`Config.Hosts`).  Other tokens may stand behind (`Sight.Likens`).  And more
brackets may be open around (`Outlook.framed`).

All this is about steps that go on.  Where a pass stops, its verdict depends on the place and on the
brackets that are open.
-/
namespace Formula

/-- A dialect with room for so many more brackets wherever another one has room, and where signs are
folded alike. -/
structure Config.Hosts (config' config : Config) (more : Nat) : Prop where
  fold : config'.foldNegativeLiterals = config.foldNegativeLiterals
  room : ∀ depth, config.exceededCap? depth = none → config'.exceededCap? (depth + more) = none

section Hosts
variable {config config' : Config}

theorem Config.Hosts.of_cap (cap : config'.maxNestingDepth = config.maxNestingDepth)
    (fold : config'.foldNegativeLiterals = config.foldNegativeLiterals) :
    config'.Hosts config 0 where
  fold := fold
  room depth free := by
    rwa [Nat.add_zero, exceededCap?, cap]

/-- Without a cap there is always room. -/
theorem Config.Hosts.of_uncapped (uncapped : config.maxNestingDepth = none) (more : Nat) :
    config.Hosts config more where
  fold := rfl
  room _ _ := exceededCap?_of_uncapped uncapped _

end Hosts

namespace Grammar

/-- The same outlook with more brackets open around it. -/
def Outlook.framed (o : Outlook) (below : List Frame) : Outlook :=
  ⟨o.spot, o.frames ++ below⟩

theorem Outlook.framed_nil (o : Outlook) : o.framed [] = o := by
  rw [framed, List.append_nil]

/-- The same is seen of the tokens that a step is over, and no pair of opening brackets where there
was none. -/
structure Sight.Likens (sight : Sight) (width : Nat) (sight' : Sight) : Prop where
  kind : sight'.kind = sight.kind
  valueless : sight'.valueless = sight.valueless
  single : sight.opensPair = false → sight'.opensPair = false
  opensPair : width = 2 → sight.opensPair = true → sight'.opensPair = true
  closesPair : width = 2 → sight.closesPair = true → sight'.closesPair = true

section Elsewhere
variable {config config' : Config} {place place' width : Nat} {sight sight' : Sight}
  {o next : Outlook} {need : Need} {frame : Frame} {frames outer below : List Frame} {spans : Nat}
  {applicable pending : Bool}

theorem Sight.Likens.refl : sight.Likens width sight :=
  ⟨rfl, rfl, id, fun _ => id, fun _ => id⟩

/-- The closer that a step is over is seen again. -/
theorem Sight.Likens.closes (likens : sight.Likens width sight')
    (closed : frame.close outer = .on width next) (h : sight.closes frame.closer = true) :
    sight'.closes frame.closer = true := by
  obtain ⟨closer, spans, held⟩ := frame
  cases closed
  cases closer with
  | paren | bracket | brace => simpa [Sight.closes, likens.kind] using h
  | doubleBracket =>
    simp only [Sight.closes, likens.kind, bne_self_eq_false, Bool.false_or, Bool.and_eq_true] at h ⊢
    exact h.imp_right (likens.closesPair rfl)

/-- More brackets open do not matter where brackets are closed. -/
theorem close_framed (h : frame.close outer = .on width next) :
    frame.close (outer ++ below) = .on width (next.framed below) := by
  cases h
  rfl

/-! ## Steps that go on -/

theorem width_of_enter (h : frame.enter config place frames = .on width next) :
    width = frame.closer.width := by
  unfold Frame.enter at h
  split at h <;> cases h
  rfl

theorem enter_framed (hosts : config'.Hosts config below.length)
    (h : frame.enter config place frames = .on width next) :
    frame.enter config' place' (frames ++ below) = .on width (next.framed below) := by
  unfold Frame.enter at h ⊢
  split at h
  · cases h
  · next free =>
    cases h
    rw [List.length_append, Nat.add_right_comm, hosts.room _ free]
    rfl

theorem need_framed (hosts : config'.Hosts config below.length)
    (likens : sight.Likens width sight')
    (h : need.step config place sight frames = .on width next) :
    need.step config' place' sight' (frames ++ below) = .on width (next.framed below) := by
  unfold Need.step at h ⊢
  rw [likens.kind, likens.valueless, hosts.fold]
  split at h
  · next start =>
    rw [if_pos start]
    split at h <;> first
      | exact enter_framed hosts h
      | (cases h; rfl)
  · cases h

theorem endExpression_framed (likens : sight.Likens width sight')
    (h : o.endExpression place sight = .on width next) :
    (o.framed below).endExpression place' sight' = .on width (next.framed below) := by
  obtain ⟨spot, frames⟩ := o
  cases frames with
  | nil => cases h
  | cons frame outer =>
    unfold Outlook.endExpression at h ⊢
    dsimp only [Outlook.framed, List.cons_append] at h ⊢
    split at h
    · next closes =>
      rw [if_pos (likens.closes h closes)]
      exact close_framed h
    · split at h
      · next comma =>
        -- A comma closes no brackets, whatever stands behind it.
        have unclosed : sight'.closes frame.closer = false :=
          Sight.closes_eq_false (by rw [likens.kind, comma.1]; cases frame.closer <;> decide)
        rw [if_neg (by simp [unclosed]), likens.kind, if_pos comma]
        cases h
        rfl
      · cases h

theorem endSum_framed (likens : sight.Likens width sight')
    (h : o.endSum place sight spans = .on width next) :
    (o.framed below).endSum place' sight' spans = .on width (next.framed below) := by
  unfold Outlook.endSum at h ⊢
  rw [likens.kind]
  split at h
  · split at h <;> cases h <;> rfl
  · split at h
    · cases h
      rfl
    · exact endExpression_framed likens h

theorem endOperand_framed (hosts : config'.Hosts config below.length)
    (likens : sight.Likens width sight')
    (implicit : startsAtom sight.kind = true → config.implicitMultiplication = true →
      config'.implicitMultiplication = true)
    (h : o.endOperand config place sight spans applicable pending = .on width next) :
    (o.framed below).endOperand config' place' sight' spans applicable pending =
      .on width (next.framed below) := by
  unfold Outlook.endOperand at h ⊢
  rw [likens.kind]
  split at h
  · cases h
    rfl
  · split at h
    · next pair =>
      rw [if_pos (likens.opensPair (width_of_enter h) pair)]
      exact enter_framed hosts h
    · next single =>
      rw [if_neg (by simp [likens.single (by simpa using single)])]
      split at h
      · next opens =>
        rw [if_pos opens]
        exact enter_framed hosts h
      · cases h
  · split at h
    · cases h
    · next calm =>
      rw [if_neg calm]
      split at h
      · next atom =>
        rw [if_pos atom]
        split at h
        · next beside =>
          rw [if_pos (implicit atom beside)]
          exact need_framed hosts likens h
        · cases h
      · next other =>
        rw [if_neg other]
        split at h
        · cases h
          rfl
        · exact endSum_framed likens h

/-- **A step over tokens is the same wherever they stand**, and in brackets.  Only side by side with
an operand it matters whether that is a product. -/
theorem step_framed (below : List Frame) (hosts : config'.Hosts config below.length)
    (likens : sight.Likens width sight')
    (implicit : (∃ spans applicable pending, o.spot = .complete spans applicable pending) →
      startsAtom sight.kind = true → config.implicitMultiplication = true →
        config'.implicitMultiplication = true)
    (h : o.step config place sight = .on width next) :
    (o.framed below).step config' place' sight' = .on width (next.framed below) := by
  obtain ⟨spot, frames⟩ := o
  cases spot with
  | needed need =>
    cases start : need.rule.canStart sight.kind with
    | true =>
      rw [step_needed start] at h
      exact (step_needed (likens.kind ▸ start)).trans (need_framed hosts likens h)
    | false =>
      -- Without an operand the pass goes on only if the brackets are closed again.
      cases frames with
      | nil => simp [Outlook.step, Need.step, start] at h
      | cons frame outer =>
        have closes : need.closable = true ∧ sight.closes frame.closer = true := by
          by_contra other
          simp [Outlook.step, Need.step, start, other] at h
        have h : frame.close outer = .on width next := by simpa [Outlook.step, closes] using h
        have closes' := likens.closes h closes.2
        simpa [Outlook.step, Outlook.framed, closes.1, closes'] using close_framed h
  | optional =>
    unfold Outlook.step at h ⊢
    dsimp only [Outlook.framed] at h ⊢
    rw [likens.kind]
    split at h
    · next start =>
      rw [if_pos start]
      exact need_framed hosts likens h
    · next other =>
      rw [if_neg other]
      exact endSum_framed likens h
  | complete => exact endOperand_framed hosts likens (implicit ⟨_, _, _, rfl⟩) h

/-- An operand is read alike wherever it stands. -/
theorem need_elsewhere (hosts : config'.Hosts config 0) (likens : sight.Likens width sight')
    (h : need.step config place sight frames = .on width next) :
    need.step config' place' sight' frames = .on width next := by
  have framed : need.step config' place' sight' (frames ++ []) = .on width (next.framed []) :=
    need_framed hosts likens h
  rwa [List.append_nil, Outlook.framed_nil] at framed

theorem step_elsewhere (hosts : config'.Hosts config 0) (likens : sight.Likens width sight')
    (implicit : (∃ spans applicable pending, o.spot = .complete spans applicable pending) →
      startsAtom sight.kind = true → config.implicitMultiplication = true →
        config'.implicitMultiplication = true)
    (h : o.step config place sight = .on width next) :
    o.step config' place' sight' = .on width next := by
  have framed : (o.framed []).step config' place' sight' = .on width (next.framed []) :=
    step_framed [] hosts likens implicit h
  rwa [Outlook.framed_nil, Outlook.framed_nil] at framed

end Elsewhere
end Grammar
end Formula
