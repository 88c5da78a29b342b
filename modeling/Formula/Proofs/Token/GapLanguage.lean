import Formula.Token.Gap

/-! # The language of gaps

What a gap is, said without a scanner: blank characters and comments, in any order.  A comment
is `(*`, then comments and characters that begin neither `(*` nor `*)`, and then `*)`.

The scanner walks over a gap and over nothing else: it skips a gap in front of what begins
none (`ofText_of_isGap`), and what it skips is a gap in front of what begins none
(`isGap_of_ofText`).
-/
namespace Formula
namespace Token

/-- What stands behind the opening of a comment, up to the end of the comment. -/
inductive CommentTail : List Char → Prop
  | close : CommentTail ['*', ')']
  | nested {inner rest : List Char} : CommentTail inner → CommentTail rest →
    CommentTail ('(' :: '*' :: (inner ++ rest))
  | char {c : Char} {rest : List Char} : ¬ ['(', '*'] <+: c :: rest → ¬ ['*', ')'] <+: c :: rest →
    CommentTail rest → CommentTail (c :: rest)

theorem CommentTail.ne_nil {tail : List Char} (h : CommentTail tail) : tail ≠ [] := by
  cases h <;> exact List.cons_ne_nil _ _

/-- Blank characters and comments. -/
inductive IsGap : List Char → Prop
  | nil : IsGap []
  | blank {c : Char} {rest : List Char} : Text.isBlank c = true → IsGap rest → IsGap (c :: rest)
  | comment {tail rest : List Char} : CommentTail tail → IsGap rest →
    IsGap ('(' :: '*' :: (tail ++ rest))

/-- A text begins with no blank and no comment. -/
def EndsGap (text : List Char) : Prop :=
  (∀ c, text.head? = some c → Text.isBlank c = false) ∧ ¬ ['(', '*'] <+: text

namespace Gap
variable {opener here stop : Position} {depth : Nat} {c : Char} {gap tail rest text : List Char}

/-! ## Steps of the scanner -/

theorem skip_blank (blank : Text.isBlank c = true) :
    skip opener 0 here (c :: rest) = skip opener 0 (here.next c) rest := by
  rw [skip]
  · rw [if_pos blank]
  · rintro _ rfl
    exact absurd blank (by decide)

theorem skip_of_endsGap (ends : EndsGap text) : skip opener 0 here text = closed here text := by
  cases text with
  | nil => rw [skip]
  | cons c rest =>
    rw [skip]
    · rw [if_neg (by simp [ends.1 c rfl])]
    · rintro behind rfl rfl
      exact ends.2 ⟨behind, rfl⟩

theorem skip_char (opens : ¬ ['(', '*'] <+: c :: rest) (closes : ¬ ['*', ')'] <+: c :: rest) :
    skip opener (depth + 1) here (c :: rest) = skip opener (depth + 1) (here.next c) rest := by
  rw [skip]
  · rintro behind rfl rfl
    exact opens ⟨behind, rfl⟩
  · rintro behind rfl rfl
    exact closes ⟨behind, rfl⟩

/-- Outside of comments it does not matter where the last comment opened. -/
theorem skip_opener (opener other here : Position) (text : List Char) :
    skip opener 0 here text = skip other 0 here text := by
  induction text generalizing here with
  | nil => rfl
  | cons c text ih =>
    unfold skip
    split <;> simp_all

/-! ## Gaps are skipped -/

/-- Whether two characters begin a text shows in its first two. -/
theorem pair_prefix_append {a b : Char} (nonempty : rest ≠ []) :
    [a, b] <+: c :: (rest ++ text) ↔ [a, b] <+: c :: rest := by
  cases rest with
  | nil => exact absurd rfl nonempty
  | cons d rest => simp [List.cons_prefix_cons]

theorem not_prefix_pair {a b : Char} (h : ∀ behind, c = a → text = b :: behind → False) :
    ¬ [a, b] <+: c :: text := by
  rw [List.cons_prefix_cons]
  rintro ⟨first, behind, rfl⟩
  exact h behind first.symm rfl

/-- A comment is skipped up to its end. -/
theorem skip_commentTail (h : CommentTail tail) :
    skip opener (depth + 1) here (tail ++ text) = skip opener depth (here.after tail) text := by
  induction h generalizing depth here text with
  | close => rw [List.cons_append, List.cons_append, List.nil_append, skip]
  | @nested inner rest _ _ ih₁ ih₂ =>
    rw [List.cons_append, List.cons_append, List.append_assoc, skip, ih₁, ih₂,
      ← Position.after_append, ← Position.after_append]
    rfl
  | char opens closes tail ih =>
    have nonempty := tail.ne_nil
    rw [List.cons_append, skip_char (mt (pair_prefix_append nonempty).mp opens)
      (mt (pair_prefix_append nonempty).mp closes), ih]
    rfl

theorem skip_of_isGap (h : IsGap gap) :
    skip opener 0 here (gap ++ text) = skip opener 0 (here.after gap) text := by
  induction h generalizing opener here with
  | nil => rfl
  | blank blank _ ih =>
    rw [List.cons_append, skip_blank blank, ih]
    rfl
  | @comment tail rest tail_ _ ih =>
    rw [List.cons_append, List.cons_append, List.append_assoc, skip, skip_commentTail tail_, ih,
      skip_opener _ opener, ← Position.after_append, ← Position.after_append]
    rfl

/-- A gap is skipped up to what begins none. -/
theorem ofText_of_isGap (h : IsGap gap) (ends : EndsGap text) :
    ofText here (gap ++ text) = closed (here.after gap) text := by
  unfold ofText
  rw [skip_of_isGap h, skip_of_endsGap ends]

/-! ## Only gaps are skipped -/

/-- Inside of so many comments, a text goes on to the end of the outermost of them, and then
there is a gap. -/
inductive ClosesGap : Nat → List Char → Prop
  | gap {gap : List Char} : IsGap gap → ClosesGap 0 gap
  | comment {depth : Nat} {tail rest : List Char} : CommentTail tail → ClosesGap depth rest →
    ClosesGap (depth + 1) (tail ++ rest)

theorem ClosesGap.opening (h : ClosesGap (depth + 1) gap) :
    ClosesGap depth ('(' :: '*' :: gap) := by
  cases h with
  | @comment _ tail rest comment closes =>
    cases closes with
    | gap isGap => exact .gap (.comment comment isGap)
    | @comment _ outer rest nested closes =>
      have := ClosesGap.comment (CommentTail.nested comment nested) closes
      simpa using this

theorem ClosesGap.char (h : ClosesGap (depth + 1) gap) (opens : ¬ ['(', '*'] <+: c :: (gap ++ rest))
    (closes : ¬ ['*', ')'] <+: c :: (gap ++ rest)) : ClosesGap (depth + 1) (c :: gap) := by
  cases h with
  | @comment _ tail behind comment later =>
    rw [List.append_assoc] at opens closes
    have nonempty := comment.ne_nil
    exact .comment (.char (mt (pair_prefix_append nonempty).mpr opens)
      (mt (pair_prefix_append nonempty).mpr closes) comment) later

theorem closesGap_of_skip (h : skip opener depth here text = closed stop rest) :
    ∃ gap, text = gap ++ rest ∧ stop = here.after gap ∧ ClosesGap depth gap ∧ EndsGap rest := by
  fun_induction skip opener depth here text with
  | case1 =>
    cases h
    exact ⟨[], rfl, rfl, .gap .nil, by simp, by simp⟩
  | case2 => cases h
  | case3 opener here text ih =>
    obtain ⟨gap, rfl, rfl, closes, ends⟩ := ih h
    exact ⟨_, rfl, rfl, closes.opening, ends⟩
  | case4 opener depth here text ih =>
    obtain ⟨gap, rfl, rfl, closes, ends⟩ := ih h
    exact ⟨_, rfl, rfl, closes.opening, ends⟩
  | case5 opener depth here text ih =>
    obtain ⟨gap, rfl, rfl, closes, ends⟩ := ih h
    exact ⟨_, rfl, rfl, .comment .close closes, ends⟩
  | case6 opener depth here c text opens closes ih =>
    obtain ⟨gap, rfl, rfl, later, ends⟩ := ih h
    exact ⟨c :: gap, rfl, rfl, later.char (not_prefix_pair opens)
      (not_prefix_pair closes), ends⟩
  | case7 opener here c text opens blank ih =>
    obtain ⟨gap, rfl, rfl, closes, ends⟩ := ih h
    cases closes with
    | gap isGap => exact ⟨c :: gap, rfl, rfl, .gap (.blank blank isGap), ends⟩
  | case8 opener here c text opens blank =>
    cases h
    refine ⟨[], rfl, rfl, .gap .nil, ?_, not_prefix_pair opens⟩
    rintro _ ⟨⟩
    simpa using blank

/-- What is skipped is a gap, in front of what begins none. -/
theorem isGap_of_ofText (h : ofText here text = closed stop rest) :
    ∃ gap, text = gap ++ rest ∧ stop = here.after gap ∧ IsGap gap ∧ EndsGap rest := by
  obtain ⟨gap, same, stop, closes, ends⟩ := closesGap_of_skip h
  cases closes with
  | gap isGap => exact ⟨gap, same, stop, isGap, ends⟩

end Gap
end Token
end Formula
