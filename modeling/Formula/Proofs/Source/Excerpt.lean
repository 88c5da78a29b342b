import Mathlib
import Formula.Diagnostic
import Formula.Source.Line
import Formula.Text.Blank

/-! # Lines and columns of a text

A position is counted up character by character, and the line around an offset is cut out of
the text.  Here both are said without counting: the line is one more than the line feeds in
front of the offset, the column one more than the characters behind the last of them
(`marks_after`), and the excerpt is the piece of that number when the text is split at its line
feeds (`getElem?_splitOn`, `toList_lineAt`).  So the character at the offset stands in the excerpt
at the column (`getElem?_lineAt`).
-/
namespace Formula

/-- A location is that of an offset into a text: as many line feeds are in front of the offset
as lines before this one, and columns are counted from the last of them. -/
structure Location.Marks (l : Location) (text : List Char) : Prop where
  offset_nonneg : 0 ≤ l.offset
  offset_le : l.offset ≤ text.length
  line : l.line = 1 + (text.take l.offset.toNat).count '\n'
  column : ∃ start ≤ l.offset.toNat, (start = 0 ∨ text[start - 1]? = some '\n') ∧
    '\n' ∉ text.extract start l.offset.toNat ∧ l.column = l.offset - start + 1

namespace Source
variable {before behind text : List Char} {c : Char}

/-! ## The last line -/

/-- What stands behind the last line feed of a text. -/
def lastLine (text : List Char) : List Char :=
  text.rtakeWhile (· ≠ '\n')

theorem not_mem_lastLine : '\n' ∉ lastLine text := by
  intro member
  simpa using List.mem_rtakeWhile_imp member

/-- In front of the last line is nothing, or something that ends with a line feed. -/
theorem exists_append_lastLine (text : List Char) :
    ∃ front, text = front ++ lastLine text ∧ (front = [] ∨ ∃ lines, front = lines ++ ['\n']) := by
  refine ⟨text.rdropWhile (· ≠ '\n'), List.rdropWhile_append_rtakeWhile.symm, ?_⟩
  rcases List.eq_nil_or_concat' (text.rdropWhile (· ≠ '\n')) with empty | ⟨lines, last, same⟩
  · exact .inl empty
  · have nonempty : text.rdropWhile (· ≠ '\n') ≠ [] := by
      rw [same]
      exact List.append_ne_nil_of_right_ne_nil _ (List.cons_ne_nil _ _)
    have stops := List.rdropWhile_last_not (· ≠ '\n') text nonempty
    simp only [same, List.getLast_append_singleton, decide_eq_true_eq, not_not] at stops
    exact .inr ⟨lines, stops ▸ same⟩

/-! ## Positions -/

/-- **Where a text is read up to**: its length, its line feeds, and its last line. -/
theorem after_start (text : List Char) :
    Position.start.after text =
      ⟨text.length, 1 + text.count '\n', (lastLine text).length + 1⟩ := by
  induction text using List.reverseRecOn with
  | nil => rfl
  | append_singleton text c ih =>
    rw [Position.after_append, ih, Position.after_cons, Position.after_nil, Position.next]
    by_cases lineFeed : c = '\n'
    · subst lineFeed
      simp [lastLine, Nat.add_assoc]
    · simp [lastLine, lineFeed]

/-- **The position behind a text is that of an offset into a longer one.** -/
theorem marks_after (source : String) (before behind : List Char) :
    ((Position.start.after before).locate source).Marks (before ++ behind) := by
  obtain ⟨front, whole, closed⟩ := exists_append_lastLine before
  have length : before.length = front.length + (lastLine before).length := by
    rw [← List.length_append, ← whole]
  have piece : (before ++ behind).extract front.length before.length = lastLine before := by
    rw [List.extract_eq_take_drop, length, Nat.add_sub_cancel_left]
    nth_rewrite 2 [whole]
    rw [List.append_assoc, List.drop_left, List.take_left]
  rw [after_start]
  refine ⟨Int.natCast_nonneg _, ?_, ?_, front.length, ?_, ?_, ?_, ?_⟩
  · show (before.length : Int) ≤ (before ++ behind).length
    rw [List.length_append]
    omega
  · show ((1 + before.count '\n' : Nat) : Int) =
      1 + ((before ++ behind).take before.length).count '\n'
    rw [List.take_left]
    omega
  · show front.length ≤ before.length
    omega
  · rcases closed with rfl | ⟨lines, rfl⟩
    · exact .inl rfl
    · refine .inr ?_
      rw [whole]
      simp
  · show '\n' ∉ (before ++ behind).extract front.length before.length
    rw [piece]
    exact not_mem_lastLine
  · show (((lastLine before).length + 1 : Nat) : Int) = before.length - front.length + 1
    omega

/-! ## Excerpts -/

/-- The first line of a text ends in front of the first line feed. -/
theorem head?_splitOn (text : List Char) :
    (text.splitOn '\n').head? = some (text.takeWhile (· ≠ '\n')) := by
  induction text with
  | nil => simp
  | cons c text ih =>
    unfold List.splitOn at ih ⊢
    rw [List.splitOnP_cons_eq_if_modifyHead]
    by_cases lineFeed : c = '\n'
    · simp [lineFeed]
    · simp [lineFeed, ih]

/-- There is one line more than line feeds. -/
theorem length_splitOn (text : List Char) :
    (text.splitOn '\n').length = text.count '\n' + 1 := by
  induction text with
  | nil => simp
  | cons c text ih =>
    unfold List.splitOn at ih ⊢
    rw [List.splitOnP_cons_eq_if_modifyHead]
    by_cases lineFeed : c = '\n'
    · simp [lineFeed, ih]
    · simp [lineFeed, ih]

/-- The line that a text ends in goes on up to the next line feed. -/
theorem getElem?_splitOn (before behind : List Char) :
    ((before ++ behind).splitOn '\n')[before.count '\n']? =
      some (lastLine before ++ behind.takeWhile (· ≠ '\n')) := by
  have first : ((lastLine before ++ behind).splitOn '\n')[0]? =
      some (lastLine before ++ behind.takeWhile (· ≠ '\n')) := by
    rw [← List.head?_eq_getElem?, head?_splitOn, List.takeWhile_append_of_pos]
    exact fun c member => decide_eq_true (ne_of_mem_of_not_mem member not_mem_lastLine)
  obtain ⟨front, whole, rfl | ⟨lines, rfl⟩⟩ := exists_append_lastLine before
  · have none : before.count '\n' = 0 := by
      rw [whole]
      exact List.count_eq_zero.mpr not_mem_lastLine
    rw [none]
    nth_rewrite 1 [whole]
    exact first
  · have count : before.count '\n' = (lines.splitOn '\n').length := by
      rw [length_splitOn, whole]
      simp [List.count_eq_zero.mpr not_mem_lastLine]
    have split : (before ++ behind).splitOn '\n' =
        lines.splitOn '\n' ++ (lastLine before ++ behind).splitOn '\n' := by
      nth_rewrite 1 [whole]
      rw [List.append_assoc, List.append_assoc, List.singleton_append]
      exact List.splitOnP_append_cons _ _ (beq_self_eq_true '\n')
    rw [split, count, List.getElem?_append_right (Nat.le_refl _), Nat.sub_self]
    exact first

/-- The line around the end of a text is what the text ends in and what follows. -/
theorem toList_lineAt {text : String} (whole : text.toList = before ++ behind) :
    (lineAt text before.length).toList =
      (lastLine before ++ behind.takeWhile (· ≠ '\n')).rdropWhile (· = '\r') := by
  have place : clampOffset (before ++ behind).length before.length = before.length := by
    simp [clampOffset]
  unfold lineAt
  rw [String.toList_ofList, whole, place, List.take_left, List.drop_left]
  rfl

/-- A character that ends no line stands in the line around it, behind what the line begins
with. -/
theorem getElem?_lineAt {text : String} (whole : text.toList = before ++ c :: behind)
    (lineFeed : c ≠ '\n') (carriageReturn : c ≠ '\r') :
    (lineAt text before.length).toList[(lastLine before).length]? = some c := by
  have split (front rest : List Char) :
      ∃ others, (front ++ c :: rest).rdropWhile (· = '\r') = front ++ c :: others := by
    induction rest using List.reverseRecOn with
    | nil => exact ⟨[], List.rdropWhile_concat_neg _ _ _ (by simpa using carriageReturn)⟩
    | append_singleton rest last ih =>
      by_cases dropped : last = '\r'
      · obtain ⟨others, same⟩ := ih
        refine ⟨others, ?_⟩
        rw [← same, ← List.cons_append, ← List.append_assoc]
        exact List.rdropWhile_concat_pos _ _ _ (decide_eq_true dropped)
      · refine ⟨rest ++ [last], ?_⟩
        rw [← List.cons_append, ← List.append_assoc]
        exact List.rdropWhile_concat_neg _ _ _ (by simpa using dropped)
  obtain ⟨others, same⟩ := split (lastLine before) (behind.takeWhile (· ≠ '\n'))
  have kept : (c :: behind).takeWhile (· ≠ '\n') = c :: behind.takeWhile (· ≠ '\n') :=
    List.takeWhile_cons_of_pos (decide_eq_true lineFeed)
  rw [toList_lineAt whole, kept, same, List.getElem?_append_right (Nat.le_refl _), Nat.sub_self]
  rfl

end Source

/-! ## Diagnostics -/

/-- A diagnostic shows the place in a text that it names: its excerpt is the line of that
number, without carriage returns at the end, and the caret is below the character at the
offset. -/
structure Diagnostic.Shows (d : Diagnostic) (text : String) : Prop where
  marks : d.location.Marks text.toList
  excerpt : ∃ line, (text.toList.splitOn '\n')[(d.location.line - 1).toNat]? = some line ∧
    d.sourceLine.toList = line.rdropWhile (· = '\r')
  caret : d.location.offset < text.length →
    ∃ c, text.toList[d.location.offset.toNat]? = some c ∧
      d.sourceLine.toList[(d.location.column - 1).toNat]? = some c ∧
      (caret d.location.column).toList[(d.location.column - 1).toNat]? = some '^'

/-- **A diagnostic shows its place**, if that is in front of no blank character and the excerpt
is the line around it. -/
theorem Diagnostic.shows_of_position {d : Diagnostic} {source text : String}
    {before behind : List Char} (whole : text.toList = before ++ behind)
    (located : d.location = (Position.start.after before).locate source)
    (sourceLine : d.sourceLine = Source.lineAt text d.location.offset)
    (visible : ∀ c, behind.head? = some c → Text.isBlank c = false) : d.Shows text := by
  have offset : d.location.offset = before.length := by
    rw [located, Source.after_start]
    rfl
  have line : (d.location.line - 1).toNat = before.count '\n' := by
    rw [located, Source.after_start]
    simp [Position.locate]
  have column : (d.location.column - 1).toNat = (Source.lastLine before).length := by
    rw [located, Source.after_start]
    simp [Position.locate]
  rw [offset] at sourceLine
  refine ⟨?_, ?_, fun inside => ?_⟩
  · rw [located, whole]
    exact Source.marks_after source before behind
  · rw [line, whole, Source.getElem?_splitOn, sourceLine, Source.toList_lineAt whole]
    exact ⟨_, rfl, rfl⟩
  · rw [offset, ← String.length_toList, whole] at inside
    cases behind with
    | nil => simp at inside
    | cons c behind =>
      have visible := visible c rfl
      refine ⟨c, ?_, ?_, ?_⟩
      · rw [offset, whole]
        simp
      · rw [column, sourceLine]
        refine Source.getElem?_lineAt whole ?_ ?_
        · rintro rfl
          exact absurd visible (by decide)
        · rintro rfl
          exact absurd visible (by decide)
      · simp [Diagnostic.caret]

end Formula
