import Formula.Proofs.Text.Escape

/-! # Five passes spell a text once

The escapes of a text are written in five passes over the whole of it, and every pass goes over
what the passes before it have written.  That they amount to spelling each character on its own
(`spelling`) is due to their order: a pass is after a character that no earlier one writes
(`escapes_in_order`), so it meets that character only where the text itself has it.  To say so
the passes are also run in ink, where a character is known to be the text's own or to be written
by a pass (`written_ne`).

Main statement (`quote_eq_spelling`): a quoted text is spelled one character at a time and stands
on one line, none of its characters is escaped twice, nothing but its last quote closes it, and no
other text is quoted in the same way.
-/
namespace Formula
namespace Text

/-! ## Spelling -/

/-- A character as it is spelled between double quotes. -/
def spelling : Char → List Char
  | '\\' => ['\\', '\\']
  | '"' => ['\\', '"']
  | '\n' => ['\\', 'n']
  | '\t' => ['\\', 't']
  | '\r' => ['\\', 'r']
  | c => [c]

/-- How many backslashes a text ends with.  What follows an odd number of them is escaped. -/
def finalBackslashes (text : List Char) : Nat :=
  (text.rtakeWhile (· == '\\')).length

section Spelling
variable {c : Char} {front behind text : List Char}

/-- A character is spelled with a backslash and a letter, or as it is. -/
theorem spelling_cases (c : Char) :
    (∃ letter ∈ ['\\', '"', 'n', 't', 'r'], spelling c = ['\\', letter]) ∨
      (c ∉ ['\\', '"', '\n', '\t', '\r'] ∧ spelling c = [c]) := by
  unfold spelling
  split
  · exact .inl ⟨'\\', by decide, rfl⟩
  · exact .inl ⟨'"', by decide, rfl⟩
  · exact .inl ⟨'n', by decide, rfl⟩
  · exact .inl ⟨'t', by decide, rfl⟩
  · exact .inl ⟨'r', by decide, rfl⟩
  · next backslash quote feed tab carriage =>
    exact .inr ⟨by simpa using ⟨backslash, quote, feed, tab, carriage⟩, rfl⟩

/-- The table of escapes says how a character is spelled. -/
theorem escapeChar_eq_spelling (c : Char) : escapeChar c = spelling c := by
  unfold spelling
  split
  · rfl
  · rfl
  · rfl
  · rfl
  · rfl
  · next backslash quote feed tab carriage =>
    have missing : escapes.find? (fun entry => entry.2 == c) = none := by
      simp [escapes, Ne.symm backslash, Ne.symm quote, Ne.symm feed, Ne.symm tab,
        Ne.symm carriage]
    simp only [escapeChar, missing]

/-- What the passes write is spelled one character at a time. -/
theorem escape_eq_spelling (text : List Char) : escape text = text.flatMap spelling := by
  rw [escape_eq_flatMap]
  exact List.flatMap_congr fun c _ => escapeChar_eq_spelling c

/-- Nothing is spelled with a line feed, a tab or a carriage return. -/
theorem ne_control_of_mem_spelling (h : c ∈ text.flatMap spelling) :
    c ≠ '\n' ∧ c ≠ '\t' ∧ c ≠ '\r' := by
  obtain ⟨d, -, member⟩ := List.mem_flatMap.mp h
  rcases spelling_cases d with ⟨letter, escape, spelled⟩ | ⟨plain, spelled⟩
  · have letters : ∀ d ∈ ['\\', '"', 'n', 't', 'r'], d ≠ '\n' ∧ d ≠ '\t' ∧ d ≠ '\r' := by simp
    rcases List.mem_pair.mp (spelled ▸ member) with rfl | rfl
    · decide
    · exact letters _ escape
  · obtain rfl := List.mem_singleton.mp (spelled ▸ member)
    simp only [List.mem_cons, List.not_mem_nil, or_false, not_or] at plain
    exact plain.2.2

/-! ### Backslashes in front of a double quote -/

/-- The backslashes at the end of a text go on in front of it where it has nothing else. -/
theorem finalBackslashes_append (front text : List Char) :
    finalBackslashes (front ++ text) = finalBackslashes text ∨
      finalBackslashes (front ++ text) = finalBackslashes text + finalBackslashes front := by
  induction text using List.reverseRecOn with
  | nil => exact .inr (by simp [finalBackslashes])
  | append_singleton text c ih =>
    unfold finalBackslashes at ih ⊢
    rw [← List.append_assoc, List.rtakeWhile_concat, List.rtakeWhile_concat]
    split
    · simp only [List.length_append, List.length_singleton]
      omega
    · exact .inl rfl

/-- A character leaves nothing behind it escaped. -/
theorem even_finalBackslashes_spelling (c : Char) : Even (finalBackslashes (spelling c)) := by
  rcases spelling_cases c with ⟨letter, escape, spelled⟩ | ⟨plain, spelled⟩
  · rw [spelled]
    simp only [List.mem_cons, List.not_mem_nil, or_false] at escape
    rcases escape with rfl | rfl | rfl | rfl | rfl <;> decide
  · have backslash : c ≠ '\\' := by
      rintro rfl
      exact plain (by decide)
    have none : finalBackslashes [c] = 0 := by
      simp [finalBackslashes, List.rtakeWhile, beq_false_of_ne backslash]
    rw [spelled, none]
    exact Even.zero

/-- A text that is spelled leaves nothing behind it escaped. -/
theorem even_finalBackslashes (text : List Char) :
    Even (finalBackslashes (text.flatMap spelling)) := by
  induction text with
  | nil => decide
  | cons c text ih =>
    rw [List.flatMap_cons]
    rcases finalBackslashes_append (spelling c) (text.flatMap spelling) with same | sum
    · rw [same]
      exact ih
    · rw [sum]
      exact ih.add (even_finalBackslashes_spelling c)

/-- A double quote is spelled with a backslash in front of it. -/
theorem odd_finalBackslashes_of_spelling (h : spelling c = front ++ '"' :: behind) :
    Odd (finalBackslashes front) := by
  rcases spelling_cases c with ⟨letter, -, spelled⟩ | ⟨plain, spelled⟩
  · rw [spelled] at h
    rcases front with _ | ⟨a, _ | ⟨b, front⟩⟩
    · simp at h
    · obtain ⟨rfl, -⟩ := List.cons.inj h
      decide
    · simp at h
  · rw [spelled] at h
    rcases front with _ | ⟨a, front⟩
    · obtain ⟨rfl, -⟩ := List.cons.inj h
      exact absurd (by decide) plain
    · simp at h

/-- **Every double quote in a text that is spelled is escaped.** -/
theorem odd_finalBackslashes (h : text.flatMap spelling = front ++ '"' :: behind) :
    Odd (finalBackslashes front) := by
  induction text generalizing front with
  | nil => simp at h
  | cons c text ih =>
    rw [List.flatMap_cons] at h
    rcases List.append_eq_append_iff.mp h with ⟨rest, rfl, same⟩ | ⟨rest, same, others⟩
    -- The quote belongs to the characters behind the first one.
    · have odd := ih same
      rcases finalBackslashes_append (spelling c) rest with same | sum
      · rw [same]
        exact odd
      · rw [sum]
        exact odd.add_even (even_finalBackslashes_spelling c)
    · cases rest with
      | nil =>
        have odd := @ih [] others.symm
        exact absurd odd (by decide)
      -- The quote belongs to the first character.
      | cons d rest =>
        obtain ⟨rfl, -⟩ := List.cons.inj others
        exact odd_finalBackslashes_of_spelling same

end Spelling

/-! ## Passes in ink -/

/-- A character of a text that is being escaped: the text's own, or written by a pass. -/
inductive Ink
  | own (c : Char)
  | written (c : Char)

/-- The character, whoever wrote it. -/
def Ink.char : Ink → Char
  | own c | written c => c

/-- Write every `c` of a text as a backslash and `letter`, in ink. -/
def inkOne (letter c : Char) (text : List Ink) : List Ink :=
  text.flatMap fun d => if d.char = c then [.written '\\', .written letter] else [d]

/-- Write some characters of a text with their escapes, one kind after the other, in ink. -/
def inkAll (passes : List (Char × Char)) (text : List Char) : List Ink :=
  passes.foldl (fun text (letter, c) => inkOne letter c text) (text.map .own)

section Passes
variable {passes earlier later : List (Char × Char)} {letter c d : Char}

/-- Ink makes no difference to a pass. -/
theorem map_char_inkOne (letter c : Char) (text : List Ink) :
    (inkOne letter c text).map Ink.char = escapeOne letter c (text.map Ink.char) := by
  unfold inkOne escapeOne
  rw [List.map_flatMap, List.flatMap_map]
  refine List.flatMap_congr fun d _ => ?_
  split <;> rfl

/-- The text in ink is the text that is written. -/
theorem map_char_inkAll (text : List Char) : (inkAll escapes text).map Ink.char = escape text := by
  have passes (passes : List (Char × Char)) (inked : List Ink) :
      (passes.foldl (fun text (letter, c) => inkOne letter c text) inked).map Ink.char =
        passes.foldl (fun text (letter, c) => escapeOne letter c text) (inked.map Ink.char) := by
    induction passes generalizing inked with
    | nil => rfl
    | cons pass passes ih => rw [List.foldl_cons, ih, map_char_inkOne, List.foldl_cons]
  unfold inkAll escape
  rw [passes, List.map_map]
  congr 1
  exact List.map_id' text

/-- A pass writes nothing but a backslash and its letter. -/
theorem written_of_mem_inkOne {text : List Ink} (h : .written d ∈ inkOne letter c text) :
    d = '\\' ∨ d = letter ∨ .written d ∈ text := by
  obtain ⟨e, member, h⟩ := List.mem_flatMap.mp h
  split at h
  · simp only [List.mem_cons, Ink.written.injEq, List.not_mem_nil, or_false] at h
    exact h.imp id .inl
  · obtain rfl := List.mem_singleton.mp h
    exact .inr (.inr member)

/-- What some passes have written are backslashes and the letters of those passes. -/
theorem written_of_mem_inkAll {text : List Char} (h : .written d ∈ inkAll passes text) :
    ∃ pass ∈ passes, d = '\\' ∨ d = pass.1 := by
  induction passes using List.reverseRecOn with
  | nil => simp [inkAll] at h
  | append_singleton passes pass ih =>
    unfold inkAll at h
    rw [List.foldl_concat] at h
    rcases written_of_mem_inkOne h with backslash | letter | before
    · exact ⟨pass, by simp, .inl backslash⟩
    · exact ⟨pass, by simp, .inr letter⟩
    · obtain ⟨earlier, member, writes⟩ := ih before
      exact ⟨earlier, List.mem_append_left _ member, writes⟩

/-- A pass is neither after the backslashes that an earlier one writes nor after its letters. -/
theorem escapes_in_order : escapes.Pairwise fun earlier later =>
    later.2 ≠ '\\' ∧ later.2 ≠ earlier.1 := by
  decide

/-- **No pass meets what another has written.** -/
theorem written_ne {text : List Char} (split : escapes = earlier ++ (letter, c) :: later)
    (h : .written d ∈ inkAll earlier text) : d ≠ c := by
  obtain ⟨pass, member, writes⟩ := written_of_mem_inkAll h
  have order := escapes_in_order
  rw [split] at order
  obtain ⟨-, -, apart⟩ := List.pairwise_append.mp order
  obtain ⟨backslash, other⟩ := apart pass member (letter, c) List.mem_cons_self
  rcases writes with rfl | rfl
  · exact backslash.symm
  · exact other.symm

end Passes

/-! ## Quoted texts -/

theorem toList_quote (text : String) :
    (quote text).toList = '"' :: (text.toList.flatMap spelling ++ ['"']) := by
  simp only [quote, String.toList_append, String.toList_ofList, escape_eq_spelling]
  rfl

/-- A quoted text is read as the text that was quoted, so it was quoted from no other. -/
theorem quote_injective : Function.Injective quote := by
  intro s t same
  have bodies : escape s.toList ++ ['"'] = escape t.toList ++ ['"'] := by
    have lists := congrArg String.toList same
    rw [toList_quote, toList_quote, ← escape_eq_spelling, ← escape_eq_spelling] at lists
    exact (List.cons.inj lists).2
  exact String.toList_inj.mp
    ((Token.denotes_escape s.toList).unique (Token.denotes_escape t.toList) bodies).2

/-- **A quoted text is spelled one character at a time.**  The passes that write it agree with
that, and none of them meets a character that an earlier one has written.  Inside, every double
quote has an odd number of backslashes in front of it, and the closing one has an even number;
there is no line feed, tab or carriage return.  And different texts are quoted differently. -/
theorem quote_eq_spelling (text : String) :
    (quote text).toList = '"' :: (text.toList.flatMap spelling ++ ['"']) ∧
      ((inkAll escapes text.toList).map Ink.char = text.toList.flatMap spelling ∧
        ∀ earlier letter c later, escapes = earlier ++ (letter, c) :: later →
          ∀ d, .written d ∈ inkAll earlier text.toList → d ≠ c) ∧
      ((∀ front behind, text.toList.flatMap spelling = front ++ '"' :: behind →
          Odd (finalBackslashes front)) ∧
        Even (finalBackslashes (text.toList.flatMap spelling))) ∧
      (∀ c ∈ text.toList.flatMap spelling, c ≠ '\n' ∧ c ≠ '\t' ∧ c ≠ '\r') ∧
      Function.Injective quote := by
  refine ⟨toList_quote text, ⟨?_, ?_⟩, ⟨?_, even_finalBackslashes _⟩, ?_, quote_injective⟩
  · rw [map_char_inkAll, escape_eq_spelling]
  · exact fun earlier letter c later split d written => written_ne split written
  · exact fun front behind h => odd_finalBackslashes h
  · exact fun c member => ne_control_of_mem_spelling member

end Text
end Formula
