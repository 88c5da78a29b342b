import Formula.Proofs.Token.Layout

/-! # A scan loses and invents nothing

The tokens of a text are pieces of it, in their order and without an overlap, and the pieces
between them are gaps.  The last token marks the end of the input, and no other one does.  So
gaps and lexemes in turn are the text again (`scan_lossless`).
-/
namespace Formula
namespace Token

section Lossless
variable {source : String} {here : Position} {text : List Char} {spaces : List (List Char)}
  {ts : List Token}

/-- What is read of a text does not mark the end of the input. -/
theorem Lexeme.kind_ne_endOfInput {c : Char} {rest : List Char} {lexeme : Lexeme}
    (h : Lexeme.read c rest = .ok lexeme) : lexeme.kind ≠ .endOfInput := by
  unfold Lexeme.read at h
  split at h
  · cases h
    exact nofun
  · split at h
    · cases h
      exact nofun
    · split at h
      · split at h <;> cases h
        exact nofun
      · split at h
        · next found =>
          cases h
          have fixed := (Punctuation.split?_append found).2.2
          rintro rfl
          cases fixed
        · cases h

/-- A token is its piece of the text. -/
def IsPiece (text : List Char) (t : Token) : Prop :=
  0 ≤ t.location.offset ∧
    t.lexeme.toList = text.extract t.location.offset.toNat t.endOffset.toNat

/-- **Tokens are pieces of the text.** -/
theorem Laid.isPiece {before : List Char} (laid : Laid source here text spaces ts)
    (offset : before.length = here.offset) : ∀ t ∈ ts, IsPiece (before ++ text) t := by
  induction laid generalizing before with
  | @last here gap =>
    intro t member
    cases List.mem_singleton.mp member
    refine ⟨Int.natCast_nonneg _, ?_⟩
    simp [endAt, endOffset, Position.locate, List.extract_eq_take_drop]
  | @token here gap behind c lexeme gaps ts _ _ read _ ih =>
    have whole : before ++ (gap ++ c :: behind) =
        before ++ gap ++ lexeme.text ++ lexeme.rest := by
      rw [List.append_assoc _ lexeme.text, Lexeme.read_append read, List.append_assoc]
    have start : (before ++ gap).length = (here.after gap).offset := by
      rw [List.length_append, offset, Position.offset_after]
    have stop : (before ++ gap ++ lexeme.text).length =
        ((here.after gap).after lexeme.text).offset := by
      rw [List.length_append, start, ← Position.offset_after]
    rw [whole]
    refine List.forall_mem_cons.mpr ⟨⟨Int.natCast_nonneg _, ?_⟩, ih stop⟩
    rw [Lexeme.toList_token, Lexeme.offset_token, Lexeme.endOffset_token, List.append_assoc]
    exact (extract_append start (Position.offset_after _ _).symm).symm

/-- No token begins before the one in front of it ends. -/
theorem Laid.endOffset_le (laid : Laid source here text spaces ts) {i : Nat} {a b : Token}
    (ha : ts[i]? = some a) (hb : ts[i + 1]? = some b) : a.endOffset ≤ b.location.offset := by
  induction laid generalizing i with
  | last => cases hb
  | token _ _ _ later ih =>
    cases i with
    | succ i => exact ih ha hb
    | zero =>
      obtain ⟨gap, gaps, t, others, rfl, rfl, offset⟩ := later.offset
      cases ha
      cases hb
      rw [offset, Lexeme.endOffset_token]
      omega

/-- The last token marks the end of the text.  In front of it are no empty tokens and none that
mark an end. -/
theorem Laid.exists_front (laid : Laid source here text spaces ts) :
    ∃ front, ts = front ++ [endAt source (here.after text)] ∧
      ∀ t ∈ front, t.kind ≠ .endOfInput ∧ t.lexeme ≠ "" := by
  induction laid with
  | last => exact ⟨[], rfl, nofun⟩
  | @token here gap behind c lexeme gaps ts _ _ read _ ih =>
    obtain ⟨front, rfl, proper⟩ := ih
    have stop : here.after (gap ++ c :: behind) =
        ((here.after gap).after lexeme.text).after lexeme.rest := by
      rw [Position.after_append, ← Lexeme.read_append read, Position.after_append]
    refine ⟨lexeme.token source (here.after gap) :: front, by rw [stop]; rfl, ?_⟩
    refine List.forall_mem_cons.mpr ⟨⟨Lexeme.kind_ne_endOfInput read, fun empty => ?_⟩, proper⟩
    have lexeme_nil : (lexeme.token source (here.after gap)).lexeme.toList = lexeme.text :=
      Lexeme.toList_token lexeme
    rw [empty] at lexeme_nil
    exact Lexeme.text_ne_nil_of_read read lexeme_nil.symm

/-- **A scan loses and invents nothing.**  The tokens of a text that is scanned without an
error are pieces of the text between their offsets, and none but the last is empty or marks
the end of the input.  The last one stands at the end of the text.  No token begins before the
one in front of it ends.  The pieces of the text in front of the tokens are blank characters
and comments, and with the lexemes behind them they are the text. -/
theorem scan_lossless {name text : String} {tokens : List Token}
    (scanned : (scan name text).toExcept = .ok tokens) :
    (∃ (front : List Token) (last : Token), tokens = front ++ [last] ∧
      (last.kind = .endOfInput ∧ last.lexeme = "" ∧ last.location.offset = text.length) ∧
      ∀ t ∈ front, t.kind ≠ .endOfInput ∧ t.lexeme ≠ "") ∧
    (∀ t ∈ tokens, IsPiece text.toList t) ∧
    (∀ i a b, tokens[i]? = some a → tokens[i + 1]? = some b →
      a.endOffset ≤ b.location.offset) ∧
    (∀ gap ∈ gaps text.toList 0 tokens, IsGap gap) ∧
    weave (gaps text.toList 0 tokens) tokens = text.toList := by
  obtain ⟨spaces, laid⟩ := exists_laid scanned
  obtain ⟨front, same, proper⟩ := laid.exists_front
  obtain ⟨woven, areGaps⟩ := weave_gaps_of_scan scanned
  have pieces : ∀ t ∈ tokens, IsPiece ([] ++ text.toList) t := laid.isPiece rfl
  have stop : (endAt name (Position.start.after text.toList)).location.offset =
      (text.length : Int) := by
    show ((Position.start.after text.toList).offset : Int) = text.length
    rw [Position.offset_after, String.length_toList]
    exact congrArg Nat.cast (Nat.zero_add text.length)
  exact ⟨⟨front, _, same, ⟨rfl, rfl, stop⟩, proper⟩, pieces,
    fun _ _ _ ha hb => laid.endOffset_le ha hb, areGaps, woven⟩

/-- A comment begins like one that is closed at once, and a string begins like a comment. -/
theorem scan_lossless_comment :
    let token (kind : Kind) (lexeme : String) (value : Option String) (offset : Int) :=
      (⟨kind, lexeme, value, ⟨"", 1, offset + 1, offset⟩⟩ : Token)
    let tokens := [token .identifier "a" "a" 0, token .string "\"(*\"" "(*" 6,
      token .endOfInput "" none 11]
    let spaces := [[], ['(', '*', ')', '*', ')'], [' ']]
    (scan "" "a(*)*)\"(*\" ").toExcept = .ok tokens ∧
      (∀ gap ∈ spaces, IsGap gap) ∧ weave spaces tokens = "a(*)*)\"(*\" ".toList := by
  intro token tokens spaces
  have scanned : (scan "" "a(*)*)\"(*\" ").toExcept = .ok tokens := by cbv
  have found : gaps "a(*)*)\"(*\" ".toList 0 tokens = spaces := by decide
  obtain ⟨-, -, -, areGaps, woven⟩ := scan_lossless scanned
  rw [found] at areGaps woven
  exact ⟨scanned, areGaps, woven⟩

end Lossless
end Token
end Formula
