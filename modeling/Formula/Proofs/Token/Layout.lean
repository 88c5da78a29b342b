import Formula.Proofs.Token.GapLanguage
import Formula.Proofs.Token.WellLexed

/-! # The layout of a text

A text that is scanned without an error is gaps and lexemes in turn, up to a last gap
(`Laid`).  The gaps are the pieces of the text in front of the tokens (`gaps`), and woven with
the lexemes they are the text again (`weave`).
-/
namespace Formula
namespace Token

/-- The pieces of a text in front of tokens, from an offset on. -/
def gaps (text : List Char) : Nat → List Token → List (List Char)
  | _, [] => []
  | start, t :: ts =>
    text.extract start t.location.offset.toNat :: gaps text t.endOffset.toNat ts

/-- The text of gaps and the lexemes behind them. -/
def weave : List (List Char) → List Token → List Char
  | gap :: gaps, t :: ts => gap ++ t.lexeme.toList ++ weave gaps ts
  | _, _ => []

/-- A text from a position on is made of gaps and lexemes, up to its end. -/
inductive Laid (source : String) :
    Position → List Char → List (List Char) → List Token → Prop
  | last {here : Position} {gap : List Char} : IsGap gap →
    Laid source here gap [gap] [endAt source (here.after gap)]
  | token {here : Position} {gap behind : List Char} {c : Char} {lexeme : Lexeme}
      {gaps : List (List Char)} {ts : List Token} :
    IsGap gap → EndsGap (c :: behind) → Lexeme.read c behind = .ok lexeme →
    Laid source ((here.after gap).after lexeme.text) lexeme.rest gaps ts →
    Laid source here (gap ++ c :: behind) (gap :: gaps)
      (lexeme.token source (here.after gap) :: ts)

/-- Put tokens in front of those of a scan. -/
def Scan.prepend (scan : Scan) (ts : List Token) : Scan :=
  { scan with tokens := ts ++ scan.tokens }

section Layout
variable {source : String} {here : Position} {gap text : List Char} {spaces : List (List Char)}
  {ts us : List Token} {t : Token} {later : Scan}

theorem Scan.prepend_prepend (scan : Scan) :
    (scan.prepend us).prepend ts = scan.prepend (ts ++ us) := by
  simp [Scan.prepend]

theorem Scan.toExcept_cons :
    (later.cons t).toExcept = .ok ts ↔ ∃ us, ts = t :: us ∧ later.toExcept = .ok us := by
  unfold toExcept cons
  cases later.error? <;> simp [eq_comm]

/-! ## Scans and layouts -/

/-- A scan begins behind a gap. -/
theorem scanFrom_append_of_isGap (isGap : IsGap gap) :
    Token.scanFrom source here (gap ++ text) = Token.scanFrom source (here.after gap) text := by
  have skipped : Gap.ofText here (gap ++ text) = Gap.ofText (here.after gap) text := by
    unfold Gap.ofText
    rw [Gap.skip_of_isGap isGap, Gap.skip_opener]
  rw [scanFrom_eq_scanBehind, skipped, ← scanFrom_eq_scanBehind]

theorem Laid.scanFrom (laid : Laid source here text spaces ts) :
    (scanFrom source here text).toExcept = .ok ts := by
  induction laid with
  | @last here gap isGap =>
    have found : Gap.ofText here gap = .closed (here.after gap) [] := by
      have found : Gap.ofText here (gap ++ []) = .closed (here.after gap) [] :=
        Gap.ofText_of_isGap isGap ⟨nofun, by simp⟩
      rwa [List.append_nil] at found
    rw [scanFrom_eq_scanBehind, found]
    rfl
  | token isGap ends read _ ih =>
    rw [scanFrom_of_read (Gap.ofText_of_isGap isGap ends) read]
    exact Scan.toExcept_cons.mpr ⟨_, rfl, ih⟩

/-- **A text that is scanned without an error has a layout.** -/
theorem exists_laid (h : (Token.scanFrom source here text).toExcept = .ok ts) :
    ∃ spaces, Laid source here text spaces ts := by
  fun_induction Token.scanFrom source here text generalizing ts with
  | case1 => cases h
  | case2 here text start found =>
    obtain ⟨gap, rfl, rfl, isGap, -⟩ := Gap.isGap_of_ofText found
    cases h
    rw [List.append_nil]
    exact ⟨_, .last isGap⟩
  | case3 => cases h
  | case4 here text start c rest found lexeme read ih =>
    obtain ⟨gap, rfl, rfl, isGap, ends⟩ := Gap.isGap_of_ofText found
    obtain ⟨later, rfl, scanned⟩ := Scan.toExcept_cons.mp h
    obtain ⟨spaces, laid⟩ := ih scanned
    exact ⟨_, .token isGap ends read laid⟩

theorem Laid.isGap (laid : Laid source here text spaces ts) : ∀ gap ∈ spaces, IsGap gap := by
  induction laid with
  | last isGap => simpa using isGap
  | token isGap _ _ _ ih => exact List.forall_mem_cons.mpr ⟨isGap, ih⟩

/-- The lexeme of a token is what was read of the text. -/
theorem Lexeme.toList_token (lexeme : Lexeme) :
    (lexeme.token source here).lexeme.toList = lexeme.text :=
  String.toList_ofList

/-- **Gaps and lexemes in turn are the text.** -/
theorem Laid.weave (laid : Laid source here text spaces ts) : Token.weave spaces ts = text := by
  induction laid with
  | last => simp [Token.weave, endAt]
  | token _ _ read _ ih =>
    rw [Token.weave, ih, Lexeme.toList_token, List.append_assoc, Lexeme.read_append read]

/-- The last token marks the end of the input. -/
theorem Laid.exists_end (laid : Laid source here text spaces ts) :
    ∃ eof ∈ ts, eof.kind = .endOfInput := by
  induction laid with
  | last => exact ⟨_, List.mem_singleton_self _, rfl⟩
  | token _ _ _ _ ih =>
    obtain ⟨eof, member, isEnd⟩ := ih
    exact ⟨eof, List.mem_cons_of_mem _ member, isEnd⟩

/-! ## Offsets -/

theorem Lexeme.offset_token (lexeme : Lexeme) :
    (lexeme.token source here).location.offset = here.offset :=
  rfl

theorem Lexeme.endOffset_token (lexeme : Lexeme) :
    (lexeme.token source here).endOffset = (here.after lexeme.text).offset := by
  rw [endOffset, offset_token, Position.offset_after]
  simp [Lexeme.token]

/-- A piece of a text is what stands between two parts of it. -/
theorem extract_append {before piece behind : List Char} {start stop : Nat}
    (hstart : before.length = start) (hstop : start + piece.length = stop) :
    (before ++ (piece ++ behind)).extract start stop = piece := by
  subst hstart hstop
  simp [List.extract_eq_take_drop]

/-- **The gaps of a layout are the pieces of the text in front of the tokens.** -/
theorem Laid.gaps {before : List Char} (laid : Laid source here text spaces ts)
    (offset : before.length = here.offset) :
    Token.gaps (before ++ text) here.offset ts = spaces := by
  induction laid generalizing before with
  | @last here gap =>
    have piece : (before ++ (gap ++ [])).extract here.offset (here.after gap).offset = gap :=
      extract_append offset (Position.offset_after here gap).symm
    rw [List.append_nil] at piece
    exact congrArg (List.cons · []) piece
  | @token here gap behind c lexeme gaps ts isGap ends read _ ih =>
    have piece : (before ++ (gap ++ c :: behind)).extract here.offset (here.after gap).offset =
        gap :=
      extract_append offset (Position.offset_after here gap).symm
    have whole : before ++ (gap ++ c :: behind) = before ++ gap ++ lexeme.text ++ lexeme.rest := by
      rw [List.append_assoc _ lexeme.text, Lexeme.read_append read, List.append_assoc]
    have length : (before ++ gap ++ lexeme.text).length =
        ((here.after gap).after lexeme.text).offset := by
      simp [offset, Nat.add_assoc]
    have later := ih length
    rw [← whole] at later
    rw [Token.gaps, Lexeme.offset_token, Lexeme.endOffset_token]
    exact congrArg₂ List.cons piece later

/-- The first token stands behind the first gap. -/
theorem Laid.offset (laid : Laid source here text spaces ts) :
    ∃ gap gaps t later, spaces = gap :: gaps ∧ ts = t :: later ∧
      t.location.offset = here.offset + gap.length := by
  have offset (gap : List Char) (here : Position) :
      ((here.after gap).offset : Int) = here.offset + gap.length := by simp
  cases laid with
  | last => exact ⟨_, _, _, _, rfl, rfl, offset _ _⟩
  | token => exact ⟨_, _, _, _, rfl, rfl, offset _ _⟩

/-- Tokens stand one directly behind the other if the gap between them is empty. -/
theorem Laid.adjacent (laid : Laid source here text spaces ts) {i : Nat} {a b : Token}
    (ha : ts[i]? = some a) (hb : ts[i + 1]? = some b) :
    b.location.offset = a.endOffset ↔ spaces[i + 1]? = some [] := by
  induction laid generalizing i with
  | last => cases hb
  | token isGap ends read later ih =>
    cases i with
    | succ i => exact ih ha hb
    | zero =>
      obtain ⟨gap, gaps, t, ts, rfl, rfl, offset⟩ := later.offset
      cases ha
      cases hb
      rw [offset, Lexeme.endOffset_token]
      simp

/-- **A text that is scanned without an error is made of its gaps and its tokens.** -/
theorem weave_gaps_of_scan {text : String} (h : (scan source text).toExcept = .ok ts) :
    Token.weave (Token.gaps text.toList 0 ts) ts = text.toList ∧
      ∀ gap ∈ Token.gaps text.toList 0 ts, IsGap gap := by
  obtain ⟨spaces, laid⟩ := exists_laid h
  have same : Token.gaps ([] ++ text.toList) Position.start.offset ts = spaces := laid.gaps rfl
  rw [List.nil_append] at same
  rw [show 0 = Position.start.offset from rfl, same]
  exact ⟨laid.weave, laid.isGap⟩

end Layout
end Token
end Formula
