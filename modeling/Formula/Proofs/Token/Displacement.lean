import Formula.Proofs.Source.Excerpt
import Formula.Proofs.Token.Lossless
import Formula.Proofs.Token.Respacing

/-! # A text behind another one

A text that stands behind another one is scanned as it is scanned alone, if a gap is between the
two (`scan_behind`).  Only its places are others: they are displaced by what stands in front
(`Location.displace`).

Two facts make this up.  A scan does not look at the position that it starts from, so from a
displaced position it finds the same at displaced places (`scanFrom_displace`).  And what stands
in front is scanned up to its end as if the text ended there, because no lexeme goes on over a
gap (`Laid.scanFrom_append`).
-/
namespace Formula

/-! ## Displaced places -/

/-- A position of a text that stands behind `front`.  Only the first line of the text stands in
one line with the end of `front`. -/
def Position.displace (front : List Char) (here : Position) : Position where
  offset := here.offset + front.length
  line := here.line + front.count '\n'
  column := if here.line = 1 then here.column + (Source.lastLine front).length else here.column

/-- A location of a text that stands behind `front`. -/
def Location.displace (front : List Char) (l : Location) : Location where
  source := l.source
  line := l.line + front.count '\n'
  column := if l.line = 1 then l.column + (Source.lastLine front).length else l.column
  offset := l.offset + front.length

/-- A token of a text that stands behind `front`. -/
def Token.displace (front : List Char) (t : Token) : Token :=
  { t with location := t.location.displace front }

/-- An error of a text that stands behind `front`. -/
def LexicalError.displace (front : List Char) (e : LexicalError) : LexicalError :=
  { e with location := e.location.displace front }

section Positions
variable {front text : List Char} {here : Position} {source : String}

theorem Position.locate_displace :
    (here.displace front).locate source = (here.locate source).displace front := by
  by_cases first : here.line = 1
  · simp [displace, locate, Location.displace, first]
  · have other : (here.line : Int) ≠ 1 := by omega
    simp [displace, locate, Location.displace, first, other]

/-- Lines are counted from one. -/
theorem Position.line_after_pos (line : 0 < here.line) : 0 < (here.after text).line := by
  induction text generalizing here with
  | nil => exact line
  | cons c text ih =>
    refine ih ?_
    unfold next
    split
    · exact Nat.succ_pos _
    · exact line

theorem Position.next_displace (line : 0 < here.line) (c : Char) :
    (here.displace front).next c = (here.next c).displace front := by
  by_cases lineFeed : c = '\n'
  · -- The next line is not the first.
    have later : here.line ≠ 0 := Nat.ne_of_gt line
    simp [next, displace, lineFeed, later, Nat.add_right_comm]
  · by_cases first : here.line = 1
    · simp [next, displace, lineFeed, first, Nat.add_right_comm]
    · simp [next, displace, lineFeed, first, Nat.add_right_comm]

theorem Position.after_displace (line : 0 < here.line) (text : List Char) :
    (here.displace front).after text = (here.after text).displace front := by
  induction text generalizing here with
  | nil => rfl
  | cons c text ih =>
    have later : 0 < (here.next c).line := @line_after_pos [c] here line
    rw [after_cons, after_cons, next_displace line, ih later]

/-- Behind a text a position is displaced by it. -/
theorem Position.after_start_eq_displace (front : List Char) :
    start.after front = start.displace front := by
  rw [Source.after_start]
  simp [displace, start, Nat.add_comm]

end Positions

namespace Token

/-- What lies behind a gap of a text that stands behind `front`. -/
def Gap.displace (front : List Char) : Gap → Gap
  | .closed stop rest => .closed (stop.displace front) rest
  | .unclosed opener stop => .unclosed (opener.displace front) (stop.displace front)

/-- What scanning a text finds that stands behind `front`. -/
def Scan.displace (front : List Char) (scan : Scan) : Scan where
  tokens := scan.tokens.map (Token.displace front)
  stop := scan.stop.displace front
  error? := scan.error?.map (LexicalError.displace front)

section Scans
variable {source : String} {here opener : Position} {front text w : List Char}
  {spaces : List (List Char)} {ts : List Token}

theorem Gap.skip_displace (line : 0 < here.line) (opener : Position) (depth : Nat) :
    skip (opener.displace front) depth (here.displace front) text =
      (skip opener depth here text).displace front := by
  have behind {here : Position} (line : 0 < here.line) (text : List Char) :
      0 < (here.after text).line := Position.line_after_pos line
  fun_induction skip opener depth here text with
  | case1 => rw [skip]; rfl
  | case2 => rw [skip]; rfl
  | case3 opener here rest ih =>
    rw [skip, Position.after_displace line, ih (behind line _)]
  | case4 opener depth here rest ih =>
    rw [skip, Position.after_displace line, ih (behind line _)]
  | case5 opener depth here rest ih =>
    rw [skip, Position.after_displace line, ih (behind line _)]
  | case6 opener depth here c rest opens closes ih =>
    rw [skip_char (not_prefix_pair opens) (not_prefix_pair closes), Position.next_displace line,
      ih (behind line [c])]
  | case7 opener here c rest opens blank ih =>
    rw [skip_blank blank, Position.next_displace line, ih (behind line [c])]
  | case8 opener here c rest opens blank =>
    refine skip_of_endsGap ⟨?_, not_prefix_pair opens⟩
    rintro _ ⟨⟩
    simpa using blank

theorem Gap.ofText_displace (line : 0 < here.line) :
    ofText (here.displace front) text = (ofText here text).displace front :=
  skip_displace line here 0

/-- **From a displaced position a scan finds the same at displaced places.** -/
theorem scanFrom_displace (source : String) (line : 0 < here.line) (text : List Char) :
    scanFrom source (here.displace front) text = (scanFrom source here text).displace front := by
  fun_induction scanFrom source here text with
  | case1 here text opener stop found =>
    rw [scanFrom_eq_scanBehind, Gap.ofText_displace line, found]
    simp [Gap.displace, scanBehind, Scan.displace, LexicalError.displace,
      Position.locate_displace]
  | case2 here text start found =>
    rw [scanFrom_eq_scanBehind, Gap.ofText_displace line, found]
    simp [Gap.displace, scanBehind, Scan.displace, Token.displace, endAt,
      Position.locate_displace]
  | case3 here text start c rest found failure read =>
    obtain ⟨gap, -, rfl, -, -⟩ := Gap.isGap_of_ofText found
    rw [scanFrom_eq_scanBehind, Gap.ofText_displace line, found]
    simp [Gap.displace, scanBehind, Scan.displace, LexicalError.displace,
      Position.locate_displace, read, Position.after_displace (Position.line_after_pos line)]
  | case4 here text start c rest found lexeme read ih =>
    obtain ⟨gap, -, rfl, -, -⟩ := Gap.isGap_of_ofText found
    have start := @Position.line_after_pos gap here line
    rw [scanFrom_eq_scanBehind, Gap.ofText_displace line, found]
    simp [Gap.displace, scanBehind, read, Position.after_displace start,
      ih (Position.line_after_pos start), Scan.cons, Scan.displace, Token.displace, Lexeme.token,
      Position.locate_displace]

/-- **What stands in front of a gap is scanned as if the text ended there.** -/
theorem Laid.scanFrom_append (laid : Laid source here text spaces ts) (isGap : IsGap w)
    (nonempty : w ≠ []) (behind : List Char) :
    Token.scanFrom source here (text ++ (w ++ behind)) =
      (Token.scanFrom source (here.after (text ++ w)) behind).prepend ts.dropLast := by
  induction laid with
  | @last here gap first =>
    rw [scanFrom_append_of_isGap first, scanFrom_append_of_isGap isGap, Position.after_append]
    rfl
  | @token here gap rest c lexeme gaps ts first ends read later ih =>
    have cut : Cut lexeme.rest (lexeme.rest ++ (w ++ behind)) := by
      have cut : Cut [] (w ++ behind) := isGap.cut_append nonempty [] behind
      simpa using cut.append lexeme.rest
    obtain ⟨piece, same, read'⟩ := Lexeme.read_of_cut read cut
    have whole := Lexeme.read_append read
    rw [same, List.cons_append, List.cons.injEq] at whole
    obtain ⟨-, rfl⟩ := whole
    have ends' : EndsGap (c :: (piece ++ (lexeme.rest ++ (w ++ behind)))) :=
      endsGap_of_cut (cut.append piece) ends
    obtain ⟨t, others, rfl⟩ := later.exists_cons
    have place : here.after (gap ++ c :: (piece ++ lexeme.rest) ++ w) =
        ((here.after gap).after lexeme.text).after (lexeme.rest ++ w) := by
      rw [same, ← Position.after_append, ← Position.after_append]
      simp
    have text : gap ++ c :: (piece ++ lexeme.rest) ++ (w ++ behind) =
        gap ++ c :: (piece ++ (lexeme.rest ++ (w ++ behind))) := by
      simp
    rw [text, scanFrom_of_read (Gap.ofText_of_isGap first ends') read', place]
    dsimp only
    rw [ih]
    rfl

/-- **A text is scanned behind a gap as it is scanned alone.**  Let a text be scanned without
an error, and let blank characters and comments follow it, at least one character of them.  Then
the tokens of whatever follows are found behind the tokens of the text, but for the one that
marks its end.  They are displaced by all that stands in front of them: their offsets by its
length, their lines by its line feeds, and the columns in their first line by the length of its
last line.  And if what follows is no sequence of tokens then this is what the whole fails with,
displaced in the same way. -/
theorem scan_behind {name front space behind : String} {tokens : List Token}
    (scanned : (scan name front).toExcept = .ok tokens) (isGap : IsGap space.toList)
    (nonempty : space ≠ "") :
    ∃ found last, tokens = found ++ [last] ∧ last.kind = .endOfInput ∧
      (scan name (front ++ space ++ behind)).toExcept =
        match (scan name behind).toExcept with
        | .ok later => .ok (found ++ later.map (Token.displace (front ++ space).toList))
        | .error e => .error (e.displace (front ++ space).toList) := by
  obtain ⟨spaces, laid⟩ := exists_laid scanned
  obtain ⟨found, same, -⟩ := laid.exists_front
  refine ⟨found, _, same, rfl, ?_⟩
  have nonempty : space.toList ≠ [] := by simpa using nonempty
  have whole := laid.scanFrom_append isGap nonempty behind.toList
  rw [same, List.dropLast_concat, Position.after_start_eq_displace,
    scanFrom_displace name (by decide)] at whole
  have text : (front ++ space ++ behind).toList =
      front.toList ++ (space.toList ++ behind.toList) := by
    simp
  unfold scan
  rw [text, whole, String.toList_append]
  unfold Scan.toExcept Scan.prepend Scan.displace
  cases (scanFrom name Position.start behind.toList).error? <;> rfl

/-- Behind a number with no exponent and a comment over two lines, what follows is found and what
fails is reported two lines further down. -/
theorem scan_behind_comment :
    let token (kind : Kind) (lexeme : String) (value : Option String)
        (line column offset : Int) : Token :=
      ⟨kind, lexeme, value, ⟨"", line, column, offset⟩⟩
    let found := [token .identifier "a" "a" 1 1 0, token .number "1" "1" 2 1 2,
      token .identifier "e" "e" 2 2 3]
    (scan "" "a\n1e").toExcept = .ok (found ++ [token .endOfInput "" none 2 3 4]) ∧
      IsGap " (*\n*)".toList ∧
      (scan "" ("a\n1e" ++ " (*\n*)" ++ "+ 2\n*")).toExcept = .ok (found ++
        [token .plus "+" none 3 3 10, token .number "2" "2" 3 5 12, token .times "*" none 4 1 14,
          token .endOfInput "" none 4 2 15]) ∧
      (scan "" ("a\n1e" ++ " (*\n*)" ++ "+ 2\n$")).toExcept =
        .error ⟨.invalidCharacter '$', ⟨"", 4, 1, 14⟩⟩ := by
  intro token found
  have scanned : (scan "" "a\n1e").toExcept =
      .ok (found ++ [token .endOfInput "" none 2 3 4]) := by
    cbv
  have isGap : IsGap " (*\n*)".toList :=
    .blank (by decide) (.comment (.char (by decide) (by decide) .close) .nil)
  have accepted : (scan "" "+ 2\n*").toExcept = .ok [token .plus "+" none 1 1 0,
      token .number "2" "2" 1 3 2, token .times "*" none 2 1 4,
      token .endOfInput "" none 2 2 5] := by
    cbv
  have refused : (scan "" "+ 2\n$").toExcept =
      .error ⟨.invalidCharacter '$', ⟨"", 2, 1, 4⟩⟩ := by
    cbv
  obtain ⟨front, last, same, -, whole⟩ :=
    @scan_behind "" "a\n1e" " (*\n*)" "+ 2\n*" _ scanned isGap (by decide)
  obtain ⟨front', last', same', -, whole'⟩ :=
    @scan_behind "" "a\n1e" " (*\n*)" "+ 2\n$" _ scanned isGap (by decide)
  obtain rfl : found = front := (List.append_inj' same rfl).1
  obtain rfl : found = front' := (List.append_inj' same' rfl).1
  rw [accepted] at whole
  rw [refused] at whole'
  exact ⟨scanned, isGap, whole, whole'⟩

end Scans
end Token
end Formula
