import Formula.Proofs.Expr.RoundTrip
import Formula.Proofs.Grammar.InputEnd
import Formula.Proofs.Source.Excerpt
import Formula.Proofs.Token.Munch
import Formula.Proofs.Token.Whereabouts

/-! # What comes of a text

Every reading of a text comes to an expression or to a report (`reads_or_reports`), whatever
the text is and however little allowance the rules have.  And a report shows the place that it
is about (`report_shows`).

Both rest on one fact: if a reading fails then at a token of the text, or at the error that
stopped the scan, and these are all in sight (`exists_diagnostic`).
-/
namespace Formula
open Grammar

section Reading
variable {name text : String} {tokens : List Token} {config : Config}
  {allowance : Option Nat} {failure : Failure}

/-! ## Failures -/

/-- The tokens of a text are where a scan can see them. -/
theorem inSight_of_scan (scanned : (Token.scan name text).toExcept = .ok tokens) :
    ∀ t ∈ tokens, Token.InSight name .start text.toList t.location := by
  unfold Token.Scan.toExcept at scanned
  split at scanned
  · cases scanned
  · cases scanned
    exact (Token.inSight_of_scanFrom name .start text.toList).1

theorem inSight_of_scan_error {e : LexicalError}
    (scanned : (Token.scan name text).toExcept = .error e) :
    Token.InSight name .start text.toList e.location := by
  unfold Token.Scan.toExcept at scanned
  split at scanned
  · next failed =>
    cases scanned
    exact (Token.inSight_of_scanFrom name .start text.toList).2 _ failed
  · cases scanned

/-- The tokens of a text end with one that marks the end of the input. -/
theorem endsFrom_of_scan (scanned : (Token.scan name text).toExcept = .ok tokens)
    (config : Config) : Input.EndsFrom { tokens := tokens.toArray, config } 0 := by
  obtain ⟨spaces, laid⟩ := Token.exists_laid scanned
  obtain ⟨eof, member, isEnd⟩ := laid.exists_end
  obtain ⟨last, le, here⟩ : (Input.ofTokens tokens config).EndsFrom 0 :=
    Input.endsFrom_ofTokens member isEnd
  exact ⟨last, le, here⟩

/-- The parse of a text is stopped by nothing but one of its tokens. -/
theorem rejected_of_scan (scanned : (Token.scan name text).toExcept = .ok tokens) {n : Nat}
    {abort : Abort} {s : State}
    (h : parseWithin { tokens := tokens.toArray, config } n .start = .error abort s) :
    ∃ place error, abort = .rejected place error ∧ error.found ∈ tokens := by
  obtain ⟨last, -, ends⟩ := endsFrom_of_scan scanned config
  have valued : Input.Valued { tokens := tokens.toArray, config } :=
    valued_of_wellLexed fun t ht => wellLexed_of_scan scanned t (by simpa using ht)
  have blamed := parseWithin_within ends n
  rw [h] at blamed
  cases abort with
  | rejected place error =>
    exact ⟨place, error, rfl, by simpa using Array.mem_of_getElem? blamed.2.1⟩
  | outOfTokens => exact blamed.2.elim
  | valueless => exact absurd valued blamed.2

/-- A reading keeps the text. -/
theorem Reading.text_ofTextWithin :
    (Reading.ofTextWithin allowance name text config).text = text := by
  unfold Reading.ofTextWithin
  split
  · rfl
  · dsimp only
    split <;> rfl

/-- **A failure is reported**, with the line around a location that is in sight. -/
theorem exists_diagnostic
    (failed : (Reading.ofTextWithin allowance name text config).outcome = .error failure) :
    ∃ d, failure.diagnostic? text = some d ∧
      d.sourceLine = Source.lineAt text d.location.offset ∧
      Token.InSight name .start text.toList d.location := by
  rcases Reading.outcome_eq_error_iff.mp failed with
    ⟨e, scanned, rfl⟩ | ⟨tokens, abort, s, scanned, rfl, stopped⟩
  · exact ⟨_, rfl, rfl, inSight_of_scan_error scanned⟩
  · obtain ⟨place, error, rfl, found⟩ := rejected_of_scan scanned stopped
    exact ⟨_, rfl, rfl, inSight_of_scan scanned _ found⟩

/-- The report of a reading is that of its failure. -/
theorem Reading.diagnostic?_ofTextWithin
    (failed : (Reading.ofTextWithin allowance name text config).outcome = .error failure) :
    (Reading.ofTextWithin allowance name text config).diagnostic? = failure.diagnostic? text := by
  unfold Reading.diagnostic?
  rw [failed, Reading.text_ofTextWithin]

end Reading

/-! ## Reports -/

/-- **Every reported position points at the right character, and the excerpt shows it.**  The
tokens of a text are located by their offsets, with the lines and columns that these have in the
text.  So is every failure, lexical or grammatical, and its report shows the line of that number
with the caret below the character at the offset. -/
theorem report_shows (name text : String) (config : Config) (allowance : Option Nat) :
    (∀ tokens, (Token.scan name text).toExcept = .ok tokens →
      ∀ t ∈ tokens, t.location.Marks text.toList) ∧
    ∀ d, (Reading.ofTextWithin allowance name text config).diagnostic? = some d →
      d.Shows text := by
  constructor
  · intro tokens scanned t member
    obtain ⟨before, behind, whole, located, -⟩ := inSight_of_scan scanned t member
    rw [located, whole]
    exact Source.marks_after name before behind
  · intro d reported
    unfold Reading.diagnostic? at reported
    split at reported
    · cases reported
    · next failed =>
      rw [Reading.text_ofTextWithin] at reported
      obtain ⟨d', reported', sourceLine, before, behind, whole, located, visible⟩ :=
        exists_diagnostic failed
      obtain rfl := Option.some.inj (reported'.symm.trans reported)
      exact Diagnostic.shows_of_position whole located sourceLine visible

/-- A parenthesis on the second line, behind a line that ends with a carriage return. -/
theorem report_shows_paren :
    let text := "a\r\n  )\r"
    let tokens : List Token := [⟨.identifier, "a", "a", ⟨"", 1, 1, 0⟩⟩,
      ⟨.rightParen, ")", none, ⟨"", 2, 3, 5⟩⟩, ⟨.endOfInput, "", none, ⟨"", 2, 5, 7⟩⟩]
    let d : Diagnostic :=
      { message := "expected end of input but found ')'"
        location := ⟨"", 2, 3, 5⟩
        code := some "P002"
        help := some "A complete expression was parsed but input remains after it."
        sourceLine := "  )" }
    (Token.scan "" text).toExcept = .ok tokens ∧
      (∀ t ∈ tokens, t.location.Marks text.toList) ∧
      (Reading.ofTextWithin none "" text { memoize := false }).diagnostic? = some d ∧
      d.Shows text := by
  intro text tokens d
  have scanned : (Token.scan "" text).toExcept = .ok tokens := by cbv
  have reported : (Reading.ofTextWithin none "" text { memoize := false }).diagnostic? =
      some d := by
    cbv
  obtain ⟨marks, visible⟩ := report_shows "" text { memoize := false } none
  exact ⟨scanned, marks tokens scanned, reported, visible d reported⟩

/-! ## Safety -/

/-- Where the scanner looks for a numeral there is one. -/
theorem exists_read_numeral {c : Char} {rest : List Char}
    (start : Token.Numeral.startsWith c rest = true) :
    ∃ numeral behind, Token.Lexeme.read c rest = .ok (.plain .number (numeral, behind)) ∧
      Token.Numeral.IsNumeral numeral ∧ numeral ++ behind = c :: rest := by
  refine ⟨_, _, ?_, Token.Numeral.isNumeral_split start, Token.Numeral.split_append _⟩
  rw [Token.Lexeme.read, if_pos start]

/-- Where the scanner looks for a name there is one. -/
theorem exists_read_name {c : Char} (letter : c.isAlpha = true) (rest : List Char) :
    ∃ word behind, Token.Lexeme.read c rest = .ok (.plain .identifier (word, behind)) ∧
      Token.IsName word ∧ word ++ behind = c :: rest := by
  refine ⟨_, _, ?_, Token.isName_splitName letter, List.takeWhile_append_dropWhile⟩
  have noNumeral : ¬ Token.Numeral.startsWith c rest = true := by
    rw [Token.Numeral.not_startsWith_of_isAlpha letter]
    exact Bool.false_ne_true
  rw [Token.Lexeme.read, if_neg noNumeral, if_pos letter]
  rfl

/-- **A text is read, or the failure is reported.**  No text and no dialect keep a reading from
coming to one of the two, also where the rules run out of their allowance.  The scanner finds a
numeral or a name wherever it looks for one.  And for all tokens of which one marks the end of
the input, a parse stays in front of the first of these and never sees what stands behind it:
the tokens up to there are the same expression, or the same token is to blame. -/
theorem reads_or_reports (config : Config) :
    (∀ (allowance : Option Nat) (name text : String),
      (∃ e, (Reading.ofTextWithin allowance name text config).outcome = .ok e) ∨
        ∃ d, (Reading.ofTextWithin allowance name text config).diagnostic? = some d) ∧
    (∀ (c : Char) (rest : List Char),
      (Token.Numeral.startsWith c rest = true → ∃ numeral behind,
        Token.Lexeme.read c rest = .ok (.plain .number (numeral, behind)) ∧
          Token.Numeral.IsNumeral numeral ∧ numeral ++ behind = c :: rest) ∧
      (c.isAlpha = true → ∃ word behind,
        Token.Lexeme.read c rest = .ok (.plain .identifier (word, behind)) ∧
          Token.IsName word ∧ word ++ behind = c :: rest)) ∧
    ∀ (tokens : List Token) (last : Nat), (Input.ofTokens tokens config).EndsAt last →
      (Input.ofTokens tokens config).Valued →
      (∀ allowance, StaysInside (.ofTokens tokens config) last allowance) ∧
        parseTokens (tokens.take (last + 1)) config = parseTokens tokens config := by
  refine ⟨fun allowance name text => ?_, fun c rest => ⟨exists_read_numeral, fun letter =>
    exists_read_name letter rest⟩, fun tokens last ends valued =>
    ⟨staysInside ends.1 valued, parseTokens_take ends.1 valued⟩⟩
  cases outcome : (Reading.ofTextWithin allowance name text config).outcome with
  | ok e => exact .inl ⟨e, rfl⟩
  | error failure =>
    obtain ⟨d, reported, -⟩ := exists_diagnostic outcome
    refine .inr ⟨d, ?_⟩
    unfold Reading.diagnostic?
    rw [outcome, Reading.text_ofTextWithin]
    exact reported

/-- A bracket behind the end of the input is never seen, nor is the second end. -/
theorem reads_or_reports_cut :
    let token (kind : Token.Kind) (lexeme : String) (value : Option String) (offset : Int) :=
      (⟨kind, lexeme, value, ⟨"", 1, offset + 1, offset⟩⟩ : Token)
    let front := [token .number "1" "1" 0, token .plus "+" none 7, token .endOfInput "" none 3]
    let tokens := front ++ [token .rightParen ")" none 3, token .endOfInput "" none 4]
    let config : Config := { memoize := false }
    (Input.ofTokens tokens config).EndsAt 2 ∧ (Input.ofTokens tokens config).Valued ∧
      StaysInside (.ofTokens tokens config) 2 10 ∧
      parseTokens tokens config = .error (.rejected 2
        ⟨.unexpectedToken ["expression"], token .endOfInput "" none 3⟩) := by
  intro token front tokens config
  have ends : (Input.ofTokens tokens config).EndsAt 2 := by
    refine ⟨rfl, fun i hi => ?_⟩
    obtain rfl | rfl : i = 0 ∨ i = 1 := by omega
    · decide
    · decide
  have valued : (Input.ofTokens tokens config).Valued := by
    intro t ht
    simp only [Input.ofTokens, tokens, front, List.mem_toArray, List.cons_append,
      List.nil_append, List.mem_cons, List.not_mem_nil, or_false] at ht
    rcases ht with rfl | rfl | rfl | rfl | rfl <;> decide
  obtain ⟨inside, cut⟩ := (reads_or_reports config).2.2 tokens 2 ends valued
  exact ⟨ends, valued, inside 10, cut.symm.trans rfl⟩

end Formula
