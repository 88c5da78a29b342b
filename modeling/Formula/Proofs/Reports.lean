import Formula.Proofs.Grammar.Interruption
import Formula.Proofs.Reading
import Formula.Proofs.Token.Faults
import Formula.Proofs.Token.LongestMatch

/-! # What a report looks like

A report is made of four lines, and of one more with the advice (`Diagnostic.Formed`).  The line of
source is a line, and the advice never quotes more than one character, so all depends on the
message (`Diagnostic.formed_iff`).

A message quotes a character, or a token.  Nothing but a string can have a line feed in it.  Where
factors may stand side by side a string can always be read, so that it is never to blame.  Where
they may not, it can be, and then the report is out of shape (`report_formed`).
-/
namespace Formula
open Grammar

/-! ## Texts of one line -/

/-- A text has no line feed in it. -/
def OneLine (text : String) : Prop :=
  '\n' ∉ text.toList

section OneLine
variable {s t : String}

instance : Decidable (OneLine s) :=
  inferInstanceAs (Decidable ('\n' ∉ s.toList))

@[simp] theorem oneLine_append : OneLine (s ++ t) ↔ OneLine s ∧ OneLine t := by
  simp [OneLine, String.toList_append]

theorem oneLine_intercalate {items : List String} (separator : OneLine s)
    (each : ∀ item ∈ items, OneLine item) : OneLine (String.intercalate s items) := by
  induction items with
  | nil => exact List.not_mem_nil
  | cons item items ih =>
    obtain ⟨first, others⟩ := List.forall_mem_cons.mp each
    cases items with
    | nil => simpa using first
    | cons next items =>
      rw [String.intercalate_cons_cons, oneLine_append, oneLine_append]
      exact ⟨⟨first, separator⟩, ih others⟩

theorem oneLine_repr (n : Nat) : OneLine n.repr := by
  intro member
  rw [Nat.toList_repr] at member
  have digit := Nat.isDigit_of_mem_toDigits (by decide) (by decide) member
  cases digit

/-- A whole number is written in one line. -/
theorem oneLine_toString (n : Int) : OneLine (toString n) := by
  cases n with
  | ofNat n => exact oneLine_repr n
  | negSucc n => exact oneLine_append.mpr ⟨by decide, oneLine_repr (n + 1)⟩

/-- What follows the last slash of a name is in one line if the name is. -/
theorem oneLine_label {l : Location} (name : OneLine l.source) : OneLine l.label := by
  unfold Location.label
  dsimp only
  split
  · exact name
  · intro member
    rw [String.toList_ofList, List.mem_reverse] at member
    exact name (List.mem_reverse.mp (List.takeWhile_subset _ member))

/-- The line around an offset is one line. -/
theorem oneLine_lineAt (text : String) (offset : Int) : OneLine (Source.lineAt text offset) := by
  intro member
  unfold Source.lineAt at member
  rw [String.toList_ofList, List.mem_reverse] at member
  have member := List.mem_reverse.mp (List.dropWhile_subset _ member)
  rcases List.mem_append.mp member with front | behind
  · simpa using List.mem_takeWhile_imp (List.mem_reverse.mp front)
  · simpa using List.mem_takeWhile_imp behind

end OneLine

/-! ## The shape of a report -/

namespace Diagnostic

/-- The lines of a report: a header, an empty line, the line of source, and a caret below the
column. -/
def lines (d : Diagnostic) : List (List Char) :=
  [d.header.toList, [], d.sourceLine.toList,
    List.replicate (d.location.column - 1).toNat ' ' ++ ['^']]

/-- The line with the advice, if there is any. -/
def adviceLines (d : Diagnostic) : List (List Char) :=
  match d.help with
  | some help => if help.isEmpty then [] else [("  help: " ++ help).toList]
  | none => []

/-- A report has its shape: it is divided into its lines by its line feeds, and there is one line
more where advice is asked for and there is any. -/
structure Formed (d : Diagnostic) : Prop where
  render : d.render.toList.splitOn '\n' = d.lines
  renderHelp : d.renderHelp.toList.splitOn '\n' = d.lines ++ d.adviceLines

section Formed
variable {d : Diagnostic}

theorem oneLine_header (label : OneLine d.location.label) :
    OneLine d.header ↔ OneLine d.message := by
  have colon : OneLine ":" := by decide
  have failure : OneLine " failure: " := by decide
  simp only [header, oneLine_append, label, colon, failure, oneLine_toString, true_and]

theorem toList_render (d : Diagnostic) : d.render.toList = ['\n'].intercalate d.lines := by
  simp [render, lines, caret, List.intercalate]

/-- The advice stands behind the report, in a line of its own. -/
theorem toList_renderHelp (d : Diagnostic) :
    d.renderHelp.toList = ['\n'].intercalate (d.lines ++ d.adviceLines) := by
  unfold renderHelp adviceLines
  cases d.help with
  | none => rw [List.append_nil, toList_render]
  | some help =>
    dsimp only
    split
    · rw [List.append_nil, toList_render]
    · simp [render, lines, caret, List.intercalate]

/-- **A report has its shape just if its message is one line**, where the name of the source, the
line of source and the advice are. -/
theorem formed_iff (label : OneLine d.location.label) (sourceLine : OneLine d.sourceLine)
    (advice : ∀ help, d.help = some help → OneLine help) : d.Formed ↔ OneLine d.message := by
  have caret : '\n' ∉ List.replicate (d.location.column - 1).toNat ' ' ++ ['^'] := by
    simp [List.mem_replicate]
  rw [← oneLine_header label]
  constructor
  · rintro ⟨render, -⟩
    -- Four lines are divided by three line feeds, and none of these is in the header.
    have count := congrArg List.length render
    rw [Source.length_splitOn, toList_render] at count
    simp only [lines, List.intercalate, List.intersperse, List.flatten_cons, List.flatten_nil,
      List.count_append, List.count_cons_self, List.count_nil, List.length_cons,
      List.length_nil] at count
    exact List.count_eq_zero.mp (by omega)
  · intro header
    have whole : ∀ line ∈ d.lines, '\n' ∉ line := by
      simp only [lines, List.forall_mem_cons]
      exact ⟨header, List.not_mem_nil, sourceLine, caret, nofun⟩
    have more : ∀ line ∈ d.adviceLines, '\n' ∉ line := by
      unfold adviceLines
      split
      · next help given =>
        split
        · exact nofun
        · rw [List.forall_mem_singleton]
          exact oneLine_append.mpr ⟨by decide, advice help given⟩
      · exact nofun
    refine ⟨?_, ?_⟩
    · rw [toList_render]
      exact List.splitOn_intercalate _ whole (List.cons_ne_nil _ _)
    · rw [toList_renderHelp]
      exact List.splitOn_intercalate _ (List.forall_mem_append.mpr ⟨whole, more⟩)
        (List.cons_ne_nil _ _)

end Formed
end Diagnostic

/-! ## Messages of the scanner -/

section Lexical
variable {name text : String} {e : LexicalError} {c : Char}

theorem toUpper_ne_lineFeed_of_mem_toDigits {n : Nat} (member : c ∈ Nat.toDigits 16 n) :
    c.toUpper ≠ '\n' := by
  have digit : ∀ d < 16, (Nat.digitChar d).toUpper ≠ '\n' := by decide
  induction n using Nat.strongRecOn with
  | ind n ih =>
    rcases Nat.lt_or_ge n 16 with lt | ge
    · rw [Nat.toDigits_of_lt_base lt, List.mem_singleton] at member
      rw [member]
      exact digit n lt
    · rw [Nat.toDigits_of_base_le (by decide) ge, List.mem_append, List.mem_singleton] at member
      rcases member with front | last
      · exact ih (n / 16) (by omega) front
      · rw [last]
        exact digit _ (Nat.mod_lt _ (by decide))

theorem oneLine_codePoint (c : Char) : OneLine (LexicalError.codePoint c) := by
  unfold LexicalError.codePoint
  refine oneLine_append.mpr ⟨by decide, ?_⟩
  intro member
  rw [String.toList_ofList, List.mem_append] at member
  rcases member with zeros | digits
  · simp [List.mem_replicate] at zeros
  · obtain ⟨d, digit, same⟩ := List.mem_map.mp digits
    exact toUpper_ne_lineFeed_of_mem_toDigits digit same

/-- A character that starts no token is not blank, and so it is no line feed. -/
theorem ne_lineFeed_of_scan (scanned : (Token.scan name text).toExcept = .error e)
    (invalid : e.cause = .invalidCharacter c) : c ≠ '\n' := by
  have found := Token.tiled_of_scanFrom name Position.start text.toList
  unfold Token.Scan.toExcept Token.scan at scanned
  split at scanned
  · next failed =>
    cases scanned
    rw [failed] at found
    obtain ⟨-, rest, -, -, -, blocked⟩ := found
    rw [invalid] at blocked
    obtain ⟨⟨d, behind, rfl, visible, -⟩, first⟩ := blocked
    obtain rfl : d = c := Option.some.inj first
    rintro rfl
    revert visible
    decide
  · cases scanned

/-- A character alone is a text of one line if it is no line feed. -/
theorem oneLine_char (other : c ≠ '\n') : OneLine c.toString := by
  simp [OneLine, Char.toString, other.symm]

theorem oneLine_lexical (scanned : (Token.scan name text).toExcept = .error e) :
    OneLine e.cause.message ∧ OneLine e.cause.help := by
  have char {c : Char} (invalid : e.cause = .invalidCharacter c) : OneLine c.toString :=
    oneLine_char (ne_lineFeed_of_scan scanned invalid)
  cases cause : e.cause with
  | unterminatedString | unterminatedComment => exact ⟨by decide, by decide⟩
  | invalidCharacter c =>
    refine ⟨?_, ?_⟩
    · show OneLine ("no lexeme matches at '" ++ c.toString ++ "'")
      rw [oneLine_append, oneLine_append]
      exact ⟨⟨by decide, char cause⟩, by decide⟩
    · show OneLine (if Text.isPrintable c then
          "The character '" ++ c.toString ++ "' does not start any token."
        else "Non-printable character (Unicode: " ++ LexicalError.codePoint c ++
          ") is not allowed.")
      split
      · rw [oneLine_append, oneLine_append]
        exact ⟨⟨by decide, char cause⟩, by decide⟩
      · rw [oneLine_append, oneLine_append]
        exact ⟨⟨by decide, oneLine_codePoint c⟩, by decide⟩

end Lexical

/-! ## Messages of the grammar -/

section Grammatical
variable {t : Token} {text : List Char} {e : ParseError}

/-- What is listed as expected is in one line if each of it is. -/
theorem oneLine_describeExpected {expected : List String}
    (each : ∀ item ∈ expected, OneLine item) : OneLine (describeExpected expected) := by
  unfold describeExpected
  have each : ∀ item ∈ (expected.mergeSort fun a b => decide (a ≤ b)).eraseDups, OneLine item :=
    fun item member => each item (List.mem_mergeSort.mp (List.mem_eraseDups.mp member))
  revert each
  generalize (expected.mergeSort fun a b => decide (a ≤ b)).eraseDups = items
  intro each
  dsimp only
  split
  · decide
  · next last found =>
    have last := each last (List.mem_of_getLast? found)
    split
    · exact last
    · refine oneLine_append.mpr ⟨oneLine_append.mpr ⟨oneLine_intercalate (by decide) ?_,
        by decide⟩, last⟩
      exact fun item member => each item (List.dropLast_subset _ member)

theorem oneLine_texts (needed : Expectations) : OneLine (describeExpected needed.texts) := by
  refine oneLine_describeExpected fun item member => ?_
  obtain ⟨expectation, -, rfl⟩ := List.mem_map.mp member
  rcases expectation with _ | _ | (_ | _ | _ | _) <;> decide

/-- No numeral has a line feed in it. -/
theorem Token.Numeral.IsNumeral.oneLine (h : Token.Numeral.IsNumeral text) : '\n' ∉ text := by
  have digits {text : List Char} (all : Token.Numeral.AllDigits text) : '\n' ∉ text :=
    fun member => absurd (all _ member) (by decide)
  obtain ⟨⟨mantissa, exponent, rfl, hmantissa, hexponent⟩, -⟩ := h
  rw [List.mem_append, not_or]
  constructor
  · cases hmantissa with
    | pointed whole fraction => simp [digits whole, digits fraction]
    | whole whole => exact digits whole
  · cases hexponent with
    | absent => exact List.not_mem_nil
    | present mark sign all =>
      rcases mark with rfl | rfl <;> rcases sign with rfl | rfl | rfl <;> simp [digits all]

/-- Nothing but a string goes over more than one line. -/
theorem Token.IsMunch.oneLine (h : Token.IsMunch text t) (other : t.kind ≠ .string) :
    OneLine t.lexeme := by
  unfold Token.IsMunch at h
  split at h
  · exact h.1.member.oneLine
  · obtain ⟨c, rest, whole, letter, others⟩ := h.1.member
    intro member
    rw [whole] at member
    rcases List.mem_cons.mp member with rfl | member
    · cases letter
    · exact absurd (others _ member) (by decide)
  · exact absurd ‹_› other
  · rw [h.1]
    decide
  · obtain ⟨-, fixed, -⟩ := h
    revert fixed
    generalize t.lexeme = lexeme
    cases t.kind <;> rintro ⟨⟩ <;> decide

/-- A report of a token quotes its lexeme. -/
theorem oneLine_describe (h : Token.IsMunch text t) : OneLine t.describe ↔ OneLine t.lexeme := by
  unfold Token.describe
  split
  · next isEnd =>
    have other : t.kind ≠ .string := by rw [isEnd]; decide
    exact iff_of_true (by decide) (h.oneLine other)
  · have quote : OneLine "'" := by decide
    simp only [oneLine_append, quote, true_and, and_true]

/-- A report of the grammar quotes a string that goes over more than one line. -/
def ParseError.QuotesLines (e : ParseError) : Prop :=
  (∀ limit, e.cause ≠ .nestedTooDeeply limit) ∧ e.found.kind = .string ∧
    ¬ OneLine e.found.lexeme

/-- A report of the grammar is in one line unless it quotes more than one, and its advice always
is. -/
theorem oneLine_grammatical (h : Token.IsMunch text e.found)
    (listed : ∀ expected, e.cause = .unexpectedToken expected →
      OneLine (describeExpected expected)) :
    (OneLine e.message ↔ ¬ e.QuotesLines) ∧ OneLine e.help := by
  have found (quoted : ∀ limit, e.cause ≠ .nestedTooDeeply limit) :
      OneLine e.found.describe ↔ ¬ e.QuotesLines := by
    rw [oneLine_describe h, ParseError.QuotesLines]
    by_cases isString : e.found.kind = .string
    · simp [quoted, isString]
    · simp [isString, h.oneLine isString]
  unfold ParseError.message ParseError.help
  cases cause : e.cause with
  | unexpectedToken expected =>
    have listed := listed expected cause
    rw [← found (by simp [cause])]
    simp only [oneLine_append, listed]
    exact ⟨⟨fun all => all.2, fun describe => ⟨by decide, describe⟩⟩, by decide⟩
  | trailingInput =>
    rw [← found (by simp [cause])]
    simp only [oneLine_append]
    exact ⟨⟨fun all => all.2, fun describe => ⟨by decide, describe⟩⟩, by decide⟩
  | nestedTooDeeply limit =>
    have unquoted : ¬ e.QuotesLines := fun quotes => quotes.1 limit cause
    cases limit with
    | none =>
      have message : OneLine "expression nested too deeply" := by decide
      exact ⟨iff_of_true message unquoted, by decide⟩
    | some limit =>
      simp only [oneLine_append, oneLine_toString]
      exact ⟨iff_of_true (by decide) unquoted, by decide⟩

end Grammatical

/-! ## Which tokens are to blame -/

namespace Grammar

section Blame
variable {input : Input} {config : Config} {place : Nat} {sight : Sight} {o : Outlook}
  {v : Verdict} {error : ParseError} {s : State}

/-- Where factors may stand side by side a string can be read at every place, unless a pending
number is in front of it. -/
theorem step_string (on : config.implicitMultiplication = true) (isString : sight.kind = .string)
    (stop : o.step config place sight = .halt v) : v = .valueless := by
  have start (rule : Rule) : rule.canStart .string = true := rfl
  have reads (need : Need) (frames : List Frame) :
      need.step config place sight frames ≠ .halt v := by
    simp [Need.step, isString, start]
  have closes (closer : Closer) : sight.closes closer = false :=
    Sight.closes_eq_false (by rw [isString]; cases closer <;> decide)
  unfold Outlook.step at stop
  cases spot : o.spot with
  | needed need =>
    simp only [spot] at stop
    split at stop
    · simp only [closes, Bool.false_eq_true, and_false, if_false] at stop
      exact absurd stop (reads _ _)
    · exact absurd stop (reads _ _)
  | optional =>
    simp only [spot, isString, start, if_true] at stop
    exact absurd stop (reads _ _)
  | complete spans applicable pending =>
    have atom : startsAtom .string = true := rfl
    simp only [spot, Outlook.endOperand, isString, atom, on, if_true] at stop
    split at stop
    · exact (Move.halt.inj stop).symm
    · exact absurd stop (reads _ _)

/-- What a verdict reports. -/
theorem cause_of_abort? (h : v.abort? input = some (.rejected place error)) :
    (∃ needed : Expectations, error.cause = .unexpectedToken needed.texts) ∨
      error.cause = .trailingInput ∨ ∃ limit, error.cause = .nestedTooDeeply limit := by
  cases v with
  | accepted | valueless => cases h
  | trailing => exact .inr (.inl (Input.of_blame (Option.some.inj h)).2.1)
  | unexpected _ needed => exact .inl ⟨needed, (Input.of_blame (Option.some.inj h)).2.1⟩
  | tooDeep _ limit => exact .inr (.inr ⟨_, (Input.of_blame (Option.some.inj h)).2.1⟩)

/-- Where factors may stand side by side no string is to blame. -/
theorem not_string_of_abort? (comes : input.Comes 0 .start v)
    (on : input.config.implicitMultiplication = true)
    (h : v.abort? input = some (.rejected place error)) : error.found.kind ≠ .string := by
  intro isString
  obtain ⟨o, stop, -⟩ := comes.resume (Verdict.place?_of_abort? h)
  obtain ⟨sight, seen, move⟩ := Option.map_eq_some_iff.mp stop
  have kind : sight.kind = error.found.kind := Option.some.inj
    ((Input.kindAt_of_sight? seen).symm.trans
      (Input.kindAt_of_getElem? (Verdict.token_of_abort? h)))
  rw [step_string on (kind.trans isString) move] at h
  cases h

end Blame
end Grammar

/-! ## Reports -/

section Reports
variable {name text : String} {config : Config} {allowance : Option Nat} {failure : Failure}
  {tokens : List Token}

/-- A failure is reported with a quotation that goes over more than one line. -/
def Failure.QuotesLines : Failure → Prop
  | .grammatical (.rejected _ e) => e.QuotesLines
  | .lexical _ | .grammatical .outOfTokens | .grammatical .valueless => False

/-- What is expected is listed in one line, and no string is to blame where factors may stand side
by side. -/
theorem rejected_of_parseWithin {input : Input} (ends : input.EndsFrom 0) {n place : Nat}
    {error : ParseError} {s : State}
    (h : parseWithin input n .start = .error (.rejected place error) s) :
    (∀ expected, error.cause = .unexpectedToken expected →
        OneLine (describeExpected expected)) ∧
      (error.QuotesLines → input.config.implicitMultiplication = false) := by
  rcases parseWithin_cases ends n with same | ⟨_, t, _, exhausted⟩
  · rw [same] at h
    obtain ⟨v, comes⟩ := exists_comes (o := .start) ends
    have reported := abort_of_parse ends comes h
    refine ⟨fun expected cause => ?_, fun quotes => ?_⟩
    · rcases cause_of_abort? reported with ⟨needed, same⟩ | same | ⟨limit, same⟩
      · rw [cause] at same
        cases same
        exact oneLine_texts needed
      · rw [cause] at same
        cases same
      · rw [cause] at same
        cases same
    · by_contra on
      exact not_string_of_abort? comes (by simpa using on) reported quotes.2.1
  · rw [exhausted] at h
    cases h
    exact ⟨nofun, fun quotes => absurd rfl (quotes.1 none)⟩

theorem isMunch_of_scan (scanned : (Token.scan name text).toExcept = .ok tokens) {t : Token}
    (member : t ∈ tokens) : ∃ behind, Token.IsMunch behind t := by
  unfold Token.Scan.toExcept at scanned
  split at scanned
  · cases scanned
  · cases scanned
    exact ⟨_, (@Token.isMunch_of_mem_scanFrom text.toList _ _ [] t rfl member).2⟩

/-- The message of a report is one line unless it quotes more than one, and the advice is. -/
theorem texts_of_failed {d : Diagnostic}
    (failed : (Reading.ofTextWithin allowance name text config).outcome = .error failure)
    (reported : failure.diagnostic? text = some d) :
    (OneLine d.message ↔ ¬ failure.QuotesLines) ∧
      (∀ help, d.help = some help → OneLine help) ∧
      (failure.QuotesLines → config.implicitMultiplication = false) := by
  rcases Reading.outcome_eq_error_iff.mp failed with
    ⟨e, scanned, rfl⟩ | ⟨tokens, abort, s, scanned, rfl, stopped⟩
  · cases reported
    obtain ⟨message, advice⟩ := oneLine_lexical scanned
    refine ⟨iff_of_true message id, ?_, False.elim⟩
    rintro _ ⟨⟩
    exact advice
  · obtain ⟨place, error, rfl, found⟩ := rejected_of_scan scanned stopped
    cases reported
    obtain ⟨listed, separate⟩ :=
      rejected_of_parseWithin (endsFrom_of_scan scanned config) stopped
    obtain ⟨behind, munch⟩ := isMunch_of_scan scanned found
    obtain ⟨message, advice⟩ := oneLine_grammatical munch listed
    refine ⟨message, ?_, separate⟩
    rintro _ ⟨⟩
    exact advice

/-- **A report has its shape unless it quotes more than one line.**  If a text cannot be read, from
a source whose name is one line, then the failure is reported: in a header, an empty line, the
line of source and a caret below the column, and one line more of advice.  The one exception is a
string with a line feed in it that is quoted in the message; and no string is to blame where
factors may stand side by side. -/
theorem report_formed (named : OneLine name)
    (failed : (Reading.ofTextWithin allowance name text config).outcome = .error failure) :
    ∃ d, (Reading.ofTextWithin allowance name text config).diagnostic? = some d ∧
      (d.Formed ↔ ¬ failure.QuotesLines) ∧
      (failure.QuotesLines → config.implicitMultiplication = false) := by
  obtain ⟨d, reported, sourceLine, before, -, -, located, -⟩ := exists_diagnostic failed
  obtain ⟨message, advice, separate⟩ := texts_of_failed failed reported
  refine ⟨d, (Reading.diagnostic?_ofTextWithin failed).trans reported, ?_, separate⟩
  rw [← message]
  refine Diagnostic.formed_iff (oneLine_label ?_) (sourceLine ▸ oneLine_lineAt text _) advice
  rw [located]
  exact named

/-- A string with a line feed in it is complete, and the parenthesis on the line behind it is to
blame. -/
theorem report_formed_paren :
    let reading := Reading.ofTextWithin none "lib/f.m" "\"x\ny\"\n )" { memoize := false }
    let d : Diagnostic :=
      { message := "expected end of input but found ')'"
        location := ⟨"lib/f.m", 3, 2, 7⟩
        code := some "P002"
        help := some "A complete expression was parsed but input remains after it."
        sourceLine := " )" }
    OneLine "lib/f.m" ∧ reading.diagnostic? = some d ∧ d.Formed := by
  intro reading d
  have named : OneLine "lib/f.m" := by decide
  let paren : Token := ⟨.rightParen, ")", none, ⟨"lib/f.m", 3, 2, 7⟩⟩
  have failed : reading.outcome =
      .error (.grammatical (.rejected 1 ⟨.trailingInput, paren⟩)) := by
    dsimp only [reading, paren]
    cbv
  obtain ⟨d', reported, formed, -⟩ := report_formed named failed
  have same : reading.diagnostic? = some d := by decide +kernel
  obtain rfl := Option.some.inj (reported.symm.trans same)
  exact ⟨named, same, formed.mpr fun quotes => absurd quotes.2.1 (by decide)⟩

/-- Where factors may not stand side by side, a string behind a name is to blame.  It is quoted
with its line feed, and the report has one line too many. -/
theorem report_of_string :
    let reading := Reading.ofText unnamed "a \"x\ny\"" { implicitMultiplication := false }
    let d : Diagnostic :=
      { message := "expected end of input but found '\"x\ny\"'"
        location := ⟨unnamed, 1, 3, 2⟩
        code := some "P002"
        help := some "A complete expression was parsed but input remains after it."
        sourceLine := "a \"x" }
    reading.diagnostic? = some d ∧
      d.render.toList.splitOn '\n' =
        ["<string>:1:3 failure: expected end of input but found '\"x".toList, "y\"'".toList, [],
          "a \"x".toList, "  ^".toList] ∧
      ¬ d.Formed := by
  intro reading d
  have split : d.render.toList.splitOn '\n' =
      ["<string>:1:3 failure: expected end of input but found '\"x".toList, "y\"'".toList, [],
        "a \"x".toList, "  ^".toList] := by
    decide +kernel
  refine ⟨by decide +kernel, split, fun formed => ?_⟩
  have lines := congrArg List.length (split.symm.trans formed.render)
  simp [Diagnostic.lines] at lines

end Reports
end Formula
