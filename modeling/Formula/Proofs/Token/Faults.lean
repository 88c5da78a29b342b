import Formula.Proofs.Token.Layout
import Formula.Proofs.Token.LiteralLanguage

/-! # Where a scan fails

A text that is no sequence of tokens fails at one place.  Up to there it is tiled by the tokens
that were found and by gaps (`Tiled`), and what stands there tells why the scan cannot go on:
nothing that begins a token (`StartsNothing`), a string that is never closed (`OpenString`), or
a comment that is never closed (`OpenComment`).  These are said without a scanner, by what a
string and a comment are.
-/
namespace Formula
namespace Token

/-! ## What stands where a scan fails -/

/-- What stands between the quotes of a string: plain characters, and pairs of a backslash and
any character. -/
inductive Enclosed : List Char → Prop
  | nil : Enclosed []
  | plain {c : Char} {rest : List Char} : c ≠ '"' → c ≠ '\\' → Enclosed rest →
    Enclosed (c :: rest)
  | pair {c : Char} {rest : List Char} : Enclosed rest → Enclosed ('\\' :: c :: rest)

/-- A string opens that is never closed. -/
def OpenString (text : List Char) : Prop :=
  ∃ body, text = '"' :: body ∧ ¬ ∃ inner behind, Enclosed inner ∧ body = inner ++ '"' :: behind

/-- A comment opens that is never closed. -/
def OpenComment (text : List Char) : Prop :=
  ∃ body, text = '(' :: '*' :: body ∧ ¬ ∃ tail behind, CommentTail tail ∧ body = tail ++ behind

/-- A character stands first that is not blank and begins no comment, no string, no punctuation,
no name and no number. -/
def StartsNothing (text : List Char) : Prop :=
  ∃ c rest, text = c :: rest ∧ Text.isBlank c = false ∧ ¬ ['(', '*'] <+: text ∧ c ≠ '"' ∧
    (∀ (kind : Kind) (lexeme : String), kind.lexeme? = some lexeme → ¬ lexeme.toList <+: text) ∧
    c.isAlpha = false ∧ c.isDigit = false ∧ ¬ (c = '.' ∧ ∃ d, rest.head? = some d ∧ d.isDigit)

/-- A text cannot be scanned, for a cause that its start shows. -/
def Blocked (text : List Char) : LexicalError.Cause → Prop
  | .invalidCharacter c => StartsNothing text ∧ text.head? = some c
  | .unterminatedString => OpenString text
  | .unterminatedComment => OpenComment text

/-- From an offset on a text is made of gaps and tokens in turn, and then a last gap. -/
inductive Tiled : Nat → List Char → List Token → Prop
  | gap {start : Nat} {gap : List Char} : IsGap gap → Tiled start gap []
  | token {start : Nat} {gap rest : List Char} {t : Token} {ts : List Token} :
    IsGap gap → t.location.offset = (start + gap.length : Nat) → t.lexeme ≠ "" →
    Tiled (start + gap.length + t.lexeme.length) rest ts →
    Tiled start (gap ++ t.lexeme.toList ++ rest) (t :: ts)

section Starts
variable {c : Char} {text rest body inner behind tail : List Char}

/-! ## Strings that are closed -/

/-- What stands between quotes stands for some text. -/
theorem Enclosed.exists_denotes (h : Enclosed inner) : ∃ value, Denotes inner value := by
  induction h with
  | nil => exact ⟨_, .nil⟩
  | plain quote backslash _ ih =>
    obtain ⟨value, denotes⟩ := ih
    exact ⟨_, .plain quote backslash denotes⟩
  | pair _ ih =>
    obtain ⟨value, denotes⟩ := ih
    exact ⟨_, denotes.pair _⟩

/-- A string that is not read up to a closing quote has none. -/
theorem openString_of_body {raw : List Char} (h : Literal.body text = .unclosed raw) :
    OpenString ('"' :: text) := by
  refine ⟨text, rfl, ?_⟩
  rintro ⟨inner, behind, enclosed, rfl⟩
  obtain ⟨value, denotes⟩ := enclosed.exists_denotes
  rw [denotes.body_append behind] at h
  cases h

/-! ## Comments that are closed -/

/-- A comment that a text is inside of goes on to its end, or the text ends first. -/
theorem commentTail_or_unclosed (text : List Char) (opener here : Position) (depth : Nat) :
    (∃ tail behind, CommentTail tail ∧ text = tail ++ behind) ∨
      ∃ stop, Gap.skip opener (depth + 1) here text = .unclosed opener stop := by
  induction length : text.length using Nat.strongRecOn generalizing text here depth with
  | ind length ih =>
    subst length
    by_cases opens : ['(', '*'] <+: text
    -- Behind a comment inside the text is inside of the outer one again.
    · obtain ⟨rest, rfl⟩ := opens
      rw [List.cons_append, List.cons_append, List.nil_append, Gap.skip]
      rcases ih rest.length (by simp) rest (here.after ['(', '*']) (depth + 1) rfl with
        ⟨inner, behind, nested, rfl⟩ | unclosed
      · rcases ih behind.length (by simp; omega) behind
            ((here.after ['(', '*']).after inner) depth rfl with
          ⟨tail, behind, closes, rfl⟩ | unclosed
        · exact .inl ⟨_, behind, .nested nested closes, by simp⟩
        · exact .inr (Gap.skip_commentTail nested ▸ unclosed)
      · exact .inr unclosed
    · by_cases closes : ['*', ')'] <+: text
      · obtain ⟨rest, rfl⟩ := closes
        exact .inl ⟨_, rest, .close, rfl⟩
      · cases text with
        | nil => exact .inr ⟨here, by rw [Gap.skip]⟩
        | cons c rest =>
          rw [Gap.skip_char opens closes]
          rcases ih rest.length (by simp) rest (here.next c) depth rfl with
            ⟨tail, behind, comment, rfl⟩ | unclosed
          · have nonempty := comment.ne_nil
            exact .inl ⟨_, behind, .char (mt (Gap.pair_prefix_append nonempty).mpr opens)
              (mt (Gap.pair_prefix_append nonempty).mpr closes) comment, rfl⟩
          · exact .inr unclosed

/-- A text begins with a gap, in front of what begins none or of a comment that is never
closed. -/
theorem exists_gap (text : List Char) :
    ∃ gap rest, text = gap ++ rest ∧ IsGap gap ∧ (EndsGap rest ∨ OpenComment rest) := by
  induction length : text.length using Nat.strongRecOn generalizing text with
  | ind length ih =>
    subst length
    by_cases opens : ['(', '*'] <+: text
    · obtain ⟨body, rfl⟩ := opens
      by_cases closed : ∃ tail behind, CommentTail tail ∧ body = tail ++ behind
      · obtain ⟨tail, behind, comment, rfl⟩ := closed
        obtain ⟨gap, rest, rfl, isGap, ends⟩ := ih behind.length (by simp; omega) behind rfl
        exact ⟨_, rest, by simp, .comment comment isGap, ends⟩
      · exact ⟨[], _, rfl, .nil, .inr ⟨body, rfl, closed⟩⟩
    · cases text with
      | nil => exact ⟨[], [], rfl, .nil, .inl ⟨nofun, opens⟩⟩
      | cons c rest =>
        cases blank : Text.isBlank c with
        | true =>
          obtain ⟨gap, rest, rfl, isGap, ends⟩ := ih rest.length (by simp) rest rfl
          exact ⟨c :: gap, rest, rfl, .blank blank isGap, ends⟩
        | false =>
          refine ⟨[], c :: rest, rfl, .nil, .inl ⟨?_, opens⟩⟩
          rintro _ ⟨⟩
          exact blank

/-- A scan stops in front of a comment that is never closed. -/
theorem Gap.ofText_of_openComment {gap : List Char} (isGap : IsGap gap) (opens : OpenComment rest)
    (here : Position) : ∃ stop, ofText here (gap ++ rest) = .unclosed (here.after gap) stop := by
  obtain ⟨body, rfl, never⟩ := opens
  unfold ofText
  rw [skip_of_isGap isGap, skip]
  exact (commentTail_or_unclosed body _ _ 0).resolve_left never

/-! ## Punctuation -/

/-- Where the lexeme of some punctuation stands, punctuation is read. -/
theorem Punctuation.split?_ne_none {kind : Kind} {lexeme : String}
    (h : kind.lexeme? = some lexeme) (stands : lexeme.toList <+: text) : split? text ≠ none := by
  obtain ⟨rest, rfl⟩ := stands
  cases kind <;> cases h <;> cases rest <;> simp [split?, single?, pair?]
  -- Only the lexeme of a negation begins another one.
  split <;> exact nofun

/-! ## Lexemes that cannot be read -/

/-- Where no lexeme can be read the text shows why. -/
theorem blocked_of_read {failure : Lexeme.Failure} (ends : EndsGap (c :: rest))
    (h : Lexeme.read c rest = .error failure) : Blocked (c :: rest) failure.cause := by
  unfold Lexeme.read at h
  split at h
  · cases h
  · next number =>
    split at h
    · cases h
    · next letter =>
      split at h
      · next quote =>
        subst quote
        split at h
        · cases h
        · next unclosed =>
          cases h
          exact openString_of_body unclosed
      · next quote =>
        split at h
        · cases h
        · next mark =>
          cases h
          simp only [Numeral.startsWith, Bool.or_eq_true, Bool.and_eq_true, beq_iff_eq, not_or,
            not_and] at number
          refine ⟨⟨c, rest, rfl, ends.1 c rfl, ends.2, quote, ?_, by simpa using letter,
            by simpa using number.1, ?_⟩, rfl⟩
          · exact fun kind lexeme h stands => Punctuation.split?_ne_none h stands mark
          · rintro ⟨point, d, next, digit⟩
            exact number.2 point (by simp [next, digit])

/-! ## One cause only -/

theorem OpenString.head? (h : OpenString text) : text.head? = some '"' := by
  obtain ⟨body, rfl, -⟩ := h
  rfl

theorem OpenComment.head? (h : OpenComment text) : text.head? = some '(' := by
  obtain ⟨body, rfl, -⟩ := h
  rfl

end Starts

/-! ## Scans that fail -/

section Scans
variable {here : Position} {ts : List Token}

/-- A token stands in front of what is tiled behind it. -/
theorem Tiled.lexeme (source : String) {gap behind done : List Char} {c : Char} {lexeme : Lexeme}
    (isGap : IsGap gap) (read : Lexeme.read c behind = .ok lexeme)
    (later : Tiled ((here.after gap).after lexeme.text).offset done ts) :
    Tiled here.offset (gap ++ lexeme.text ++ done)
      (lexeme.token source (here.after gap) :: ts) := by
  have same : (lexeme.token source (here.after gap)).lexeme.toList = lexeme.text :=
    Lexeme.toList_token lexeme
  rw [← same]
  refine .token isGap ?_ ?_ ?_
  · rw [Lexeme.offset_token, Position.offset_after]
  · intro empty
    rw [empty] at same
    exact Lexeme.text_ne_nil_of_read read same.symm
  · rw [← String.length_toList, same, ← Position.offset_after, ← Position.offset_after]
    exact later

/-- **A scan comes to the end of its text, or it stops where the text shows why.** -/
theorem tiled_of_scanFrom (source : String) (here : Position) (text : List Char) :
    match (scanFrom source here text).error? with
    | none => ∃ front, (scanFrom source here text).tokens =
        front ++ [endAt source (here.after text)] ∧ Tiled here.offset text front
    | some e => ∃ done rest, text = done ++ rest ∧
        e.location = (here.after done).locate source ∧
        Tiled here.offset done (scanFrom source here text).tokens ∧ Blocked rest e.cause := by
  fun_induction scanFrom source here text with
  | case1 here text opener stop found =>
    obtain ⟨gap, rest, rfl, isGap, ends | opens⟩ := exists_gap text
    · rw [Gap.ofText_of_isGap isGap ends] at found
      cases found
    · obtain ⟨stop', unclosed⟩ := Gap.ofText_of_openComment isGap opens here
      rw [unclosed] at found
      cases found
      exact ⟨gap, rest, rfl, rfl, .gap isGap, opens⟩
  | case2 here text start found =>
    obtain ⟨gap, rfl, rfl, isGap, -⟩ := Gap.isGap_of_ofText found
    rw [List.append_nil]
    exact ⟨[], rfl, .gap isGap⟩
  | case3 here text start c rest found failure read =>
    obtain ⟨gap, rfl, rfl, isGap, ends⟩ := Gap.isGap_of_ofText found
    exact ⟨gap, c :: rest, rfl, rfl, .gap isGap, blocked_of_read ends read⟩
  | case4 here text start c rest found lexeme read ih =>
    obtain ⟨gap, rfl, rfl, isGap, -⟩ := Gap.isGap_of_ofText found
    rw [← Lexeme.read_append read, ← List.append_assoc]
    have error : (Scan.cons (lexeme.token source (here.after gap)) (scanFrom source
        ((here.after gap).after lexeme.text) lexeme.rest)).error? =
      (scanFrom source ((here.after gap).after lexeme.text) lexeme.rest).error? := rfl
    rw [error]
    split
    · next ended =>
      rw [ended] at ih
      obtain ⟨front, same, tiled⟩ := ih
      refine ⟨lexeme.token source (here.after gap) :: front, ?_, tiled.lexeme source isGap read⟩
      rw [Scan.cons, same, Position.after_append, Position.after_append]
      rfl
    · next e failed =>
      rw [failed] at ih
      obtain ⟨done, behind, same, location, tiled, blocked⟩ := ih
      refine ⟨gap ++ lexeme.text ++ done, behind, by rw [same, List.append_assoc _ done], ?_,
        tiled.lexeme source isGap read, blocked⟩
      rw [location, Position.after_append, Position.after_append]

end Scans
end Token
end Formula
