import Formula.Proofs.Grammar.Derivation
import Formula.Proofs.Text.Escape
import Formula.Proofs.Token.Layout
import Formula.Proofs.Token.Munch
import Formula.Proofs.Token.WellLexed

/-! # Reading a text piece by piece

A text that was put together of pieces is scanned piece by piece.  `Reads config piece
rest shape` says that a piece, in front of `rest`, is scanned as some tokens, and that
`shape` holds of the places around them wherever they stand in an input.  The pieces of
`Reads.append` stand one after the other, and so do the tokens of both.

A name or a number is read to its end only if what stands behind it does not go on.  In
a pretty form there is a comma, a bracket or nothing (`Stops`).
-/
namespace Formula

/-- Tokens stand in an input, one after the other from a place on. -/
def Grammar.Input.HasAt (input : Grammar.Input) : Nat → List Token → Prop
  | _, [] => True
  | p, t :: ts => input.tokens[p]? = some t ∧ input.HasAt (p + 1) ts

/-- A piece of text in front of `rest` is read as tokens of which `shape` holds. -/
def Reads (config : Config) (piece rest : List Char)
    (shape : Grammar.Input → Nat → Nat → Prop) : Prop :=
  ∀ source here, ∃ ts,
    Token.scanFrom source here (piece ++ rest) =
      (Token.scanFrom source (here.after piece) rest).prepend ts ∧
    ∀ input p, input.config = config → input.HasAt p ts → shape input p (p + ts.length)

/-- A name or a number in front of this text does not go on. -/
def Stops (rest : List Char) : Prop :=
  ∀ c, rest.head? = some c → c = ',' ∨ c = '[' ∨ c = ']'

theorem stops_of_cons {c : Char} {rest : List Char} (h : c = ',' ∨ c = '[' ∨ c = ']') :
    Stops (c :: rest) := by
  rintro d ⟨⟩
  exact h

theorem Stops.ends {rest : List Char} (stops : Stops rest) : Token.Numeral.Ends rest := by
  intro c hc
  rcases stops c hc with rfl | rfl | rfl <;> decide

/-- A token of a kind stands alone between two places. -/
def IsToken (kind : Token.Kind) (lexeme : List Char) (value : Option (List Char))
    (input : Grammar.Input) (p q : Nat) : Prop :=
  ∃ t, q = p + 1 ∧ input.tokens[p]? = some t ∧ t.kind = kind ∧
    t.lexeme = String.ofList lexeme ∧ t.value = value.map String.ofList

section HasAt
variable {input : Grammar.Input} {p : Nat} {ts us : List Token}

theorem Grammar.Input.hasAt_append :
    input.HasAt p (ts ++ us) ↔ input.HasAt p ts ∧ input.HasAt (p + ts.length) us := by
  induction ts generalizing p with
  | nil => simp [HasAt]
  | cons t ts ih =>
    have place : p + (ts.length + 1) = p + 1 + ts.length := by omega
    simp only [List.cons_append, HasAt, ih, List.length_cons, place, and_assoc]

theorem Grammar.Input.hasAt_of_eq {config : Config} {blank : String} (before : List Token) :
    Input.HasAt ⟨(before ++ ts).toArray, config, blank⟩ before.length ts := by
  induction ts generalizing before with
  | nil => trivial
  | cons t ts ih =>
    refine ⟨by simp, ?_⟩
    have := ih (before ++ [t])
    rwa [List.append_assoc, List.singleton_append, List.length_append] at this

end HasAt

namespace Reads
variable {config : Config} {piece rest : List Char} {c : Char}

theorem mono {S T : Grammar.Input → Nat → Nat → Prop} (h : Reads config piece rest S)
    (imp : ∀ input p q, input.config = config → S input p q → T input p q) :
    Reads config piece rest T := by
  intro source here
  obtain ⟨ts, scanned, shape⟩ := h source here
  exact ⟨ts, scanned, fun input p hconfig has =>
    imp input p _ hconfig (shape input p hconfig has)⟩

/-- Two pieces one after the other. -/
theorem append {s t : List Char} {S T : Grammar.Input → Nat → Nat → Prop}
    (first : Reads config s (t ++ rest) S) (second : Reads config t rest T) :
    Reads config (s ++ t) rest fun input p r => ∃ q, S input p q ∧ T input q r := by
  intro source here
  obtain ⟨ts, scanned₁, shape₁⟩ := first source here
  obtain ⟨us, scanned₂, shape₂⟩ := second source (here.after s)
  refine ⟨ts ++ us, ?_, fun input p hconfig has => ?_⟩
  · rw [List.append_assoc, scanned₁, scanned₂, Token.Scan.prepend_prepend,
      Position.after_append]
  · obtain ⟨has₁, has₂⟩ := Grammar.Input.hasAt_append.mp has
    refine ⟨p + ts.length, shape₁ input p hconfig has₁, ?_⟩
    rw [List.length_append, ← Nat.add_assoc]
    exact shape₂ input _ hconfig has₂

/-! ## Single tokens -/

/-- A character that is neither blank nor a parenthesis ends a gap. -/
theorem gap_of_not_blank {here : Position} (blank : Text.isBlank c = false) (paren : c ≠ '(') :
    Token.Gap.ofText here (c :: rest) = .closed here (c :: rest) := by
  refine Token.Gap.skip_of_endsGap ⟨?_, ?_⟩
  · rintro _ ⟨⟩
    exact blank
  · exact Token.Gap.not_prefix_pair fun _ first _ => paren first

/-- One lexeme makes one token. -/
theorem of_read {kind : Token.Kind} {value : Option (List Char)}
    (blank : Text.isBlank c = false) (paren : c ≠ '(')
    (read : Token.Lexeme.read c (piece ++ rest) = .ok ⟨kind, c :: piece, value, rest⟩) :
    Reads config (c :: piece) rest (IsToken kind (c :: piece) value) := by
  intro source here
  refine ⟨[Token.Lexeme.token source here ⟨kind, c :: piece, value, rest⟩], ?_, ?_⟩
  · exact Token.scanFrom_of_read (gap_of_not_blank blank paren) read
  · exact fun input p _ has => ⟨_, rfl, has.1, rfl, rfl, rfl⟩

/-! ## Names, numbers and strings -/

theorem name {text : List Char} (h : Token.IsName text) (stops : Stops rest) :
    Reads config text rest (IsToken .identifier text (some text)) := by
  obtain ⟨c, behind, rfl, letter, others⟩ := h
  have range := Text.range_of_isAlpha letter
  have alphanum : c.isAlphanum = true := by simp [Char.isAlphanum, letter]
  have all : ∀ d ∈ c :: behind, d.isAlphanum = true := by
    intro d hd
    rcases List.mem_cons.mp hd with rfl | hd
    · exact alphanum
    · exact others d hd
  have split : Token.Lexeme.splitName (c :: (behind ++ rest)) = (c :: behind, rest) := by
    refine Token.Numeral.span_of_all all fun d hd => ?_
    rcases stops d hd with rfl | rfl | rfl <;> rfl
  refine of_read (Text.isBlank_of_range (by omega) (by omega)) ?_ ?_
  · rintro rfl
    exact absurd letter (by decide)
  · have no_start := Token.Numeral.not_startsWith_of_isAlpha letter (behind ++ rest)
    unfold Token.Lexeme.read
    rw [if_neg (by rw [no_start]; decide), if_pos letter, split]
    rfl

theorem numeral {text : List Char} (h : Token.Numeral.IsNumeral text) (stops : Stops rest) :
    Reads config text rest (IsToken .number text (some text)) := by
  have split := Token.Numeral.split_of_isNumeral h stops.ends
  obtain ⟨c, whole, same, start⟩ := h.startsWith_append rest
  obtain ⟨-, d, behind, rfl, -⟩ := h
  obtain ⟨rfl, rfl⟩ := List.cons.inj same
  have first : d.isDigit = true ∨ d = '.' := by
    simp only [Token.Numeral.startsWith, Bool.or_eq_true, Bool.and_eq_true, beq_iff_eq] at start
    exact start.imp id And.left
  -- No gap takes in the start of a numeral.
  have plain : Text.isBlank d = false ∧ d ≠ '(' := by
    rcases first with digit | rfl
    · have range := Text.range_of_isDigit digit
      refine ⟨Text.isBlank_of_range (by omega) (by omega), ?_⟩
      rintro rfl
      exact absurd digit (by decide)
    · decide
  refine of_read plain.1 plain.2 ?_
  have start : Token.Numeral.startsWith d (behind ++ rest) = true := start
  unfold Token.Lexeme.read
  rw [if_pos start]
  have split : Token.Numeral.split (d :: (behind ++ rest)) = (d :: behind, rest) := split
  rw [split]
  rfl

theorem quoted (text : List Char) :
    Reads config ('"' :: (Text.escape text ++ ['"'])) rest
      (IsToken .string ('"' :: (Text.escape text ++ ['"'])) (some text)) := by
  refine of_read (by decide) (by decide) ?_
  have start (behind : List Char) : Token.Numeral.startsWith '"' behind = false := rfl
  unfold Token.Lexeme.read
  rw [if_neg (by rw [start]; decide), if_neg (by decide), if_pos rfl, List.append_assoc,
    List.singleton_append, Token.Literal.body_escape]
  rfl

/-! ## Punctuation and gaps -/

/-- The punctuation of pretty forms. -/
def marks : List (Char × Token.Kind) :=
  [('[', .leftBracket), (']', .rightBracket), (',', .comma), ('-', .minus)]

theorem mark {kind : Token.Kind} (h : (c, kind) ∈ marks) :
    Reads config [c] rest (IsToken kind [c] none) := by
  simp only [marks, List.mem_cons, Prod.mk.injEq, List.not_mem_nil, or_false] at h
  rcases h with ⟨rfl, rfl⟩ | ⟨rfl, rfl⟩ | ⟨rfl, rfl⟩ | ⟨rfl, rfl⟩ <;>
  · refine of_read (by decide) (by decide) ?_
    cases rest with
    | nil => rfl
    | cons d rest => rfl

/-- A blank makes no token. -/
theorem blank : Reads config [' '] rest fun _ p q => q = p := by
  intro source here
  exact ⟨[], Token.scanFrom_append_of_isGap (.blank (by decide) .nil), fun input p _ _ => rfl⟩

end Reads
end Formula
