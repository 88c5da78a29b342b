import Formula.Proofs.Token.Layout
import Formula.Proofs.Token.Munch

/-! # Other gaps between the same tokens

The gaps of a text may be replaced by others (`Respaces`).  A gap that is there stays there,
and one that is not may be put in.  Only between two opening or two closing brackets no gap may
be put in, since without a gap they are read together.  Then the text with the new gaps is
scanned as the same tokens (`Laid.respace`), and the same brackets are without gaps between
them (`Alike`).
-/
namespace Formula
namespace Token

/-- What a token is, wherever it stands. -/
def content (t : Token) : Kind × String × Option String :=
  (t.kind, t.lexeme, t.value)

/-- New gaps may stand in front of tokens in place of old ones.  The first and the last gap are
not between tokens. -/
structure Respaces (ts : List Token) (old new : List (List Char)) : Prop where
  length : new.length = ts.length
  isGap : ∀ gap ∈ new, IsGap gap
  apart : ∀ i, 0 < i → i + 1 < ts.length → old[i]? ≠ some [] → new[i]? ≠ some []
  together : ∀ i kind, kind = .leftBracket ∨ kind = .rightBracket →
    ts[i]?.map Token.kind = some kind → ts[i + 1]?.map Token.kind = some kind →
    old[i + 1]? = some [] → new[i + 1]? = some []

section Respacing
variable {source source' : String} {here here' : Position} {text : List Char}
  {old new : List (List Char)} {t : Token} {ts ts' : List Token} {gap gap' : List Char}

theorem Respaces.tail (h : Respaces (t :: ts) (gap :: old) (gap' :: new)) :
    Respaces ts old new where
  length := Nat.succ.inj h.length
  isGap gap member := h.isGap gap (List.mem_cons_of_mem _ member)
  apart i _ lt := h.apart (i + 1) (Nat.succ_pos i) (Nat.succ_lt_succ lt)
  together i := h.together (i + 1)

/-- A gap begins with a separator. -/
theorem IsGap.separates (h : IsGap gap) : ∀ c, gap.head? = some c → Text.Separates c := by
  rintro c hc
  cases h with
  | nil => cases hc
  | blank blank =>
    cases hc
    exact .inl blank
  | comment =>
    cases hc
    exact .inr rfl

theorem IsGap.cut_append (h : IsGap gap) (nonempty : gap ≠ []) (text behind : List Char) :
    Cut text (gap ++ behind) := by
  refine ⟨[], gap ++ behind, List.nil_prefix, rfl, fun c hc => h.separates c ?_⟩
  rwa [List.head?_append_of_ne_nil _ nonempty] at hc

theorem Laid.exists_cons (laid : Laid source here text old ts) : ∃ t later, ts = t :: later := by
  cases laid <;> exact ⟨_, _, rfl⟩

/-- Where no gap is taken away, the text with other gaps is the same up to some gap. -/
theorem Laid.cut_weave (laid : Laid source here text old ts) (length : new.length = ts.length)
    (isGap : ∀ gap ∈ new, IsGap gap)
    (apart : ∀ i, i + 1 < ts.length → old[i]? ≠ some [] → new[i]? ≠ some []) :
    Cut text (Token.weave new ts) := by
  induction laid generalizing new with
  | last =>
    obtain ⟨gap', rfl⟩ := List.length_eq_one_iff.mp length
    refine ⟨[], gap', List.nil_prefix, by simp [Token.weave, endAt], ?_⟩
    exact (isGap gap' List.mem_cons_self).separates
  | @token here gap behind c lexeme gaps ts _ _ read later ih =>
    cases new with
    | nil => cases length
    | cons gap' new =>
      rw [Token.weave, Lexeme.toList_token, List.append_assoc]
      by_cases empty : gap' = []
      · subst empty
        obtain ⟨t, others, rfl⟩ := later.exists_cons
        -- There was no gap before, either.
        obtain rfl : gap = [] := by
          by_contra nonempty
          exact apart 0 (by simp) (by simpa using nonempty) rfl
        have cut := ih (Nat.succ.inj length)
          (fun gap member => isGap gap (List.mem_cons_of_mem _ member))
          fun i lt => apart (i + 1) (Nat.succ_lt_succ lt)
        have whole := Lexeme.read_append read
        rw [List.nil_append, List.nil_append, ← whole]
        exact cut.append lexeme.text
      · exact (isGap gap' List.mem_cons_self).cut_append empty _ _

/-- In front of a cut text a lexeme begins no gap, if it did not before. -/
theorem endsGap_of_cut {c : Char} {rest rest' : List Char} (cut : Cut rest rest')
    (ends : EndsGap (c :: rest)) : EndsGap (c :: rest') := by
  refine ⟨ends.1, Gap.not_prefix_pair ?_⟩
  rintro behind rfl rfl
  rcases cut.uncons with separates | ⟨others, rfl, -⟩
  · exact absurd rfl (separates.ne (by decide) (by decide))
  · exact ends.2 ⟨others, rfl⟩

/-- The last token marks the end of the input. -/
theorem Laid.kind_of_last (laid : Laid source here text old ts) {i : Nat} (h : ts[i]? = some t)
    (last : ts.length ≤ i + 1) : t.kind = .endOfInput := by
  induction laid generalizing i with
  | last =>
    cases i with
    | zero =>
      cases h
      rfl
    | succ i => cases h
  | token _ _ _ later ih =>
    cases i with
    | zero =>
      obtain ⟨t, others, rfl⟩ := later.exists_cons
      simp at last
    | succ i => exact ih h (Nat.le_of_succ_le_succ last)

/-- Tokens are the same up to where they stand, and so are the brackets without a gap between
them. -/
structure Alike (ts ts' : List Token) : Prop where
  content : ts'.map content = ts.map content
  adjacent : ∀ {i : Nat} {a b a' b' : Token}, ts[i]? = some a → ts[i + 1]? = some b →
    ts'[i]? = some a' → ts'[i + 1]? = some b' → a.kind = b.kind →
    a.kind = .leftBracket ∨ a.kind = .rightBracket →
    (b'.location.offset = a'.endOffset ↔ b.location.offset = a.endOffset)

/-- At each place alike lists have the same token. -/
theorem Alike.token (alike : Alike ts ts') {i : Nat} (h : ts[i]? = some t) :
    ∃ t', ts'[i]? = some t' ∧ t'.content = t.content := by
  have contents : (ts'.map Token.content)[i]? = (ts.map Token.content)[i]? := by
    rw [alike.content]
  rw [List.getElem?_map, List.getElem?_map, h] at contents
  exact Option.map_eq_some_iff.mp contents

theorem kind_of_content {t' : Token} (h : t'.content = t.content) : t'.kind = t.kind :=
  congrArg Prod.fst h

theorem Alike.symm (alike : Alike ts ts') : Alike ts' ts where
  content := alike.content.symm
  adjacent {i a' b' a b} ha' hb' ha hb same bracket := by
    have kinds {j : Nat} {x x' : Token} (hx : ts[j]? = some x) (hx' : ts'[j]? = some x') :
        x'.kind = x.kind := by
      obtain ⟨y, hy, content⟩ := alike.token hx
      rw [hx'] at hy
      cases hy
      exact kind_of_content content
    rw [kinds ha ha', kinds hb hb'] at same
    rw [kinds ha ha'] at bracket
    exact (alike.adjacent ha hb ha' hb' same bracket).symm

theorem Laid.content_respace (laid : Laid source here text old ts)
    (respaces : Respaces ts old new) (source' : String) (here' : Position) :
    ∃ ts', Laid source' here' (Token.weave new ts) new ts' ∧
      ts'.map content = ts.map content := by
  induction laid generalizing new here' with
  | last =>
    obtain ⟨gap', rfl⟩ := List.length_eq_one_iff.mp respaces.length
    have isGap := respaces.isGap gap' List.mem_cons_self
    refine ⟨[endAt source' (here'.after gap')], ?_, rfl⟩
    simpa [Token.weave, endAt] using Laid.last isGap
  | @token here gap behind c lexeme gaps ts _ ends read later ih =>
    cases new with
    | nil => cases respaces.length
    | cons gap' new =>
      have cut : Cut lexeme.rest (Token.weave new ts) :=
        later.cut_weave respaces.tail.length respaces.tail.isGap fun i lt =>
          respaces.apart (i + 1) (Nat.succ_pos i) (Nat.succ_lt_succ lt)
      obtain ⟨piece, same, read'⟩ := Lexeme.read_of_cut read cut
      obtain ⟨ts', laid', contents⟩ := ih respaces.tail ((here'.after gap').after lexeme.text)
      have whole := Lexeme.read_append read
      rw [same] at whole
      have ends' : EndsGap (c :: (piece ++ Token.weave new ts)) := by
        refine endsGap_of_cut ?_ ends
        rw [← (List.cons.inj whole).2]
        exact cut.append piece
      refine ⟨Lexeme.token source' (here'.after gap') { lexeme with rest := Token.weave new ts } ::
        ts', ?_, congrArg (List.cons (lexeme.token source (here.after gap)).content) contents⟩
      have text : gap' ++ lexeme.text ++ Token.weave new ts =
          gap' ++ c :: (piece ++ Token.weave new ts) := by
        rw [same, List.append_assoc, List.cons_append]
      rw [Token.weave, Lexeme.toList_token, text]
      exact .token (respaces.isGap gap' List.mem_cons_self) ends' read' laid'

/-- **A text with other gaps has the same tokens**, up to where they stand. -/
theorem Laid.respace (laid : Laid source here text old ts) (respaces : Respaces ts old new)
    (source' : String) (here' : Position) :
    ∃ ts', Laid source' here' (Token.weave new ts) new ts' ∧ Alike ts ts' := by
  obtain ⟨ts', laid', contents⟩ := laid.content_respace respaces source' here'
  refine ⟨ts', laid', contents, fun {i a b a' b'} ha hb ha' hb' same bracket => ?_⟩
  rw [laid'.adjacent ha' hb', laid.adjacent ha hb]
  constructor
  · -- A gap that is there is not between the last bracket and the end.
    refine fun empty => Classical.byContradiction fun nonempty => ?_
    refine respaces.apart (i + 1) (Nat.succ_pos i) ?_ nonempty empty
    by_contra last
    have isEnd := laid.kind_of_last hb (Nat.le_of_not_lt last)
    rw [same, isEnd] at bracket
    simp at bracket
  · exact respaces.together i a.kind bracket (by simp [ha]) (by simp [hb, same])

end Respacing
end Token
end Formula
