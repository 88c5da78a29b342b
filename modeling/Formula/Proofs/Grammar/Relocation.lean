import Formula.Proofs.Grammar.Continuations
import Formula.Proofs.Grammar.Decision
import Formula.Proofs.Token.Respacing

/-! # Tokens in other places

Where tokens stand in a text matters to the parser only for brackets: two of them are read
together if there is no gap between them.  Tokens that are the same up to that are parsed as
the same expression, or with the same report (`parseTokens_of_alike`).
-/
namespace Formula
namespace Grammar

/-- The tokens are the same up to where they stand, and so are the brackets without a gap
between them. -/
structure Input.Alike (input other : Input) : Prop where
  config : other.config = input.config
  blank : other.blank = input.blank
  content : ∀ place : Nat, other.tokens[place]?.map Token.content =
    input.tokens[place]?.map Token.content
  pair : ∀ place kind, kind = .leftBracket ∨ kind = .rightBracket →
    pairAt other place kind = pairAt input place kind

namespace Input.Alike
variable {input other : Input} {place p q : Nat}

/-! ## What is the same of alike tokens -/

theorem of_content (alike : input.Alike other) {α : Type} (f : Token → α)
    (g : Token.Kind × String × Option String → α) (h : ∀ t, f t = g t.content) :
    other.tokens[place]?.map f = input.tokens[place]?.map f := by
  have factor (i : Input) :
      i.tokens[place]?.map f = (i.tokens[place]?.map Token.content).map g := by
    rw [Option.map_map]
    exact congrArg (Option.map · _) (funext h)
  rw [factor, factor, alike.content place]

theorem kindAt (alike : input.Alike other) : other.kindAt = input.kindAt :=
  funext fun _ => alike.of_content Token.kind Prod.fst fun _ => rfl

theorem valueAt (alike : input.Alike other) : other.valueAt = input.valueAt := by
  funext place
  have values : other.tokens[place]?.map Token.value = input.tokens[place]?.map Token.value :=
    alike.of_content Token.value (fun c => c.2.2) fun _ => rfl
  unfold Input.valueAt
  rw [alike.blank]
  cases h : input.tokens[place]? <;> cases h' : other.tokens[place]? <;> simp_all

theorem sight? (alike : input.Alike other) : other.sight? = input.sight? := by
  funext place
  unfold Input.sight?
  rw [alike.pair place _ (.inl rfl), alike.pair place _ (.inr rfl)]
  exact alike.of_content _ (fun c => ⟨c.1, pairAt input place .leftBracket,
    pairAt input place .rightBracket, c.2.2.isNone⟩) fun _ => rfl

theorem step? (alike : input.Alike other) : other.step? = input.step? := by
  funext place o
  unfold Input.step?
  rw [alike.sight?, alike.config]

theorem name (alike : input.Alike other) {t : Token} (h : input.tokens[place]? = some t) :
    ∃ t', other.tokens[place]? = some t' ∧ t'.content = t.content := by
  have content := alike.content place
  rw [h] at content
  exact Option.map_eq_some_iff.mp content

/-! ## Derivations -/

theorem agrees (alike : input.Alike other) (stop : Nat) : input.Agrees other stop where
  implicitMultiplication := by rw [alike.config]
  foldNegativeLiterals := by rw [alike.config]
  resolveBuiltins := by rw [alike.config]
  kindAt place _ := by rw [alike.kindAt]
  lexeme _ _ := alike.of_content Token.lexeme (fun c => c.2.1) fun _ => rfl
  valueAt place _ _ := by rw [alike.valueAt]
  pairAt place _ kind bracket := alike.pair place kind bracket

/-- **The grammar derives the same from alike tokens.** -/
theorem derives (alike : input.Alike other) {rule : Rule} {e : Expr}
    (h : Derives input (.rule rule) p q e) : Derives other (.rule rule) p q e :=
  (alike.agrees q).derives h (Nat.le_refl q)

/-- Passes over alike tokens come to the same verdict. -/
theorem comes (alike : input.Alike other) {o : Outlook} {v : Verdict}
    (h : input.Comes p o v) : other.Comes p o v :=
  h.transfer fun q o _ => by rw [alike.step?]

end Input.Alike

/-! ## The same verdict -/

section SameVerdict
variable {input other : Input} {v : Verdict} {tokens tokens' : List Token}
  {config config' : Config}

/-- Parses that come to the same verdict end at the same place. -/
theorem stop_eq_of_comes (ends : input.EndsFrom 0) (ends' : other.EndsFrom 0)
    (comes : input.Comes 0 .start v) (comes' : other.Comes 0 .start v) {e e' : Expr}
    {s s' : State} (h : parse input .start = .ok e s) (h' : parse other .start = .ok e' s') :
    s'.current = s.current := by
  have accepted := accepted_of_parse ends comes h
  have accepted' := accepted_of_parse ends' comes' h'
  injection accepted'.symm.trans accepted

/-- **Parses that come to the same verdict are the same**, if the tokens agree up to where a
formula ends, and otherwise the same token is to blame. -/
theorem parseTokens_congr (ends : (Input.ofTokens tokens config).EndsFrom 0)
    (ends' : (Input.ofTokens tokens' config').EndsFrom 0)
    (comes : (Input.ofTokens tokens config).Comes 0 .start v)
    (comes' : (Input.ofTokens tokens' config').Comes 0 .start v)
    (valued : (Input.ofTokens tokens' config').Valued)
    (agrees : ∀ stop, v = .accepted stop →
      (Input.ofTokens tokens config).Agrees (.ofTokens tokens' config') stop)
    (aborts : v.abort? (.ofTokens tokens' config') = v.abort? (.ofTokens tokens config)) :
    parseTokens tokens' config' = parseTokens tokens config := by
  have heeds := parseTokens_heeds ends comes
  have heeds' := parseTokens_heeds ends' comes'
  cases done : parseTokens tokens config with
  | ok e =>
    rw [done] at heeds
    obtain ⟨stop, rfl⟩ := heeds
    cases done' : parseTokens tokens' config' with
    | ok e' =>
      obtain ⟨s, h⟩ := exists_parse_of_parseTokens done
      obtain ⟨s', h'⟩ := exists_parse_of_parseTokens done'
      have agrees := agrees _ (accepted_of_parse ends comes h)
      rw [agrees.parse_ok_unique valued h h' (stop_eq_of_comes ends ends' comes comes' h h')]
    | error abort =>
      rw [done'] at heeds'
      cases heeds'
  | error abort =>
    rw [done] at heeds
    cases done' : parseTokens tokens' config' with
    | ok e =>
      rw [done'] at heeds'
      obtain ⟨stop, rfl⟩ := heeds'
      cases heeds
    | error abort' =>
      rw [done', aborts, heeds] at heeds'
      cases heeds'
      rfl

end SameVerdict

/-! ## Reports -/

/-- Outcomes of parses are the same expression, or they are failures at the same place in the
list of tokens that are reported alike. -/
def SameReport : Except Abort Expr → Except Abort Expr → Prop
  | .ok e, .ok e' => e' = e
  | .error (.rejected place error), .error (.rejected place' error') =>
    place' = place ∧ error'.code = error.code ∧ error'.message = error.message ∧
      error'.help = error.help
  | _, _ => False

section Reports
variable {input other : Input} {config : Config} {ts ts' : List Token} {v : Verdict}

/-- A report names the token at its place by what the token is. -/
theorem sameReport_of_content {place : Nat} {cause : ParseError.Cause} {t t' : Token}
    (content : t'.content = t.content) :
    SameReport (.error (.rejected place ⟨cause, t⟩)) (.error (.rejected place ⟨cause, t'⟩)) := by
  simp only [Token.content, Prod.mk.injEq] at content
  have describe : t'.describe = t.describe := by
    simp only [Token.describe, content.1, content.2.1]
  refine ⟨rfl, rfl, ?_, rfl⟩
  cases cause <;> simp only [ParseError.message, describe]

/-- A verdict that is no formula is reported of alike tokens alike. -/
theorem Verdict.sameReport (alike : input.Alike other) (comes : input.Comes 0 .start v)
    (valued : input.Valued) {abort abort' : Abort} (h : v.abort? input = some abort)
    (h' : v.abort? other = some abort') : SameReport (.error abort) (.error abort') := by
  have blamed {place : Nat} {cause : ParseError.Cause} (hplace : v.place? = some place)
      (h : some (input.blame place cause) = some abort)
      (h' : some (other.blame place cause) = some abort') :
      SameReport (.error abort) (.error abort') := by
    obtain ⟨t, ht⟩ := comes.exists_token hplace
    obtain ⟨t', ht', content⟩ := alike.name ht
    unfold Input.blame at h h'
    rw [ht] at h
    rw [ht'] at h'
    cases h
    cases h'
    exact sameReport_of_content content
  cases v with
  | accepted => cases h
  | valueless => exact absurd rfl (comes.ne_valueless valued rfl)
  | trailing | unexpected | tooDeep => exact blamed rfl h h'

theorem Input.Alike.valued (alike : input.Alike other) (valued : input.Valued) :
    other.Valued := by
  intro t' member kind
  obtain ⟨place, ht'⟩ := Array.getElem?_of_mem member
  have content := alike.content place
  rw [ht'] at content
  obtain ⟨t, ht, same⟩ := Option.map_eq_some_iff.mp content.symm
  simp only [Token.content, Prod.mk.injEq] at same
  have value := valued t (Array.mem_of_getElem? ht) (by rwa [same.1])
  rwa [same.2.2] at value

theorem Input.Alike.endsFrom (alike : input.Alike other) {place : Nat}
    (ends : input.EndsFrom place) : other.EndsFrom place := by
  unfold Input.EndsFrom
  rwa [alike.kindAt]

/-- **Alike tokens are the same expression.** -/
theorem parse_ok_unique (alike : input.Alike other) (ends : input.EndsFrom 0)
    (valued : input.Valued) {e e' : Expr} {s s' : State} (h : parse input .start = .ok e s)
    (h' : parse other .start = .ok e' s') : e' = e := by
  obtain ⟨v, comes⟩ := exists_comes (o := .start) ends
  have same := stop_eq_of_comes ends (alike.endsFrom ends) comes (alike.comes comes) h h'
  exact (alike.agrees _).parse_ok_unique (alike.valued valued) h h' same

theorem pairAt_iff {place : Nat} {kind : Token.Kind} :
    pairAt input place kind = true ↔ ∃ a b : Token, input.tokens[place]? = some a ∧
      input.tokens[place + 1]? = some b ∧ a.kind = kind ∧ b.kind = kind ∧
      b.location.offset = a.endOffset := by
  unfold pairAt
  split
  · next a b ha hb => simp [ha, hb, and_assoc]
  · next absent =>
    simp only [Bool.false_eq_true, false_iff]
    rintro ⟨a, b, ha, hb, -⟩
    exact absent a b ha hb

/-- Brackets without a gap between them are so where the tokens are alike. -/
theorem pairAt_of_alike (alike : Token.Alike ts ts') {place : Nat} {kind : Token.Kind}
    (bracket : kind = .leftBracket ∨ kind = .rightBracket)
    (h : pairAt (.ofTokens ts config) place kind = true) :
    pairAt (.ofTokens ts' config) place kind = true := by
  rw [pairAt_iff] at h ⊢
  simp only [Input.ofTokens, List.getElem?_toArray] at h ⊢
  obtain ⟨a, b, ha, hb, rfl, same, adjacent⟩ := h
  obtain ⟨a', ha', content⟩ := alike.token ha
  obtain ⟨b', hb', content'⟩ := alike.token hb
  exact ⟨a', b', ha', hb', Token.kind_of_content content,
    (Token.kind_of_content content').trans same,
    (alike.adjacent ha hb ha' hb' same.symm bracket).mpr adjacent⟩

/-- The inputs that alike lists of tokens are parsed as. -/
theorem alike_ofTokens (alike : Token.Alike ts ts') :
    (Input.ofTokens ts config).Alike (.ofTokens ts' config) where
  config := rfl
  blank := by
    have values (ts : List Token) : ts.filterMap Token.value =
        (ts.map Token.content).filterMap fun c => c.2.2 := by
      rw [List.filterMap_map]
      rfl
    show unusedText ts' = unusedText ts
    unfold unusedText
    rw [values ts, values ts', alike.content]
  content place := by
    have := congrArg (·[place]?) alike.content
    simpa [Input.ofTokens] using this
  pair place kind bracket := Bool.eq_iff_iff.mpr
    ⟨pairAt_of_alike alike.symm bracket, pairAt_of_alike alike bracket⟩

/-- **Alike tokens are parsed alike.** -/
theorem parseTokens_of_alike (alike : Token.Alike ts ts')
    (ends : (Input.ofTokens ts config).EndsFrom 0) (valued : (Input.ofTokens ts config).Valued) :
    SameReport (parseTokens ts config) (parseTokens ts' config) := by
  have alike : (Input.ofTokens ts config).Alike (.ofTokens ts' config) := alike_ofTokens alike
  obtain ⟨v, comes⟩ := exists_comes (o := .start) ends
  have heeds := parseTokens_heeds ends comes
  have heeds' := parseTokens_heeds (alike.endsFrom ends) (alike.comes comes)
  cases done : parseTokens ts config with
  | ok e =>
    rw [done] at heeds
    obtain ⟨stop, rfl⟩ := heeds
    cases done' : parseTokens ts' config with
    | ok e' =>
      obtain ⟨s, parsed⟩ := exists_parse_of_parseTokens done
      obtain ⟨s', parsed'⟩ := exists_parse_of_parseTokens done'
      exact parse_ok_unique alike ends valued parsed parsed'
    | error abort =>
      rw [done'] at heeds'
      cases heeds'
  | error abort =>
    rw [done] at heeds
    cases done' : parseTokens ts' config with
    | ok e' =>
      rw [done'] at heeds'
      obtain ⟨stop, rfl⟩ := heeds'
      cases heeds
    | error abort' =>
      rw [done'] at heeds'
      exact v.sameReport alike comes valued heeds heeds'

end Reports
end Grammar
end Formula
