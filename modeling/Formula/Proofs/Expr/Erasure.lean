import Formula.Proofs.Expr.RoundTrip

/-! # What the full form shows

The full form quotes names, constants and texts alike, and it writes the name of an operator
like that of any other head.  So it cannot tell apart what has the same *erasure*.  Of what
was read it tells everything else: expressions have the same full form just if they have the
same erasure (`full_eq_full_iff`).

The written form of an erasure is never the beginning of another one (`Erased.Legible.apart`).
A quoted text ends at the first quote that is not escaped, a node at its own bracket, and a
number where the numeral ends, because behind it stands a comma or a bracket.
-/
namespace Formula

/-- An expression without the kinds of its leaves, but for numbers, and without the
difference between operators and other heads. -/
inductive Erased
  /-- A name, a constant or a text. -/
  | text (text : String)
  | number (text : String)
  | node (head : Erased) (args : List Erased)

namespace Expr

mutual

/-- What is left of an expression without the kinds of its leaves. -/
def erase : Expr → Erased
  | symbol text | string text | singleton text => .text text
  | number text => .number text
  | node op args => .node (.text op.name) (eraseArgs args)
  | apply head args => .node head.erase (eraseArgs args)

/-- Arguments without the kinds of their leaves. -/
def eraseArgs : List Expr → List Erased
  | [] => []
  | e :: es => e.erase :: eraseArgs es

end

theorem eraseArgs_eq_map (es : List Expr) : eraseArgs es = es.map erase := by
  induction es with
  | nil => rw [eraseArgs, List.map_nil]
  | cons e es ih => rw [eraseArgs, List.map_cons, ih]

end Expr

namespace Erased

mutual

/-- The full form of all expressions with an erasure. -/
def written : Erased → List Char
  | text t => '"' :: (Text.escape t.toList ++ ['"'])
  | number t => t.toList
  | node head args => '[' :: (head.written ++ writtenMore args)

/-- The full forms of arguments, with a comma in front of each and a bracket behind the
last. -/
def writtenMore : List Erased → List Char
  | [] => [']']
  | e :: es => ',' :: ' ' :: (e.written ++ writtenMore es)

end

end Erased

/-! ## The full form writes the erasure -/

namespace Expr

mutual

/-- The full form shows nothing but the erasure. -/
theorem toList_full : (e : Expr) → e.full.toList = e.erase.written
  | symbol _ | string _ | singleton _ => by
    simp [full, erase, Erased.written, Text.quote, String.toList_append]
  | number _ => by rw [full, erase, Erased.written]
  | node op args => by
    have more := toList_fullMore args
    simp only [full, erase, Erased.written, Text.quote, String.toList_append, ← more]
    simp
  | apply head args => by
    have head := toList_full head
    have more := toList_fullMore args
    simp only [full, erase, Erased.written, String.toList_append, ← more, ← head]
    simp

theorem toList_fullMore : (es : List Expr) →
    (fullMore es).toList ++ [']'] = Erased.writtenMore (eraseArgs es)
  | [] => by simp [fullMore, eraseArgs, Erased.writtenMore]
  | e :: es => by
    have first := toList_full e
    have more := toList_fullMore es
    simp only [fullMore, eraseArgs, Erased.writtenMore, String.toList_append, ← more, ← first]
    simp

end

end Expr

/-! ## Written forms are apart -/

/-- A text is a numeral, perhaps with one sign in front. -/
def IsSigned (text : List Char) : Prop :=
  Token.Numeral.IsNumeral text ∨ ∃ numeral, text = '-' :: numeral ∧ Token.Numeral.IsNumeral numeral

section Signed
variable {text text' rest rest' : List Char}

theorem IsSigned.append_ne_cons (h : IsSigned text) {c : Char} (mark : c = '"' ∨ c = '[') :
    text ++ rest ≠ c :: rest' := by
  rcases h with numeral | ⟨numeral, rfl, -⟩
  · exact numeral.append_ne_cons (.inr mark)
  · intro same
    obtain ⟨rfl, -⟩ := List.cons.inj same
    exact absurd mark (by decide)

theorem IsSigned.split_unique (h : IsSigned text) (h' : IsSigned text') (stops : Stops rest)
    (stops' : Stops rest') (same : text ++ rest = text' ++ rest') :
    text = text' ∧ rest = rest' := by
  rcases h with numeral | ⟨numeral, rfl, isNumeral⟩ <;>
    rcases h' with numeral' | ⟨numeral', rfl, isNumeral'⟩
  · exact numeral.split_unique numeral' stops.ends stops'.ends same
  · exact absurd same (numeral.append_ne_cons (.inl rfl))
  · exact absurd same.symm (numeral'.append_ne_cons (.inl rfl))
  · obtain ⟨rfl, rfl⟩ := isNumeral.split_unique isNumeral' stops.ends stops'.ends
      (List.cons.inj same).2
    exact ⟨rfl, rfl⟩

end Signed

namespace Erased

/-- All numbers in an erasure are numerals with at most one sign. -/
inductive Legible : Erased → Prop
  | text {text : String} : Legible (.text text)
  | number {text : String} : IsSigned text.toList → Legible (.number text)
  | node {head : Erased} {args : List Erased} : Legible head → (∀ a ∈ args, Legible a) →
    Legible (.node head args)

section Split
variable {a b : Erased} {as bs : List Erased} {rest rest' : List Char}

theorem stops_writtenMore (es : List Erased) (rest : List Char) :
    Stops (writtenMore es ++ rest) := by
  cases es with
  | nil => exact stops_of_cons (.inr (.inr rfl))
  | cons => exact stops_of_cons (.inl rfl)

/-- The written form of `a` is no proper beginning of another one, wherever both stop. -/
def Apart (a : Erased) : Prop :=
  ∀ {b : Erased} {rest rest' : List Char}, b.Legible → Stops rest → Stops rest' →
    a.written ++ rest = b.written ++ rest' → a = b ∧ rest = rest'

/-- A quoted text ends at the quote behind it. -/
theorem apart_text (t : String) : (text t).Apart := by
  intro b rest rest' legible _ _ same
  cases legible with
  | @text t' =>
    simp only [written, List.cons_append, List.append_assoc, List.nil_append, List.cons.injEq,
      true_and] at same
    have inner := congrArg Token.Literal.body same
    rw [Token.Literal.body_escape, Token.Literal.body_escape] at inner
    injection inner with _ texts rests
    exact ⟨congrArg text (String.toList_inj.mp texts), rests⟩
  | number signed => exact absurd same.symm (signed.append_ne_cons (.inl rfl))
  | node => exact absurd (List.cons.inj same).1 (by decide)

theorem apart_number {t : String} (signed : IsSigned t.toList) : (number t).Apart := by
  intro b rest rest' legible stops stops' same
  cases legible with
  | text => exact absurd same (signed.append_ne_cons (.inl rfl))
  | number signed' =>
    obtain ⟨texts, rests⟩ := signed.split_unique signed' stops stops' same
    exact ⟨congrArg number (String.toList_inj.mp texts), rests⟩
  | node => exact absurd same (signed.append_ne_cons (.inr rfl))

/-- Arguments end at the bracket behind them. -/
theorem apart_more (apart : ∀ a ∈ as, a.Apart) (legible : ∀ b ∈ bs, b.Legible)
    (same : writtenMore as ++ rest = writtenMore bs ++ rest') : as = bs ∧ rest = rest' := by
  induction as generalizing bs with
  | nil =>
    cases bs with
    | nil => exact ⟨rfl, (List.cons.inj same).2⟩
    | cons b bs => exact absurd (List.cons.inj same).1 (by decide)
  | cons a as ih =>
    rw [List.forall_mem_cons] at apart
    cases bs with
    | nil => exact absurd (List.cons.inj same).1 (by decide)
    | cons b bs =>
      rw [List.forall_mem_cons] at legible
      simp only [writtenMore, List.cons_append, List.append_assoc, List.cons.injEq, true_and]
        at same
      obtain ⟨rfl, more⟩ :=
        apart.1 legible.1 (stops_writtenMore as rest) (stops_writtenMore bs rest') same
      obtain ⟨rfl, rests⟩ := ih apart.2 legible.2 more
      exact ⟨rfl, rests⟩

/-- **Written forms are apart.**  The induction is over one of the two erasures, and the other
one has to take the same course. -/
theorem Legible.apart (h : a.Legible) : a.Apart := by
  induction h with
  | text => exact apart_text _
  | number signed => exact apart_number signed
  | @node head args _ _ apartHead apartArgs =>
    intro b rest rest' legible stops stops' same
    cases legible with
    | text => exact absurd (List.cons.inj same).1 (by decide)
    | number signed => exact absurd same.symm (signed.append_ne_cons (.inr rfl))
    | @node head' args' legibleHead legibleArgs =>
      simp only [written, List.cons_append, List.append_assoc, List.cons.injEq, true_and] at same
      obtain ⟨rfl, more⟩ := apartHead legibleHead (stops_writtenMore args rest)
        (stops_writtenMore args' rest') same
      obtain ⟨rfl, rests⟩ := apart_more apartArgs legibleArgs more
      exact ⟨rfl, rests⟩

end Split
end Erased

/-! ## What was read -/

namespace Expr
open Grammar

section Legible
variable {config : Config}

theorem erase_namedConstant (name : String) : (namedConstant config name).erase = .text name := by
  unfold namedConstant
  split <;> rw [erase]

/-- An operator that is named is written like any other head. -/
theorem erase_namedApplication (name : String) (es : List Expr) :
    (namedApplication config name es).erase = .node (.text name) (es.map erase) := by
  have plain : (apply (symbol name) es).erase = .node (.text name) (es.map erase) := by
    rw [erase, erase, eraseArgs_eq_map]
  unfold namedApplication
  split
  · unfold build
    split
    · next found => rw [erase, Operator.name_of_ofName? found, eraseArgs_eq_map]
    · exact plain
  · exact plain

theorem legible_node {head : Erased} {es : List Expr} (hhead : head.Legible)
    (args : ∀ e ∈ es, e.erase.Legible) : (Erased.node head (es.map erase)).Legible :=
  .node hhead (List.forall_mem_map.mpr args)

/-- In every dialect numbers keep at most one sign. -/
theorem grows_legible (config : Config) :
    Grows config (fun e => e.erase.Legible) fun e => e.erase.Legible where
  number h := by
    rw [erase]
    exact .number (.inl h)
  negative {text} h := by
    rw [erase]
    exact .number (.inr ⟨text.toList, by rw [String.toList_append]; rfl, h⟩)
  string _ := by
    rw [erase]
    exact .text
  everything := by
    rw [everything, erase]
    exact .text
  constant _ := by
    rw [erase_namedConstant]
    exact .text
  node _ _ args := by
    rw [erase, eraseArgs_eq_map]
    exact legible_node .text args
  named _ args := by
    rw [erase_namedApplication]
    exact legible_node .text args
  applied head args := by
    rw [erase, eraseArgs_eq_map]
    exact legible_node head args
  of_head := id

end Legible
end Expr

section Reading
open Grammar
variable {name name' text text' : String} {config config' : Config}
  {allowance allowance' : Option Nat} {e e' : Expr}

/-- Whatever the text and the dialect are, numbers that were read have at most one sign. -/
theorem legible_of_reading
    (h : (Reading.ofTextWithin allowance name text config).outcome = .ok e) :
    e.erase.Legible := by
  obtain ⟨tokens, s, scanned, parsed⟩ := Reading.outcome_eq_ok_iff.mp h
  have wellLexed := wellLexed_of_scan scanned
  obtain ⟨derives, -⟩ := (parseWithin_outcome _ _).2 e s parsed
  exact (Expr.grows_legible config).of_derives (fun t ht => wellLexed t (by simpa using ht)) derives

/-- **The full form tells expressions apart, up to the kinds of their leaves.**  Two expressions
that were read, from any texts and in any dialects, have the same full form just if they have
the same erasure. -/
theorem full_eq_full_iff
    (h : (Reading.ofTextWithin allowance name text config).outcome = .ok e)
    (h' : (Reading.ofTextWithin allowance' name' text' config').outcome = .ok e') :
    e.full = e'.full ↔ e.erase = e'.erase := by
  rw [← String.toList_inj, Expr.toList_full, Expr.toList_full]
  refine ⟨fun same => ?_, congrArg Erased.written⟩
  have stops : Stops [] := by rintro _ ⟨⟩
  exact ((legible_of_reading h).apart (legible_of_reading h') stops stops
    (congrArg (· ++ []) same)).1

/-- A sum of two names has the full form of its operator's name, applied to a name and a text
where names stand for nothing.  A number differs from a text. -/
theorem full_eq_full_iff_sum :
    let sum : Expr := .node .plus [.symbol "a", .symbol "b"]
    let application : Expr := .apply (.symbol "Plus") [.symbol "a", .string "b"]
    let number : Expr := .number "1"
    let text : Expr := .string "1"
    let outcome (text : String) (resolveBuiltins : Bool) :=
      (Reading.ofTextWithin none "" text { memoize := false, resolveBuiltins }).outcome
    (outcome "a + b" true = .ok sum ∧ outcome "Plus[a, \"b\"]" false = .ok application ∧
      outcome "1" true = .ok number ∧ outcome "\"1\"" true = .ok text) ∧
    sum.full = application.full ∧ number.full ≠ text.full := by
  intro sum application number text outcome
  have readNumber : outcome "1" true = .ok (.number "1") := by
    dsimp only [outcome]
    cbv
  have readText : outcome "\"1\"" true = .ok (.string "1") := by
    dsimp only [outcome]
    cbv
  have readSum : outcome "a + b" true = .ok sum := by
    dsimp only [outcome]
    cbv
  have readApplication : outcome "Plus[a, \"b\"]" false = .ok application := by
    dsimp only [outcome]
    cbv
  refine ⟨⟨readSum, readApplication, readNumber, readText⟩, ?_, fun same => ?_⟩
  · exact (full_eq_full_iff readSum readApplication).mpr rfl
  · have erased := (full_eq_full_iff readNumber readText).mp same
    simp [Expr.erase] at erased

end Reading
end Formula
