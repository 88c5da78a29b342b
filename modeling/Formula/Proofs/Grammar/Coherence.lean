import Formula.Proofs.Grammar.Completeness
import Formula.Proofs.Grammar.Conclusion
import Formula.Proofs.Grammar.Placewise

/-! # A coherent memory

A parser that is used again finds results remembered from earlier parses.  The memory is
*coherent* if every result in it is the one that the rule gives at its place without
memory, and if the shortfall of the rule is part of the shortfall of the state: so it
makes no difference that a remembered rule does not record its failures again.

Two steps are `Twins` at a place if the second is steady there and the first, with a
coherent memory, does the same.  This is a judgement in the sense of the module
`Formula.Proofs.Grammar.Placewise` (`twins_placewise`), and so it holds of every rule.  As the
allowance of a rule depends on who applies it, the steps are families over all allowances that
are enough.
-/
namespace Formula
namespace Grammar

/-! ## What is remembered -/

/-- Without memory a rule makes a result of the tokens from a place up to another, and adds
a shortfall, whatever the allowance is, if it is enough. -/
def Makes (input : Input) (rule : Rule) (p : Nat) (result : Option Expr) (stop : Nat)
    (f : Shortfall) : Prop :=
  ∀ n, input.Enough n rule p → Steady (run input.forgetful n rule) p result stop f

/-- Every remembered result is what the rule makes of its place, and its shortfall is part
of that of the state. -/
def Coherent (input : Input) (memo : Memo) (shortfall : Shortfall) : Prop :=
  ∀ rule p result stop, memo.find? rule p = some (.done result stop) →
    ∃ f, Makes input rule p result stop f ∧ shortfall.join f = shortfall

/-- Rules are still at work only on places before `place`, or on that place if their
number is lower. -/
def Memo.BusyBefore (memo : Memo) (place number : Nat) : Prop :=
  ∀ rule p, memo.find? rule p = some .inProgress →
    p < place ∨ (p = place ∧ rule.index < number)

/-- No more rules are at work than before. -/
def Memo.NoBusierThan (memo earlier : Memo) : Prop :=
  ∀ rule p, memo.find? rule p = some .inProgress → earlier.find? rule p = some .inProgress

section Memory
variable {input : Input} {memo earlier earliest : Memo} {f g : Shortfall}
  {place other number more : Nat}

theorem Coherent.empty : Coherent input .empty f := by
  intro rule p result stop h
  rw [Memo.find?_empty] at h
  cases h

theorem Coherent.join (coherent : Coherent input memo f) : Coherent input memo (f.join g) := by
  intro rule p result stop h
  obtain ⟨own, makes, absorbed⟩ := coherent rule p result stop h
  exact ⟨own, makes, Shortfall.join_absorbed f own g absorbed⟩

/-- That a rule is at work is no result. -/
theorem Coherent.store_inProgress (coherent : Coherent input memo f) (rule : Rule) (p : Nat) :
    Coherent input (memo.store rule p .inProgress) f := by
  intro rule' p' result stop h
  rw [Memo.find?_store] at h
  split at h
  · cases h
  · exact coherent rule' p' result stop h

theorem Coherent.store_done {rule : Rule} {p stop : Nat} {result : Option Expr}
    (coherent : Coherent input memo f) (makes : Makes input rule p result stop g)
    (absorbed : f.join g = f) : Coherent input (memo.store rule p (.done result stop)) f := by
  intro rule' p' result' stop' h
  rw [Memo.find?_store] at h
  split at h
  · next same =>
    obtain ⟨rfl, rfl⟩ := same
    cases h
    exact ⟨g, makes, absorbed⟩
  · exact coherent rule' p' result' stop' h

theorem Memo.BusyBefore.mono (busy : memo.BusyBefore place number)
    (h : place < other ∨ (place = other ∧ number ≤ more)) : memo.BusyBefore other more := by
  intro rule p hp
  rcases busy rule p hp with lt | ⟨rfl, lt⟩
  · omega
  · omega

theorem Memo.BusyBefore.anti (busy : earlier.BusyBefore place number)
    (less : memo.NoBusierThan earlier) : memo.BusyBefore place number :=
  fun rule p hp => busy rule p (less rule p hp)

theorem Memo.BusyBefore.store_inProgress {rule : Rule}
    (busy : memo.BusyBefore place rule.index) :
    (memo.store rule place .inProgress).BusyBefore place (rule.index + 1) := by
  intro rule' p' h
  rw [Memo.find?_store] at h
  split at h
  · next same =>
    obtain ⟨rfl, rfl⟩ := same
    exact .inr ⟨rfl, Nat.lt_succ_self _⟩
  · rcases busy rule' p' h with lt | ⟨rfl, lt⟩
    · exact .inl lt
    · exact .inr ⟨rfl, Nat.lt_succ_of_lt lt⟩

theorem Memo.NoBusierThan.refl : memo.NoBusierThan memo :=
  fun _ _ h => h

theorem Memo.NoBusierThan.trans (h : memo.NoBusierThan earlier)
    (h' : earlier.NoBusierThan earliest) : memo.NoBusierThan earliest :=
  fun rule p hp => h' rule p (h rule p hp)

/-- A rule that is done is no longer at work. -/
theorem Memo.NoBusierThan.store_done {rule : Rule} {p stop : Nat} {result : Option Expr}
    (less : memo.NoBusierThan (earlier.store rule p .inProgress)) :
    (memo.store rule p (.done result stop)).NoBusierThan earlier := by
  intro rule' p' h
  rw [Memo.find?_store] at h
  split at h
  · cases h
  · next other =>
    have := less rule' p' h
    rwa [Memo.find?_store, if_neg other] at this

end Memory

/-! ## Steps with a coherent memory -/

/-- From a place on, with a coherent memory in which no rule from `(place, number)` on is
at work, a step gives `a` with the cursor at `q` and adds a shortfall.  The memory is
coherent behind it, too. -/
def Faithful {α : Type} (input : Input) (place number : Nat) (m : ParseM α) (p : Nat) (a : α)
    (q : Nat) (f : Shortfall) : Prop :=
  ∀ s : State, s.current = p → Coherent input s.memo s.shortfall →
    s.memo.BusyBefore place number →
    ∃ memo : Memo, m s = .ok a { s.proceed q f with memo } ∧
      Coherent input memo (s.shortfall.join f) ∧ memo.NoBusierThan s.memo

/-- Two families of steps do the same at a place, the first with a coherent memory and the
second without any; the result and the place behind it meet the postcondition. -/
def Twins {I α : Type} (input : Input) (place number : Nat) (m₁ m₂ : I → ParseM α) (p : Nat)
    (post : α → Nat → Prop) : Prop :=
  ∃ a q f, (∀ i, Faithful input place number (m₁ i) p a q f ∧ Steady (m₂ i) p a q f) ∧
    f.place ≤ input.tokens.size - 1 ∧ post a q

section Faithful
variable {α β : Type} {input : Input} {place number p q r : Nat} {a : α} {b : β}
  {f g : Shortfall}

/-- A step that is steady with any memory does not touch it. -/
theorem Steady.faithful {m : ParseM α} (h : Steady m p a q f) :
    Faithful input place number m p a q f :=
  fun s hs coherent _ => ⟨s.memo, h s hs, coherent.join, .refl⟩

theorem Faithful.bind {m : ParseM α} {k : α → ParseM β}
    (first : Faithful input place number m p a q f)
    (next : Faithful input place number (k a) q b r g) :
    Faithful input place number (m >>= k) p b r (f.join g) := by
  intro s hs coherent busy
  obtain ⟨memo, done, coherent, less⟩ := first s hs coherent busy
  obtain ⟨memo', done', coherent', less'⟩ :=
    next { s.proceed q f with memo } rfl coherent (busy.anti less)
  refine ⟨memo', ?_, ?_, less'.trans less⟩
  · rw [bind_apply, done, ← State.proceed_proceed s q r f g]
    exact done'
  · rw [← Shortfall.join_assoc]
    exact coherent'

theorem Faithful.attempt {m : ParseM (Option Expr)} {e : Option Expr}
    (h : Faithful input place number m p e q f) :
    Faithful input place number (Grammar.attempt m) p e (if e = none then p else q) f := by
  intro s hs coherent busy
  obtain ⟨memo, done, coherent, less⟩ := h s hs coherent busy
  refine ⟨memo, ?_, coherent, less⟩
  unfold Grammar.attempt
  rw [bind_apply, Steady.current s hs]
  dsimp only
  rw [State.proceed_none, ← hs, bind_apply, show s.moveTo s.current = s from rfl, done]
  cases e with
  | none => rfl
  | some e => rfl

/-- Without a cap on open brackets their count does not matter. -/
theorem Faithful.nested {m : ParseM α} {opener : Nat} {opening : Token}
    (uncapped : input.config.maxNestingDepth = none)
    (h : Faithful input place number m p a q f) :
    Faithful input place number (Grammar.nested input opener opening m) p a q f := by
  intro s hs coherent busy
  have cap : input.config.exceededCap? (s.depth + 1) = none :=
    Config.exceededCap?_of_uncapped uncapped _
  obtain ⟨memo, done, coherent, less⟩ := h (s.atDepth (s.depth + 1)) hs coherent busy
  refine ⟨memo, ?_, coherent, less⟩
  unfold State.atDepth at done
  unfold Grammar.nested
  simp only [cap, done]
  rfl

end Faithful

section Twins
variable {I α β : Type} {input : Input} {place number p q : Nat} {post : α → Nat → Prop}

/-- A step that is steady with any memory is its own twin. -/
theorem Steady.twins {m : ParseM α} {a : α} {f : Shortfall} (h : Steady m p a q f)
    (le : f.place ≤ input.tokens.size - 1) (ha : post a q) :
    Twins input place number (fun _ : I => m) (fun _ => m) p post :=
  ⟨a, q, f, fun _ => ⟨h.faithful, h⟩, le, ha⟩

theorem Twins.bind {m₁ m₂ : I → ParseM β} {k₁ k₂ : I → β → ParseM α} {mid : β → Nat → Prop}
    (first : Twins input place number m₁ m₂ p mid)
    (next : ∀ b q, mid b q →
      Twins input place number (fun i => k₁ i b) (fun i => k₂ i b) q post) :
    Twins input place number (fun i => m₁ i >>= k₁ i) (fun i => m₂ i >>= k₂ i) p post := by
  obtain ⟨b, q, f, same, le, hb⟩ := first
  obtain ⟨a, r, g, same', le', ha⟩ := next b q hb
  refine ⟨a, r, f.join g, fun i => ⟨(same i).1.bind (same' i).1, (same i).2.bind (same' i).2⟩,
    ?_, ha⟩
  rw [Shortfall.place_join]
  exact Nat.max_le.mpr ⟨le, le'⟩

/-- No value is missing where numbers carry theirs. -/
theorem needValue_steady {minuses : Nat} {first : Token} {e : Expr} (valued : input.Valued)
    (member : first ∈ input.tokens) :
    Steady (needValue input minuses first e) p () p .none := by
  unfold needValue
  split
  · next missing =>
    obtain ⟨number, missing⟩ := missing
    have kind : first.kind = .number := by
      cases e <;> simp_all [folds]
    exact absurd missing (valued first member (.inl kind))
  · exact .pure

/-- Elementary steps have twins, and so has what is put together of them.  The first steps are
those on the left of a family, and the second ones those on its right. -/
theorem twins_placewise (uncapped : input.config.maxNestingDepth = none) (valued : input.Valued)
    (place number : Nat) :
    Placewise input input.EndsFrom (J := I ⊕ I) fun m p post =>
      Twins input place number (fun i => m (.inl i)) (fun i => m (.inr i)) p post where
  pure h := Steady.pure.twins (Nat.zero_le _) h
  bind := Twins.bind
  current := Steady.current.twins (Nat.zero_le _) ⟨rfl, rfl⟩
  rewind := Steady.rewind.twins (Nat.zero_le _) rfl
  peek ends := by
    obtain ⟨first, found⟩ := ends.token
    exact (Steady.peek found).twins (Nat.zero_le _) ⟨found, rfl⟩
  advance ends found notEnd :=
    (Steady.advance found notEnd).twins (Nat.zero_le _) ⟨rfl, ends.next found notEnd, rfl⟩
  expect ends := Steady.expect.twins (Nat.le_sub_one_of_lt ends.lt) rfl
  nested := by
    rintro α m p opener opening post ⟨a, q, f, same, le, ha⟩
    exact ⟨a, q, f, fun i => ⟨(same i).1.nested uncapped, (same i).2.nested uncapped⟩, le, ha⟩
  needValue member := (needValue_steady valued member).twins (Nat.zero_le _) rfl

end Twins
end Grammar
end Formula
