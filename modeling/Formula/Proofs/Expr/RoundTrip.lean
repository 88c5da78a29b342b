import Formula.Proofs.Expr.Derived
import Formula.Proofs.Expr.PrettyTokens
import Formula.Proofs.Grammar.Decision

/-! # Pretty forms are read back

What a text stands for is well-formed, and the pretty form of every well-formed
expression stands for that expression.  So an expression that was read can be written
in pretty form and read again.
-/
namespace Formula
open Grammar

/-! ## Reading well-formed expressions -/

section Reading
variable {text : String} {config : Config} {e : Expr}

/-- A text is read as what its tokens are parsed as. -/
theorem Reading.outcome_eq_ok_iff {name : String} {allowance : Option Nat} :
    (Reading.ofTextWithin allowance name text config).outcome = .ok e ↔
      ∃ tokens s, (Token.scan name text).toExcept = .ok tokens ∧
        let input : Input := { tokens := tokens.toArray, config }
        parseWithin input (allowance.getD input.allowance) .start = .ok e s := by
  unfold Reading.ofTextWithin
  cases scanned : (Token.scan name text).toExcept with
  | error failure => simp
  | ok tokens =>
    simp only [Except.ok.injEq, exists_and_left, exists_eq_left']
    split
    · next parsed => simp [parsed]
    · next parsed => simp [parsed]

/-- A reading fails where the scan of the text does, or the parse of its tokens. -/
theorem Reading.outcome_eq_error_iff {name : String} {allowance : Option Nat} {failure : Failure} :
    (Reading.ofTextWithin allowance name text config).outcome = .error failure ↔
      (∃ e, (Token.scan name text).toExcept = .error e ∧ failure = .lexical e) ∨
        ∃ tokens abort s, (Token.scan name text).toExcept = .ok tokens ∧
          failure = .grammatical abort ∧
          let input : Input := { tokens := tokens.toArray, config }
          parseWithin input (allowance.getD input.allowance) .start = .error abort s := by
  unfold Reading.ofTextWithin
  cases scanned : (Token.scan name text).toExcept with
  | error e => simp [eq_comm]
  | ok tokens =>
    simp only [Except.ok.injEq, reduceCtorEq, false_and, exists_false, false_or, exists_and_left,
      exists_eq_left']
    split
    · next parsed => simp [parsed]
    · next parsed => simp [parsed, eq_comm]

/-- A text stands for what its tokens are parsed as. -/
theorem read_eq_ok_iff :
    read text config = .ok e ↔
      ∃ tokens s, (Token.scan unnamed text).toExcept = .ok tokens ∧
        parse ⟨tokens.toArray, config, ""⟩ .start = .ok e s :=
  Reading.outcome_eq_ok_iff

/-- The tokens of a scan are well-formed. -/
theorem wellLexed_of_scan {tokens : List Token} {name : String}
    (h : (Token.scan name text).toExcept = .ok tokens) : ∀ t ∈ tokens, Token.WellLexed t := by
  unfold Token.Scan.toExcept at h
  split at h
  · cases h
  · cases h
    exact Token.wellLexed_of_mem_scanFrom

theorem valued_of_wellLexed {input : Input} (h : ∀ t ∈ input.tokens, Token.WellLexed t) :
    input.Valued := by
  rintro t ht (number | string)
  · obtain ⟨value, hvalue, -⟩ := (h t ht).number number
    simp [hvalue]
  · exact (h t ht).string string

/-- Where names stand for operators and constants, whatever was read is well-formed. -/
theorem wellFormed_of_outcome {name : String} {allowance : Option Nat}
    (builtins : config.resolveBuiltins = true)
    (h : (Reading.ofTextWithin allowance name text config).outcome = .ok e) : e.WellFormed := by
  obtain ⟨tokens, s, scanned, parsed⟩ := Reading.outcome_eq_ok_iff.mp h
  have wellLexed := wellLexed_of_scan scanned
  obtain ⟨derives, -⟩ := (parseWithin_outcome _ _).2 e s parsed
  exact Expr.wellFormed_of_derives builtins (fun t ht => wellLexed t (by simpa using ht)) derives

/-- In any dialect without a cap on open brackets, where names stand for operators and
constants and numbers have signs, a well-formed expression is read back. -/
theorem read_pretty_of_config (h : e.WellFormed) (builtins : config.resolveBuiltins = true)
    (folds : config.foldNegativeLiterals = true) (uncapped : config.maxNestingDepth = none) :
    read e.pretty config = .ok e := by
  have stops : Stops [] := by rintro _ ⟨⟩
  obtain ⟨ts, scanned, shape⟩ := h.spells builtins folds stops unnamed Position.start
  -- Behind the tokens of the expression stands only the end of the input.
  obtain ⟨last, isLast, stop⟩ : ∃ last, last.kind = .endOfInput ∧
      (Token.scan unnamed e.pretty).toExcept = .ok (ts ++ [last]) := by
    refine ⟨Token.endAt unnamed (Position.start.after e.pretty.toList), rfl, ?_⟩
    unfold Token.scan
    rw [List.append_nil] at scanned
    rw [scanned, Token.scanFrom_eq_scanBehind]
    rfl
  have wellLexed := wellLexed_of_scan stop
  have has : Input.HasAt ⟨(ts ++ [last]).toArray, config, ""⟩ 0 (ts ++ [last]) :=
    Input.hasAt_of_eq []
  obtain ⟨first, final, -⟩ := Input.hasAt_append.mp has
  have derives := (shape _ 0 rfl first).1.or_of_unary
  have ends : Input.kindAt ⟨(ts ++ [last]).toArray, config, ""⟩ (0 + ts.length) =
      some .endOfInput := by
    rw [Input.kindAt, final, Option.map_some, isLast]
  have valued : Input.Valued ⟨(ts ++ [last]).toArray, config, ""⟩ :=
    valued_of_wellLexed fun t ht => wellLexed t (by simpa using ht)
  obtain ⟨s, parsed, -⟩ := parse_of_derives uncapped valued derives ends
  exact read_eq_ok_iff.mpr ⟨_, s, stop, parsed⟩

end Reading
end Formula
