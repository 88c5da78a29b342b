import Formula.CommandLine.Run
import Formula.Proofs.Reading

/-! # What the command line answers

The arguments decide which text is read, and the reading decides what is answered: a form of the
expression with status 0, or a report with status 1 (`Answers`).  An operand beside a file is an
error in the use of the program, and a file that cannot be opened is one, too, both with status 2.

Nothing is ignored, with one exception: a file with the empty path counts as no file, also beside
operands (`run_decided`, `run_empty_path`).
-/
namespace Formula
namespace CommandLine

/-! ## Forms -/

section Forms
variable {e : Expr} {text : String}

/-- No numeral, quote or bracket is a letter. -/
theorem head?_full (h : e.WellFormed) :
    ∃ c, e.full.toList.head? = some c ∧ c.isAlpha = false := by
  cases h with
  | symbol | string | singleton => exact ⟨'"', by simp [Expr.full, Text.quote], rfl⟩
  | node | named | applied => exact ⟨'[', by simp [Expr.full], rfl⟩
  | negative => exact ⟨'-', by simp [Expr.full], rfl⟩
  | number numeral =>
    obtain ⟨-, c, rest, whole, starts⟩ := numeral
    refine ⟨c, by rw [Expr.full, whole, List.head?_cons], ?_⟩
    cases letter : c.isAlpha with
    | false => rfl
    | true =>
      rw [Token.Numeral.not_startsWith_of_isAlpha letter] at starts
      cases starts

/-- No form of an expression says that there is nothing to do. -/
theorem form_ne_nothing (h : e.WellFormed) (full : Bool) :
    (if full then e.full else e.pretty) ≠ "Nothing to do." := by
  intro same
  cases full with
  | true =>
    rw [if_pos rfl] at same
    obtain ⟨c, first, noLetter⟩ := head?_full h
    rw [same] at first
    obtain rfl : 'N' = c := Option.some.inj first
    cases noLetter
  | false =>
    -- The point at the end is no token, so the text is no pretty form.
    rw [if_neg Bool.false_ne_true] at same
    have again : read e.pretty {} = .ok e := read_pretty_of_config h rfl rfl rfl
    obtain ⟨tokens, s, scanned, -⟩ := read_eq_ok_iff.mp again
    have point : (Token.scan unnamed "Nothing to do.").toExcept =
        .error ⟨.invalidCharacter '.', ⟨unnamed, 1, 14, 13⟩⟩ := by
      cbv
    rw [same, point] at scanned
    cases scanned

end Forms

/-! ## Outcomes -/

/-- What is answered where a reading was made: a form with status 0, or a report with status 1. -/
inductive Answers (args : Arguments) (r : Reading) : Outcome → Prop
  | form {e : Expr} {stderr : String} : r.outcome = .ok e →
    Answers args r ⟨0, (if args.fullForm then e.full else e.pretty) ++ "\n", stderr⟩
  | report {d : Diagnostic} {stderr : String} : r.diagnostic? = some d →
    Answers args r ⟨1, report args.verbose d ++ "\n", stderr⟩

section Outcomes
variable {args : Arguments} {name text : String}

theorem answers_ofReading (args : Arguments) (name text : String) (config : Config) :
    Answers args (.ofText name text config) (.ofReading args (.ofText name text config)) := by
  unfold Outcome.ofReading
  cases outcome : (Reading.ofText name text config).outcome with
  | ok e => exact .form outcome
  | error failure =>
    obtain ⟨d, reported, -⟩ := exists_diagnostic outcome
    have reported : (Reading.ofText name text config).diagnostic? = some d :=
      (Reading.diagnostic?_ofTextWithin outcome).trans reported
    simp only [reported, Option.map_some, Option.getD_some]
    exact .report reported

/-- A reading is answered with something. -/
theorem Answers.ne_nothing {o : Outcome} {stderr : String}
    (h : Answers args (.ofText name text args.config) o) :
    o ≠ ⟨0, "Nothing to do.\n", stderr⟩ := by
  intro same
  cases h with
  | report => exact absurd (congrArg Outcome.status same) Nat.one_ne_zero
  | @form e _ outcome =>
    have builtins : args.config.resolveBuiltins = true := rfl
    have stdout : (if args.fullForm then e.full else e.pretty) ++ "\n" =
        "Nothing to do." ++ "\n" :=
      congrArg Outcome.stdout same
    exact form_ne_nothing (wellFormed_of_outcome builtins outcome) args.fullForm
      ((String.append_left_inj "\n").mp stdout)

end Outcomes

/-! ## Runs -/

section Runs
variable {lookup : File.Lookup} {args : Arguments} {path text : String}

theorem run_of_parse {argv : List String} (accepted : Arguments.parse argv = .ok args) :
    run lookup argv = execute lookup args := by
  rw [run, accepted]

theorem path?_of_ne (given : args.file = some path) (ne : path ≠ "") :
    args.path? = some path := by
  simp [Arguments.path?, given, ne]

/-- No file is named by an empty path either. -/
theorem path?_eq_none_iff : args.path? = none ↔ args.file = none ∨ args.file = some "" := by
  unfold Arguments.path?
  cases args.file with
  | none => simp
  | some path => simp

/-- A file is read as the text in it, under the name of its path. -/
theorem ofFile_eq_ok_iff {config : Config} {r : Reading} :
    Reading.ofFile lookup path config = .ok r ↔
      ∃ text, File.readText lookup path = .ok text ∧ r = .ofText path text config := by
  unfold Reading.ofFile
  cases File.readText lookup path with
  | error e => exact ⟨nofun, nofun⟩
  | ok text =>
    refine ⟨fun read => ⟨text, rfl, (Except.ok.inj read).symm⟩, ?_⟩
    rintro ⟨_, ⟨⟩, rfl⟩
    rfl

/-- What the arguments decide, where no help is asked for. -/
structure Decided (lookup : File.Lookup) (argv : List String) (args : Arguments) : Prop where
  /-- A file cannot be combined with operands. -/
  both {path : String} : args.file = some path → path ≠ "" → args.expression ≠ [] →
    run lookup argv =
      .ok ⟨2, "", "mathparser: error: --file cannot be combined with expression arguments\n"⟩
  /-- A file that cannot be opened is reported, and nothing is printed. -/
  unopened {path : String} {e : FileError} : args.file = some path → path ≠ "" →
    args.expression = [] → lookup path = .error e → e ≠ .undecodable →
    run lookup argv =
      .ok ⟨2, "", "mathparser: cannot read " ++ path ++ ": " ++ e.reason ++ "\n"⟩
  /-- The text in a file decides. -/
  file {path text : String} : args.file = some path → path ≠ "" → args.expression = [] →
    File.readText lookup path = .ok text →
    ∃ o, run lookup argv = .ok o ∧ Answers args (.ofText path text args.config) o
  /-- Without a file the operands decide, with single spaces between them. -/
  words : args.file = none ∨ args.file = some "" → args.expression ≠ [] →
    ∃ o, run lookup argv = .ok o ∧
      Answers args (.ofText unnamed (String.intercalate " " args.expression) args.config) o
  /-- There is nothing to do just without a file and without operands. -/
  nothing : (∃ stderr, run lookup argv = .ok ⟨0, "Nothing to do.\n", stderr⟩) ↔
    (args.file = none ∨ args.file = some "") ∧ args.expression = []

theorem execute_file (wanted : args.help = false) (named : args.path? = some path)
    (alone : args.expression = []) {r : Reading}
    (read : Reading.ofFile lookup path args.config = .ok r) :
    execute lookup args = .ok (.ofReading args r) := by
  simp only [execute, wanted, named, alone, read, Bool.false_eq_true, if_false]

theorem execute_unopened (wanted : args.help = false) (named : args.path? = some path)
    (alone : args.expression = []) {e : FileError} (unopened : lookup path = .error e)
    (other : e ≠ .undecodable) : execute lookup args = .ok (.unreadable path e) := by
  have unread : Reading.ofFile lookup path args.config = .error e := by
    rw [Reading.ofFile, File.readText, unopened]
    rfl
  simp only [execute, wanted, named, alone, unread, Bool.false_eq_true, if_false]

theorem execute_words (wanted : args.help = false) (unnamed : args.path? = none)
    (given : args.expression ≠ []) :
    execute lookup args = .ok (.ofReading args
      (.ofText Formula.unnamed (String.intercalate " " args.expression) args.config)) := by
  obtain ⟨word, words, whole⟩ := List.exists_cons_of_ne_nil given
  simp only [execute, wanted, unnamed, whole, Bool.false_eq_true, if_false]

/-- If there is nothing to do then no text is given. -/
theorem given_of_nothing (wanted : args.help = false) {stderr : String}
    (nothing : execute lookup args = .ok ⟨0, "Nothing to do.\n", stderr⟩) :
    args.path? = none ∧ args.expression = [] := by
  have read {name text : String}
      (answer : execute lookup args = .ok (.ofReading args (.ofText name text args.config))) :
      False :=
    (answers_ofReading args name text args.config).ne_nothing
      (Except.ok.inj (answer.symm.trans nothing))
  cases named : args.path? with
  | none =>
    refine ⟨rfl, ?_⟩
    by_contra given
    exact read (execute_words wanted named given)
  | some path =>
    exfalso
    cases expression : args.expression with
    | cons word words =>
      simp [execute, wanted, named, expression, Outcome.usage] at nothing
    | nil =>
      cases file : Reading.ofFile lookup path args.config with
      | ok r =>
        obtain ⟨text, -, rfl⟩ := ofFile_eq_ok_iff.mp file
        exact read (execute_file wanted named expression file)
      | error e =>
        simp only [execute, wanted, named, expression, file, Bool.false_eq_true, if_false]
          at nothing
        cases e <;> simp [Outcome.unreadable] at nothing

theorem decided_of_parse {argv : List String} (accepted : Arguments.parse argv = .ok args)
    (wanted : args.help = false) (lookup : File.Lookup) : Decided lookup argv args where
  both given ne words := by
    obtain ⟨word, words, whole⟩ := List.exists_cons_of_ne_nil words
    rw [run_of_parse accepted]
    simp only [execute, wanted, path?_of_ne given ne, whole, Bool.false_eq_true, if_false]
    rfl
  unopened given ne alone unopened other := by
    rw [run_of_parse accepted,
      execute_unopened wanted (path?_of_ne given ne) alone unopened other]
    rfl
  file given ne alone read := by
    refine ⟨_, ?_, answers_ofReading args _ _ args.config⟩
    rw [run_of_parse accepted]
    exact execute_file wanted (path?_of_ne given ne) alone (ofFile_eq_ok_iff.mpr ⟨_, read, rfl⟩)
  words unnamed given := by
    refine ⟨_, ?_, answers_ofReading args _ _ args.config⟩
    rw [run_of_parse accepted, execute_words wanted (path?_eq_none_iff.mpr unnamed) given]
  nothing := by
    rw [run_of_parse accepted, ← path?_eq_none_iff]
    constructor
    · rintro ⟨stderr, nothing⟩
      exact given_of_nothing wanted nothing
    · rintro ⟨unnamed, alone⟩
      refine ⟨"", ?_⟩
      simp only [execute, wanted, unnamed, alone, Bool.false_eq_true, if_false]
      rfl

/-- **The command line decides by what is given.**  For all arguments that can be used, and
whatever the files hold: a file with a path that is not empty cannot be combined with operands,
and alone it decides what is answered; without such a file the operands decide; and there is
nothing to do just if neither is given.  Only a request for help comes before all that. -/
theorem run_decided {argv : List String} (accepted : Arguments.parse argv = .ok args)
    (lookup : File.Lookup) :
    if args.help then run lookup argv = .ok .help else Decided lookup argv args := by
  split
  · next wanted =>
    rw [run_of_parse accepted, execute, if_pos wanted]
  · next wanted => exact decided_of_parse accepted (by simpa using wanted) lookup

/-- A file without its last bracket, on its own and beside an operand. -/
theorem run_decided_file :
    let lookup : File.Lookup := fun path => if path = "f" then .ok "(1".toUTF8 else .error .notFound
    let args : Arguments := { file := some "f", fullForm := true }
    let beside : Arguments := { args with expression := ["a"] }
    Arguments.parse ["--file", "f", "--full-form"] = .ok args ∧
      Arguments.parse ["a", "--file=f", "--full"] = .ok beside ∧
      (∃ o, run lookup ["--file", "f", "--full-form"] = .ok o ∧
        Answers args (.ofText "f" "(1" args.config) o) ∧
      run lookup ["a", "--file=f", "--full"] =
        .ok ⟨2, "", "mathparser: error: --file cannot be combined with expression arguments\n"⟩ := by
  intro lookup args beside
  have alone : Arguments.parse ["--file", "f", "--full-form"] = .ok args := by rfl
  have both : Arguments.parse ["a", "--file=f", "--full"] = .ok beside := by rfl
  have decided : Decided lookup _ args := run_decided alone lookup
  have excluded : Decided lookup _ beside := run_decided both lookup
  have content : File.readText lookup "f" = .ok "(1" := by rfl
  have named : "f" ≠ "" := by decide
  exact ⟨alone, both, decided.file rfl named rfl content,
    excluded.both rfl named (List.cons_ne_nil _ _)⟩

/-- A file with the empty path is ignored beside an operand, and it is nothing to do on its
own. -/
theorem run_empty_path :
    let lookup : File.Lookup := fun _ => .error .notFound
    Arguments.parse ["--file", "", "a"] = .ok { file := some "", expression := ["a"] } ∧
      run lookup ["--file", "", "a"] = .ok ⟨0, "a\n", ""⟩ ∧
      Arguments.parse ["--file", ""] = .ok { file := some "" } ∧
      run lookup ["--file", ""] = .ok ⟨0, "Nothing to do.\n", ""⟩ := by
  intro lookup
  refine ⟨by rfl, ?_, by rfl, ?_⟩
  · cbv
  · cbv

end Runs
end CommandLine
end Formula
