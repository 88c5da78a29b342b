import Formula.Proofs.Expr.Pieces
import Formula.Proofs.Expr.WellFormed
import Formula.Proofs.Grammar.Atoms

/-! # The tokens of a pretty form

The pretty form of a well-formed expression is scanned as tokens from which the grammar
derives that expression (`WellFormed.spells`).  The induction is over the expression: it
goes on piece by piece through the name, the brackets and the arguments between them.
What is in front of more arguments is an application, so of applications the induction
says that, too.
-/
namespace Formula
namespace Expr
open Grammar

/-- A piece of text is read as tokens from which the grammar derives an expression. -/
def Spells (config : Config) (e : Expr) (rest : List Char) : Prop :=
  Reads config e.pretty.toList rest fun input p q =>
    Derives input (.rule .unary) p q e ∧
      (e.IsApplication → Derives input (.rule .application) p q e)

section Tokens
variable {config : Config} {input : Input} {p q : Nat}

theorem kindAt_of_isToken {kind : Token.Kind} {lexeme : List Char} {value : Option (List Char)}
    (h : IsToken kind lexeme value input p q) : q = p + 1 ∧ input.kindAt p = some kind := by
  obtain ⟨t, rfl, ht, rfl, -⟩ := h
  exact ⟨rfl, Input.kindAt_of_getElem? ht⟩

theorem valueAt_of_isToken {kind : Token.Kind} {lexeme : List Char} {text : String}
    (h : IsToken kind lexeme (some text.toList) input p q) : input.valueAt p = text := by
  obtain ⟨t, -, ht, -, -, hvalue⟩ := h
  simp [Input.valueAt, ht, hvalue]

/-! ## Arguments -/

theorem toList_prettyMore (e : Expr) (es : List Expr) :
    (prettyMore (e :: es)).toList =
      [','] ++ ([' '] ++ (e.pretty.toList ++ (prettyMore es).toList)) := by
  simp [prettyMore, String.toList_append]

theorem stops_prettyMore (es : List Expr) (rest : List Char) :
    Stops ((prettyMore es).toList ++ ']' :: rest) := by
  cases es with
  | nil => exact stops_of_cons (.inr (.inr rfl))
  | cons e es =>
    rw [toList_prettyMore]
    exact stops_of_cons (.inl rfl)

theorem stops_brackets (es : List Expr) (rest : List Char) :
    Stops (("[" ++ prettyArgs es ++ "]").toList ++ rest) := by
  simp only [String.toList_append, List.append_assoc]
  exact stops_of_cons (.inr (.inl rfl))

/-- An expression, and perhaps a comma with others behind it. -/
theorem items_of_more {r : Nat} {e : Expr} {es : List Expr}
    (first : Derives input (.rule .unary) p q e)
    (more : es = [] ∧ r = q ∨
      input.kindAt q = some .comma ∧ Derives input .items (q + 1) r es) :
    Derives input .items p r (e :: es) := by
  rcases more with ⟨rfl, rfl⟩ | ⟨isComma, others⟩
  · exact .item first.or_of_unary
  · exact .items first.or_of_unary isComma others

/-- Arguments with a comma in front of each. -/
theorem reads_prettyMore {es : List Expr} (rest : List Char)
    (spells : ∀ e ∈ es, ∀ rest, Stops rest → e.Spells config rest) :
    Reads config (prettyMore es).toList (']' :: rest) fun input p q =>
      es = [] ∧ q = p ∨
        input.kindAt p = some .comma ∧ Derives input .items (p + 1) q es := by
  induction es with
  | nil => exact fun source here => ⟨[], rfl, fun input p _ _ => .inl ⟨rfl, rfl⟩⟩
  | cons e es ih =>
    have item := spells e List.mem_cons_self _ (stops_prettyMore es rest)
    have others := ih fun a ha => spells a (List.mem_cons_of_mem e ha)
    have comma : (',', Token.Kind.comma) ∈ Reads.marks := by decide
    rw [toList_prettyMore]
    refine ((Reads.mark comma).append (.append .blank (item.append others))).mono ?_
    -- A comma, nothing for the blank, an expression, and what is behind it.
    rintro input p r - ⟨_, first, _, rfl, q, ⟨derives, -⟩, more⟩
    obtain ⟨rfl, isComma⟩ := kindAt_of_isToken first
    exact .inr ⟨isComma, items_of_more derives more⟩

/-- Arguments with commas between them, in front of a bracket. -/
theorem reads_prettyArgs {es : List Expr} (rest : List Char)
    (spells : ∀ e ∈ es, ∀ rest, Stops rest → e.Spells config rest) :
    Reads config (prettyArgs es).toList (']' :: rest) fun input p q =>
      Derives input .arguments p q es := by
  cases es with
  | nil => exact fun source here => ⟨[], rfl, fun input p _ _ => .noArguments⟩
  | cons e es =>
    have item := spells e List.mem_cons_self _ (stops_prettyMore es rest)
    have others := reads_prettyMore rest fun a ha => spells a (List.mem_cons_of_mem e ha)
    have text : (prettyArgs (e :: es)).toList = e.pretty.toList ++ (prettyMore es).toList := by
      simp [prettyArgs, String.toList_append]
    rw [text]
    refine (item.append others).mono ?_
    rintro input p r - ⟨q, ⟨derives, -⟩, more⟩
    exact .someArguments (items_of_more derives more)

/-- A list of arguments in brackets stands between two places. -/
def InBrackets (es : List Expr) (input : Input) (p r : Nat) : Prop :=
  ∃ q, r = q + 1 ∧ input.OpensArguments p ∧ Derives input .arguments (p + 1) q es ∧
    input.kindAt q = some .rightBracket

theorem reads_brackets {es : List Expr} (rest : List Char)
    (spells : ∀ e ∈ es, ∀ rest, Stops rest → e.Spells config rest) :
    Reads config ("[" ++ prettyArgs es ++ "]").toList rest (InBrackets es) := by
  have opener : ('[', Token.Kind.leftBracket) ∈ Reads.marks := by decide
  have closer : (']', Token.Kind.rightBracket) ∈ Reads.marks := by decide
  have text : ("[" ++ prettyArgs es ++ "]").toList =
      ['['] ++ ((prettyArgs es).toList ++ [']']) := by
    simp [String.toList_append]
  rw [text]
  refine ((Reads.mark opener).append
    ((reads_prettyArgs rest spells).append (.mark closer))).mono ?_
  rintro input p r - ⟨_, first, q, arguments, last⟩
  obtain ⟨rfl, opens⟩ := kindAt_of_isToken first
  obtain ⟨rfl, closes⟩ := kindAt_of_isToken last
  exact ⟨q, rfl, arguments.opensArguments opens closes, arguments, closes⟩

/-! ## Expressions -/

/-- The name in front of arguments, with the arguments. -/
theorem spells_named {e : Expr} {name : String} {args : List Expr} (rest : List Char)
    (isName : Token.IsName name.toList)
    (text : e.pretty = name ++ ("[" ++ prettyArgs args ++ "]"))
    (stands : namedApplication config name args = e)
    (spells : ∀ a ∈ args, ∀ rest, Stops rest → a.Spells config rest) : e.Spells config rest := by
  have brackets := reads_brackets rest spells
  unfold Spells
  rw [text, String.toList_append]
  refine ((Reads.name isName (stops_brackets args rest)).append brackets).mono ?_
  rintro input p r rfl ⟨_, ⟨t, rfl, ht, kind, lexeme, -⟩, q, rfl, opens, arguments, closes⟩
  rw [String.ofList_toList] at lexeme
  have derives : Derives input (.rule .application) p (q + 1) e := by
    rw [← stands, ← lexeme]
    exact .application ht kind opens arguments closes .stop
  exact ⟨derives.unary_of_application, fun _ => derives⟩

/-- An application with more arguments behind it. -/
theorem spells_applied {head : Expr} {args : List Expr} (rest : List Char)
    (isApplication : head.IsApplication) (spellsHead : ∀ rest, Stops rest → head.Spells config rest)
    (spells : ∀ a ∈ args, ∀ rest, Stops rest → a.Spells config rest) :
    (Expr.apply head args).Spells config rest := by
  have text : (Expr.apply head args).pretty = head.pretty ++ ("[" ++ prettyArgs args ++ "]") := by
    simp only [pretty, String.append_assoc]
  have brackets := reads_brackets rest spells
  unfold Spells
  rw [text, String.toList_append]
  refine ((spellsHead _ (stops_brackets args rest)).append brackets).mono ?_
  rintro input p r - ⟨q, ⟨-, application⟩, s, rfl, opens, arguments, closes⟩
  have derives := (application isApplication).applied opens arguments closes
  exact ⟨derives.unary_of_application, fun _ => derives⟩

/-- A name without arguments. -/
theorem spells_name {e : Expr} {name : String} {rest : List Char}
    (isName : Token.IsName name.toList) (text : e.pretty = name)
    (stands : namedConstant config name = e) (simple : ¬ e.IsApplication) (stops : Stops rest) :
    e.Spells config rest := by
  unfold Spells
  rw [text]
  refine (Reads.name isName stops).mono ?_
  rintro input p q rfl ⟨t, rfl, ht, kind, lexeme, -⟩
  rw [String.ofList_toList] at lexeme
  refine ⟨Derives.unary_of_power (.power_of_atom ?_), fun h => absurd h simple⟩
  rw [← stands, ← lexeme]
  exact .name ht kind

/-- A numeral with a minus sign in front, which becomes its sign. -/
theorem spells_negative {text : String} {rest : List Char}
    (folds : config.foldNegativeLiterals = true) (isNumeral : Token.Numeral.IsNumeral text.toList)
    (stops : Stops rest) : (Expr.number ("-" ++ text)).Spells config rest := by
  have sign : ('-', Token.Kind.minus) ∈ Reads.marks := by decide
  have written : (Expr.number ("-" ++ text)).pretty.toList = ['-'] ++ text.toList := by
    simp [pretty, String.toList_append]
  unfold Spells
  rw [written]
  refine ((Reads.mark sign).append (.numeral isNumeral stops)).mono ?_
  rintro input p q rfl ⟨_, first, second⟩
  obtain ⟨rfl, minus⟩ := kindAt_of_isToken first
  obtain ⟨rfl, number⟩ := kindAt_of_isToken second
  have value := valueAt_of_isToken second
  have signs : input.SignsAt .minus p 1 := by
    intro i hi
    obtain rfl : i = 0 := by omega
    exact minus
  have power : Derives input (.rule .power) (p + 1) (p + 1 + 1) (.number text) := by
    rw [← value]
    exact .power_of_atom (.number number)
  have prefixed : input.prefixed 1 (p + 1) (p + 1 + 1) (.number text) = .number ("-" ++ text) := by
    simp only [Input.prefixed, folds, number, value, and_self, if_true, Nat.repeat]
  refine ⟨?_, fun h => absurd h id⟩
  rw [← prefixed]
  exact .unary signs power

/-- **The pretty form of a well-formed expression is read as tokens from which the grammar
derives the expression.** -/
theorem WellFormed.spells {e : Expr} (h : e.WellFormed)
    (builtins : config.resolveBuiltins = true) (folds : config.foldNegativeLiterals = true)
    {rest : List Char} (stops : Stops rest) : e.Spells config rest := by
  induction h generalizing rest with
  | symbol isName free =>
    exact spells_name isName rfl (by simp [namedConstant, free]) id stops
  | @number text isNumeral =>
    refine (Reads.numeral isNumeral stops).mono ?_
    rintro input p q rfl token
    obtain ⟨rfl, number⟩ := kindAt_of_isToken token
    refine ⟨Derives.unary_of_power (.power_of_atom ?_), fun h => absurd h id⟩
    rw [← valueAt_of_isToken token]
    exact .number number
  | negative isNumeral => exact spells_negative folds isNumeral stops
  | @string text =>
    have written : (Expr.string text).pretty.toList =
        '"' :: (Text.escape text.toList ++ ['"']) := by
      simp [pretty, Text.quote, String.toList_append]
    unfold Spells
    rw [written]
    refine (Reads.quoted text.toList).mono ?_
    rintro input p q rfl token
    obtain ⟨rfl, string⟩ := kindAt_of_isToken token
    refine ⟨Derives.unary_of_power (.power_of_atom ?_), fun h => absurd h id⟩
    rw [← valueAt_of_isToken token]
    exact .string string
  | singleton constant =>
    exact spells_name (isName_of_mem_constantNames constant) rfl
      (by simp [namedConstant, constant, builtins]) id stops
  | @node op args _ ih =>
    refine spells_named rest (isName_operator op) ?_ ?_ fun a ha _ stops => ih a ha stops
    · simp only [pretty, String.append_assoc]
    · simp [namedApplication, builtins, build, Operator.ofName?_name]
  | @named name args isName free _ ih =>
    refine spells_named rest isName ?_ ?_ fun a ha _ stops => ih a ha stops
    · simp only [pretty, String.append_assoc]
    · simp [namedApplication, builtins, build, free]
  | applied isApplication _ _ ihHead ih =>
    exact spells_applied rest isApplication (fun _ stops => ihHead stops)
      fun a ha _ stops => ih a ha stops

end Tokens
end Expr
end Formula
