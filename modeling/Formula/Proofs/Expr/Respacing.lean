import Formula.Proofs.Expr.RoundTrip
import Formula.Proofs.Grammar.Relocation

/-! # Layout does not matter

A text may have any other gaps between its tokens, as long as none is taken away and none is
put between two brackets that are read together.  It stands for the same expression, or it
fails in the same way (`parse_respaced`).
-/
namespace Formula
open Grammar

section Respacing
variable {name : String} {text : String} {tokens : List Token} {new : List (List Char)}

/-- **Gaps can be replaced by other gaps.**  Let a text be scanned as tokens without an error,
and let there be gaps to put in place of the gaps in front of its tokens.  Then the text with
the new gaps is scanned as tokens of the same kinds, lexemes and values; and in every dialect
they are parsed as the same expression, or rejected at the same place in the list of tokens
with the same code, message and advice. -/
theorem parse_respaced (scanned : (Token.scan name text).toExcept = .ok tokens)
    (respaces : Token.Respaces tokens (Token.gaps text.toList 0 tokens) new) (other : String) :
    ∃ tokens', (Token.scan other (String.ofList (Token.weave new tokens))).toExcept =
        .ok tokens' ∧
      tokens'.map Token.content = tokens.map Token.content ∧
      ∀ config, SameReport (parseTokens tokens config) (parseTokens tokens' config) := by
  obtain ⟨old, laid⟩ := Token.exists_laid scanned
  have gaps : Token.gaps ([] ++ text.toList) Position.start.offset tokens = old := laid.gaps rfl
  rw [show Token.gaps text.toList 0 tokens = old from gaps] at respaces
  obtain ⟨tokens', laid', alike⟩ := laid.respace respaces other Position.start
  refine ⟨tokens', ?_, alike.content, fun config => parseTokens_of_alike alike ?_ ?_⟩
  · unfold Token.scan
    rw [String.toList_ofList]
    exact laid'.scanFrom
  · obtain ⟨last, member, isEnd⟩ := laid.exists_end
    exact Input.endsFrom_ofTokens member isEnd
  · exact valued_of_wellLexed fun t ht => wellLexed_of_scan scanned t (by
      simpa [Input.ofTokens] using ht)

/-- Indices are written with a comment, blanks and a line feed, but their brackets stay
together. -/
theorem parse_respaced_indices :
    let token (kind : Token.Kind) (lexeme : String) (value : Option String) (offset : Int) :=
      (⟨kind, lexeme, value, ⟨"", 1, offset + 1, offset⟩⟩ : Token)
    let tokens := [token .identifier "a" "a" 0, token .leftBracket "[" none 1,
      token .leftBracket "[" none 2, token .number "1" "1" 3, token .rightBracket "]" none 4,
      token .rightBracket "]" none 5, token .endOfInput "" none 6]
    let new := [['(', '*', '*', ')'], [' '], [], [' '], ['\n'], [], [' ']]
    (Token.scan "" "a[[1]]").toExcept = .ok tokens ∧
      Token.Respaces tokens (Token.gaps "a[[1]]".toList 0 tokens) new ∧
      ∃ tokens', (Token.scan "" "(**)a [[ 1\n]] ").toExcept = .ok tokens' ∧
        tokens'.map Token.content = tokens.map Token.content ∧
        ∀ config, SameReport (parseTokens tokens config) (parseTokens tokens' config) := by
  intro token tokens new
  have scanned : (Token.scan "" "a[[1]]").toExcept = .ok tokens := by cbv
  have old : Token.gaps "a[[1]]".toList 0 tokens = List.replicate 7 [] := by decide
  have woven : String.ofList (Token.weave new tokens) = "(**)a [[ 1\n]] " := by cbv
  have respaces : Token.Respaces tokens (Token.gaps "a[[1]]".toList 0 tokens) new := by
    rw [old]
    refine ⟨rfl, ?_, fun i _ lt gap => ?_, fun i kind bracket here next _ => ?_⟩
    · have comment : Token.IsGap ['(', '*', '*', ')'] := .comment .close .nil
      have blank : Token.IsGap [' '] := .blank (by decide) .nil
      have lineFeed : Token.IsGap ['\n'] := .blank (by decide) .nil
      simpa [new, Token.IsGap.nil] using ⟨comment, blank, lineFeed, blank⟩
    · exact absurd (List.getElem?_replicate_of_lt (Nat.lt_of_succ_lt lt)) gap
    · have lt : i < 7 := by
        obtain ⟨t, ht, -⟩ := Option.map_eq_some_iff.mp here
        exact (List.getElem?_eq_some_iff.mp ht).1
      have pairs : ∀ i < 7, ∀ kind ∈ [Token.Kind.leftBracket, .rightBracket],
          tokens[i]?.map Token.kind = some kind → tokens[i + 1]?.map Token.kind = some kind →
          new[i + 1]? = some [] := by
        decide
      exact pairs i lt kind (by simpa using bracket) here next
  have spaced := parse_respaced scanned respaces ""
  rw [woven] at spaced
  exact ⟨scanned, respaces, spaced⟩

end Respacing
end Formula
