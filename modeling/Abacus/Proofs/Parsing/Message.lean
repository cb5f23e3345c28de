import Abacus.Proofs.Excerpt
import Abacus.Proofs.Parsing
import Abacus.Proofs.Spelling

namespace Abacus

open Text Grammar Token

namespace ParseError

theorem newline_not_mem_label (kind : Token.Kind) : '\n' ∉ kind.label.toList := by
  cases kind <;> decide

theorem Cause.newline_not_mem_reason (cause : Cause) : '\n' ∉ cause.reason.toList := by
  cases cause with
  | noOperand | unclosed | tooDeep => decide +kernel
  | notOperand found | unclosedBefore found =>
      exact newline_not_mem_append (by decide +kernel) (newline_not_mem_label found)
  | leftOver found =>
      have hkind : '\n' ∉ ("Unexpected " ++ found.kind.label).toList :=
        newline_not_mem_append (by decide +kernel) (newline_not_mem_label found.kind)
      exact newline_not_mem_append (newline_not_mem_append hkind (by decide +kernel))
        (newline_not_mem_quoted found.lexeme)
  | numberTooLong =>
      refine newline_not_mem_append (newline_not_mem_append (by decide +kernel) fun hmem => ?_)
        (by decide +kernel)
      cases (isNumeral_toString maxDigits).2 '\n' hmem
  | notNumeral lexeme =>
      refine newline_not_mem_append (by decide +kernel) fun hmem => ?_
      rw [String.toList_ofList] at hmem
      exact newline_not_mem_quoted lexeme (List.mem_of_mem_take hmem)

section Place

variable {error : ParseError} {token : Token}

theorem exists_place (hwellFormed : ∀ token ∈ error.tokens, token.IsWellFormed)
    (htoken : error.tokens[error.index]? = some token) :
    ∃ front behind,
      spellChars (error.tokens.take (error.index + 1)) = front ++ token.lexeme.toList ∧
      spellChars error.tokens = front ++ (token.lexeme.toList ++ behind) ∧
      error.place = front.length := by
  obtain ⟨hlt, hget⟩ := List.getElem?_eq_some_iff.mp htoken
  have htake : error.tokens.take (error.index + 1) = error.tokens.take error.index ++ [token] := by
    rw [List.take_add_one, htoken]
    rfl
  have hall : error.tokens.take error.index ++ token :: error.tokens.drop (error.index + 1) =
      error.tokens := by
    rw [← hget, ← List.drop_eq_getElem_cons, List.take_append_drop]
  obtain ⟨front, behind, hfront, hbehind⟩ := exists_joined_append spacing
    (error.tokens.take error.index) (error.tokens.drop (error.index + 1)) token
  rw [hall, ← spellChars_eq_joined hwellFormed] at hbehind
  rw [← htake, ← spellChars_eq_joined fun other hother =>
    hwellFormed other (List.mem_of_mem_take hother)] at hfront
  refine ⟨front, behind, hfront, hbehind, ?_⟩
  simp only [place, htoken, hfront, List.length_append, String.length_toList]
  omega

theorem place_of_end (hwellFormed : ∀ token ∈ error.tokens, token.IsWellFormed)
    (hend : error.index = error.tokens.length) (hsome : error.tokens ≠ []) :
    error.place = ((spellChars error.tokens).length + 1 : Nat) := by
  have hnone : error.tokens[error.index]? = none := by rw [hend, List.getElem?_length]
  obtain ⟨first, rest, htokens⟩ := List.exists_cons_of_ne_nil hsome
  obtain ⟨behind, hspelling⟩ := exists_joined_cons spacing first rest
  -- Behind an empty spelling the caret would stand at its start.
  have hfirst := (hwellFormed first (by simp [htokens])).lexeme_ne_empty
  have hspelled : spellChars error.tokens ≠ [] := by
    rw [spellChars_eq_joined hwellFormed, htokens, hspelling]
    exact List.append_ne_nil_of_left_ne_nil hfirst behind
  unfold place
  rw [hnone]
  cases hchars : spellChars error.tokens with
  | nil => exact absurd hchars hspelled
  | cons c chars => rfl

end Place

end ParseError

theorem place_in_tokens {depth : Nat} {tokens : List Token} {error : ParseError}
    (h : parseWithin depth tokens = .error error) :
    error.tokens = tokens ∧ error.index ≤ tokens.length := by
  have hindex (stop : Stop) : (stop.toError tokens).index ≤ tokens.length := by
    unfold Stop.toError
    split
    · exact Nat.zero_le _
    · exact Nat.sub_le _ _
  unfold parseWithin at h
  split at h
  · cases h
    exact ⟨rfl, hindex _⟩
  · cases h
  · cases h
    exact ⟨rfl, hindex _⟩

theorem splitOn_message {error : ParseError}
    (hwellFormed : ∀ token ∈ error.tokens, token.IsWellFormed) :
    let excerpt := Excerpt.around (spellChars error.tokens) error.place Excerpt.reach
    error.message.toList.splitOn '\n' =
      [("[Parser error] " ++ error.reason).toList, excerpt.line,
        List.replicate excerpt.column ' ' ++ ['^']] := by
  intro excerpt
  have hheadline : '\n' ∉ ("[Parser error] " ++ error.reason).toList :=
    newline_not_mem_append (by decide) error.cause.newline_not_mem_reason
  have hline : '\n' ∉ excerpt.line := by
    intro hmem
    rcases Excerpt.mem_line_around hmem with hdot | hspelling
    · cases hdot
    · exact newline_not_mem_spellChars hwellFormed hspelling
  rw [ParseError.message, Excerpt.splitOn_under hheadline, List.splitOn_eq_singleton hline]
  rfl

/-- A list of tokens is rejected in three lines: the reason, an excerpt of the spelling, and the
caret. That stands under the first character of the offending token, or one place past the excerpt
if the tokens end too early. -/
theorem caret_under_offender [Limits] (code : String) (tokens : List Token) (error : ParseError)
    (htokens : tokenize code = .ok tokens) (h : parse tokens = .error error) :
    ∃ excerpt column,
      error.message.toList.splitOn '\n' =
        [("[Parser error] " ++ error.reason).toList, excerpt,
          List.replicate column ' ' ++ ['^']] ∧
      error.index ≤ tokens.length ∧
      (∀ token, tokens[error.index]? = some token →
        spellChars (tokens.take (error.index + 1)) <+: spellChars tokens ∧
        ∃ front behind,
          spellChars (tokens.take (error.index + 1)) = front ++ token.lexeme.toList ∧
          spellChars tokens = front ++ (token.lexeme.toList ++ behind) ∧
          excerpt.take column = Excerpt.shownBefore 10 front ∧
          excerpt.drop column = Excerpt.shownAfter 10 (token.lexeme.toList ++ behind) ∧
          token.lexeme.toList.take 10 <+: excerpt.drop column) ∧
      (error.index = tokens.length → tokens ≠ [] → column = excerpt.length + 1) ∧
      (tokens = [] → excerpt = [] ∧ column = 0) := by
  obtain ⟨rfl, hindex⟩ := place_in_tokens h
  have hwellFormed := isWellFormed_of_tokenize htokens
  refine ⟨_, _, splitOn_message hwellFormed, hindex, ?_, ?_, ?_⟩
  · intro token htoken
    obtain ⟨front, behind, hfront, hall, hplace⟩ := ParseError.exists_place hwellFormed htoken
    have hdrop := Excerpt.drop_column_around_append front (token.lexeme.toList ++ behind) 10
    rw [hplace, hall]
    refine ⟨⟨behind, by rw [hfront, List.append_assoc]⟩, front, behind, hfront, rfl,
      Excerpt.take_column_around_append front _ 10, hdrop, ?_⟩
    exact hdrop ▸ Excerpt.take_prefix_shownAfter 10 token.lexeme.toList behind
  · intro hend hsome
    rw [ParseError.place_of_end hwellFormed hend hsome]
    exact Excerpt.column_around_past (spellChars error.tokens) 10 (by decide)
  · intro hnone
    have hplace : error.place = 0 := by
      unfold ParseError.place
      rw [hnone]
      rfl
    rw [hplace, hnone]
    exact ⟨rfl, rfl⟩

theorem caret_under_number_left_over :
    let code := "( value + 12 ) ;total= ( 3*44 )  987654321012 + 1"
    let number : Token := ⟨.number, "987654321012"⟩
    let before : List Token :=
      [⟨.opening, "("⟩, ⟨.name, "value"⟩, ⟨.plus, "+"⟩, ⟨.number, "12"⟩, ⟨.closing, ")"⟩,
        ⟨.semicolon, ";"⟩, ⟨.name, "total"⟩, ⟨.equals, "="⟩, ⟨.opening, "("⟩, ⟨.number, "3"⟩,
        ⟨.star, "*"⟩, ⟨.number, "44"⟩, ⟨.closing, ")"⟩]
    let tokens := before ++ [number, ⟨.plus, "+"⟩, ⟨.number, "1"⟩]
    let error : ParseError := ⟨.leftOver number, tokens, 13⟩
    tokenize code = .ok tokens ∧ parse tokens = .error error ∧
      ∃ excerpt column,
        error.message.toList.splitOn '\n' =
          ["[Parser error] Unexpected NUMBER '987654321012'".toList, excerpt,
            List.replicate column ' ' ++ ['^']] ∧
        excerpt.take column = "... (3 * 44) ".toList ∧
        excerpt.drop column = "9876543210...".toList := by
  intro code number before tokens error
  have htokens : tokenize code = .ok tokens := by decide +kernel
  have hparse : parse tokens = .error error := by decide +kernel
  have hnumber : tokens[error.index]? = some number := rfl
  have hspelling : spellChars (tokens.take 14) =
      "(value + 12); total = (3 * 44) ".toList ++ number.lexeme.toList := by decide +kernel
  have hwhole : spellChars tokens =
      "(value + 12); total = (3 * 44) ".toList ++ (number.lexeme.toList ++ " + 1".toList) := by
    decide +kernel
  have hheadline : ("[Parser error] " ++ error.reason).toList =
      "[Parser error] Unexpected NUMBER '987654321012'".toList := by decide +kernel
  obtain ⟨excerpt, column, hlines, _, hplace, _⟩ :=
    caret_under_offender code tokens error htokens hparse
  obtain ⟨_, front, behind, hfront, hall, htake, hdrop, _⟩ := hplace number hnumber
  obtain rfl := List.append_cancel_right (hspelling.symm.trans hfront)
  obtain rfl := List.append_cancel_left (List.append_cancel_left (hwhole.symm.trans hall))
  rw [hheadline] at hlines
  exact ⟨htokens, hparse, excerpt, column, hlines, htake.trans (by decide +kernel),
    hdrop.trans (by decide +kernel)⟩

end Abacus
