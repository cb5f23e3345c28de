import Abacus.Proofs.Excerpt
import Abacus.Proofs.Scanning.Segmentation
import Mathlib.Data.List.DropRight

namespace Abacus

open Text

namespace Text

def lastLine (text : List Char) : List Char :=
  text.rtakeWhile (· ≠ '\n')

theorem lastLine_of_not_mem {text : List Char} (h : '\n' ∉ text) : lastLine text = text := by
  apply List.rtakeWhile_eq_self_iff.mpr
  intro c hc
  exact decide_eq_true (ne_of_mem_of_not_mem hc h)

theorem newline_not_mem_lastLine (text : List Char) : '\n' ∉ lastLine text := by
  intro hmem
  simpa using List.mem_rtakeWhile_imp hmem

theorem exists_eq_append_lastLine {text : List Char} (h : '\n' ∈ text) :
    ∃ above, text = above ++ '\n' :: lastLine text := by
  have hsome : text.rdropWhile (· ≠ '\n') ≠ [] := by
    intro hnone
    simpa using List.rdropWhile_eq_nil_iff.mp hnone '\n' h
  have hbreak : (text.rdropWhile (· ≠ '\n')).getLast hsome = '\n' := by
    simpa using List.rdropWhile_last_not (· ≠ '\n') text hsome
  have hfront := List.dropLast_append_getLast hsome
  have hwhole : text.rdropWhile (· ≠ '\n') ++ lastLine text = text :=
    List.rdropWhile_append_rtakeWhile
  rw [hbreak] at hfront
  rw [← hfront, List.append_assoc] at hwhole
  exact ⟨_, hwhole.symm⟩

theorem exists_splitOn_eq (text : List Char) :
    ∃ above, text.splitOn '\n' = above ++ [lastLine text] := by
  by_cases h : '\n' ∈ text
  · obtain ⟨above, htext⟩ := exists_eq_append_lastLine h
    have hlast := List.splitOn_eq_singleton (newline_not_mem_lastLine text)
    exact ⟨above.splitOn '\n', by
      conv_lhs => rw [htext]
      rw [List.splitOn_append_cons_self, hlast]⟩
  · exact ⟨[], by rw [List.splitOn_eq_singleton h, lastLine_of_not_mem h, List.nil_append]⟩

/-- The last line is a caret behind blanks, and the caret stands under `c` in the line above it. -/
def CaretUnder (lines : List (List Char)) (c : Char) : Prop :=
  ∃ above shown column, lines = above ++ [shown, List.replicate column ' ' ++ ['^']] ∧
    shown[column]? = some c

theorem caretUnder_append_iff {above : List (List Char)} {shown : List Char} {column : Nat}
    {c : Char} :
    CaretUnder (above ++ [shown, List.replicate column ' ' ++ ['^']]) c ↔
      shown[column]? = some c := by
  constructor
  · rintro ⟨above', shown', column', hlines, hc⟩
    obtain ⟨_, hlast⟩ := List.append_inj' hlines rfl
    simp only [List.cons.injEq, List.append_cancel_right_eq, and_true] at hlast
    obtain ⟨rfl, hcolumn⟩ := hlast
    have hlength := congrArg List.length hcolumn
    simp only [List.length_replicate] at hlength
    rwa [hlength]
  · intro hc
    exact ⟨above, shown, column, rfl, hc⟩

theorem Excerpt.caretUnder_iff (excerpt : Excerpt) {headline : String}
    (hheadline : '\n' ∉ headline.toList) (c : Char) :
    CaretUnder ((excerpt.under headline).toList.splitOn '\n') c ↔
      (lastLine excerpt.line)[excerpt.column]? = some c := by
  obtain ⟨above, hline⟩ := exists_splitOn_eq excerpt.line
  rw [splitOn_under hheadline, hline, List.append_assoc, ← List.cons_append,
    List.singleton_append, caretUnder_append_iff]

theorem Excerpt.newline_not_mem_line {excerpt : Excerpt} (h : '\n' ∉ excerpt.piece) :
    '\n' ∉ excerpt.line := by
  have hdots (cut : Bool) : '\n' ∉ if cut then ellipsis else [] := by cases cut <;> decide
  exact List.not_mem_append (List.not_mem_append (hdots _) h) (hdots _)

end Text

namespace LexError

def excerpt (error : LexError) : Excerpt :=
  .around error.code.toList error.index Excerpt.reach

theorem newline_not_mem_headline (error : LexError) :
    '\n' ∉ ("[Tokenizer error] " ++ error.reason).toList :=
  newline_not_mem_append (by decide)
    (newline_not_mem_append (by decide) (newline_not_mem_quoted error.char.toString))

theorem getElem?_column_of_tokenize {code : String} {error : LexError}
    (h : tokenize code = .error error) :
    error.excerpt.line[error.excerpt.column]? = some error.char := by
  obtain ⟨front, c, back, htext, hfront, hc⟩ :=
    Token.exists_first_unknown (exists_lexError_iff.mp ⟨error, h⟩)
  cases h.symm.trans (tokenize_first_unknown htext hfront hc)
  rw [excerpt, htext]
  exact Excerpt.getElem?_column_around_append (by decide : 0 < 10) front back c

end LexError

/-- A text with an unknown character is refused with the reason, the lines of an excerpt, and the
caret. The caret is as far from the start of its line as the character is from the start of the
excerpt. So it stands under the character where the last line of the excerpt has that character
there, and it does so if the excerpt is one line. -/
theorem caret_under_unknown_iff (code : String) (error : LexError)
    (h : tokenize code = .error error) :
    error.message.toList.splitOn '\n' = ("[Tokenizer error] " ++ error.reason).toList ::
        (error.excerpt.line.splitOn '\n' ++
          [List.replicate error.excerpt.column ' ' ++ ['^']]) ∧
      error.excerpt.line[error.excerpt.column]? = some error.char ∧
      (CaretUnder (error.message.toList.splitOn '\n') error.char ↔
        (lastLine error.excerpt.line)[error.excerpt.column]? = some error.char) ∧
      ('\n' ∉ error.excerpt.piece →
        CaretUnder (error.message.toList.splitOn '\n') error.char) := by
  have hplace := LexError.getElem?_column_of_tokenize h
  have hcaret := error.excerpt.caretUnder_iff error.newline_not_mem_headline error.char
  refine ⟨Excerpt.splitOn_under error.newline_not_mem_headline, hplace, hcaret, ?_⟩
  intro hpiece
  apply hcaret.mpr
  rw [lastLine_of_not_mem (Excerpt.newline_not_mem_line hpiece), hplace]

theorem caret_under_unknown_on_third_line :
    let code := "total = 12;\nprice = 7;\ntotal * (price $ 3) + total;\n0"
    let error : LexError := ⟨code, 38, '$'⟩
    tokenize code = .error error ∧ '\n' ∉ error.excerpt.piece ∧
      CaretUnder (error.message.toList.splitOn '\n') '$' := by
  intro code error
  have herror : tokenize code = .error error := by decide +kernel
  have hpiece : '\n' ∉ error.excerpt.piece := by decide +kernel
  exact ⟨herror, hpiece, (caret_under_unknown_iff code error herror).2.2.2 hpiece⟩

/-- In `x = 1` and `y & 2` on two lines, the caret stands past the end of the second line. -/
theorem caret_not_under_unknown_behind_line_break :
    let code := "x = 1\ny & 2"
    let error : LexError := ⟨code, 8, '&'⟩
    tokenize code = .error error ∧
      error.message.toList.splitOn '\n' =
        ["[Tokenizer error] Unknown character: '&'".toList, "x = 1".toList, "y & 2".toList,
          "        ^".toList] ∧
      ¬ CaretUnder (error.message.toList.splitOn '\n') '&' := by
  intro code error
  refine ⟨by decide +kernel, by decide +kernel, fun hcaret => ?_⟩
  have hplace := (error.excerpt.caretUnder_iff error.newline_not_mem_headline '&').mp hcaret
  have hnone : (lastLine error.excerpt.line)[error.excerpt.column]? = none := by decide +kernel
  cases hnone.symm.trans hplace

end Abacus
