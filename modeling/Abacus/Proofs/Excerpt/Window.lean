import Abacus.Proofs.Excerpt

namespace Abacus

open Text

namespace Text.Excerpt

/-- The piece is the text from character `start` up to `finish`. An ellipsis stands on the sides on
which the text goes on, and on no others. -/
def Shows (excerpt : Excerpt) (text : List Char) (start finish : Int) : Prop :=
  ∃ before after, text = before ++ excerpt.piece ++ after ∧
    (before.length : Int) = start ∧ ((before ++ excerpt.piece).length : Int) = finish ∧
    excerpt.line =
      (if before = [] then [] else ellipsis) ++ excerpt.piece ++
        (if after = [] then [] else ellipsis)

section Around

variable {text : List Char} {index context : Int}

theorem take_append_drop_take {start finish : Nat} (h : start ≤ finish) (text : List Char) :
    text.take start ++ (text.take finish).drop start = text.take finish := by
  have htake : text.take start = (text.take finish).take start := by
    rw [List.take_take, Nat.min_eq_left h]
  rw [htake, List.take_append_drop]

theorem shows_of_bounds {excerpt : Excerpt} {start finish : Nat} (h : start ≤ finish)
    (hfinish : finish ≤ text.length) (hpiece : excerpt.piece = (text.take finish).drop start)
    (hbefore : excerpt.cutBefore = decide (0 < start))
    (hafter : excerpt.cutAfter = decide (finish < text.length)) :
    excerpt.Shows text start finish := by
  have hfront : text.take start ++ excerpt.piece = text.take finish := by
    rw [hpiece, take_append_drop_take h]
  have hstarts : text.take start = [] ↔ ¬ 0 < start := by
    rw [← List.length_eq_zero_iff, List.length_take]
    omega
  have hends : text.drop finish = [] ↔ ¬ finish < text.length := by
    rw [List.drop_eq_nil_iff, Nat.not_lt]
  refine ⟨text.take start, text.drop finish, ?_, ?_, ?_, ?_⟩
  · rw [hfront, List.take_append_drop]
  · rw [List.length_take, Nat.min_eq_left (Nat.le_trans h hfinish)]
  · rw [hfront, List.length_take, Nat.min_eq_left hfinish]
  · simp only [line, hbefore, hafter, hstarts, hends, decide_eq_true_eq, ite_not]

theorem shows_around (hcontext : 0 ≤ context) (hindex : 0 ≤ index)
    (h : index - context ≤ text.length) :
    (around text index context).Shows text (max 0 (index - context))
      (min text.length (index + context)) := by
  obtain ⟨start, hstart⟩ : ∃ start : Nat, max 0 (index - context) = start :=
    Int.eq_ofNat_of_zero_le (Int.le_max_left _ _)
  obtain ⟨finish, hfinish⟩ : ∃ finish : Nat, min (text.length : Int) (index + context) = finish :=
    Int.eq_ofNat_of_zero_le (by omega)
  rw [hstart, hfinish]
  apply shows_of_bounds
  · omega
  · omega
  · simp only [around, hstart, hfinish, Int.toNat_natCast, slice_natCast]
  · simp only [around, hstart, Int.natCast_pos]
  · simp only [around, hfinish, Int.ofNat_lt]

theorem Shows.length_piece {excerpt : Excerpt} {start finish : Int}
    (h : excerpt.Shows text start finish) : (excerpt.piece.length : Int) = finish - start := by
  obtain ⟨before, after, _, hstart, hfinish, _⟩ := h
  rw [List.length_append] at hfinish
  omega

theorem Shows.suffix {excerpt : Excerpt} {start : Int}
    (h : excerpt.Shows text start text.length) : excerpt.piece <:+ text := by
  obtain ⟨before, after, htext, _, hfinish, _⟩ := h
  have hlength := congrArg List.length htext
  rw [List.length_append] at hlength
  obtain rfl : after = [] := List.eq_nil_of_length_eq_zero (by omega)
  exact ⟨before, by rw [← List.append_nil (before ++ _), ← htext]⟩

theorem getElem?_column_around (hcontext : 1 ≤ context) (hindex : 0 ≤ index)
    (h : index < text.length) :
    ∃ c, text[index.toNat]? = some c ∧
      (around text index context).line[(around text index context).column]? = some c := by
  obtain ⟨place, rfl⟩ := Int.eq_ofNat_of_zero_le hindex
  obtain ⟨reach, rfl⟩ := Int.eq_ofNat_of_zero_le (Int.le_trans Int.one_nonneg hcontext)
  have hplace : place < text.length := Int.ofNat_lt.mp h
  have hfront : (text.take place).length = place := by
    rw [List.length_take, Nat.min_eq_left (Nat.le_of_lt hplace)]
  have htext : text = text.take place ++ text[place] :: text.drop (place + 1) := by
    rw [← List.drop_eq_getElem_cons, List.take_append_drop]
  have hmarked := getElem?_column_around_append (Int.ofNat_le.mp hcontext) (text.take place)
    (text.drop (place + 1)) text[place]
  rw [hfront, ← htext] at hmarked
  exact ⟨text[place], List.getElem?_eq_getElem hplace, hmarked⟩

theorem column_around_behind (hcontext : 0 ≤ context) (hindex : text.length ≤ index)
    (h : index - context ≤ text.length) :
    ((around text index context).column : Int) =
      (around text index context).line.length + (index - text.length) := by
  obtain ⟨past, hpast⟩ := Int.eq_ofNat_of_zero_le (Int.sub_nonneg.mpr hindex)
  obtain ⟨reach, rfl⟩ := Int.eq_ofNat_of_zero_le hcontext
  obtain rfl : index = (text.length + past : Nat) := by omega
  rw [column_around_past text reach (by omega)]
  omega

end Around

end Text.Excerpt

/-- Of a text, an excerpt shows the characters up to `context` places in front of an index and less
than that behind it, with an ellipsis where the text goes on. Its caret stands under the character
at the index, and past the end of the text as far behind the excerpt as the index is behind the
text. -/
theorem caret_marks_place (text : List Char) (index context : Int) (hcontext : 1 ≤ context) :
    let excerpt := Excerpt.around text index context
    excerpt.caretLine = List.replicate excerpt.column ' ' ++ ['^'] ∧
    (0 ≤ index → index < text.length →
      excerpt.Shows text (max 0 (index - context)) (min text.length (index + context)) ∧
        (excerpt.piece.length : Int) ≤ 2 * context ∧
        ∃ c, text[index.toNat]? = some c ∧ excerpt.line[excerpt.column]? = some c) ∧
    (text.length ≤ index → index - context ≤ text.length →
      excerpt.Shows text (max 0 (index - context)) text.length ∧ excerpt.piece <:+ text ∧
        excerpt.cutAfter = false ∧
        (excerpt.column : Int) = excerpt.line.length + (index - text.length)) := by
  intro excerpt
  refine ⟨rfl, ?_, ?_⟩
  · intro hindex hlt
    have hshows : excerpt.Shows text _ _ := Excerpt.shows_around (by omega) hindex (by omega)
    refine ⟨hshows, ?_, Excerpt.getElem?_column_around hcontext hindex hlt⟩
    rw [hshows.length_piece]
    omega
  · intro hindex hle
    have hshows : excerpt.Shows text _ _ := Excerpt.shows_around (by omega) (by omega) hle
    rw [Int.min_eq_left (by omega)] at hshows
    refine ⟨hshows, hshows.suffix, ?_, Excerpt.column_around_behind (by omega) hindex hle⟩
    exact decide_eq_false (by omega)

theorem caret_marks_place_of_asterisk :
    let text := "total = (3 + 4) * price".toList
    let inside := Excerpt.around text 16 5
    let behind := Excerpt.around text 25 5
    (1 : Int) ≤ 5 ∧ inside.line = "...+ 4) * pri...".toList ∧ inside.Shows text 11 21 ∧
      inside.line[inside.column]? = some '*' ∧
      behind.line = "...ice".toList ∧ (behind.column : Int) = behind.line.length + 2 := by
  intro text inside behind
  obtain ⟨_, hinside, _⟩ := caret_marks_place text 16 5 (by decide)
  obtain ⟨_, _, hbehind⟩ := caret_marks_place text 25 5 (by decide)
  obtain ⟨hshows, _, c, hc, hmarked⟩ := hinside (by decide) (by decide)
  cases hc
  obtain ⟨_, _, _, hcolumn⟩ := hbehind (by decide) (by decide)
  exact ⟨by decide, by decide, hshows, hmarked, by decide, hcolumn⟩

end Abacus
