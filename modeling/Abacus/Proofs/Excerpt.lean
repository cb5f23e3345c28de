import Abacus.Text.Excerpt
import Abacus.Text.Quoted

namespace Abacus

namespace Text

namespace Excerpt

/-! The line of an excerpt, taken apart at its caret. -/

def shownBefore (reach : Nat) (front : List Char) : List Char :=
  if reach < front.length then ellipsis ++ front.drop (front.length - reach) else front

def shownAfter (reach : Nat) (back : List Char) : List Char :=
  if reach < back.length then back.take reach ++ ellipsis else back

theorem take_prefix_shownAfter (reach : Nat) (back rest : List Char) :
    back.take reach <+: shownAfter reach (back ++ rest) := by
  unfold shownAfter
  split
  · rw [List.take_append, List.append_assoc]
    exact List.prefix_append _ _
  · exact (List.take_prefix reach back).trans (List.prefix_append back rest)

theorem head?_shownAfter {reach : Nat} (hreach : 0 < reach) (c : Char) (back : List Char) :
    (shownAfter reach (c :: back)).head? = some c := by
  obtain ⟨reach, rfl⟩ := Nat.exists_eq_add_one_of_ne_zero (Nat.ne_of_gt hreach)
  unfold shownAfter
  split <;> rfl

theorem slice_natCast (text : List Char) (start finish : Nat) :
    slice text start finish = (text.take finish).drop start := by
  rw [slice, if_neg (by omega), Int.toNat_natCast]

section Around

variable (front back text : List Char) (reach : Nat)

theorem around_append :
    around (front ++ back) front.length reach =
      { cutBefore := decide (reach < front.length)
        piece := front.drop (front.length - reach) ++ back.take reach
        cutAfter := decide (reach < back.length)
        column := (shownBefore reach front).length } := by
  have hstart : (max 0 ((front.length : Int) - reach)).toNat = front.length - reach := by omega
  have hpos : 0 < max 0 ((front.length : Int) - reach) ↔ reach < front.length := by omega
  have hfinish : min ((front.length + back.length : Nat) : Int) (front.length + reach) =
      (front.length + min reach back.length : Nat) := by omega
  simp only [around, List.length_append, hpos, hstart, hfinish, mk.injEq, decide_eq_decide,
    true_and]
  refine ⟨?_, by omega, ?_⟩
  · rw [slice_natCast, List.take_length_add_append,
      List.drop_append_of_le_length (Nat.sub_le _ _), ← List.take_eq_take_min]
  · unfold shownBefore
    by_cases hcut : reach < front.length
    · simp only [hcut, if_true, List.length_append, List.length_drop]
      omega
    · simp only [hcut, if_false]
      omega

theorem line_around_append :
    (around (front ++ back) front.length reach).line =
      shownBefore reach front ++ shownAfter reach back := by
  rw [around_append, line, shownBefore, shownAfter]
  by_cases hbefore : reach < front.length
  · by_cases hafter : reach < back.length
    · simp [hbefore, hafter]
    · simp [hbefore, hafter, List.take_of_length_le (Nat.le_of_not_lt hafter)]
  · have hnone : front.length - reach = 0 := by omega
    by_cases hafter : reach < back.length
    · simp [hbefore, hafter, hnone]
    · simp [hbefore, hafter, hnone, List.take_of_length_le (Nat.le_of_not_lt hafter)]

theorem take_column_around_append :
    (around (front ++ back) front.length reach).line.take
      (around (front ++ back) front.length reach).column = shownBefore reach front := by
  rw [line_around_append, around_append, List.take_left]

theorem drop_column_around_append :
    (around (front ++ back) front.length reach).line.drop
      (around (front ++ back) front.length reach).column = shownAfter reach back := by
  rw [line_around_append, around_append, List.drop_left]

theorem getElem?_column_around_append {reach : Nat} (hreach : 0 < reach) (front back : List Char)
    (c : Char) :
    (around (front ++ c :: back) front.length reach).line[
      (around (front ++ c :: back) front.length reach).column]? = some c := by
  rw [← List.head?_drop, drop_column_around_append, head?_shownAfter hreach]

theorem column_around_past {past : Nat} (h : past ≤ reach) :
    (around text (text.length + past : Nat) reach).column =
      (around text (text.length + past : Nat) reach).line.length + past := by
  have hpos : 0 < max 0 (((text.length + past : Nat) : Int) - reach) ↔
      reach < text.length + past := by omega
  have hstart : (max 0 (((text.length + past : Nat) : Int) - reach)).toNat =
      text.length + past - reach := by omega
  have hfinish : min (text.length : Int) ((text.length + past : Nat) + reach) = text.length := by
    omega
  simp only [around, line, hpos, hstart, hfinish, slice_natCast, List.take_length]
  by_cases hcut : reach < text.length + past
  · simp [hcut, ellipsis]
    omega
  · simp [hcut]
    omega

theorem mem_line_around {text : List Char} {index context : Int} {c : Char}
    (h : c ∈ (around text index context).line) : c = '.' ∨ c ∈ text := by
  have hdots : ∀ {cut : Bool}, c ∈ (if cut then ellipsis else []) → c = '.' := by
    intro cut hc
    cases cut <;> simp_all [ellipsis]
  rcases List.mem_append.mp h with hfront | hafter
  · rcases List.mem_append.mp hfront with hbefore | hpiece
    · exact .inl (hdots hbefore)
    · exact .inr (List.mem_of_mem_take (List.mem_of_mem_drop hpiece))
  · exact .inl (hdots hafter)

end Around

theorem splitOn_under {excerpt : Excerpt} {headline : String} (hheadline : '\n' ∉ headline.toList) :
    (excerpt.under headline).toList.splitOn '\n' =
      headline.toList ::
        (excerpt.line.splitOn '\n' ++ [List.replicate excerpt.column ' ' ++ ['^']]) := by
  have hcaret : '\n' ∉ excerpt.caretLine := by simp [caretLine]
  have htext : (excerpt.under headline).toList =
      headline.toList ++ '\n' :: (excerpt.line ++ '\n' :: excerpt.caretLine) := by
    simp [under]
  rw [htext, List.splitOn_append_cons_self_of_not_mem hheadline, List.splitOn_append_cons_self,
    List.splitOn_eq_singleton hcaret, caretLine]

end Excerpt

theorem newline_not_mem_hexDigits (width n : Nat) : '\n' ∉ hexDigits width n := by
  have hdigit : ∀ digit < 16, Nat.digitChar digit ≠ '\n' := by decide
  induction width generalizing n with
  | zero => simp [hexDigits]
  | succ width ih =>
      have hlast := hdigit (n % 16) (Nat.mod_lt n (by decide))
      simp [hexDigits, ih, hlast.symm]

theorem newline_not_mem_escape {mark : Char} (hmark : mark ≠ '\n') (c : Char) :
    '\n' ∉ escape mark c := by
  unfold escape
  split
  · next hspecial =>
      rcases hspecial with rfl | rfl
      · simp [hmark.symm]
      · simp
  split
  · simp
  next hnewline =>
    repeat' split
    all_goals simp [newline_not_mem_hexDigits, Ne.symm hnewline]

theorem newline_not_mem_quote (text : List Char) : '\n' ∉ quote text := by
  have hmark : quoteMark text ≠ '\n' := by
    unfold quoteMark
    split <;> decide
  simp [quote, newline_not_mem_escape hmark, hmark.symm]

theorem newline_not_mem_quoted (text : String) : '\n' ∉ (quoted text).toList := by
  rw [quoted, String.toList_ofList]
  exact newline_not_mem_quote text.toList

theorem newline_not_mem_append {front back : String} (hfront : '\n' ∉ front.toList)
    (hback : '\n' ∉ back.toList) : '\n' ∉ (front ++ back).toList := by
  rw [String.toList_append]
  exact List.not_mem_append hfront hback

end Text

end Abacus
