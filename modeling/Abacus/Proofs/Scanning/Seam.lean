import Abacus.Proofs.Scanning.Segmentation
import Mathlib.Data.List.DropRight

namespace Abacus

open Text Grammar

namespace Token

/-- A run of these characters is parted between the front and the back. -/
def RunsOver (p : Char → Bool) (front back : List Char) : Prop :=
  ∃ last ∈ front.getLast?, ∃ next ∈ back.head?, p last = true ∧ p next = true

theorem partsAt_iff {front back : List Char} :
    PartsAt front back ↔
      ¬ RunsOver Char.isDigit front back ∧ ¬ RunsOver Char.isAlpha front back := by
  constructor
  · intro h
    constructor
    · rintro ⟨last, hlast, next, hnext, hruns⟩
      exact (h last hlast next hnext).1 hruns
    · rintro ⟨last, hlast, next, hnext, hruns⟩
      exact (h last hlast next hnext).2 hruns
  · intro h last hlast next hnext
    exact ⟨fun hruns => h.1 ⟨last, hlast, next, hnext, hruns⟩,
      fun hruns => h.2 ⟨last, hlast, next, hnext, hruns⟩⟩

theorem RunsOver.not_letters {front back : List Char} (h : RunsOver Char.isDigit front back) :
    ¬ RunsOver Char.isAlpha front back := by
  obtain ⟨last, hlast, _, _, hdigit, _⟩ := h
  rintro ⟨other, hother, _, _, hletter, _⟩
  cases hlast.symm.trans hother
  exact not_isDigit_of_isAlpha hletter hdigit

theorem parts_of_digit {last next : Char} (hlast : last.isDigit = false)
    (hnext : next.isDigit = true) : Parts last next := by
  simp [Parts, hlast, isAlpha_eq_false_of_isDigit hnext]

theorem parts_of_letter {last next : Char} (hlast : last.isAlpha = false)
    (hnext : next.isAlpha = true) : Parts last next := by
  simp [Parts, hlast, not_isDigit_of_isAlpha hnext]

/-- The tokens of both lists in a row, the last one of the first list and the first one of the
second being one token of this kind. -/
def JoinedAs (kind : Kind) (first second whole : List Token) : Prop :=
  ∃ before left right after, first = before ++ [⟨kind, left⟩] ∧ second = ⟨kind, right⟩ :: after ∧
    whole = before ++ ⟨kind, left ++ right⟩ :: after

theorem JoinedAs.ne_append {kind : Kind} {first second whole : List Token}
    (h : JoinedAs kind first second whole) : whole ≠ first ++ second := by
  obtain ⟨before, left, right, after, rfl, rfl, rfl⟩ := h
  intro hsame
  have hlength := congrArg List.length hsame
  simp only [List.length_append, List.length_cons, List.length_nil] at hlength
  omega

theorem IsRun.append {p : Char → Bool} {left right : String} (hleft : IsRun p left)
    (hright : ∀ c ∈ right.toList, p c = true) : IsRun p (left ++ right) := by
  constructor
  · intro hempty
    have hlist := congrArg String.toList hempty
    rw [String.toList_append] at hlist
    exact hleft.1 (String.toList_eq_nil_iff.mp (List.append_eq_nil_iff.mp hlist).1)
  · rw [String.toList_append]
    exact List.forall_mem_append.mpr ⟨hleft.2, hright⟩

theorem IsRun.of_mem_head? {p : Char → Bool} {run : String} (h : IsRun p run) {rest : List Char} :
    ∀ c ∈ (run.toList ++ rest).head?, p c = true := by
  have hsome : run.toList ≠ [] := fun hnil => h.1 (String.toList_eq_nil_iff.mp hnil)
  intro c hc
  rw [List.head?_append_of_ne_nil _ hsome] at hc
  exact h.2 c (List.mem_of_mem_head? hc)

theorem isKnown_of_scan {text : List Char} {tokens : List Token} (h : scan text = .ok tokens) :
    ∀ c ∈ text, IsKnown c := by
  intro c hc
  by_contra hunknown
  obtain ⟨before, d, rest, rfl, hbefore, hd⟩ := exists_first_unknown ⟨c, hc, hunknown⟩
  cases h.symm.trans (scan_first_unknown hbefore hd)

section Run

variable {p : Char → Bool} {kind : Kind} {front back : List Char}

theorem RunsOver.exists_left (h : RunsOver p front back) :
    ∃ before left, front = before ++ String.toList left ∧ IsRun p left ∧
      ∀ last ∈ before.getLast?, p last = false := by
  obtain ⟨last, hlast, _, _, hp, _⟩ := h
  obtain ⟨rest, rfl⟩ := List.getLast?_eq_some_iff.mp hlast
  have hrun := List.rtakeWhile_concat_pos p rest last hp
  refine ⟨(rest ++ [last]).rdropWhile p, String.ofList (rest.rtakeWhile p ++ [last]), ?_,
    ⟨by simp, ?_⟩, ?_⟩
  · rw [String.toList_ofList, ← hrun, List.rdropWhile_append_rtakeWhile]
  · intro c hc
    rw [String.toList_ofList, ← hrun] at hc
    exact List.mem_rtakeWhile_imp hc
  · intro other hother
    obtain ⟨hsome, rfl⟩ := List.mem_getLast?_eq_getLast hother
    exact Bool.eq_false_iff.mpr (List.rdropWhile_last_not p _ hsome)

theorem RunsOver.exists_right (h : RunsOver p front back) :
    ∃ right after, back = String.toList right ++ after ∧ IsRun p right ∧
      ∀ next ∈ after.head?, p next = false := by
  obtain ⟨_, _, next, hnext, _, hp⟩ := h
  obtain ⟨rest, rfl⟩ := List.head?_eq_some_iff.mp hnext
  refine ⟨String.ofList (next :: rest.takeWhile p), rest.dropWhile p, ?_,
    isRun_takeWhile hp rest, ?_⟩
  · rw [String.toList_ofList, List.cons_append, List.takeWhile_append_dropWhile]
  · intro other hother
    have hstop := List.head?_dropWhile_not p rest
    rwa [Option.mem_def.mp hother] at hstop

theorem scan_append_of_runsOver
    (hscan : ∀ {c : Char}, p c = true → ∀ rest, scan (c :: rest) =
      (⟨kind, String.ofList (c :: rest.takeWhile p)⟩ :: ·) <$> scan (rest.dropWhile p))
    (hparts : ∀ {last next}, p last = false → p next = true → Parts last next)
    {first second : List Token} (h : RunsOver p front back) (hfront : scan front = .ok first)
    (hback : scan back = .ok second) :
    ∃ whole, scan (front ++ back) = .ok whole ∧ JoinedAs kind first second whole := by
  obtain ⟨before, left, rfl, hleft, hbefore⟩ := h.exists_left
  obtain ⟨right, after, rfl, hright, hafter⟩ := h.exists_right
  have hnil : scan [] = .ok [] := by rw [scan]
  -- What stands in front of the run is scanned by itself, whatever part of the run follows it.
  obtain ⟨tokens, htokens⟩ := exists_tokens_of_known fun c hc =>
    isKnown_of_scan hfront c (List.mem_append_left _ hc)
  have hapart {run : String} (hrun : IsRun p run) (rest : List Char) :
      PartsAt before (run.toList ++ rest) :=
    fun last hlast next hnext => hparts (hbefore last hlast) (hrun.of_mem_head? next hnext)
  rw [scan_run_append hscan hright hafter] at hback
  obtain ⟨following, hfollowing, rfl⟩ := map_cons_eq_ok.mp hback
  have hfirst : first = tokens ++ [⟨kind, left⟩] := by
    have hwhole := scan_append htokens (hapart hleft [])
    rw [scan_run_append hscan hleft (by simp), hnil, List.append_nil, hfront] at hwhole
    exact Except.ok.inj hwhole
  have hjoined : IsRun p (left ++ right) := hleft.append hright.2
  refine ⟨tokens ++ ⟨kind, left ++ right⟩ :: following, ?_,
    tokens, left, right, following, hfirst, rfl, rfl⟩
  have hwhole := scan_append htokens (hapart hjoined after)
  rw [scan_run_append hscan hjoined hafter, hfollowing, String.toList_append,
    List.append_assoc] at hwhole
  rw [List.append_assoc, hwhole]
  rfl

end Run

theorem PartsAt.insert {front blanks back : List Char} (h : PartsAt front back)
    (hblanks : ∀ c ∈ blanks, isBlank c = true) : PartsAt front (blanks ++ back) := by
  cases blanks with
  | nil => exact h
  | cons c blanks =>
      apply PartsAt.of_head
      intro next hnext
      cases hnext
      exact isAlphanum_eq_false_of_isBlank (hblanks c List.mem_cons_self)

end Token

open Token

variable {a b : String}

theorem tokenize_append_of_error {error : LexError} (h : tokenize a = .error error) (b : String) :
    tokenize (a ++ b) = .error { error with code := a ++ b } := by
  obtain ⟨before, c, rest, htext, hbefore, hc⟩ :=
    exists_first_unknown (exists_lexError_iff.mp ⟨error, h⟩)
  cases h.symm.trans (tokenize_first_unknown htext hbefore hc)
  have hwhole : (a ++ b).toList = before ++ c :: (rest ++ b.toList) := by
    rw [String.toList_append, htext, List.append_assoc, List.cons_append]
  exact tokenize_first_unknown hwhole hbefore hc

theorem tokenize_append_of_error_behind {tokens : List Token} {error : LexError}
    (htokens : tokenize a = .ok tokens) (h : tokenize b = .error error) :
    tokenize (a ++ b) = .error ⟨a ++ b, a.length + error.index, error.char⟩ := by
  obtain ⟨before, c, rest, htext, hbefore, hc⟩ :=
    exists_first_unknown (exists_lexError_iff.mp ⟨error, h⟩)
  cases h.symm.trans (tokenize_first_unknown htext hbefore hc)
  have hknown : ∀ d ∈ a.toList ++ before, IsKnown d :=
    List.forall_mem_append.mpr ⟨isKnown_of_scan (tokenize_eq_ok_iff.mp htokens), hbefore⟩
  have hwhole : (a ++ b).toList = a.toList ++ before ++ c :: rest := by
    rw [String.toList_append, htext, List.append_assoc]
  rw [tokenize_first_unknown hwhole hknown hc, List.length_append, String.length_toList]

theorem tokenize_insert {blanks : String} (hblanks : ∀ c ∈ blanks.toList, isBlank c = true)
    (hparts : PartsAt a.toList b.toList) {tokens : List Token} :
    tokenize (a ++ (blanks ++ b)) = .ok tokens ↔ tokenize (a ++ b) = .ok tokens := by
  cases ha : tokenize a with
  | error error => simp [tokenize_append_of_error ha]
  | ok first =>
      have hscan := tokenize_eq_ok_iff.mp ha
      rw [tokenize_eq_ok_iff, tokenize_eq_ok_iff, String.toList_append, String.toList_append,
        String.toList_append, scan_append hscan hparts, scan_append hscan (hparts.insert hblanks),
        scan_blanks_append hblanks]

/-- A text that is put behind another one leaves an unknown character of that where it is, and has
its own moved behind it. If both can be cut into tokens, so can the whole, and into the same ones,
but for a number or a name that goes on from the one text into the other and is one token then.
Blanks make no difference anywhere else. -/
theorem tokenizing_concatenation (a b : String) :
    (∀ error, tokenize a = .error error →
        tokenize (a ++ b) = .error { error with code := a ++ b }) ∧
      (∀ first error, tokenize a = .ok first → tokenize b = .error error →
        tokenize (a ++ b) = .error ⟨a ++ b, a.length + error.index, error.char⟩) ∧
      (∀ first second, tokenize a = .ok first → tokenize b = .ok second →
        ∃ whole, tokenize (a ++ b) = .ok whole ∧
          (RunsOver Char.isDigit a.toList b.toList → JoinedAs .number first second whole) ∧
          (RunsOver Char.isAlpha a.toList b.toList → JoinedAs .name first second whole) ∧
          (whole = first ++ second ↔
            ¬ RunsOver Char.isDigit a.toList b.toList ∧
              ¬ RunsOver Char.isAlpha a.toList b.toList)) ∧
      ∀ blanks : String, (∀ c ∈ blanks.toList, isBlank c = true) →
        ¬ RunsOver Char.isDigit a.toList b.toList → ¬ RunsOver Char.isAlpha a.toList b.toList →
        ∀ tokens, tokenize (a ++ (blanks ++ b)) = .ok tokens ↔ tokenize (a ++ b) = .ok tokens := by
  refine ⟨fun error h => tokenize_append_of_error h b,
    fun first error => tokenize_append_of_error_behind, ?_, ?_⟩
  · intro first second ha hb
    simp only [tokenize_eq_ok_iff, String.toList_append] at ha hb ⊢
    by_cases hdigit : RunsOver Char.isDigit a.toList b.toList
    · obtain ⟨whole, hwhole, hjoined⟩ :=
        scan_append_of_runsOver scan_digit parts_of_digit hdigit ha hb
      exact ⟨whole, hwhole, fun _ => hjoined, fun hletter => absurd hletter hdigit.not_letters,
        iff_of_false hjoined.ne_append fun hnone => hnone.1 hdigit⟩
    by_cases hletter : RunsOver Char.isAlpha a.toList b.toList
    · obtain ⟨whole, hwhole, hjoined⟩ :=
        scan_append_of_runsOver scan_letter parts_of_letter hletter ha hb
      exact ⟨whole, hwhole, fun hnumber => absurd hnumber hdigit, fun _ => hjoined,
        iff_of_false hjoined.ne_append fun hnone => hnone.2 hletter⟩
    have hwhole := scan_append ha (partsAt_iff.mpr ⟨hdigit, hletter⟩)
    rw [hb] at hwhole
    exact ⟨first ++ second, hwhole, fun hnumber => absurd hnumber hdigit,
      fun hname => absurd hname hletter, iff_of_true rfl ⟨hdigit, hletter⟩⟩
  · intro blanks hblanks hdigit hletter tokens
    exact tokenize_insert hblanks (partsAt_iff.mpr ⟨hdigit, hletter⟩)

end Abacus
