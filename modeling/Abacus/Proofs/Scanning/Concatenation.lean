import Abacus.Proofs.Scanning

namespace Abacus

open Text

namespace Token

def Parts (last next : Char) : Prop :=
  ¬ (last.isDigit = true ∧ next.isDigit = true) ∧ ¬ (last.isAlpha = true ∧ next.isAlpha = true)

def PartsAt (front back : List Char) : Prop :=
  ∀ last ∈ front.getLast?, ∀ next ∈ back.head?, Parts last next

theorem PartsAt.of_head {front back : List Char}
    (h : ∀ next ∈ back.head?, next.isAlphanum = false) : PartsAt front back := by
  intro last _ next hnext
  obtain ⟨halpha, hdigit⟩ := Bool.or_eq_false_iff.mp (h next hnext)
  simp [Parts, halpha, hdigit]

theorem PartsAt.of_suffix {front shorter back : List Char} (h : PartsAt front back)
    (hsuffix : shorter <:+ front) : PartsAt shorter back := by
  obtain ⟨before, rfl⟩ := hsuffix
  intro last hlast
  apply h last
  rw [List.getLast?_append, Option.mem_def.mp hlast]
  rfl

theorem run_append {p : Char → Bool} {c : Char} {front back : List Char} (hc : p c = true)
    (hback : ∀ last ∈ (c :: front).getLast?, ∀ next ∈ back.head?,
      ¬ (p last = true ∧ p next = true)) :
    (front ++ back).takeWhile p = front.takeWhile p ∧
      (front ++ back).dropWhile p = front.dropWhile p ++ back := by
  induction front generalizing c with
  | nil =>
      cases back with
      | nil => simp
      | cons next back =>
          have hnext := hback c rfl next rfl
          simp_all
  | cons d front ih =>
      by_cases hd : p d = true
      · obtain ⟨htake, hdrop⟩ := ih hd (by simpa using hback)
        simp [hd, htake, hdrop]
      · simp [hd]

theorem scan_append_of_run {p : Char → Bool} {kind : Kind}
    (hscan : ∀ {c : Char}, p c = true → ∀ rest, scan (c :: rest) =
      (⟨kind, String.ofList (c :: rest.takeWhile p)⟩ :: ·) <$> scan (rest.dropWhile p))
    (hp : ∀ {last next}, Parts last next → ¬ (p last = true ∧ p next = true))
    {c : Char} {front back : List Char} {tokens : List Token} (hc : p c = true)
    (h : scan (c :: front) = .ok tokens) (hparts : PartsAt (c :: front) back)
    (ih : ∀ {tokens}, scan (front.dropWhile p) = .ok tokens →
      PartsAt (front.dropWhile p) back →
      scan (front.dropWhile p ++ back) = (tokens ++ ·) <$> scan back) :
    scan (c :: front ++ back) = (tokens ++ ·) <$> scan back := by
  obtain ⟨htake, hdrop⟩ := run_append hc fun last hlast next hnext =>
    hp (hparts last hlast next hnext)
  have hrest : PartsAt (front.dropWhile p) back :=
    hparts.of_suffix ((List.dropWhile_suffix p).trans (List.suffix_cons c front))
  rw [hscan hc] at h
  obtain ⟨following, hfollowing, rfl⟩ := map_cons_eq_ok.mp h
  rw [List.cons_append, hscan hc, htake, hdrop, ih hfollowing hrest]
  simp

theorem scan_append {front back : List Char} {tokens : List Token}
    (h : scan front = .ok tokens) (hparts : PartsAt front back) :
    scan (front ++ back) = (tokens ++ ·) <$> scan back := by
  induction front using scan.induct generalizing tokens with
  | case1 =>
      rw [scan] at h
      cases h
      simp
  | case2 c rest hdigit ih => exact scan_append_of_run scan_digit And.left hdigit h hparts ih
  | case3 c rest _ hletter ih => exact scan_append_of_run scan_letter And.right hletter h hparts ih
  | case4 c rest _ _ kind hkind ih =>
      rw [scan_mark hkind] at h
      obtain ⟨following, hfollowing, rfl⟩ := map_cons_eq_ok.mp h
      rw [List.cons_append, scan_mark hkind,
        ih hfollowing (hparts.of_suffix (List.suffix_cons c rest))]
      simp
  | case5 c rest _ _ _ hblank ih =>
      rw [scan_blank hblank] at h
      rw [List.cons_append, scan_blank hblank]
      exact ih h (hparts.of_suffix (List.suffix_cons c rest))
  | case6 c rest hdigit hletter hkind hblank =>
      rw [scan_stop hdigit hletter hkind hblank] at h
      cases h

def marks : List Char := ['+', '-', '*', '/', '(', ')', '=', ';']

def IsKnown (c : Char) : Prop :=
  c.isDigit = true ∨ c.isAlpha = true ∨ isBlank c = true ∨ c ∈ marks

instance : DecidablePred IsKnown := fun _ => inferInstanceAs (Decidable (_ ∨ _))

theorem ofMark?_eq_none_iff {c : Char} : Kind.ofMark? c = none ↔ c ∉ marks := by
  unfold Kind.ofMark?
  split <;> simp_all [marks]

theorem exists_tokens_of_known {text : List Char} (h : ∀ c ∈ text, IsKnown c) :
    ∃ tokens, scan text = .ok tokens := by
  induction text using scan.induct with
  | case1 => exact ⟨[], by rw [scan]⟩
  | case2 c rest hdigit ih =>
      obtain ⟨tokens, htokens⟩ := ih fun d hd =>
        h d (List.mem_cons_of_mem c ((List.dropWhile_sublist _).subset hd))
      exact ⟨_, by rw [scan_digit hdigit, htokens]; rfl⟩
  | case3 c rest _ hletter ih =>
      obtain ⟨tokens, htokens⟩ := ih fun d hd =>
        h d (List.mem_cons_of_mem c ((List.dropWhile_sublist _).subset hd))
      exact ⟨_, by rw [scan_letter hletter, htokens]; rfl⟩
  | case4 c rest _ _ kind hkind ih =>
      obtain ⟨tokens, htokens⟩ := ih fun d hd => h d (List.mem_cons_of_mem c hd)
      exact ⟨_, by rw [scan_mark hkind, htokens]; rfl⟩
  | case5 c rest _ _ _ hblank ih =>
      rw [scan_blank hblank]
      exact ih fun d hd => h d (List.mem_cons_of_mem c hd)
  | case6 c rest hdigit hletter hkind hblank =>
      have hmark := ofMark?_eq_none_iff.mp hkind
      rcases h c List.mem_cons_self with hknown | hknown | hknown | hknown <;> contradiction

theorem scan_unknown {c : Char} (h : ¬ IsKnown c) (rest : List Char) :
    scan (c :: rest) = .error (c, rest) := by
  simp only [IsKnown, not_or, ← ofMark?_eq_none_iff] at h
  obtain ⟨hdigit, hletter, hblank, hmark⟩ := h
  exact scan_stop hdigit hletter hmark hblank rest

theorem scan_first_unknown {before rest : List Char} {c : Char}
    (hbefore : ∀ d ∈ before, IsKnown d) (hc : ¬ IsKnown c) :
    scan (before ++ c :: rest) = .error (c, rest) := by
  obtain ⟨tokens, htokens⟩ := exists_tokens_of_known hbefore
  have hother : c.isAlphanum = false := by
    rw [← Bool.not_eq_true, Char.isAlphanum, Bool.or_eq_true]
    intro halphanum
    exact hc (halphanum.elim (fun hletter => .inr (.inl hletter)) .inl)
  rw [scan_append htokens (.of_head (by simpa using hother)), scan_unknown hc]
  rfl

theorem exists_first_unknown {text : List Char} (h : ∃ c ∈ text, ¬ IsKnown c) :
    ∃ before c rest, text = before ++ c :: rest ∧ (∀ d ∈ before, IsKnown d) ∧ ¬ IsKnown c := by
  obtain ⟨c, hfind⟩ := Option.isSome_iff_exists.mp
    (List.find?_isSome (p := fun c => !decide (IsKnown c)).mpr (by simpa using h))
  obtain ⟨hc, before, rest, htext, hbefore⟩ := List.find?_eq_some_iff_append.mp hfind
  exact ⟨before, c, rest, htext, by simpa using hbefore, by simpa using hc⟩

end Token

theorem exists_lexError_iff {code : String} :
    (∃ error, tokenize code = .error error) ↔ ∃ c ∈ code.toList, ¬ Token.IsKnown c := by
  constructor
  · intro hrefused
    obtain ⟨error, herror⟩ := hrefused
    by_contra hnone
    obtain ⟨tokens, htokens⟩ := Token.exists_tokens_of_known fun c hc =>
      Decidable.byContradiction fun hunknown => hnone ⟨c, hc, hunknown⟩
    cases herror.symm.trans (tokenize_eq_ok_iff.mpr htokens)
  · intro hunknown
    obtain ⟨before, c, rest, htext, hbefore, hc⟩ := Token.exists_first_unknown hunknown
    exact ⟨_, by rw [tokenize, htext, Token.scan_first_unknown hbefore hc]⟩

end Abacus
