import Abacus.Token.Lexer
import Abacus.Proofs.Reading.Numeral
import Mathlib.Data.List.TakeWhile

namespace Abacus

open Text Grammar

namespace Token

theorem toNat_of_isAlpha {c : Char} (h : c.isAlpha = true) : 65 ≤ c.toNat ∧ c.toNat ≤ 122 := by
  have hbounds : 'A'.val ≤ c.val ∧ c.val ≤ 'Z'.val ∨ 'a'.val ≤ c.val ∧ c.val ≤ 'z'.val := by
    rcases Bool.or_eq_true_iff.mp h with hupper | hlower
    · exact .inl (of_decide_eq_true hupper)
    · obtain ⟨hlow, hhigh⟩ := Bool.and_eq_true_iff.mp hlower
      exact .inr ⟨of_decide_eq_true hlow, of_decide_eq_true hhigh⟩
  simp only [UInt32.le_iff_toNat_le] at hbounds
  change 65 ≤ c.toNat ∧ c.toNat ≤ 90 ∨ 97 ≤ c.toNat ∧ c.toNat ≤ 122 at hbounds
  omega

theorem isAlpha_eq_false_of_isDigit {c : Char} (h : c.isDigit = true) : c.isAlpha = false := by
  apply Bool.eq_false_iff.mpr
  intro hletter
  have hdigit := toNat_of_isDigit h
  have hbounds := toNat_of_isAlpha hletter
  omega

theorem not_isDigit_of_isAlpha {c : Char} (h : c.isAlpha = true) : ¬ c.isDigit = true := by
  intro hdigit
  rw [isAlpha_eq_false_of_isDigit hdigit] at h
  cases h

theorem isAlphanum_eq_false_of_isBlank {c : Char} (h : isBlank c = true) :
    c.isAlphanum = false := by
  apply Bool.eq_false_iff.mpr
  intro halphanum
  rcases Bool.or_eq_true_iff.mp halphanum with hletter | hdigit
  · have hbounds := toNat_of_isAlpha hletter
    simp only [isBlank] at h
    grind
  · rw [isBlank_eq_false_of_isDigit hdigit] at h
    cases h

theorem not_isAlphanum_of_ofMark? {c : Char} {kind : Kind} (h : Kind.ofMark? c = some kind) :
    c.isAlphanum = false := by
  unfold Kind.ofMark? at h
  split at h <;> first | rfl | cases h

theorem Kind.ofMark?_of_isBlank {c : Char} (h : isBlank c = true) : ofMark? c = none := by
  unfold ofMark?
  split <;> first | rfl | cases h

theorem Kind.ne_of_ofMark? {c : Char} {kind : Kind} (h : ofMark? c = some kind) :
    kind ≠ .number ∧ kind ≠ .name := by
  unfold ofMark? at h
  split at h <;> cases h <;> exact ⟨nofun, nofun⟩

theorem scan_digit {c : Char} (h : c.isDigit = true) (rest : List Char) :
    scan (c :: rest) =
      (⟨.number, String.ofList (c :: rest.takeWhile Char.isDigit)⟩ :: ·) <$>
        scan (rest.dropWhile Char.isDigit) := by
  rw [scan, if_pos h]

theorem scan_letter {c : Char} (h : c.isAlpha = true) (rest : List Char) :
    scan (c :: rest) =
      (⟨.name, String.ofList (c :: rest.takeWhile Char.isAlpha)⟩ :: ·) <$>
        scan (rest.dropWhile Char.isAlpha) := by
  rw [scan, if_neg (not_isDigit_of_isAlpha h), if_pos h]

theorem scan_other {c : Char} (h : c.isAlphanum = false) (rest : List Char) :
    scan (c :: rest) =
      match Kind.ofMark? c with
      | some kind => (⟨kind, c.toString⟩ :: ·) <$> scan rest
      | none => if isBlank c then scan rest else .error (c, rest) := by
  obtain ⟨halpha, hdigit⟩ := Bool.or_eq_false_iff.mp h
  have hscan := scan.eq_2 c rest
  rw [if_neg (by simp [hdigit]), if_neg (by simp [halpha])] at hscan
  exact hscan

theorem scan_mark {c : Char} {kind : Kind} (h : Kind.ofMark? c = some kind) (rest : List Char) :
    scan (c :: rest) = (⟨kind, c.toString⟩ :: ·) <$> scan rest := by
  rw [scan_other (not_isAlphanum_of_ofMark? h), h]

theorem scan_blank {c : Char} (h : isBlank c = true) (rest : List Char) :
    scan (c :: rest) = scan rest := by
  rw [scan_other (isAlphanum_eq_false_of_isBlank h), Kind.ofMark?_of_isBlank h]
  exact if_pos h

theorem scan_space (rest : List Char) : scan (' ' :: rest) = scan rest :=
  scan_blank rfl rest

theorem scan_stop {c : Char} (hdigit : ¬ c.isDigit = true) (hletter : ¬ c.isAlpha = true)
    (hmark : Kind.ofMark? c = none) (hblank : ¬ isBlank c = true) (rest : List Char) :
    scan (c :: rest) = .error (c, rest) := by
  rw [scan, if_neg hdigit, if_neg hletter, hmark]
  exact if_neg hblank

def IsRun (p : Char → Bool) (lexeme : String) : Prop :=
  lexeme ≠ "" ∧ ∀ c ∈ lexeme.toList, p c = true

instance (p : Char → Bool) (lexeme : String) : Decidable (IsRun p lexeme) :=
  have := List.decidableBAll (fun c : Char => p c = true) lexeme.toList
  inferInstanceAs (Decidable (_ ∧ _))

abbrev IsName (lexeme : String) : Prop :=
  IsRun Char.isAlpha lexeme

theorem isRun_takeWhile {p : Char → Bool} {c : Char} (h : p c = true) (rest : List Char) :
    IsRun p (String.ofList (c :: rest.takeWhile p)) := by
  constructor
  · simp
  · intro d hd
    rw [String.toList_ofList, List.mem_cons] at hd
    rcases hd with rfl | hd
    · exact h
    · exact List.mem_takeWhile_imp hd

theorem takeWhile_append_of_boundary {p : Char → Bool} {run rest : List Char}
    (hrun : ∀ c ∈ run, p c = true) (hrest : ∀ c ∈ rest.head?, p c = false) :
    (run ++ rest).takeWhile p = run := by
  rw [List.takeWhile_append_of_pos hrun]
  cases rest with
  | nil => simp
  | cons c rest => simp [hrest c rfl]

theorem dropWhile_append_of_boundary {p : Char → Bool} {run rest : List Char}
    (hrun : ∀ c ∈ run, p c = true) (hrest : ∀ c ∈ rest.head?, p c = false) :
    (run ++ rest).dropWhile p = rest := by
  rw [List.dropWhile_append_of_pos hrun]
  cases rest with
  | nil => rfl
  | cons c rest => simp [hrest c rfl]

theorem scan_run_append {p : Char → Bool} {kind : Kind}
    (hscan : ∀ {c : Char}, p c = true → ∀ rest, scan (c :: rest) =
      (⟨kind, String.ofList (c :: rest.takeWhile p)⟩ :: ·) <$> scan (rest.dropWhile p))
    {lexeme : String} {rest : List Char} (h : IsRun p lexeme)
    (hrest : ∀ c ∈ rest.head?, p c = false) :
    scan (lexeme.toList ++ rest) = (⟨kind, lexeme⟩ :: ·) <$> scan rest := by
  obtain ⟨hnonempty, hall⟩ := h
  cases htext : lexeme.toList with
  | nil => exact absurd (String.toList_eq_nil_iff.mp htext) hnonempty
  | cons c run =>
      rw [htext] at hall
      have hrun : ∀ d ∈ run, p d = true := fun d hd => hall d (List.mem_cons_of_mem c hd)
      rw [List.cons_append, hscan (hall c List.mem_cons_self),
        takeWhile_append_of_boundary hrun hrest, dropWhile_append_of_boundary hrun hrest,
        ← htext, String.ofList_toList]

theorem scan_numeral_append {lexeme : String} {rest : List Char} (h : IsNumeral lexeme)
    (hrest : ∀ c ∈ rest.head?, c.isDigit = false) :
    scan (lexeme.toList ++ rest) = (⟨.number, lexeme⟩ :: ·) <$> scan rest :=
  scan_run_append scan_digit h hrest

theorem scan_name_append {name : String} {rest : List Char} (h : IsName name)
    (hrest : ∀ c ∈ rest.head?, c.isAlpha = false) :
    scan (name.toList ++ rest) = (⟨.name, name⟩ :: ·) <$> scan rest :=
  scan_run_append scan_letter h hrest

def IsWellFormed (token : Token) : Prop :=
  match token.kind with
  | .number => IsNumeral token.lexeme
  | .name => IsName token.lexeme
  | kind => ∃ mark, Kind.ofMark? mark = some kind ∧ token.lexeme = mark.toString

theorem isWellFormed_of_mark {c : Char} {kind : Kind} (h : Kind.ofMark? c = some kind) :
    IsWellFormed ⟨kind, c.toString⟩ := by
  cases kind with
  | number => exact absurd rfl (Kind.ne_of_ofMark? h).1
  | name => exact absurd rfl (Kind.ne_of_ofMark? h).2
  | _ => exact ⟨c, h, rfl⟩

theorem map_cons_eq_ok {first : Token} {tokens : List Token}
    {result : Except (Char × List Char) (List Token)} :
    (first :: ·) <$> result = .ok tokens ↔ ∃ rest, result = .ok rest ∧ tokens = first :: rest := by
  cases result with
  | error stop => simp [Functor.map, Except.map]
  | ok rest => simp [Functor.map, Except.map, eq_comm]

theorem isWellFormed_of_map_cons {first : Token} {tokens : List Token}
    {result : Except (Char × List Char) (List Token)}
    (h : (first :: ·) <$> result = .ok tokens) (hfirst : first.IsWellFormed)
    (hrest : ∀ {tokens}, result = .ok tokens → ∀ token ∈ tokens, token.IsWellFormed) :
    ∀ token ∈ tokens, token.IsWellFormed := by
  obtain ⟨rest, hresult, rfl⟩ := map_cons_eq_ok.mp h
  exact List.forall_mem_cons.mpr ⟨hfirst, hrest hresult⟩

theorem isWellFormed_of_scan {text : List Char} {tokens : List Token}
    (h : scan text = .ok tokens) : ∀ token ∈ tokens, token.IsWellFormed := by
  induction text using scan.induct generalizing tokens with
  | case1 =>
      rw [scan] at h
      cases h
      exact List.forall_mem_nil _
  | case2 c rest hdigit ih =>
      rw [scan_digit hdigit] at h
      exact isWellFormed_of_map_cons h (isRun_takeWhile hdigit rest) ih
  | case3 c rest hdigit hletter ih =>
      rw [scan_letter hletter] at h
      exact isWellFormed_of_map_cons h (isRun_takeWhile hletter rest) ih
  | case4 c rest hdigit hletter kind hkind ih =>
      rw [scan_mark hkind] at h
      exact isWellFormed_of_map_cons h (isWellFormed_of_mark hkind) ih
  | case5 c rest hdigit hletter hkind hblank ih =>
      rw [scan_blank hblank] at h
      exact ih h
  | case6 c rest hdigit hletter hkind hblank =>
      rw [scan_stop hdigit hletter hkind hblank] at h
      cases h

end Token

theorem tokenize_eq_ok_iff {code : String} {tokens : List Token} :
    tokenize code = .ok tokens ↔ Token.scan code.toList = .ok tokens := by
  unfold tokenize
  split
  · next htokens => simp [htokens]
  · next hstop => simp [hstop]

theorem isWellFormed_of_tokenize {code : String} {tokens : List Token}
    (h : tokenize code = .ok tokens) : ∀ token ∈ tokens, token.IsWellFormed :=
  Token.isWellFormed_of_scan (tokenize_eq_ok_iff.mp h)

end Abacus
