import Abacus.Proofs.Scanning.Concatenation
import Mathlib.Data.List.Chain
import Mathlib.Order.Bounds.Defs

namespace Abacus

open Text Grammar

namespace Token

/-! Each character of a lexeme tells the kind of its token, and blanks tell none. -/

def Kind.ofChar? (c : Char) : Option Kind :=
  if c.isDigit then some number else if c.isAlpha then some name else ofMark? c

theorem Kind.ofChar?_of_isDigit {c : Char} (h : c.isDigit = true) : ofChar? c = some number :=
  if_pos h

theorem Kind.ofChar?_of_isAlpha {c : Char} (h : c.isAlpha = true) : ofChar? c = some name := by
  rw [ofChar?, if_neg (not_isDigit_of_isAlpha h), if_pos h]

theorem Kind.ofChar?_of_not_isAlphanum {c : Char} (h : c.isAlphanum = false) :
    ofChar? c = ofMark? c := by
  obtain ⟨hletter, hdigit⟩ := Bool.or_eq_false_iff.mp h
  rw [ofChar?, if_neg (by simp [hdigit]), if_neg (by simp [hletter])]

theorem Kind.ofChar?_of_isBlank {c : Char} (h : isBlank c = true) : ofChar? c = none := by
  rw [ofChar?_of_not_isAlphanum (isAlphanum_eq_false_of_isBlank h), ofMark?_of_isBlank h]

namespace IsWellFormed

variable {token next : Token}

theorem iff_isNumeral (h : token.kind = .number) :
    token.IsWellFormed ↔ IsNumeral token.lexeme := by
  obtain ⟨kind, lexeme⟩ := token
  cases h
  rfl

theorem iff_isName (h : token.kind = .name) : token.IsWellFormed ↔ IsName token.lexeme := by
  obtain ⟨kind, lexeme⟩ := token
  cases h
  rfl

theorem ofChar? (h : token.IsWellFormed) :
    ∀ c ∈ token.lexeme.toList, Kind.ofChar? c = some token.kind := by
  obtain ⟨kind, lexeme⟩ := token
  intro c hc
  cases kind with
  | number => exact Kind.ofChar?_of_isDigit (h.2 c hc)
  | name => exact Kind.ofChar?_of_isAlpha (h.2 c hc)
  | _ =>
      obtain ⟨mark, hmark, rfl⟩ := h
      obtain rfl : c = mark := by simpa using hc
      rw [Kind.ofChar?_of_not_isAlphanum (not_isAlphanum_of_ofMark? hmark), hmark]

theorem lexeme_ne_empty (h : token.IsWellFormed) : token.lexeme.toList ≠ [] := by
  obtain ⟨kind, lexeme⟩ := token
  cases kind with
  | number | name => exact fun hempty => h.1 (String.toList_eq_nil_iff.mp hempty)
  | _ =>
      obtain ⟨mark, _, rfl⟩ := h
      simp

theorem not_isBlank (h : token.IsWellFormed) :
    ∀ c ∈ token.lexeme.toList, isBlank c = false := by
  intro c hc
  apply Bool.eq_false_iff.mpr
  intro hblank
  cases (Kind.ofChar?_of_isBlank hblank).symm.trans (h.ofChar? c hc)

theorem scan_lexeme (h : token.IsWellFormed) : scan token.lexeme.toList = .ok [token] := by
  have hnil : scan [] = .ok [] := by rw [scan]
  obtain ⟨kind, lexeme⟩ := token
  cases kind with
  | number =>
      have hscan := @scan_numeral_append lexeme [] h (by simp)
      rwa [List.append_nil, hnil] at hscan
  | name =>
      have hscan := @scan_name_append lexeme [] h (by simp)
      rwa [List.append_nil, hnil] at hscan
  | _ =>
      obtain ⟨mark, hmark, rfl⟩ := h
      have hscan := scan_mark hmark []
      rw [hnil] at hscan
      simpa using hscan

end IsWellFormed

def RunsInto (token next : Token) : Prop :=
  token.kind = next.kind ∧ (token.kind = .number ∨ token.kind = .name)

instance (token next : Token) : Decidable (token.RunsInto next) :=
  inferInstanceAs (Decidable (_ ∧ _))

theorem not_runsInto_of_mark {c : Char} {kind : Kind} (h : Kind.ofMark? c = some kind)
    {lexeme : String} {next : Token} : ¬ RunsInto ⟨kind, lexeme⟩ next := by
  rintro ⟨_, hnumber | hname⟩
  · exact (Kind.ne_of_ofMark? h).1 hnumber
  · exact (Kind.ne_of_ofMark? h).2 hname

theorem IsWellFormed.parts {token next : Token} (htoken : token.IsWellFormed)
    (hnext : next.IsWellFormed) (happart : ¬ token.RunsInto next) {last first : Char}
    (hlast : last ∈ token.lexeme.toList) (hfirst : first ∈ next.lexeme.toList) :
    Parts last first := by
  have htold := htoken.ofChar? last hlast
  have hfollows := hnext.ofChar? first hfirst
  constructor
  · intro hdigits
    have hkind := Option.some.inj ((Kind.ofChar?_of_isDigit hdigits.1).symm.trans htold)
    have hother := Option.some.inj ((Kind.ofChar?_of_isDigit hdigits.2).symm.trans hfollows)
    exact happart ⟨hkind.symm.trans hother, .inl hkind.symm⟩
  · intro hletters
    have hkind := Option.some.inj ((Kind.ofChar?_of_isAlpha hletters.1).symm.trans htold)
    have hother := Option.some.inj ((Kind.ofChar?_of_isAlpha hletters.2).symm.trans hfollows)
    exact happart ⟨hkind.symm.trans hother, .inr hkind.symm⟩

/-- Blanks, and tokens each with the blanks behind it. Two numbers or two names in a row are kept
apart by one blank at least. -/
structure Segmentation where
  front : List Char
  pieces : List (Token × List Char)
  wellFormed : ∀ piece ∈ pieces, piece.1.IsWellFormed
  blank_front : ∀ c ∈ front, isBlank c = true
  blank_behind : ∀ piece ∈ pieces, ∀ c ∈ piece.2, isBlank c = true
  apart : pieces.IsChain fun piece next => piece.1.RunsInto next.1 → piece.2 ≠ []

namespace Segmentation

def tokens (segments : Segmentation) : List Token :=
  segments.pieces.map Prod.fst

def text (segments : Segmentation) : List Char :=
  segments.front ++ segments.pieces.flatMap fun piece => piece.1.lexeme.toList ++ piece.2

def empty : Segmentation :=
  ⟨[], [], nofun, nofun, nofun, .nil⟩

def indent (blanks : List Char) (hblanks : ∀ c ∈ blanks, isBlank c = true)
    (segments : Segmentation) : Segmentation :=
  { segments with
    front := blanks ++ segments.front
    blank_front := List.forall_mem_append.mpr ⟨hblanks, segments.blank_front⟩ }

def push (token : Token) (segments : Segmentation) (htoken : token.IsWellFormed)
    (hfront : ∀ next ∈ segments.tokens.head?, token.RunsInto next → segments.front ≠ []) :
    Segmentation where
  front := []
  pieces := (token, segments.front) :: segments.pieces
  wellFormed := List.forall_mem_cons.mpr ⟨htoken, segments.wellFormed⟩
  blank_front := nofun
  blank_behind := List.forall_mem_cons.mpr ⟨segments.blank_front, segments.blank_behind⟩
  apart := List.isChain_cons.mpr
    ⟨fun next hnext => hfront next.1 (by simp [tokens, Option.mem_def.mp hnext]), segments.apart⟩

@[simp] theorem text_empty : empty.text = [] := rfl

section Front

variable {segments : Segmentation} {blanks : List Char} {token : Token}
  {hblanks : ∀ c ∈ blanks, isBlank c = true} {htoken : token.IsWellFormed}
  {hfront : ∀ next ∈ segments.tokens.head?, token.RunsInto next → segments.front ≠ []}

@[simp] theorem tokens_indent : (segments.indent blanks hblanks).tokens = segments.tokens := rfl

@[simp] theorem text_indent : (segments.indent blanks hblanks).text = blanks ++ segments.text :=
  List.append_assoc _ _ _

@[simp] theorem tokens_push :
    (segments.push token htoken hfront).tokens = token :: segments.tokens := rfl

@[simp] theorem text_push :
    (segments.push token htoken hfront).text = token.lexeme.toList ++ segments.text := by
  simp [push, text]

end Front

variable (segments : Segmentation)

theorem wellFormed_of_mem : ∀ token ∈ segments.tokens, token.IsWellFormed :=
  List.forall_mem_map.mpr segments.wellFormed

theorem head?_text {segments : Segmentation} (hfront : segments.front = []) {next : Token}
    (hnext : next ∈ segments.tokens.head?) :
    segments.text.head? = next.lexeme.toList.head? := by
  have hlexeme := segments.wellFormed_of_mem next (List.mem_of_mem_head? hnext) |>.lexeme_ne_empty
  obtain ⟨front, pieces, _, _, _, _⟩ := segments
  cases pieces with
  | nil => cases hnext
  | cons piece pieces =>
      cases hnext
      cases hfront
      simp [text, List.head?_append, List.head?_eq_some_head hlexeme]

theorem partsAt (token : Token) (htoken : token.IsWellFormed)
    (hfront : ∀ next ∈ segments.tokens.head?, token.RunsInto next → segments.front ≠ []) :
    PartsAt token.lexeme.toList segments.text := by
  cases hcase : segments.front with
  | cons c front =>
      -- A blank goes on with no run, whatever stands in front of it.
      apply PartsAt.of_head
      intro first hfirst
      have hblank := segments.blank_front c (by simp [hcase])
      obtain rfl : c = first := by simpa [text, hcase] using hfirst
      exact isAlphanum_eq_false_of_isBlank hblank
  | nil =>
      intro last hlast first hfirst
      cases hnext : segments.tokens.head? with
      | none =>
          have hpieces : segments.pieces = [] := by simpa [tokens] using hnext
          simp [text, hcase, hpieces] at hfirst
      | some next =>
          rw [head?_text hcase hnext] at hfirst
          have hwellFormed := segments.wellFormed_of_mem next (List.mem_of_mem_head? hnext)
          exact htoken.parts hwellFormed (fun hruns => hfront next hnext hruns hcase)
            (List.mem_of_mem_getLast? hlast) (List.mem_of_mem_head? hfirst)

end Segmentation

theorem scan_blanks_append {blanks text : List Char} (h : ∀ c ∈ blanks, isBlank c = true) :
    scan (blanks ++ text) = scan text := by
  induction blanks with
  | nil => rfl
  | cons c blanks ih =>
      obtain ⟨hc, hblanks⟩ := List.forall_mem_cons.mp h
      rw [List.cons_append, scan_blank hc, ih hblanks]

theorem Segmentation.scan_text (segments : Segmentation) :
    scan segments.text = .ok segments.tokens := by
  obtain ⟨front, pieces, hwellFormed, hfront, hbehind, hapart⟩ := segments
  induction pieces generalizing front with
  | nil =>
      have hscan := @scan_blanks_append front [] hfront
      rwa [scan] at hscan
  | cons piece pieces ih =>
      obtain ⟨token, behind⟩ := piece
      obtain ⟨htoken, hwellFormed⟩ := List.forall_mem_cons.mp hwellFormed
      obtain ⟨hblank, hbehind⟩ := List.forall_mem_cons.mp hbehind
      obtain ⟨hnext, hapart⟩ := List.isChain_cons.mp hapart
      let following : Segmentation := ⟨behind, pieces, hwellFormed, hblank, hbehind, hapart⟩
      have hparts : PartsAt token.lexeme.toList following.text := by
        refine following.partsAt token htoken fun next hmem => ?_
        obtain ⟨other, hother, rfl⟩ := Option.map_eq_some_iff.mp
          ((List.head?_map (f := Prod.fst) (l := pieces)).symm.trans hmem)
        exact hnext other hother
      change scan (front ++ (token.lexeme.toList ++ behind ++ _)) = _
      rw [List.append_assoc, scan_blanks_append hfront]
      have hscan := scan_append htoken.scan_lexeme hparts
      rw [ih behind hwellFormed hblank hbehind hapart] at hscan
      exact hscan

theorem exists_segments_of_run {p : Char → Bool} {kind : Kind}
    (hscan : ∀ {c : Char}, p c = true → ∀ rest, scan (c :: rest) =
      (⟨kind, String.ofList (c :: rest.takeWhile p)⟩ :: ·) <$> scan (rest.dropWhile p))
    (hkind : ∀ {token : Token}, token.kind = kind → (token.IsWellFormed ↔ IsRun p token.lexeme))
    {c : Char} {rest : List Char} {tokens : List Token} (hc : p c = true)
    (h : scan (c :: rest) = .ok tokens)
    (ih : ∀ {tokens}, scan (rest.dropWhile p) = .ok tokens →
      ∃ segments : Segmentation, segments.text = rest.dropWhile p ∧ segments.tokens = tokens) :
    ∃ segments : Segmentation, segments.text = c :: rest ∧ segments.tokens = tokens := by
  rw [hscan hc] at h
  obtain ⟨following, hfollowing, rfl⟩ := map_cons_eq_ok.mp h
  obtain ⟨segments, htext, rfl⟩ := ih hfollowing
  let token : Token := ⟨kind, String.ofList (c :: rest.takeWhile p)⟩
  have htoken : token.IsWellFormed := (hkind rfl).mpr (isRun_takeWhile hc rest)
  refine ⟨segments.push token htoken ?_, ?_, rfl⟩
  · -- What goes on with the run has been taken into it already.
    intro next hnext hruns hfront
    have hwellFormed := segments.wellFormed_of_mem next (List.mem_of_mem_head? hnext)
    have hall := ((hkind hruns.1.symm).mp hwellFormed).2
    have hstop := List.head?_dropWhile_not p rest
    rw [← htext, Segmentation.head?_text hfront hnext,
      List.head?_eq_some_head hwellFormed.lexeme_ne_empty] at hstop
    have hgoes := hall _ (List.head_mem hwellFormed.lexeme_ne_empty)
    rw [hstop] at hgoes
    cases hgoes
  · simp [token, htext]

theorem exists_segments_of_scan {text : List Char} {tokens : List Token}
    (h : scan text = .ok tokens) :
    ∃ segments : Segmentation, segments.text = text ∧ segments.tokens = tokens := by
  induction text using scan.induct generalizing tokens with
  | case1 =>
      rw [scan] at h
      cases h
      exact ⟨.empty, rfl, rfl⟩
  | case2 c rest hdigit ih =>
      exact exists_segments_of_run scan_digit IsWellFormed.iff_isNumeral hdigit h ih
  | case3 c rest _ hletter ih =>
      exact exists_segments_of_run scan_letter IsWellFormed.iff_isName hletter h ih
  | case4 c rest _ _ kind hkind ih =>
      rw [scan_mark hkind] at h
      obtain ⟨following, hfollowing, rfl⟩ := map_cons_eq_ok.mp h
      obtain ⟨segments, htext, rfl⟩ := ih hfollowing
      have hfront : ∀ next ∈ segments.tokens.head?,
          RunsInto ⟨kind, c.toString⟩ next → segments.front ≠ [] :=
        fun _ _ hruns => absurd hruns (not_runsInto_of_mark hkind)
      exact ⟨segments.push _ (isWellFormed_of_mark hkind) hfront, by simp [htext], rfl⟩
  | case5 c rest _ _ _ hblank ih =>
      rw [scan_blank hblank] at h
      obtain ⟨segments, htext, rfl⟩ := ih h
      exact ⟨segments.indent [c] (by simpa using hblank), by simp [htext], rfl⟩
  | case6 c rest hdigit hletter hkind hblank =>
      rw [scan_stop hdigit hletter hkind hblank] at h
      cases h

theorem scan_eq_ok_iff {text : List Char} {tokens : List Token} :
    scan text = .ok tokens ↔
      ∃ segments : Segmentation, segments.text = text ∧ segments.tokens = tokens := by
  constructor
  · exact exists_segments_of_scan
  · rintro ⟨segments, rfl, rfl⟩
    exact segments.scan_text

end Token

open Token

theorem tokenize_first_unknown {code : String} {before rest : List Char} {c : Char}
    (htext : code.toList = before ++ c :: rest) (hbefore : ∀ d ∈ before, IsKnown d)
    (hc : ¬ IsKnown c) : tokenize code = .error ⟨code, before.length, c⟩ := by
  have hlength : code.length - (rest.length + 1) = before.length := by
    rw [← String.length_toList, htext, List.length_append, List.length_cons, Nat.add_sub_cancel]
  rw [tokenize, htext, scan_first_unknown hbefore hc]
  simp only [hlength]

theorem isLeast_length {before rest : List Char} {c : Char}
    (hbefore : ∀ d ∈ before, IsKnown d) (hc : ¬ IsKnown c) :
    IsLeast {index | ∃ d, (before ++ c :: rest)[index]? = some d ∧ ¬ IsKnown d}
      before.length := by
  constructor
  · exact ⟨c, by simp, hc⟩
  · intro index hindex
    obtain ⟨d, hd, hunknown⟩ := hindex
    apply Nat.le_of_not_lt
    intro hlt
    rw [List.getElem?_append_left hlt] at hd
    exact hunknown (hbefore d (List.mem_of_getElem? hd))

/-- A text is refused for the first of its characters that is unknown. Otherwise it falls into
tokens and blanks, in one way as far as the tokens go. -/
theorem tokenizing_finds_segmentation (code : String) :
    ((∃ error, tokenize code = .error error) ↔ ∃ c ∈ code.toList, ¬ IsKnown c) ∧
      (∀ error, tokenize code = .error error →
        error.code = code ∧ code.toList[error.index]? = some error.char ∧
          IsLeast {index | ∃ c, code.toList[index]? = some c ∧ ¬ IsKnown c} error.index) ∧
      ((∀ c ∈ code.toList, IsKnown c) → ∃ tokens, tokenize code = .ok tokens ∧
        (∃ segments : Segmentation, segments.text = code.toList ∧ segments.tokens = tokens) ∧
        ∀ segments : Segmentation, segments.text = code.toList → segments.tokens = tokens) := by
  refine ⟨exists_lexError_iff, ?_, ?_⟩
  · intro error herror
    obtain ⟨before, c, rest, htext, hbefore, hc⟩ :=
      exists_first_unknown (exists_lexError_iff.mp ⟨error, herror⟩)
    cases herror.symm.trans (tokenize_first_unknown htext hbefore hc)
    rw [htext]
    exact ⟨rfl, by simp, isLeast_length hbefore hc⟩
  · intro hknown
    obtain ⟨tokens, hscan⟩ := exists_tokens_of_known hknown
    refine ⟨tokens, tokenize_eq_ok_iff.mpr hscan, scan_eq_ok_iff.mp hscan, ?_⟩
    intro segments htext
    have hsame := scan_eq_ok_iff.mpr ⟨segments, htext, rfl⟩
    exact Except.ok.inj (hsame.symm.trans hscan)

end Abacus
