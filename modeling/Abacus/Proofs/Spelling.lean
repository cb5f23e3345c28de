import Abacus.Proofs.Scanning.Segmentation
import Abacus.Token.Spelling

namespace Abacus

open Text

namespace Token

section CloseUp

variable {mark : Char} {front blanks : List Char}

theorem closeUpBefore_cons (mark c : Char) (text : List Char) :
    closeUpBefore mark (c :: text) =
      if isBlank c = true ∧ (closeUpBefore mark text).head? = some mark then closeUpBefore mark text
      else c :: closeUpBefore mark text := by
  simp [closeUpBefore]

theorem closeUpAfter_cons (mark c : Char) (text : List Char) :
    closeUpAfter mark (c :: text) =
      c :: if c = mark then (closeUpAfter mark text).dropWhile isBlank
        else closeUpAfter mark text := by
  simp only [closeUpAfter, List.foldr_cons]

@[simp] theorem closeUpBefore_nil (mark : Char) : closeUpBefore mark [] = [] := rfl

@[simp] theorem closeUpAfter_nil (mark : Char) : closeUpAfter mark [] = [] := rfl

theorem closeUpBefore_solid_append (hfront : ∀ c ∈ front, isBlank c = false)
    (text : List Char) : closeUpBefore mark (front ++ text) = front ++ closeUpBefore mark text := by
  induction front with
  | nil => rfl
  | cons c front ih =>
      obtain ⟨hc, hfront⟩ := List.forall_mem_cons.mp hfront
      rw [List.cons_append, closeUpBefore_cons, ih hfront]
      simp [hc]

theorem closeUpBefore_blanks_append (hmark : isBlank mark = false)
    (hblanks : ∀ c ∈ blanks, isBlank c = true) (text : List Char) :
    closeUpBefore mark (blanks ++ text) =
      if (closeUpBefore mark text).head? = some mark then closeUpBefore mark text
      else blanks ++ closeUpBefore mark text := by
  induction blanks with
  | nil => simp
  | cons c blanks ih =>
      obtain ⟨hc, hblanks⟩ := List.forall_mem_cons.mp hblanks
      rw [List.cons_append, closeUpBefore_cons, ih hblanks]
      by_cases hhead : (closeUpBefore mark text).head? = some mark
      · simp [hc, hhead]
      · -- The last of the blanks stays, so that no other precedes the mark.
        have hstays : (blanks ++ closeUpBefore mark text).head? ≠ some mark := by
          cases blanks with
          | nil => exact hhead
          | cons d blanks =>
              intro heq
              cases heq
              rw [hblanks _ List.mem_cons_self] at hmark
              cases hmark
        rw [if_neg hhead, if_neg hhead, if_neg fun hboth => hstays hboth.2]
        rfl

theorem closeUpAfter_append_of_not_mem (hfront : mark ∉ front) (text : List Char) :
    closeUpAfter mark (front ++ text) = front ++ closeUpAfter mark text := by
  induction front with
  | nil => rfl
  | cons c front ih =>
      obtain ⟨hc, hfront⟩ := not_or.mp (mt List.mem_cons.mpr hfront)
      rw [List.cons_append, closeUpAfter_cons, ih hfront, if_neg (Ne.symm hc)]
      rfl

end CloseUp

abbrev Gap := Token → Token → List Char

def joined (gap : Gap) : List Token → List Char
  | [] => []
  | [token] => token.lexeme.toList
  | token :: next :: rest => token.lexeme.toList ++ gap token next ++ joined gap (next :: rest)

namespace Gap

def OfSpaces (gap : Gap) : Prop :=
  ∀ token next, ∀ c ∈ gap token next, c = ' '

def space : Gap := fun _ _ => [' ']

def noneBefore (kind : Kind) (gap : Gap) : Gap := fun token next =>
  if next.kind = kind then [] else gap token next

def noneAfter (kind : Kind) (gap : Gap) : Gap := fun token next =>
  if token.kind = kind then [] else gap token next

variable {gap : Gap}

theorem OfSpaces.isBlank (h : gap.OfSpaces) (token next : Token) :
    ∀ c ∈ gap token next, isBlank c = true := by
  intro c hc
  rw [h token next c hc]
  rfl

theorem ofSpaces_space : space.OfSpaces :=
  fun _ _ _ => List.mem_singleton.mp

theorem OfSpaces.noneBefore (h : gap.OfSpaces) (kind : Kind) : (gap.noneBefore kind).OfSpaces := by
  intro token next
  unfold Gap.noneBefore
  split
  · exact List.forall_mem_nil _
  · exact h token next

theorem OfSpaces.noneAfter (h : gap.OfSpaces) (kind : Kind) : (gap.noneAfter kind).OfSpaces := by
  intro token next
  unfold Gap.noneAfter
  split
  · exact List.forall_mem_nil _
  · exact h token next

end Gap

theorem intercalate_eq_joined (tokens : List Token) :
    [' '].intercalate (tokens.map (·.lexeme.toList)) = joined Gap.space tokens := by
  induction tokens using joined.induct with
  | case1 => rfl
  | case2 token => simp [joined]
  | case3 token next rest ih =>
      rw [List.map_cons, List.map_cons, List.intercalate_cons_cons]
      exact congrArg (token.lexeme.toList ++ [' '] ++ ·) ih

theorem exists_joined_cons (gap : Gap) (token : Token) (rest : List Token) :
    ∃ behind, joined gap (token :: rest) = token.lexeme.toList ++ behind := by
  cases rest with
  | nil => exact ⟨[], (List.append_nil _).symm⟩
  | cons next rest => exact ⟨_, List.append_assoc _ _ _⟩

theorem head?_joined {gap : Gap} {token : Token} (h : token.IsWellFormed) (rest : List Token) :
    (joined gap (token :: rest)).head? = token.lexeme.toList.head? := by
  obtain ⟨behind, hbehind⟩ := exists_joined_cons gap token rest
  rw [hbehind, List.head?_append, List.head?_eq_some_head h.lexeme_ne_empty, Option.some_or]

theorem not_isBlank_head_joined {gap : Gap} {token : Token} (h : token.IsWellFormed)
    (rest : List Token) : ∀ c ∈ (joined gap (token :: rest)).head?, isBlank c = false := by
  rw [head?_joined h]
  exact fun c hc => h.not_isBlank c (List.mem_of_mem_head? hc)

section Marks

variable {mark : Char} {kind : Kind} {token : Token}

theorem Kind.ofMark?_injective {other : Char} (hmark : ofMark? mark = some kind)
    (hother : ofMark? other = some kind) : mark = other := by
  unfold ofMark? at hmark hother
  split at hmark <;> cases hmark <;> (split at hother <;> cases hother; rfl)

theorem IsWellFormed.lexeme_eq_mark (h : token.IsWellFormed)
    (hmark : Kind.ofMark? mark = some token.kind) : token.lexeme.toList = [mark] := by
  have hnonempty := h.lexeme_ne_empty
  obtain ⟨kind, lexeme⟩ := token
  cases kind with
  | number => exact absurd rfl (Kind.ne_of_ofMark? hmark).1
  | name => exact absurd rfl (Kind.ne_of_ofMark? hmark).2
  | _ =>
      obtain ⟨other, hother, rfl⟩ := h
      rw [Kind.ofMark?_injective hmark hother]
      simp

theorem IsWellFormed.kind_eq_of_mem (h : token.IsWellFormed)
    (hmark : Kind.ofMark? mark = some kind) (hmem : mark ∈ token.lexeme.toList) :
    token.kind = kind := by
  have hkind := h.ofChar? mark hmem
  rw [Kind.ofChar?_of_not_isAlphanum (not_isAlphanum_of_ofMark? hmark), hmark] at hkind
  exact (Option.some.inj hkind).symm

theorem IsWellFormed.head?_eq_mark_iff (h : token.IsWellFormed)
    (hmark : Kind.ofMark? mark = some kind) :
    token.lexeme.toList.head? = some mark ↔ token.kind = kind := by
  constructor
  · intro hhead
    exact h.kind_eq_of_mem hmark (List.mem_of_mem_head? hhead)
  · intro hkind
    rw [h.lexeme_eq_mark (hkind ▸ hmark)]
    rfl

theorem not_isBlank_of_ofMark? (h : Kind.ofMark? mark = some kind) : isBlank mark = false := by
  apply Bool.eq_false_iff.mpr
  intro hblank
  cases (Kind.ofMark?_of_isBlank hblank).symm.trans h

end Marks

section Passes

variable {mark : Char} {kind : Kind} {gap : Gap} {tokens : List Token}

theorem closeUpBefore_joined (hmark : Kind.ofMark? mark = some kind) (hgap : gap.OfSpaces)
    (h : ∀ token ∈ tokens, token.IsWellFormed) :
    closeUpBefore mark (joined gap tokens) = joined (gap.noneBefore kind) tokens := by
  induction tokens using joined.induct with
  | case1 => rfl
  | case2 token =>
      obtain ⟨htoken, _⟩ := List.forall_mem_cons.mp h
      have hsolid := @closeUpBefore_solid_append mark _ htoken.not_isBlank []
      rwa [closeUpBefore_nil, List.append_nil] at hsolid
  | case3 token next rest ih =>
      obtain ⟨htoken, hrest⟩ := List.forall_mem_cons.mp h
      obtain ⟨hnext, _⟩ := List.forall_mem_cons.mp hrest
      rw [joined, joined, List.append_assoc, closeUpBefore_solid_append htoken.not_isBlank,
        closeUpBefore_blanks_append (not_isBlank_of_ofMark? hmark) (hgap.isBlank token next),
        ih hrest, head?_joined hnext, List.append_assoc]
      by_cases hkind : next.kind = kind
      · rw [if_pos ((hnext.head?_eq_mark_iff hmark).mpr hkind), Gap.noneBefore, if_pos hkind]
        rfl
      · rw [if_neg (mt (hnext.head?_eq_mark_iff hmark).mp hkind), Gap.noneBefore, if_neg hkind]

theorem closeUpAfter_lexeme_append (hmark : Kind.ofMark? mark = some kind) {token : Token}
    (h : token.IsWellFormed) (text : List Char) :
    closeUpAfter mark (token.lexeme.toList ++ text) =
      token.lexeme.toList ++ if token.kind = kind then (closeUpAfter mark text).dropWhile isBlank
        else closeUpAfter mark text := by
  by_cases hkind : token.kind = kind
  · rw [h.lexeme_eq_mark (hkind ▸ hmark), if_pos hkind, List.singleton_append, closeUpAfter_cons,
      if_pos rfl]
    rfl
  · rw [if_neg hkind]
    exact closeUpAfter_append_of_not_mem (mt (h.kind_eq_of_mem hmark) hkind) text

theorem closeUpAfter_joined (hmark : Kind.ofMark? mark = some kind) (hgap : gap.OfSpaces)
    (h : ∀ token ∈ tokens, token.IsWellFormed) :
    closeUpAfter mark (joined gap tokens) = joined (gap.noneAfter kind) tokens := by
  have hmarkBlank := not_isBlank_of_ofMark? hmark
  induction tokens using joined.induct with
  | case1 => rfl
  | case2 token =>
      obtain ⟨htoken, _⟩ := List.forall_mem_cons.mp h
      have hclosed := closeUpAfter_lexeme_append hmark htoken []
      rw [closeUpAfter_nil, List.dropWhile_nil, ite_self, List.append_nil] at hclosed
      exact hclosed
  | case3 token next rest ih =>
      obtain ⟨htoken, hrest⟩ := List.forall_mem_cons.mp h
      obtain ⟨hnext, _⟩ := List.forall_mem_cons.mp hrest
      have hgapMark : mark ∉ gap token next := by
        intro hmem
        rw [hgap.isBlank token next mark hmem] at hmarkBlank
        cases hmarkBlank
      rw [joined, joined, List.append_assoc, closeUpAfter_lexeme_append hmark htoken,
        closeUpAfter_append_of_not_mem hgapMark, ih hrest, List.append_assoc]
      by_cases hkind : token.kind = kind
      · rw [if_pos hkind, Gap.noneAfter, if_pos hkind,
          dropWhile_append_of_boundary (hgap.isBlank token next)
            (not_isBlank_head_joined hnext rest)]
        rfl
      · rw [if_neg hkind, Gap.noneAfter, if_neg hkind]

end Passes

/-- No blank stands before a semicolon, behind an opening parenthesis or before a closing one, and
one space between any other two tokens. -/
def spacing : Gap :=
  ((Gap.space.noneBefore .semicolon).noneAfter .opening).noneBefore .closing

theorem ofSpaces_spacing : spacing.OfSpaces :=
  ((Gap.ofSpaces_space.noneBefore _).noneAfter _).noneBefore _

theorem spacing_ne_nil_of_runsInto {token next : Token} (h : token.RunsInto next) :
    spacing token next ≠ [] := by
  obtain ⟨hkind, hnumber | hname⟩ := h
  · simp [spacing, Gap.noneBefore, Gap.noneAfter, Gap.space, ← hkind, hnumber]
  · simp [spacing, Gap.noneBefore, Gap.noneAfter, Gap.space, ← hkind, hname]

theorem spellChars_eq_joined {tokens : List Token} (h : ∀ token ∈ tokens, token.IsWellFormed) :
    spellChars tokens = joined spacing tokens := by
  have hbefore := Gap.ofSpaces_space.noneBefore .semicolon
  rw [spellChars, intercalate_eq_joined, closeUpBefore_joined rfl Gap.ofSpaces_space h,
    closeUpAfter_joined rfl hbefore h, closeUpBefore_joined rfl (hbefore.noneAfter _) h]
  rfl

theorem exists_joined_append (gap : Gap) (before after : List Token) (token : Token) :
    ∃ front behind, joined gap (before ++ [token]) = front ++ token.lexeme.toList ∧
      joined gap (before ++ token :: after) = front ++ (token.lexeme.toList ++ behind) := by
  obtain ⟨behind, hbehind⟩ := exists_joined_cons gap token after
  induction before using joined.induct with
  | case1 => exact ⟨[], behind, rfl, hbehind⟩
  | case2 first =>
      exact ⟨first.lexeme.toList ++ gap first token, behind, rfl,
        congrArg (first.lexeme.toList ++ gap first token ++ ·) hbehind⟩
  | case3 first next rest ih =>
      obtain ⟨front, behind, htoken, hall⟩ := ih
      exact ⟨first.lexeme.toList ++ gap first next ++ front, behind,
        by simp [joined, ← htoken], by simp [joined, ← hall]⟩

theorem mem_joined {gap : Gap} {tokens : List Token} {c : Char} (h : c ∈ joined gap tokens) :
    (∃ token ∈ tokens, c ∈ token.lexeme.toList) ∨ ∃ token next, c ∈ gap token next := by
  induction tokens using joined.induct with
  | case1 => cases h
  | case2 token => exact .inl ⟨token, List.mem_cons_self, h⟩
  | case3 token next rest ih =>
      rcases List.mem_append.mp h with hfront | hrest
      · rcases List.mem_append.mp hfront with hlexeme | hgap
        · exact .inl ⟨token, List.mem_cons_self, hlexeme⟩
        · exact .inr ⟨token, next, hgap⟩
      · rcases ih hrest with ⟨other, hother, hlexeme⟩ | hgap
        · exact .inl ⟨other, List.mem_cons_of_mem token hother, hlexeme⟩
        · exact .inr hgap

theorem newline_not_mem_spellChars {tokens : List Token}
    (h : ∀ token ∈ tokens, token.IsWellFormed) : '\n' ∉ spellChars tokens := by
  rw [spellChars_eq_joined h]
  intro hmem
  rcases mem_joined hmem with ⟨token, htoken, hlexeme⟩ | ⟨token, next, hgap⟩
  · cases (h token htoken).not_isBlank _ hlexeme
  · cases ofSpaces_spacing token next _ hgap

theorem exists_segments_joined {gap : Gap} (hgap : gap.OfSpaces)
    (hruns : ∀ {token next}, token.RunsInto next → gap token next ≠ []) {tokens : List Token}
    (h : ∀ token ∈ tokens, token.IsWellFormed) :
    ∃ segments : Segmentation,
      segments.front = [] ∧ segments.text = joined gap tokens ∧ segments.tokens = tokens := by
  induction tokens using joined.induct with
  | case1 => exact ⟨.empty, rfl, rfl, rfl⟩
  | case2 token =>
      have htoken := h token List.mem_cons_self
      exact ⟨Segmentation.empty.push token htoken nofun, rfl, by simp [joined], rfl⟩
  | case3 token next rest ih =>
      obtain ⟨htoken, hrest⟩ := List.forall_mem_cons.mp h
      obtain ⟨segments, _, htext, htokens⟩ := ih hrest
      let following := segments.indent (gap token next) (hgap.isBlank token next)
      have hfront : ∀ other ∈ following.tokens.head?,
          token.RunsInto other → following.front ≠ [] := by
        intro other hother hrunsInto
        rw [Segmentation.tokens_indent, htokens] at hother
        cases hother
        exact List.append_ne_nil_of_left_ne_nil (hruns hrunsInto) _
      exact ⟨following.push token htoken hfront, rfl, by simp [following, htext, joined],
        by simp [following, htokens]⟩

end Token

open Token

theorem tokenize_spell {tokens : List Token} (h : ∀ token ∈ tokens, token.IsWellFormed) :
    tokenize (spell tokens) = .ok tokens := by
  obtain ⟨segments, _, htext, rfl⟩ :=
    exists_segments_joined ofSpaces_spacing spacing_ne_nil_of_runsInto h
  apply tokenize_eq_ok_iff.mpr
  rw [spell, String.toList_ofList, spellChars_eq_joined h, ← htext]
  exact segments.scan_text

def respell (code : String) : Except LexError String :=
  spell <$> tokenize code

theorem respell_eq_ok_iff {code text : String} :
    respell code = .ok text ↔ ∃ tokens, tokenize code = .ok tokens ∧ spell tokens = text := by
  unfold respell
  cases tokenize code with
  | error error => simp [Functor.map, Except.map]
  | ok tokens => simp [Functor.map, Except.map]

/-- Spelling is undone by cutting the text into tokens again. What texts can be cut into are the
lists of well-formed tokens, and to spell the tokens of a text anew keeps them, whereupon nothing
is left to change. -/
theorem tokenizing_undoes_spelling :
    (∀ tokens : List Token, (∀ token ∈ tokens, token.IsWellFormed) →
      tokenize (spell tokens) = .ok tokens) ∧
      (∀ tokens : List Token, (∀ token ∈ tokens, token.IsWellFormed) ↔
        ∃ code, tokenize code = .ok tokens) ∧
      (∀ code tokens, tokenize code = .ok tokens → tokenize (spell tokens) = .ok tokens) ∧
      ∀ code text, respell code = .ok text → respell text = .ok text := by
  have hundo (code : String) (tokens : List Token) (htokens : tokenize code = .ok tokens) :
      tokenize (spell tokens) = .ok tokens := tokenize_spell (isWellFormed_of_tokenize htokens)
  refine ⟨fun tokens => tokenize_spell, fun tokens => ⟨?_, ?_⟩, hundo, ?_⟩
  · intro hwellFormed
    exact ⟨spell tokens, tokenize_spell hwellFormed⟩
  · intro hcode
    obtain ⟨code, htokens⟩ := hcode
    exact isWellFormed_of_tokenize htokens
  · intro code text hrespell
    obtain ⟨tokens, htokens, rfl⟩ := respell_eq_ok_iff.mp hrespell
    exact respell_eq_ok_iff.mpr ⟨tokens, hundo code tokens htokens, rfl⟩

theorem tokenizing_undoes_spelling_marks_in_a_row :
    let code := "( ( ;12x ) ; )"
    let tokens : List Token :=
      [⟨.opening, "("⟩, ⟨.opening, "("⟩, ⟨.semicolon, ";"⟩, ⟨.number, "12"⟩, ⟨.name, "x"⟩,
        ⟨.closing, ")"⟩, ⟨.semicolon, ";"⟩, ⟨.closing, ")"⟩]
    tokenize code = .ok tokens ∧ spell tokens = "((; 12 x);)" ∧
      tokenize "((; 12 x);)" = .ok tokens ∧ respell "((; 12 x);)" = .ok "((; 12 x);)" := by
  intro code tokens
  have htokens : tokenize code = .ok tokens := by decide +kernel
  have hspell : spell tokens = "((; 12 x);)" := by decide +kernel
  have hrespell : respell code = .ok "((; 12 x);)" :=
    respell_eq_ok_iff.mpr ⟨tokens, htokens, hspell⟩
  obtain ⟨_, _, hundo, hstable⟩ := tokenizing_undoes_spelling
  have hagain := hundo code tokens htokens
  rw [hspell] at hagain
  exact ⟨htokens, hspell, hagain, hstable code _ hrespell⟩

end Abacus
