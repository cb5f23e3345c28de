import Abacus.Proofs.Mentions
import Abacus.Proofs.Parsing.Context

namespace Abacus

open Grammar

namespace Grammar

variable {hole level : Level} {before after tokens : List Token} {plug : Expr → Expr}
  {name : String} {tree value : Expr}

theorem Infix.mentions_eq {kind : Token.Kind} {join : Expr → Expr → Expr}
    (h : Infix level kind join) (first second : Expr) :
    (join first second).mentions = first.mentions ++ second.mentions := by
  cases h <;> rfl

theorem Infix.substitute_eq {kind : Token.Kind} {join : Expr → Expr → Expr}
    (h : Infix level kind join) (first second : Expr) :
    (join first second).substitute name value =
      join (first.substitute name value) (second.substitute name value) := by
  cases h <;> rfl

theorem Derives.reads_not_mem_mentions (h : Derives level tokens tree)
    (hfresh : ⟨.name, name⟩ ∉ tokens) : .reads name ∉ tree.mentions := by
  induction h with
  | number => exact List.not_mem_nil
  | name =>
      rw [Expr.mentions, List.mem_singleton, Mention.reads.injEq]
      rintro rfl
      exact hfresh List.mem_cons_self
  | parenthesis _ ih =>
      apply ih
      exact fun hinner => hfresh (List.mem_cons_of_mem _ (List.mem_append_left _ hinner))
  | lift _ _ ih => exact ih hfresh
  | chain _ hjoin _ _ ihLeft ihRight =>
      rw [hjoin.mentions_eq, List.mem_append, not_or]
      constructor
      · exact ihLeft fun hleft => hfresh (List.mem_append_left _ hleft)
      · exact ihRight fun hright =>
          hfresh (List.mem_append_right _ (List.mem_cons_of_mem _ hright))
  | assign _ ih =>
      rw [Expr.reads_mem_mentions_assign]
      apply ih
      exact fun hvalue => hfresh (List.mem_cons_of_mem _ (List.mem_cons_of_mem _ hvalue))

theorem Context.count_reads (h : Context hole level before after plug)
    (hbefore : ⟨.name, name⟩ ∉ before) (hafter : ⟨.name, name⟩ ∉ after) (tree : Expr) :
    (plug tree).mentions.count (.reads name) = tree.mentions.count (.reads name) := by
  induction h with
  | here => rfl
  | parenthesis _ ih =>
      simp only [List.mem_cons, List.mem_append, not_or] at hbefore hafter
      exact ih hbefore.2 hafter.1
  | lift _ _ ih => exact ih hbefore hafter
  | left _ hjoin _ hright ih =>
      simp only [List.mem_append, List.mem_cons, not_or] at hafter
      have hfresh := hright.reads_not_mem_mentions hafter.2.2
      rw [hjoin.mentions_eq, List.count_append, ih hbefore hafter.1,
        List.count_eq_zero_of_not_mem hfresh, Nat.add_zero]
  | right _ hjoin hleft _ ih =>
      simp only [List.mem_append, List.mem_cons, not_or] at hbefore
      have hfresh := hleft.reads_not_mem_mentions hbefore.1
      rw [hjoin.mentions_eq, List.count_append, ih hbefore.2.2 hafter,
        List.count_eq_zero_of_not_mem hfresh, Nat.zero_add]
  | assign _ ih =>
      simp only [List.mem_cons, not_or] at hbefore
      rw [Expr.count_reads_assign, ih hbefore.2.2 hafter]

theorem Context.substitute (h : Context hole level before after plug)
    (hbefore : ⟨.name, name⟩ ∉ before) (hafter : ⟨.name, name⟩ ∉ after) (tree : Expr) :
    (plug tree).substitute name value = plug (tree.substitute name value) := by
  induction h with
  | here => rfl
  | parenthesis _ ih =>
      simp only [List.mem_cons, List.mem_append, not_or] at hbefore hafter
      exact ih hbefore.2 hafter.1
  | lift _ _ ih => exact ih hbefore hafter
  | left _ hjoin _ hright ih =>
      simp only [List.mem_append, List.mem_cons, not_or] at hafter
      rw [hjoin.substitute_eq, ih hbefore hafter.1,
        Expr.substitute_eq_self (hright.reads_not_mem_mentions hafter.2.2)]
  | right _ hjoin hleft _ ih =>
      simp only [List.mem_append, List.mem_cons, not_or] at hbefore
      rw [hjoin.substitute_eq, ih hbefore.2.2 hafter,
        Expr.substitute_eq_self (hleft.reads_not_mem_mentions hbefore.1)]
  | assign _ ih =>
      simp only [List.mem_cons, not_or] at hbefore
      rw [Expr.substitute, ih hbefore.2.2 hafter]

theorem NestsWithin.replace {depth : Nat} {old new : List Token}
    (h : NestsWithin depth (before ++ old ++ after)) (hbalance : balance new = balance old)
    (hless : ∀ front, front <+: new → ∃ other, other <+: old ∧ balance front ≤ balance other) :
    NestsWithin depth (before ++ new ++ after) := by
  intro front hfront
  rcases prefix_append_cases hfront with hinside | ⟨rest, rfl, hrest⟩
  · rcases prefix_append_cases hinside with houtside | ⟨part, rfl, hpart⟩
    · exact h front (by simpa using houtside.trans (List.prefix_append before (old ++ after)))
    · obtain ⟨other, hother, hle⟩ := hless part hpart
      have hbound := h (before ++ other)
        (((List.prefix_append_right_inj before).mpr hother).trans (List.prefix_append _ after))
      rw [balance_append] at hbound ⊢
      omega
  · have hbound := h (before ++ old ++ rest) ((List.prefix_append_right_inj _).mpr hrest)
    rw [balance_append, balance_append] at hbound ⊢
    omega

def parenthesize (opening closing : String) (inner : List Token) : List Token :=
  ⟨.opening, opening⟩ :: (inner ++ [⟨.closing, closing⟩])

section Parenthesize

variable {depth : Nat} {inner : List Token} {opening closing : String}

theorem Derives.parenthesize (h : IsExpression inner tree) (level : Level)
    (opening closing : String) : Derives level (parenthesize opening closing inner) tree :=
  (Derives.parenthesis h).of_term level

theorem numerals_parenthesize_iff :
    Numerals (before ++ parenthesize opening closing inner ++ after) ↔
      Numerals (before ++ inner ++ after) := by
  simp [Numerals, Grammar.parenthesize, or_imp, forall_and]

theorem numerals_name_of (h : Numerals (before ++ inner ++ after)) (name : String) :
    Numerals (before ++ [⟨.name, name⟩] ++ after) := by
  simp only [Numerals, List.mem_append, or_imp, forall_and] at h ⊢
  exact ⟨⟨h.1.1, by simp⟩, h.2⟩

theorem NestsWithin.of_parenthesize
    (h : NestsWithin depth (before ++ parenthesize opening closing inner ++ after)) :
    NestsWithin depth (before ++ inner ++ after) := by
  apply h.replace (balance_enclose inner opening closing).symm
  intro front hfront
  refine ⟨⟨.opening, opening⟩ :: front, ?_, ?_⟩
  · exact List.cons_prefix_cons.mpr ⟨rfl, hfront.trans (List.prefix_append inner _)⟩
  · rw [balance_cons, balance_opening]
    omega

theorem NestsWithin.name_of_parenthesize
    (h : NestsWithin depth (before ++ parenthesize opening closing inner ++ after))
    (hbalance : balance inner = 0) (name : String) :
    NestsWithin depth (before ++ [⟨.name, name⟩] ++ after) := by
  have hname : balance [⟨.name, name⟩] = 0 := balance_singleton (by simp) (by simp)
  apply h.replace
  · rw [hname, parenthesize, balance_enclose, hbalance]
  · intro front hfront
    have hless : NestsWithin 0 [⟨.name, name⟩] := .singleton (Int.le_of_eq hname)
    exact ⟨[], List.nil_prefix, hless front hfront⟩

theorem Derives.parse_eq_ok [Limits] (h : IsExpression tokens tree)
    (hnests : NestsWithin 110 tokens) :
    parse tokens = .ok tree :=
  (parse_eq_ok_iff h.numerals hnests).mpr h

theorem Derives.parenthesize_name {result : Expr}
    (h : Derives level (before ++ [⟨.name, name⟩] ++ after) result)
    (hequals : lookahead after ≠ some .equals) (hbefore : ⟨.name, name⟩ ∉ before)
    (hafter : ⟨.name, name⟩ ∉ after) (hinner : IsExpression inner tree)
    (opening closing : String) :
    result.mentions.count (.reads name) = 1 ∧
      Derives level (before ++ Grammar.parenthesize opening closing inner ++ after)
        (result.substitute name tree) := by
  obtain ⟨plug, hcontext, rfl⟩ := Derives.name.exists_context hequals h
  constructor
  · rw [hcontext.count_reads hbefore hafter]
    exact List.count_singleton_self
  · rw [hcontext.substitute hbefore hafter, Expr.substitute_var_self]
    exact hcontext.fill (hinner.parenthesize .term opening closing)

theorem Derives.name_of_parenthesize {result : Expr}
    (h : Derives level (before ++ Grammar.parenthesize opening closing inner ++ after) result)
    (hequals : lookahead after ≠ some .equals) (hinner : IsExpression inner tree) (name : String) :
    ∃ other, Derives level (before ++ [⟨.name, name⟩] ++ after) other := by
  have hterm := hinner.parenthesize .term opening closing
  obtain ⟨plug, hcontext, _⟩ := hterm.exists_context hequals h
  exact ⟨_, hcontext.fill .name⟩

end Parenthesize

end Grammar

/-- A parenthesis that holds an expression is read like a name that stands nowhere else: whether all
is accepted does not depend on which of them stands there, and the tree has the tree of the
parenthesis for the variable. So parentheses around all of an expression or around an operand do not
change the tree. -/
theorem parenthesis_reads_as_name [Limits] :
    (∀ (before inner after : List Token) (opening closing name : String) (tree : Expr),
      Numerals (before ++ inner ++ after) → ⟨.name, name⟩ ∉ before ++ inner ++ after →
      lookahead after ≠ some .equals → parse inner = .ok tree →
      NestsWithin 110 (before ++ parenthesize opening closing inner ++ after) →
      ((∃ result, parse (before ++ parenthesize opening closing inner ++ after) = .ok result) ↔
        ∃ result, parse (before ++ [⟨.name, name⟩] ++ after) = .ok result) ∧
      ∀ result, parse (before ++ [⟨.name, name⟩] ++ after) = .ok result →
        result.mentions.count (.reads name) = 1 ∧
          parse (before ++ parenthesize opening closing inner ++ after) =
            .ok (result.substitute name tree)) ∧
    (∀ (inner : List Token) (opening closing : String) (tree : Expr),
      Numerals inner → parse inner = .ok tree →
      NestsWithin 110 (parenthesize opening closing inner) →
      parse (parenthesize opening closing inner) = .ok tree) ∧
    ∀ (hole : Level) (before inner after : List Token) (opening closing : String)
      (plug : Expr → Expr) (tree : Expr),
      Context hole .sequence before after plug → Derives hole inner tree →
      NestsWithin 110 (before ++ parenthesize opening closing inner ++ after) →
      parse (before ++ inner ++ after) = .ok (plug tree) ∧
        parse (before ++ parenthesize opening closing inner ++ after) = .ok (plug tree) := by
  refine ⟨?_, ?_, ?_⟩
  · intro before inner after opening closing name tree hnumerals hfresh hequals hparse hnests
    have hnumeralsInner : Numerals inner := fun token htoken =>
      hnumerals token (List.mem_append_left after (List.mem_append_right before htoken))
    have hinner : IsExpression inner tree := (takes_of_parseWithin hnumeralsInner hparse).derives
    have hnamed := hnests.name_of_parenthesize hinner.balanced.total name
    have hwhole {result : Expr} :
        parse (before ++ [⟨.name, name⟩] ++ after) = .ok result →
          result.mentions.count (.reads name) = 1 ∧
            parse (before ++ parenthesize opening closing inner ++ after) =
              .ok (result.substitute name tree) := by
      intro hresult
      have hderives := (parse_eq_ok_iff (numerals_name_of hnumerals name) hnamed).mp hresult
      simp only [List.mem_append, not_or] at hfresh
      obtain ⟨hcount, hsubstituted⟩ :=
        hderives.parenthesize_name hequals hfresh.1.1 hfresh.2 hinner opening closing
      exact ⟨hcount, hsubstituted.parse_eq_ok hnests⟩
    refine ⟨⟨?_, ?_⟩, fun result => hwhole⟩
    · intro haccepted
      obtain ⟨result, hresult⟩ := haccepted
      have hderives :=
        (parse_eq_ok_iff (numerals_parenthesize_iff.mpr hnumerals) hnests).mp hresult
      obtain ⟨other, hother⟩ := hderives.name_of_parenthesize hequals hinner name
      exact ⟨other, hother.parse_eq_ok hnamed⟩
    · intro haccepted
      obtain ⟨result, hresult⟩ := haccepted
      exact ⟨_, (hwhole hresult).2⟩
  · intro inner opening closing tree hnumerals hparse hnests
    have hinner : IsExpression inner tree := (takes_of_parseWithin hnumerals hparse).derives
    exact (hinner.parenthesize .sequence opening closing).parse_eq_ok hnests
  · intro hole before inner after opening closing plug tree hcontext hinner hnests
    have henclosed := hinner.sequence.parenthesize hole opening closing
    exact ⟨(hcontext.fill hinner).parse_eq_ok hnests.of_parenthesize,
      (hcontext.fill henclosed).parse_eq_ok hnests⟩

/-- In `x = 2 * (y = 1; y + 3) - 4; x` a whole sequence with an assignment stands for the `v` of
`x = 2 * v - 4; x`. -/
theorem parse_sequence_as_factor :
    let before : List Token :=
      [⟨.name, "x"⟩, ⟨.equals, "="⟩, ⟨.number, "2"⟩, ⟨.star, "*"⟩]
    let inner : List Token :=
      [⟨.name, "y"⟩, ⟨.equals, "="⟩, ⟨.number, "1"⟩, ⟨.semicolon, ";"⟩, ⟨.name, "y"⟩,
        ⟨.plus, "+"⟩, ⟨.number, "3"⟩]
    let after : List Token :=
      [⟨.minus, "-"⟩, ⟨.number, "4"⟩, ⟨.semicolon, ";"⟩, ⟨.name, "x"⟩]
    let tree : Expr := .seq (.assign "y" (.lit 1)) (.binary .add (.var "y") (.lit 3))
    let whole (factor : Expr) : Expr :=
      .seq (.assign "x" (.binary .sub (.binary .mul (.lit 2) factor) (.lit 4))) (.var "x")
    Numerals (before ++ inner ++ after) ∧ ⟨.name, "v"⟩ ∉ before ++ inner ++ after ∧
      lookahead after ≠ some .equals ∧ parse inner = .ok tree ∧
      NestsWithin 110 (before ++ parenthesize "(" ")" inner ++ after) ∧
      parse (before ++ [⟨.name, "v"⟩] ++ after) = .ok (whole (.var "v")) ∧
      parse (before ++ parenthesize "(" ")" inner ++ after) = .ok (whole tree) := by
  intro before inner after tree whole
  have hnumerals : Numerals (before ++ inner ++ after) := by decide
  have hfresh : ⟨.name, "v"⟩ ∉ before ++ inner ++ after := by decide
  have hequals : lookahead after ≠ some .equals := by decide
  have hinner : parse inner = .ok tree := by decide +kernel
  have hnests : NestsWithin 110 (before ++ parenthesize "(" ")" inner ++ after) := by
    decide +kernel
  have hnamed : parse (before ++ [⟨.name, "v"⟩] ++ after) = .ok (whole (.var "v")) := by
    decide +kernel
  obtain ⟨_, hwhole⟩ := parenthesis_reads_as_name.1 before inner after "(" ")" "v" tree hnumerals
    hfresh hequals hinner hnests
  exact ⟨hnumerals, hfresh, hequals, hinner, hnests, hnamed, (hwhole _ hnamed).2⟩

end Abacus
