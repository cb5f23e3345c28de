import Abacus.Proofs.Parsing

namespace Abacus.Grammar

/-- In front of the hole stand the tokens `before` and behind it `after`. The tree of what fills the
hole becomes part of the whole tree by `plug`. -/
inductive Context (hole : Level) : Level → List Token → List Token → (Expr → Expr) → Prop
  | here : Context hole hole [] [] id
  | parenthesis {opening closing : String} {before after : List Token} {plug : Expr → Expr} :
      Context hole .sequence before after plug →
      Context hole .term (⟨.opening, opening⟩ :: before) (after ++ [⟨.closing, closing⟩]) plug
  | lift {level tighter : Level} {before after : List Token} {plug : Expr → Expr} :
      level.tighter? = some tighter → Context hole tighter before after plug →
      Context hole level before after plug
  | left {level tighter : Level} {before after right : List Token} {token : Token}
      {plug : Expr → Expr} {second : Expr} {join : Expr → Expr → Expr} :
      level.tighter? = some tighter → Infix level token.kind join →
      Context hole level before after plug → Derives tighter right second →
      Context hole level before (after ++ token :: right) (fun tree => join (plug tree) second)
  | right {level tighter : Level} {left before after : List Token} {token : Token}
      {plug : Expr → Expr} {first : Expr} {join : Expr → Expr → Expr} :
      level.tighter? = some tighter → Infix level token.kind join →
      Derives level left first → Context hole tighter before after plug →
      Context hole level (left ++ token :: before) after (fun tree => join first (plug tree))
  | assign {name equals : String} {before after : List Token} {plug : Expr → Expr} :
      Context hole .addition before after plug →
      Context hole .assignment (⟨.name, name⟩ :: ⟨.equals, equals⟩ :: before) after
        (fun tree => .assign name (plug tree))

variable {hole level : Level} {before after inner : List Token} {plug : Expr → Expr} {tree : Expr}

theorem Context.fill (h : Context hole level before after plug) (hinner : Derives hole inner tree) :
    Derives level (before ++ inner ++ after) (plug tree) := by
  induction h with
  | here => simpa using hinner
  | parenthesis _ ih => simpa using Derives.parenthesis ih
  | lift htighter _ ih => exact .lift htighter ih
  | left htighter hjoin _ hright ih => simpa using Derives.chain htighter hjoin ih hright
  | right htighter hjoin hleft _ ih => simpa using Derives.chain htighter hjoin hleft ih
  | assign _ ih => exact .assign ih

theorem Derives.unique {other : Expr} (h : Derives level inner tree)
    (hother : Derives level inner other) : tree = other := by
  have hparse {result : Expr} (hresult : Derives level inner result) :
      parseWithin inner.length inner = .ok result :=
    (parseWithin_eq_ok_iff h.numerals (nestsWithin_length inner)).mpr hresult.sequence
  exact Except.ok.inj ((hparse h).symm.trans (hparse hother))

section Term

variable {operand : List Token} {value : Expr}

theorem Derives.term_ne_nil (h : Derives .term operand value) : operand ≠ [] := by
  cases h with
  | number | name | parenthesis => exact List.cons_ne_nil _ _
  | lift htighter | chain htighter => cases htighter

theorem Derives.not_infix_of_term {token : Token} {rest : List Token}
    {join : Expr → Expr → Expr} (h : Derives .term (token :: rest) value) :
    ¬ Infix level token.kind join := by
  generalize htokens : token :: rest = tokens at h
  cases h with
  | number | name | parenthesis =>
      cases htokens
      nofun
  | lift htighter | chain htighter => cases htighter

theorem Derives.eq_nil_of_name_term {name : String} {rest : List Token}
    (h : Derives .term (⟨.name, name⟩ :: rest) value) : rest = [] := by
  generalize htokens : ⟨.name, name⟩ :: rest = tokens at h
  cases h with
  | name =>
      cases htokens
      rfl
  | number | parenthesis => cases htokens
  | lift htighter | chain htighter => cases htighter

theorem Derives.kind_ne_equals_of_term {token : Token} {rest : List Token}
    (h : Derives .term (token :: rest) value) : token.kind ≠ .equals := by
  generalize htokens : token :: rest = tokens at h
  cases h with
  | number | name | parenthesis =>
      cases htokens
      nofun
  | lift htighter | chain htighter => cases htighter

theorem Derives.balance_pos_of_term (h : Derives .term operand value) {front : List Token}
    (hfront : front <+: operand) (hnil : front ≠ []) (hpart : front ≠ operand) :
    0 < balance front := by
  cases h with
  | number | name =>
      rcases List.prefix_cons_iff.mp hfront with rfl | ⟨rest, rfl, hrest⟩
      · exact absurd rfl hnil
      · rw [List.prefix_nil.mp hrest] at hpart
        exact absurd rfl hpart
  | parenthesis hinner =>
      rcases List.prefix_cons_iff.mp hfront with rfl | ⟨rest, rfl, hrest⟩
      · exact absurd rfl hnil
      · rcases List.prefix_concat_iff.mp hrest with rfl | hinside
        · exact absurd rfl hpart
        · have hnonneg := hinner.balanced.never_negative rest hinside
          rw [balance_cons, balance_opening]
          omega
  | lift htighter | chain htighter => cases htighter

theorem Derives.append_cases_of_term {left right : List Token} {token : Token}
    {join : Expr → Expr → Expr} (hoperand : Derives .term operand value)
    (hjoin : Infix level token.kind join) (hleft : Balanced left)
    (h : before ++ operand ++ after = left ++ token :: right) :
    (∃ between, left = before ++ operand ++ between ∧ after = between ++ token :: right) ∨
      ∃ between, right = between ++ operand ++ after ∧ before = left ++ token :: between := by
  rw [List.append_assoc, List.append_eq_append_iff] at h
  rcases h with ⟨front, rfl, hbehind⟩ | ⟨middle, rfl, hbehind⟩
  · left
    rcases List.append_eq_append_iff.mp hbehind with ⟨between, rfl, rfl⟩ | ⟨back, rfl, hback⟩
    · exact ⟨between, (List.append_assoc _ _ _).symm, rfl⟩
    · cases back with
      | nil => exact ⟨[], by simp, hback.symm⟩
      | cons first back =>
          obtain ⟨rfl, rfl⟩ := List.cons.inj hback
          -- The beginning of the term would be the end of `left`, where all parentheses are closed.
          have hfront : front ≠ [] := by
            rintro rfl
            exact hoperand.not_infix_of_term hjoin
          have hopen := hoperand.balance_pos_of_term (List.prefix_append front _) hfront (by simp)
          have hbefore := hleft.never_negative before (List.prefix_append before front)
          have htotal := hleft.total
          rw [balance_append] at htotal
          omega
  · right
    cases middle with
    | nil =>
        obtain ⟨first, rest, rfl⟩ := List.exists_cons_of_ne_nil hoperand.term_ne_nil
        obtain ⟨rfl, _⟩ := List.cons.inj hbehind
        exact absurd hjoin hoperand.not_infix_of_term
    | cons first between =>
        obtain ⟨rfl, rfl⟩ := List.cons.inj hbehind
        exact ⟨between, (List.append_assoc _ _ _).symm, rfl⟩

theorem Derives.enclosed_cases_of_term {tokens : List Token} {whole : Expr}
    (hoperand : Derives .term operand value) (hwhole : Derives .term tokens whole)
    (h : before ++ operand ++ after = tokens) :
    (before = [] ∧ after = [] ∧ whole = value) ∨ ∃ first inside outside last,
      before = first :: inside ∧ after = outside ++ [last] ∧
        tokens = first :: (inside ++ operand ++ outside ++ [last]) := by
  subst h
  rcases List.eq_nil_or_concat after with rfl | ⟨outside, last, hlast⟩
  · rw [List.append_nil] at hwhole
    by_cases hbefore : before = []
    · subst hbefore
      exact .inl ⟨rfl, rfl, hwhole.unique hoperand⟩
    · have hopen := hwhole.balance_pos_of_term (List.prefix_append before operand) hbefore
        (by simp [hoperand.term_ne_nil])
      have htotal := hwhole.balanced.total
      rw [balance_append, hoperand.balanced.total] at htotal
      omega
  · rw [List.concat_eq_append] at hlast
    subst hlast
    cases before with
    | cons first inside => exact .inr ⟨first, inside, outside, last, rfl, rfl, by simp⟩
    | nil =>
        rw [List.nil_append] at hwhole
        have hopen := hwhole.balance_pos_of_term (List.prefix_append operand _)
          hoperand.term_ne_nil (by simp)
        have htotal := hoperand.balanced.total
        omega

theorem lookahead_ne_of_append {front rest : List Token} {kind : Token.Kind}
    (h : lookahead (front ++ rest) ≠ some kind) : lookahead front ≠ some kind := by
  cases front with
  | nil => nofun
  | cons token front => exact h

theorem Derives.exists_context {result : Expr} (hoperand : Derives .term operand value)
    (hequals : lookahead after ≠ some .equals)
    (h : Derives level (before ++ operand ++ after) result) :
    ∃ plug, Context .term level before after plug ∧ result = plug value := by
  generalize htokens : before ++ operand ++ after = tokens at h
  induction h generalizing before after with
  | number hnumeral hshort =>
      rcases hoperand.enclosed_cases_of_term (.number hnumeral hshort) htokens with
        ⟨rfl, rfl, rfl⟩ | ⟨_, _, _, _, _, _, hlonger⟩
      · exact ⟨id, .here, rfl⟩
      · simp at hlonger
  | name =>
      rcases hoperand.enclosed_cases_of_term .name htokens with
        ⟨rfl, rfl, rfl⟩ | ⟨_, _, _, _, _, _, hlonger⟩
      · exact ⟨id, .here, rfl⟩
      · simp at hlonger
  | parenthesis hinner ih =>
      rcases hoperand.enclosed_cases_of_term (.parenthesis hinner) htokens with
        ⟨rfl, rfl, rfl⟩ | ⟨first, inside, outside, last, rfl, rfl, henclosed⟩
      · exact ⟨id, .here, rfl⟩
      · obtain ⟨rfl, hinside⟩ := List.cons.inj henclosed
        obtain ⟨rfl, hlast⟩ := List.append_inj' hinside rfl
        obtain rfl := List.singleton_inj.mp hlast
        obtain ⟨plug, hcontext, rfl⟩ := ih (lookahead_ne_of_append hequals) rfl
        exact ⟨plug, .parenthesis hcontext, rfl⟩
  | lift htighter _ ih =>
      obtain ⟨plug, hcontext, rfl⟩ := ih hequals htokens
      exact ⟨plug, .lift htighter hcontext, rfl⟩
  | chain htighter hjoin hleft hright ihLeft ihRight =>
      rcases hoperand.append_cases_of_term hjoin hleft.balanced htokens with
        ⟨between, rfl, rfl⟩ | ⟨between, rfl, rfl⟩
      · obtain ⟨plug, hcontext, rfl⟩ := ihLeft (lookahead_ne_of_append hequals) rfl
        exact ⟨_, .left htighter hjoin hcontext hright, rfl⟩
      · obtain ⟨plug, hcontext, rfl⟩ := ihRight hequals rfl
        exact ⟨_, .right htighter hjoin hleft hcontext, rfl⟩
  | @assign name equals tokens tree _ ih =>
      obtain ⟨first, rest, rfl⟩ := List.exists_cons_of_ne_nil hoperand.term_ne_nil
      cases before with
      | nil =>
          obtain ⟨rfl, hrest⟩ := List.cons.inj htokens
          obtain rfl := hoperand.eq_nil_of_name_term
          obtain rfl : after = _ := hrest
          exact absurd rfl hequals
      | cons target before =>
          obtain ⟨rfl, hbehind⟩ := List.cons.inj htokens
          cases before with
          | nil =>
              obtain ⟨rfl, _⟩ := List.cons.inj hbehind
              exact absurd rfl hoperand.kind_ne_equals_of_term
          | cons sign before =>
              obtain ⟨rfl, hvalue⟩ := List.cons.inj hbehind
              obtain ⟨plug, hcontext, rfl⟩ := ih hequals hvalue
              exact ⟨_, .assign hcontext, rfl⟩

end Term

end Abacus.Grammar
