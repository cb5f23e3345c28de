import Abacus.Proofs.Grammar
import Mathlib.Data.List.Infix

namespace Abacus.Grammar

/-- The parentheses that are opened, less those that are closed. -/
def balance (tokens : List Token) : Int :=
  (tokens.countP fun token => token.kind = .opening) -
    (tokens.countP fun token => token.kind = .closing : Nat)

@[simp] theorem balance_nil : balance [] = 0 := rfl

theorem balance_append (left right : List Token) :
    balance (left ++ right) = balance left + balance right := by
  simp only [balance, List.countP_append]
  omega

theorem balance_cons (token : Token) (tokens : List Token) :
    balance (token :: tokens) = balance [token] + balance tokens :=
  balance_append [token] tokens

@[simp] theorem balance_opening (lexeme : String) : balance [⟨.opening, lexeme⟩] = 1 := rfl

@[simp] theorem balance_closing (lexeme : String) : balance [⟨.closing, lexeme⟩] = -1 := rfl

theorem balance_singleton {token : Token}
    (hopening : token.kind ≠ .opening) (hclosing : token.kind ≠ .closing) :
    balance [token] = 0 := by
  simp [balance, hopening, hclosing]

theorem balance_singleton_add_nonneg {token : Token} {opened : Nat}
    (h : ¬ (token.kind = .closing ∧ opened = 0)) : 0 ≤ (opened : Int) + balance [token] := by
  by_cases hclosing : token.kind = .closing
  · have hpos : opened ≠ 0 := fun hzero => h ⟨hclosing, hzero⟩
    have hbalance : balance [token] = -1 := by simp [balance, hclosing]
    omega
  · have hclosed : [token].countP (fun token => token.kind = .closing) = 0 := by
      simp [hclosing]
    unfold balance
    omega

theorem Infix.balance_eq {level : Level} {token : Token} {join : Expr → Expr → Expr}
    (h : Infix level token.kind join) : balance [token] = 0 := by
  cases token
  cases h <;> rfl

theorem prefix_append_cases {before left right : List Token} (h : before <+: left ++ right) :
    before <+: left ∨ ∃ rest, before = left ++ rest ∧ rest <+: right := by
  obtain ⟨after, heq⟩ := h
  rcases List.append_eq_append_iff.mp heq with ⟨rest, rfl, _⟩ | ⟨rest, rfl, hrest⟩
  · exact .inl (List.prefix_append before rest)
  · exact .inr ⟨rest, rfl, after, hrest.symm⟩

/-- In no beginning of the tokens are more than `depth` parentheses open. -/
def NestsWithin (depth : Nat) (tokens : List Token) : Prop :=
  ∀ before, before <+: tokens → balance before ≤ depth

instance (depth : Nat) (tokens : List Token) : Decidable (NestsWithin depth tokens) :=
  decidable_of_iff (∀ before ∈ tokens.inits, balance before ≤ depth) (by
    simp only [List.mem_inits, NestsWithin])

theorem NestsWithin.mono {depth deeper : Nat} {tokens : List Token}
    (h : NestsWithin depth tokens) (hle : depth ≤ deeper) : NestsWithin deeper tokens :=
  fun before hbefore => Int.le_trans (h before hbefore) (Int.ofNat_le.mpr hle)

theorem nestsWithin_length (tokens : List Token) : NestsWithin tokens.length tokens := by
  intro before hbefore
  have hcount := List.countP_le_length (p := fun token : Token => token.kind = .opening)
    (l := before)
  have hlength := hbefore.length_le
  unfold balance
  omega

theorem NestsWithin.of_append {depth : Nat} {left right : List Token}
    (h : NestsWithin depth (left ++ right)) : NestsWithin depth left :=
  fun _ hbefore => h _ (hbefore.trans (List.prefix_append left right))

theorem NestsWithin.of_append_right {depth opened : Nat} {left right : List Token}
    (h : NestsWithin depth (left ++ right)) (hleft : opened ≤ balance left) :
    NestsWithin (depth - opened) right := by
  intro before hbefore
  have hbound := h (left ++ before) ((List.prefix_append_right_inj left).mpr hbefore)
  rw [balance_append] at hbound
  omega

theorem NestsWithin.of_balanced_append {depth : Nat} {left right : List Token}
    (h : NestsWithin depth (left ++ right)) (hleft : balance left = 0) :
    NestsWithin depth right :=
  @of_append_right depth 0 left right h (Int.le_of_eq hleft.symm)

theorem NestsWithin.append {depth : Nat} {left right : List Token}
    (hleft : NestsWithin depth left) (hbalance : balance left = 0)
    (hright : NestsWithin depth right) : NestsWithin depth (left ++ right) := by
  intro before hbefore
  rcases prefix_append_cases hbefore with hinside | ⟨rest, rfl, hrest⟩
  · exact hleft before hinside
  · have hbound := hright rest hrest
    rw [balance_append]
    omega

theorem NestsWithin.nil {depth : Nat} : NestsWithin depth [] := by
  intro before hbefore
  rw [List.prefix_nil.mp hbefore]
  exact Int.natCast_nonneg _

theorem NestsWithin.open {depth : Nat} {inner : List Token} {opening : String}
    (h : NestsWithin depth inner) : NestsWithin (depth + 1) (⟨.opening, opening⟩ :: inner) := by
  intro before hbefore
  rcases List.prefix_cons_iff.mp hbefore with rfl | ⟨rest, rfl, hrest⟩
  · exact Int.natCast_nonneg _
  · have hbound := h rest hrest
    rw [balance_cons, balance_opening]
    omega

theorem NestsWithin.singleton {depth : Nat} {token : Token} (h : balance [token] ≤ 0) :
    NestsWithin depth [token] := by
  intro before hbefore
  rcases List.prefix_cons_iff.mp hbefore with rfl | ⟨rest, rfl, hrest⟩
  · exact Int.natCast_nonneg _
  · rw [List.prefix_nil.mp hrest]
    omega

theorem NestsWithin.join {depth : Nat} {left right : List Token} {token : Token}
    (hleft : NestsWithin depth left) (hbalance : balance left = 0) (htoken : balance [token] = 0)
    (hright : NestsWithin depth right) : NestsWithin depth (left ++ token :: right) :=
  hleft.append hbalance ((NestsWithin.singleton (Int.le_of_eq htoken)).append htoken hright)

theorem NestsWithin.assign {depth : Nat} {tokens : List Token} {name equals : String}
    (h : NestsWithin depth tokens) :
    NestsWithin depth (⟨.name, name⟩ :: ⟨.equals, equals⟩ :: tokens) := by
  have hname : balance [⟨.name, name⟩] = 0 := balance_singleton (by simp) (by simp)
  have hequals : balance [⟨.equals, equals⟩] = 0 := balance_singleton (by simp) (by simp)
  exact (NestsWithin.singleton (Int.le_of_eq hname)).join hname hequals h

theorem balance_enclose (inner : List Token) (opening closing : String) :
    balance (⟨.opening, opening⟩ :: (inner ++ [⟨.closing, closing⟩])) = balance inner := by
  rw [balance_cons, balance_append, balance_opening, balance_closing]
  omega

theorem NestsWithin.enclose {depth : Nat} {inner : List Token} {opening closing : String}
    (h : NestsWithin depth inner) (hbalance : balance inner = 0) :
    NestsWithin (depth + 1) (⟨.opening, opening⟩ :: (inner ++ [⟨.closing, closing⟩])) :=
  (h.append hbalance (.singleton (by simp))).open

structure Balanced (tokens : List Token) : Prop where
  total : balance tokens = 0
  never_negative : ∀ before, before <+: tokens → 0 ≤ balance before

theorem Balanced.append {left right : List Token}
    (hleft : Balanced left) (hright : Balanced right) : Balanced (left ++ right) := by
  constructor
  · rw [balance_append, hleft.total, hright.total]
    rfl
  · intro before hbefore
    rcases prefix_append_cases hbefore with hinside | ⟨rest, rfl, hrest⟩
    · exact hleft.never_negative before hinside
    · rw [balance_append, hleft.total, Int.zero_add]
      exact hright.never_negative rest hrest

theorem Balanced.singleton {token : Token} (h : balance [token] = 0) : Balanced [token] := by
  constructor
  · exact h
  · intro before hbefore
    rcases List.prefix_cons_iff.mp hbefore with rfl | ⟨rest, rfl, hrest⟩
    · exact Int.le_refl 0
    · rw [List.prefix_nil.mp hrest]
      exact Int.le_of_eq h.symm

theorem Balanced.enclose {inner : List Token} (h : Balanced inner) (opening closing : String) :
    Balanced (⟨.opening, opening⟩ :: (inner ++ [⟨.closing, closing⟩])) := by
  constructor
  · rw [balance_enclose, h.total]
  · intro before hbefore
    rcases List.prefix_cons_iff.mp hbefore with rfl | ⟨rest, rfl, hrest⟩
    · exact Int.le_refl 0
    · rw [balance_cons, balance_opening]
      rcases List.prefix_concat_iff.mp hrest with rfl | hinside
      · rw [balance_append, h.total, balance_closing]
        decide
      · have := h.never_negative rest hinside
        omega

theorem Derives.balanced {level : Level} {tokens : List Token} {tree : Expr}
    (h : Derives level tokens tree) : Balanced tokens := by
  induction h with
  | number _ _ => exact .singleton (balance_singleton (by simp) (by simp))
  | name => exact .singleton (balance_singleton (by simp) (by simp))
  | parenthesis _ ih => exact ih.enclose _ _
  | lift _ _ ih => exact ih
  | chain _ hinfix _ _ ihLeft ihRight =>
      exact ihLeft.append ((Balanced.singleton hinfix.balance_eq).append ihRight)
  | assign _ ih =>
      exact (Balanced.singleton (balance_singleton (by simp) (by simp))).append
        ((Balanced.singleton (balance_singleton (by simp) (by simp))).append ih)

/-- A parenthesis opened in front of the tokens is closed among them, after as many have been
closed as were opened behind it. -/
def ClosesIn (tokens : List Token) : Prop :=
  ∃ inner closing rest, tokens = inner ++ closing :: rest ∧ Balanced inner ∧
    closing.kind = .closing

/-- At `index` stands the last parenthesis that is opened and not closed. -/
def IsLastUnclosed (tokens : List Token) (index : Nat) : Prop :=
  ∃ before opening after, tokens = before ++ opening :: after ∧ before.length = index ∧
    opening.kind = .opening ∧ ¬ ClosesIn after ∧
    ∀ between later behind, after = between ++ later :: behind → later.kind = .opening →
      ClosesIn behind

theorem exists_closing_of_balance_lt {tokens : List Token} {opened : Nat}
    (h : balance tokens < -opened) :
    ∃ inner closing rest, tokens = inner ++ closing :: rest ∧ closing.kind = .closing ∧
      balance inner = -opened ∧ ∀ before, before <+: inner → -opened ≤ balance before := by
  induction tokens generalizing opened with
  | nil =>
      rw [balance_nil] at h
      omega
  | cons token tokens ih =>
      rw [balance_cons] at h
      by_cases hdone : token.kind = .closing ∧ opened = 0
      · obtain ⟨hclosing, rfl⟩ := hdone
        refine ⟨[], token, tokens, rfl, hclosing, rfl, fun before hbefore => ?_⟩
        rw [List.prefix_nil.mp hbefore]
        exact Int.le_refl 0
      · -- Behind the token, one more or one less has to be closed, or as many.
        obtain ⟨still, hstill⟩ : ∃ still : Nat, opened + balance [token] = still :=
          Int.eq_ofNat_of_zero_le (balance_singleton_add_nonneg hdone)
        obtain ⟨inner, closing, rest, rfl, hclosing, hinner, hbefore⟩ :=
          @ih still (by omega)
        refine ⟨token :: inner, closing, rest, rfl, hclosing, ?_, fun before hbegins => ?_⟩
        · rw [balance_cons]
          omega
        · rcases List.prefix_cons_iff.mp hbegins with rfl | ⟨tail, rfl, htail⟩
          · rw [balance_nil]
            omega
          · have := hbefore tail htail
            rw [balance_cons]
            omega

theorem closesIn_of_balance_neg {tokens : List Token} (h : balance tokens < 0) :
    ClosesIn tokens := by
  obtain ⟨inner, closing, rest, htokens, hclosing, hinner, hbefore⟩ :=
    @exists_closing_of_balance_lt tokens 0 h
  exact ⟨inner, closing, rest, htokens, ⟨hinner, hbefore⟩, hclosing⟩

theorem Balanced.not_closesIn {tokens : List Token} (h : Balanced tokens) : ¬ ClosesIn tokens := by
  intro hcloses
  obtain ⟨inner, closing, rest, rfl, hinner, hclosing⟩ := hcloses
  have hbegins : inner ++ [closing] <+: inner ++ closing :: rest := ⟨rest, by simp⟩
  have hnonneg := h.never_negative _ hbegins
  obtain ⟨kind, lexeme⟩ := closing
  cases hclosing
  rw [balance_append, hinner.total, balance_closing] at hnonneg
  omega

theorem Balanced.closesIn_behind {between behind : List Token} {opening : Token}
    (h : Balanced (between ++ opening :: behind)) (hopening : opening.kind = .opening) :
    ClosesIn behind := by
  apply closesIn_of_balance_neg
  have hbetween := h.never_negative between (List.prefix_append between _)
  have htotal := h.total
  obtain ⟨kind, lexeme⟩ := opening
  cases hopening
  rw [balance_append, balance_cons, balance_opening] at htotal
  omega

theorem Balanced.isLastUnclosed {before inner : List Token} {opening : Token}
    (h : Balanced inner) (hopening : opening.kind = .opening) :
    IsLastUnclosed (before ++ opening :: inner) before.length := by
  refine ⟨before, opening, inner, rfl, rfl, hopening, h.not_closesIn, ?_⟩
  intro between later behind hinner hlater
  subst hinner
  exact h.closesIn_behind hlater

end Abacus.Grammar
