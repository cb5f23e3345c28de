import Abacus.Proofs.Evaluation.ExactArithmetic

namespace Abacus

open Text

/-- What remains of `a` without `quotient` times `b` is smaller than `b`, and on the side of zero
where `a` is. -/
def IsQuotient (a b quotient : Int) : Prop :=
  ∃ rest, a = quotient * b + rest ∧ rest.natAbs < b.natAbs ∧ (rest = 0 ∨ rest.sign = a.sign)

namespace IsQuotient

variable {a b quotient other rest : Int}

theorem tdiv (a : Int) (hb : b ≠ 0) : IsQuotient a b (a.tdiv b) := by
  refine ⟨a.tmod b, (Int.tdiv_mul_add_tmod a b).symm, ?_, ?_⟩
  · rw [Int.natAbs_tmod]
    exact Nat.mod_lt _ (Int.natAbs_pos.mpr hb)
  · rw [← Int.sign_eq_zero_iff_zero, Int.sign_tmod]
    split
    · exact .inl rfl
    · exact .inr rfl

theorem ne_zero (h : IsQuotient a b quotient) : b ≠ 0 := by
  obtain ⟨rest, _, hsmall, _⟩ := h
  exact Int.natAbs_pos.mp (Nat.zero_lt_of_lt hsmall)

theorem side_of_rest (h : rest = 0 ∨ rest.sign = a.sign) :
    (0 ≤ a → 0 ≤ rest) ∧ (a ≤ 0 → rest ≤ 0) := by
  rcases h with rfl | hsign
  · exact ⟨fun _ => Int.le_refl 0, fun _ => Int.le_refl 0⟩
  · rw [← Int.sign_nonneg_iff, ← Int.sign_nonneg_iff (x := rest), ← Int.sign_nonpos_iff,
      ← Int.sign_nonpos_iff (x := rest), hsign]
    exact ⟨id, id⟩

theorem unique (h : IsQuotient a b quotient) (hother : IsQuotient a b other) :
    quotient = other := by
  have hb : b ≠ 0 := h.ne_zero
  obtain ⟨rest, hrest, hsmall, hside⟩ := h
  obtain ⟨rest', hrest', hsmall', hside'⟩ := hother
  have hproduct : (quotient - other) * b = rest' - rest := by
    rw [Int.sub_mul]
    omega
  -- Both rests are on one side of zero, so they are less than `b` apart.
  have hnear : (rest' - rest).natAbs < b.natAbs := by
    have hrests := side_of_rest hside
    have hrests' := side_of_rest hside'
    omega
  have hsame : rest' - rest = 0 :=
    Int.eq_zero_of_dvd_of_natAbs_lt_natAbs (hproduct ▸ Int.dvd_mul_left _ b) hnear
  rw [hsame] at hproduct
  exact Int.sub_eq_zero.mp ((Int.mul_eq_zero.mp hproduct).resolve_right hb)

theorem iff_eq_tdiv (hb : b ≠ 0) : IsQuotient a b quotient ↔ quotient = a.tdiv b := by
  constructor
  · intro h
    exact h.unique (tdiv a hb)
  · rintro rfl
    exact tdiv a hb

end IsQuotient

theorem tdiv_eq_of_magnitudes (a b : Int) :
    a.tdiv b =
      if a < 0 ↔ b < 0 then ((a.natAbs / b.natAbs : Nat) : Int)
      else -((a.natAbs / b.natAbs : Nat) : Int) := by
  have hnonneg (n : Nat) : ¬ Int.ofNat n < 0 := Int.not_lt.mpr (Int.natCast_nonneg n)
  cases a with
  | ofNat m =>
      cases b with
      | ofNat n => exact (if_pos (iff_of_false (hnonneg m) (hnonneg n))).symm
      | negSucc n => exact (if_neg fun h => hnonneg m (h.mpr (Int.negSucc_lt_zero n))).symm
  | negSucc m =>
      cases b with
      | ofNat n => exact (if_neg fun h => hnonneg n (h.mp (Int.negSucc_lt_zero m))).symm
      | negSucc n =>
          exact (if_pos (iff_of_true (Int.negSucc_lt_zero m) (Int.negSucc_lt_zero n))).symm

namespace Operator

def IsResult : Operator → Int → Int → Int → Prop
  | add, a, b, result => result = a + b
  | sub, a, b, result => result = a - b
  | mul, a, b, result => result = a * b
  | div, a, b, result => IsQuotient a b result

theorem exact_eq_ok_iff {op : Operator} {a b result : Int} :
    op.exact a b = .ok result ↔ op.IsResult a b result := by
  cases op with
  | add | sub | mul => simp [exact, IsResult, eq_comm]
  | div =>
      rw [exact, IsResult]
      split
      · next hb =>
          constructor
          · intro h
            cases h
          · intro h
            exact absurd hb h.ne_zero
      · next hb => rw [IsQuotient.iff_eq_tdiv hb, Except.ok.injEq, eq_comm]

theorem exact_eq_error_iff {op : Operator} {a b : Int} {fault : Fault} :
    op.exact a b = .error fault ↔ (op = .div ∧ b = 0) ∧ fault = .divisionByZero := by
  cases op with
  | add | sub | mul => simp [exact]
  | div =>
      rw [exact]
      split
      · next hb => simp [hb, eq_comm]
      · next hb => simp [hb]

theorem apply_eq_divisionByZero_iff {op : Operator} {a b : Int} :
    op.apply a b = .error .divisionByZero ↔ op = .div ∧ b = 0 := by
  cases hexact : op.exact a b with
  | error fault =>
      obtain ⟨hzero, rfl⟩ := exact_eq_error_iff.mp hexact
      exact iff_of_true (apply_of_exact_error hexact) hzero
  | ok result =>
      have hsome : ¬ (op = .div ∧ b = 0) := by
        intro hzero
        cases hexact.symm.trans (exact_eq_error_iff.mpr ⟨hzero, rfl⟩)
      rw [apply_of_exact_ok hexact]
      refine iff_of_false ?_ hsome
      split <;> nofun

theorem exists_isResult {op : Operator} {a b : Int} (h : ¬ (op = .div ∧ b = 0)) :
    ∃ result, ∀ other, op.IsResult a b other ↔ other = result := by
  cases hexact : op.exact a b with
  | error fault => exact absurd (exact_eq_error_iff.mp hexact).1 h
  | ok result =>
      refine ⟨result, fun other => ?_⟩
      rw [← exact_eq_ok_iff, hexact, Except.ok.injEq, eq_comm]

section Digits

variable {op : Operator} {a b result : Int}

theorem apply_of_isResult (h : op.IsResult a b result) :
    op.apply a b =
      if (toString result.natAbs).length ≤ maxDigits then .ok result
      else .error .resultTooLarge := by
  rw [apply_of_exact_ok (exact_eq_ok_iff.mpr h)]
  exact if_congr isWritable_iff_length rfl rfl

theorem apply_eq_resultTooLarge_iff (h : op.IsResult a b result) :
    op.apply a b = .error .resultTooLarge ↔ maxDigits < (toString result.natAbs).length := by
  rw [apply_of_isResult h, ← Nat.not_le]
  split
  · next hshort => exact iff_of_false (fun h => by cases h) (not_not_intro hshort)
  · next hlong => exact iff_of_true rfl hlong

theorem div_apply_ne_resultTooLarge (h : (toString a.natAbs).length ≤ maxDigits) (b : Int) :
    div.apply a b ≠ .error .resultTooLarge := by
  by_cases hb : b = 0
  · rw [apply_eq_divisionByZero_iff.mpr ⟨rfl, hb⟩]
    nofun
  · have hresult : div.IsResult a b (a.tdiv b) := IsQuotient.tdiv a hb
    rw [Ne, apply_eq_resultTooLarge_iff hresult, Nat.not_lt]
    rw [length_toString_le_maxDigits_iff] at h ⊢
    exact Nat.lt_of_le_of_lt (Int.natAbs_tdiv_le_natAbs a b) h

end Digits

theorem quotient?_of_ne_zero {b : Int} (hb : b ≠ 0) (a : Int) :
    quotient? a b = some (a.tdiv b) :=
  if_neg hb

end Operator

open Operator

/-- Division by zero is refused, whatever is divided. All else has one exact result, and that is
what an operator comes to unless it has more than `maxDigits` digits. A quotient is rounded toward
zero, is no larger than what is divided, and changes its sign with either operand. -/
theorem operators_exact_within_digits (op : Operator) (a b : Int) :
    (op.apply a b = .error .divisionByZero ↔ op = .div ∧ b = 0) ∧
      (¬ (op = .div ∧ b = 0) → ∃ result,
        (∀ other, op.IsResult a b other ↔ other = result) ∧
        (op.apply a b = .error .resultTooLarge ↔
          maxDigits < (toString result.natAbs).length) ∧
        ((toString result.natAbs).length ≤ maxDigits → op.apply a b = .ok result)) ∧
      (b ≠ 0 → ∃ quotient, quotient? a b = some quotient ∧
        (∀ other, IsQuotient a b other ↔ other = quotient) ∧
        quotient = (if a < 0 ↔ b < 0 then ((a.natAbs / b.natAbs : Nat) : Int)
          else -((a.natAbs / b.natAbs : Nat) : Int)) ∧
        quotient.natAbs ≤ a.natAbs ∧
        quotient? (-a) b = some (-quotient) ∧ quotient? a (-b) = some (-quotient)) ∧
      ((toString a.natAbs).length ≤ maxDigits → div.apply a b ≠ .error .resultTooLarge) := by
  refine ⟨apply_eq_divisionByZero_iff, ?_, ?_, fun hshort => div_apply_ne_resultTooLarge hshort b⟩
  · intro hsome
    obtain ⟨result, hunique⟩ := exists_isResult hsome
    have hresult : op.IsResult a b result := (hunique result).mpr rfl
    refine ⟨result, hunique, apply_eq_resultTooLarge_iff hresult, fun hshort => ?_⟩
    rw [apply_of_isResult hresult, if_pos hshort]
  · intro hb
    refine ⟨a.tdiv b, quotient?_of_ne_zero hb a, fun _ => IsQuotient.iff_eq_tdiv hb,
      tdiv_eq_of_magnitudes a b, Int.natAbs_tdiv_le_natAbs a b, ?_, ?_⟩
    · rw [quotient?_of_ne_zero hb, Int.neg_tdiv]
    · rw [quotient?_of_ne_zero (Int.neg_ne_zero.mpr hb), Int.tdiv_neg]

end Abacus
