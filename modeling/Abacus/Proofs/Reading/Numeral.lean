import Abacus.Proofs.Grammar
import Mathlib.Algebra.Group.Nat.Defs

namespace Abacus.Text

theorem toNat_of_isDigit {c : Char} (h : c.isDigit = true) :
    48 ≤ c.toNat ∧ c.toNat ≤ 57 := by
  simpa [Char.isDigit, UInt32.le_iff_toNat_le] using h

theorem isBlank_eq_false_of_isDigit {c : Char} (h : c.isDigit = true) : isBlank c = false := by
  have hbounds := toNat_of_isDigit h
  simp only [isBlank]
  grind

theorem ne_of_isDigit {c other : Char} (h : c.isDigit = true) (hother : other.isDigit = false) :
    c ≠ other := by
  intro heq
  rw [heq, hother] at h
  cases h

theorem digitValue?_of_isDigit {c : Char} (h : c.isDigit = true) :
    digitValue? c = some (c.toNat - 48) := by
  obtain ⟨hlow, hhigh⟩ := toNat_of_isDigit h
  have hfirst : digitZeros.find? (fun first => first ≤ c.toNat && c.toNat < first + 10) =
      some 48 := by
    rw [digitZeros, List.find?_cons_of_pos (by simp; omega)]
  rw [digitValue?, hfirst, Option.map_some]

theorem readDigits_of_digits {digits : List Char} (h : ∀ c ∈ digits, c.isDigit = true)
    (value : Nat) : readDigits value digits = some (Nat.ofDigitChars 10 digits value) := by
  induction digits generalizing value with
  | nil => simp [readDigits]
  | cons c rest ih =>
      have hc := h c List.mem_cons_self
      have hunderscore : c ≠ '_' := ne_of_isDigit hc rfl
      rw [readDigits.eq_3 _ _ _ (fun _ _ hc _ => hunderscore hc), digitValue?_of_isDigit hc]
      simp only [Option.bind_eq_bind, Option.bind_some]
      rw [ih (fun d hd => h d (List.mem_cons_of_mem c hd)), Nat.ofDigitChars_cons]
      rfl

theorem trimBy_eq_self {drop : Char → Bool} {text : List Char}
    (h : ∀ c ∈ text, drop c = false) : trimBy drop text = text := by
  have hself : ∀ {list : List Char}, (∀ c ∈ list, drop c = false) → list.dropWhile drop = list := by
    intro list hlist
    cases list with
    | nil => rfl
    | cons c rest => rw [List.dropWhile_cons_of_neg (by simp [hlist c List.mem_cons_self])]
  rw [trimBy, hself h, hself (fun c hc => h c (List.mem_reverse.mp hc)), List.reverse_reverse]

theorem readInt?_of_isNumeral {lexeme : String} (h : Grammar.IsNumeral lexeme) :
    readInt? lexeme.toList = some (Grammar.numeralValue lexeme : Int) := by
  obtain ⟨hnonempty, hdigits⟩ := h
  have htrim : trimBy isNumeralBlank lexeme.toList = lexeme.toList :=
    trimBy_eq_self fun c hc => by
      simp [isNumeralBlank, isBlank_eq_false_of_isDigit (hdigits c hc)]
  cases htext : lexeme.toList with
  | nil => exact absurd (String.toList_eq_nil_iff.mp htext) hnonempty
  | cons c rest =>
      rw [htext] at hdigits htrim
      have hc := hdigits c List.mem_cons_self
      have hminus : c ≠ '-' := ne_of_isDigit hc rfl
      have hplus : c ≠ '+' := ne_of_isDigit hc rfl
      have hmagnitude : readMagnitude? (c :: rest) =
          some (Nat.ofDigitChars 10 (c :: rest) 0) := by
        rw [readMagnitude?, digitValue?_of_isDigit hc, Nat.ofDigitChars_cons]
        exact (readDigits_of_digits (fun d hd => hdigits d (List.mem_cons_of_mem c hd)) _).trans
          (by simp)
      simp only [readInt?, htrim, Grammar.numeralValue, htext]
      split
      · simp_all
      · simp_all
      · rw [hmagnitude]
        rfl

theorem isNumeral_toString (n : Nat) : Grammar.IsNumeral (toString n) := by
  constructor
  · rw [Nat.toString_eq_ofList_toDigits]
    simp [Nat.toDigits_ne_nil]
  · intro c hc
    rw [Nat.toString_eq_ofList_toDigits, String.toList_ofList] at hc
    exact Nat.isDigit_of_mem_toDigits (by decide) (by decide) hc

theorem numeralValue_toString (n : Nat) : Grammar.numeralValue (toString n) = n := by
  rw [Grammar.numeralValue, Nat.toString_eq_ofList_toDigits, String.toList_ofList]
  exact Nat.ofDigitChars_ten_toDigits

theorem magnitudeBound_eq : magnitudeBound = 10 ^ maxDigits := by
  unfold magnitudeBound
  generalize maxDigits = digits
  rfl

theorem length_toString_le_maxDigits_iff (n : Nat) :
    (toString n).length ≤ maxDigits ↔ n < magnitudeBound := by
  rw [magnitudeBound_eq, Nat.toString_eq_ofList_toDigits, String.length_ofList]
  exact Nat.length_toDigits_le_iff (by decide) (by decide)

theorem isWritable_iff_lt_pow {value : Int} :
    isWritable value = true ↔ value.natAbs < 10 ^ maxDigits := by
  rw [isWritable, decide_eq_true_iff, magnitudeBound_eq]

theorem isWritable_iff_length {value : Int} :
    isWritable value = true ↔ (toString value.natAbs).length ≤ maxDigits := by
  rw [isWritable, decide_eq_true_iff, length_toString_le_maxDigits_iff]

theorem ofDigitChars_lt {digits : List Char} (h : ∀ c ∈ digits, c.isDigit = true) (value : Nat) :
    Nat.ofDigitChars 10 digits value < (value + 1) * 10 ^ digits.length := by
  induction digits generalizing value with
  | nil => simp
  | cons c rest ih =>
      have hc := toNat_of_isDigit (h c List.mem_cons_self)
      have hzero : '0'.toNat = 48 := rfl
      have hnext : 10 * value + (c.toNat - '0'.toNat) + 1 ≤ (value + 1) * 10 := by omega
      rw [Nat.ofDigitChars_cons, List.length_cons, Nat.pow_succ', ← Nat.mul_assoc]
      apply Nat.lt_of_lt_of_le (ih (fun d hd => h d (List.mem_cons_of_mem c hd)) _)
      exact Nat.mul_le_mul_right _ hnext

theorem numeralValue_lt_magnitudeBound {lexeme : String} (h : Grammar.IsNumeral lexeme)
    (hshort : lexeme.length ≤ maxDigits) : Grammar.numeralValue lexeme < magnitudeBound := by
  have hlt := ofDigitChars_lt h.2 0
  rw [String.length_toList, Nat.zero_add, Nat.one_mul] at hlt
  rw [magnitudeBound_eq]
  exact Nat.lt_of_lt_of_le hlt (Nat.pow_le_pow_right (by decide) hshort)

end Abacus.Text
