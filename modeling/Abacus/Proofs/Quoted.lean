import Abacus.Text.Quoted
import Mathlib.Algebra.Group.Nat.Defs

namespace Abacus.Text

def hexDigitValue (c : Char) : Nat :=
  if c.isDigit then c.toNat - '0'.toNat else c.toNat - 'a'.toNat + 10

def hexValue (digits : List Char) : Nat :=
  digits.foldl (fun value c => 16 * value + hexDigitValue c) 0

theorem hexDigitValue_digitChar : ∀ digit < 16, hexDigitValue (Nat.digitChar digit) = digit := by
  decide

theorem hexValue_hexDigits (width n : Nat) : hexValue (hexDigits width n) = n % 16 ^ width := by
  induction width generalizing n with
  | zero => rw [Nat.pow_zero, Nat.mod_one]; rfl
  | succ width ih =>
      have hlast := hexDigitValue_digitChar (n % 16) (Nat.mod_lt n (by decide))
      have hfront : hexValue (hexDigits (width + 1) n) =
          16 * hexValue (hexDigits width (n / 16)) + hexDigitValue (Nat.digitChar (n % 16)) := by
        simp [hexValue, hexDigits]
      rw [hfront, hlast, ih, Nat.pow_succ', Nat.mod_mul, Nat.add_comm]

theorem length_hexDigits (width n : Nat) : (hexDigits width n).length = width := by
  induction width generalizing n with
  | zero => rfl
  | succ width ih => rw [hexDigits, List.length_append, ih, List.length_singleton]

def unescape : List Char → Option (Char × List Char)
  | [] => none
  | '\\' :: 'n' :: rest => some ('\n', rest)
  | '\\' :: 'r' :: rest => some ('\r', rest)
  | '\\' :: 't' :: rest => some ('\t', rest)
  | '\\' :: 'x' :: rest => some (Char.ofNat (hexValue (rest.take 2)), rest.drop 2)
  | '\\' :: 'u' :: rest => some (Char.ofNat (hexValue (rest.take 4)), rest.drop 4)
  | '\\' :: 'U' :: rest => some (Char.ofNat (hexValue (rest.take 8)), rest.drop 8)
  | '\\' :: c :: rest => some (c, rest)
  | c :: rest => some (c, rest)

theorem ofNat_hexValue_append {c : Char} {width : Nat} (h : c.toNat < 16 ^ width)
    (rest : List Char) :
    Char.ofNat (hexValue ((hexDigits width c.toNat ++ rest).take width)) = c ∧
      (hexDigits width c.toNat ++ rest).drop width = rest := by
  have hlength := length_hexDigits width c.toNat
  rw [List.take_left' hlength, List.drop_left' hlength, hexValue_hexDigits, Nat.mod_eq_of_lt h,
    Char.ofNat_toNat]
  exact ⟨rfl, rfl⟩

variable {mark : Char}

theorem unescape_escape_append (hmark : mark = '\x27' ∨ mark = '\x22') (c : Char)
    (rest : List Char) : unescape (escape mark c ++ rest) = some (c, rest) := by
  unfold escape
  split
  · next hspecial =>
      rcases hspecial with rfl | rfl
      · rcases hmark with rfl | rfl <;> rfl
      · rfl
  next hplain =>
    have hbackslash : c ≠ '\\' := fun hc => hplain (.inr hc)
    split
    · next hc => rw [hc]; rfl
    split
    · next hc => rw [hc]; rfl
    split
    · next hc => rw [hc]; rfl
    split
    · rw [List.singleton_append, unescape]
      all_goals simp [hbackslash]
    split
    · next hshort =>
        obtain ⟨hvalue, hrest⟩ := @ofNat_hexValue_append c 2 hshort rest
        rw [List.cons_append, List.cons_append, unescape, hvalue, hrest]
    split
    · next hshort =>
        obtain ⟨hvalue, hrest⟩ := @ofNat_hexValue_append c 4 hshort rest
        rw [List.cons_append, List.cons_append, unescape, hvalue, hrest]
    · have hlong : c.toNat < 16 ^ 8 := c.val.toNat_lt
      obtain ⟨hvalue, hrest⟩ := @ofNat_hexValue_append c 8 hlong rest
      rw [List.cons_append, List.cons_append, unescape, hvalue, hrest]

theorem exists_escape_eq_cons (hmark : mark ≠ '\\') (c : Char) :
    ∃ first others, escape mark c = first :: others ∧ first ≠ mark := by
  unfold escape
  split
  · exact ⟨_, _, rfl, hmark.symm⟩
  next hplain =>
    repeat' split
    all_goals refine ⟨_, _, rfl, ?_⟩
    all_goals first | exact hmark.symm | exact fun hc => hplain (.inl hc)

theorem escape_append_inj (hmark : mark = '\x27' ∨ mark = '\x22') {text other rest more : List Char}
    (h : text.flatMap (escape mark) ++ mark :: rest = other.flatMap (escape mark) ++ mark :: more) :
    text = other ∧ rest = more := by
  have hbackslash : mark ≠ '\\' := by rcases hmark with rfl | rfl <;> decide
  induction text generalizing other with
  | nil =>
      cases other with
      | nil => exact ⟨rfl, (List.cons.inj h).2⟩
      | cons d other =>
          obtain ⟨first, others, hescape, hfirst⟩ := exists_escape_eq_cons hbackslash d
          rw [List.flatMap_cons, hescape] at h
          exact absurd (List.cons.inj h).1.symm hfirst
  | cons c text ih =>
      rw [List.flatMap_cons, List.append_assoc] at h
      cases other with
      | nil =>
          obtain ⟨first, others, hescape, hfirst⟩ := exists_escape_eq_cons hbackslash c
          rw [hescape] at h
          exact absurd (List.cons.inj h).1 hfirst
      | cons d other =>
          rw [List.flatMap_cons, List.append_assoc] at h
          have hread := congrArg unescape h
          rw [unescape_escape_append hmark, unescape_escape_append hmark] at hread
          simp only [Option.some.injEq, Prod.mk.injEq] at hread
          obtain ⟨rfl, hbehind⟩ := hread
          obtain ⟨rfl, hrest⟩ := ih hbehind
          exact ⟨rfl, hrest⟩

theorem quoteMark_cases (text : List Char) :
    quoteMark text = '\x27' ∨ quoteMark text = '\x22' := by
  unfold quoteMark
  split
  · exact .inr rfl
  · exact .inl rfl

theorem quote_append_inj {text other rest more : List Char}
    (h : quote text ++ rest = quote other ++ more) : text = other ∧ rest = more := by
  simp only [quote, List.cons_append, List.append_assoc, List.cons.injEq] at h
  obtain ⟨hmark, hbody⟩ := h
  rw [← hmark] at hbody
  exact escape_append_inj (quoteMark_cases text) hbody

end Abacus.Text
