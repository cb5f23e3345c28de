import Abacus.Environment
import Abacus.Proofs.Quoted
import Abacus.Proofs.Scanning

namespace Abacus

open Text

/-! The text of an environment shows all of it: the bindings can be read off it, in their order. -/

namespace Text

section Numeral

variable {rest more : List Char}

theorem toString_nat_append_inj {n m : Nat} (hrest : ∀ c ∈ rest.head?, c.isDigit = false)
    (hmore : ∀ c ∈ more.head?, c.isDigit = false)
    (h : (toString n).toList ++ rest = (toString m).toList ++ more) : n = m ∧ rest = more := by
  have hdigits (n : Nat) : ∀ c ∈ (toString n).toList, c.isDigit = true := (isNumeral_toString n).2
  have hnumerals := congrArg (List.takeWhile Char.isDigit) h
  rw [Token.takeWhile_append_of_boundary (hdigits n) hrest,
    Token.takeWhile_append_of_boundary (hdigits m) hmore] at hnumerals
  have hvalues := congrArg Grammar.numeralValue (String.toList_inj.mp hnumerals)
  rw [numeralValue_toString, numeralValue_toString] at hvalues
  subst hvalues
  exact ⟨rfl, List.append_cancel_left h⟩

theorem toString_negSucc (n : Nat) :
    (toString (Int.negSucc n)).toList = '-' :: (toString (n + 1)).toList := by
  have htext : toString (Int.negSucc n) = "-" ++ toString (n + 1) := rfl
  rw [htext, String.toList_append]
  rfl

theorem minus_ne_head_toString (n : Nat) (rest tail : List Char) :
    (toString n).toList ++ rest ≠ '-' :: tail := by
  obtain ⟨hsome, hdigits⟩ := isNumeral_toString n
  cases htext : (toString n).toList with
  | nil => exact absurd (String.toList_eq_nil_iff.mp htext) hsome
  | cons c chars =>
      intro h
      have hc : c = '-' := (List.cons.inj h).1
      have hdigit := hdigits c (htext ▸ List.mem_cons_self)
      rw [hc] at hdigit
      cases hdigit

theorem toString_append_inj {value other : Int} (hrest : ∀ c ∈ rest.head?, c.isDigit = false)
    (hmore : ∀ c ∈ more.head?, c.isDigit = false)
    (h : (toString value).toList ++ rest = (toString other).toList ++ more) :
    value = other ∧ rest = more := by
  cases value with
  | ofNat n =>
      cases other with
      | ofNat m =>
          obtain ⟨rfl, hbehind⟩ := @toString_nat_append_inj _ _ n m hrest hmore h
          exact ⟨rfl, hbehind⟩
      | negSucc m =>
          rw [toString_negSucc] at h
          exact absurd h (minus_ne_head_toString n rest _)
  | negSucc n =>
      rw [toString_negSucc] at h
      cases other with
      | ofNat m => exact absurd h.symm (minus_ne_head_toString m more _)
      | negSucc m =>
          rw [toString_negSucc] at h
          obtain ⟨hnext, hbehind⟩ := toString_nat_append_inj hrest hmore (List.cons.inj h).2
          exact ⟨congrArg Int.negSucc (Nat.succ.inj hnext), hbehind⟩

end Numeral

end Text

namespace Environment

def entry (binding : String × Int) : String :=
  quoted binding.1 ++ ": " ++ toString binding.2

theorem toList_entry (binding : String × Int) :
    (entry binding).toList =
      quote binding.1.toList ++ ':' :: ' ' :: (toString binding.2).toList := by
  simp [entry, quoted]

def listing (bindings : List (String × Int)) : List Char :=
  (", ".intercalate (bindings.map entry)).toList ++ ['\x7d', ')']

theorem toList_describe (env : Environment) :
    env.describe.toList = "Environment(\x7b".toList ++ listing env.toList := by
  have htext : env.describe =
      "Environment(" ++ ("\x7b" ++ ", ".intercalate (env.toList.map entry) ++ "\x7d") ++ ")" := rfl
  rw [htext, listing]
  simp only [String.toList_append]
  simp

def listingBehind : List (String × Int) → List Char
  | [] => ['\x7d', ')']
  | bindings => ',' :: ' ' :: listing bindings

theorem listing_cons (binding : String × Int) (rest : List (String × Int)) :
    listing (binding :: rest) = (entry binding).toList ++ listingBehind rest := by
  cases rest with
  | nil => simp [listing, listingBehind]
  | cons next rest =>
      simp [listing, listingBehind, String.intercalate_cons_cons]

theorem isDigit_head_listingBehind (rest : List (String × Int)) :
    ∀ c ∈ (listingBehind rest).head?, c.isDigit = false := by
  cases rest <;> simp [listingBehind]

theorem listing_eq_of_behind {bindings others : List (String × Int)}
    (h : listingBehind bindings = listingBehind others) : listing bindings = listing others := by
  cases bindings with
  | nil =>
      cases others with
      | nil => rfl
      | cons => simp [listingBehind] at h
  | cons =>
      cases others with
      | nil => simp [listingBehind] at h
      | cons => exact (List.cons.inj (List.cons.inj h).2).2

theorem listing_cons_ne_nil (binding : String × Int) (rest : List (String × Int)) :
    listing (binding :: rest) ≠ listing [] := by
  intro h
  rw [listing_cons, toList_entry, quote] at h
  have hmark := (List.cons.inj h).1
  rcases quoteMark_cases binding.1.toList with hquote | hquote <;> simp [hquote] at hmark

theorem entry_append_inj {binding other : String × Int} {rest more : List Char}
    (hrest : ∀ c ∈ rest.head?, c.isDigit = false) (hmore : ∀ c ∈ more.head?, c.isDigit = false)
    (h : (entry binding).toList ++ rest = (entry other).toList ++ more) :
    binding = other ∧ rest = more := by
  rw [toList_entry, toList_entry, List.append_assoc, List.append_assoc] at h
  obtain ⟨hname, hbehind⟩ := quote_append_inj h
  obtain ⟨hvalue, hrest⟩ :=
    toString_append_inj hrest hmore (List.cons.inj (List.cons.inj hbehind).2).2
  exact ⟨Prod.ext (String.toList_inj.mp hname) hvalue, hrest⟩

theorem listing_inj {bindings others : List (String × Int)}
    (h : listing bindings = listing others) : bindings = others := by
  induction bindings generalizing others with
  | nil =>
      cases others with
      | nil => rfl
      | cons other others => exact absurd h.symm (listing_cons_ne_nil other others)
  | cons binding rest ih =>
      cases others with
      | nil => exact absurd h (listing_cons_ne_nil binding rest)
      | cons other others =>
          rw [listing_cons, listing_cons] at h
          obtain ⟨rfl, hbehind⟩ :=
            entry_append_inj (isDigit_head_listingBehind rest) (isDigit_head_listingBehind others) h
          rw [ih (listing_eq_of_behind hbehind)]

theorem toList_eq_of_describe {env other : Environment} (h : env.describe = other.describe) :
    env.toList = other.toList := by
  have htext := congrArg String.toList h
  rw [toList_describe, toList_describe] at htext
  exact listing_inj (List.append_cancel_left htext)

end Environment

end Abacus
