import Abacus.Calculation
import Abacus.Proofs.Evaluation.Values
import Abacus.Proofs.Rendering
import Abacus.Proofs.Scanning.Concatenation

namespace Abacus

open Text Grammar

section MapError

variable {ε δ α : Type} {result : Except ε α} {f : ε → δ}

@[simp] theorem mapError_eq_ok_iff {value : α} :
    result.mapError f = .ok value ↔ result = .ok value := by
  cases result <;> simp [Except.mapError]

@[simp] theorem mapError_eq_error_iff {error : δ} :
    result.mapError f = .error error ↔ ∃ cause, result = .error cause ∧ f cause = error := by
  cases result <;> simp [Except.mapError]

end MapError

theorem calculate_cases [Limits] (code : String) (env : Environment) :
    (∃ error, tokenize code = .error error ∧
      calculate code env = (.error (.lexical error), env)) ∨
    (∃ tokens error, tokenize code = .ok tokens ∧ parse tokens = .error error ∧
      calculate code env = (.error (.parse error), env)) ∨
    ∃ tokens tree, tokenize code = .ok tokens ∧ parse tokens = .ok tree ∧
      calculate code env = ((tree.evaluate env).1.mapError .fault, (tree.evaluate env).2) := by
  unfold calculate Calculation.of Calculation.Stage.of Calculation.outcome Calculation.after
  cases htokens : tokenize code with
  | error error => exact .inl ⟨error, rfl, rfl⟩
  | ok tokens =>
      cases htree : parse tokens with
      | error error => exact .inr (.inl ⟨tokens, error, rfl, htree, by simp [htree]⟩)
      | ok tree => exact .inr (.inr ⟨tokens, tree, rfl, htree, by simp [htree]⟩)

theorem calculate_of_parse [Limits] {code : String} {tokens : List Token} {tree : Expr}
    (htokens : tokenize code = .ok tokens) (htree : parse tokens = .ok tree) (env : Environment) :
    calculate code env = ((tree.evaluate env).1.mapError .fault, (tree.evaluate env).2) := by
  rcases calculate_cases code env with
    ⟨error, herror, _⟩ | ⟨other, error, hother, herror, _⟩ | ⟨other, same, hother, hsame, h⟩
  · cases htokens.symm.trans herror
  · cases htokens.symm.trans hother
    cases htree.symm.trans herror
  · cases htokens.symm.trans hother
    cases htree.symm.trans hsame
    exact h

theorem calculate_of_parse_error [Limits] {code : String} {tokens : List Token} {error : ParseError}
    (htokens : tokenize code = .ok tokens) (h : parse tokens = .error error) (env : Environment) :
    calculate code env = (.error (.parse error), env) := by
  rcases calculate_cases code env with
    ⟨other, hother, _⟩ | ⟨others, other, hothers, hother, hcalc⟩ | ⟨others, tree, hothers, htree, _⟩
  · cases htokens.symm.trans hother
  · cases htokens.symm.trans hothers
    cases h.symm.trans hother
    exact hcalc
  · cases htokens.symm.trans hothers
    cases h.symm.trans htree

theorem Expr.IsLegible.leaves {tree : Expr} (h : tree.IsLegible) :
    tree.Leaves (Text.isWritable · = true) := by
  induction tree with
  | lit value =>
      obtain ⟨n, rfl⟩ := Int.eq_ofNat_of_zero_le h.1
      exact decide_eq_true (Int.ofNat_lt.mp h.2)
  | var name => trivial
  | assign name value ih => exact ih h.2
  | binary op left right ihLeft ihRight => exact ⟨ihLeft h.1, ihRight h.2⟩
  | seq first second ihFirst ihSecond => exact ⟨ihFirst h.1, ihSecond h.2⟩
  | stray item => exact h.elim

theorem leaves_of_parse [Limits] {code : String} {tokens : List Token} {tree : Expr}
    (htokens : tokenize code = .ok tokens) (htree : parse tokens = .ok tree) :
    tree.Leaves (isWritable · = true) :=
  (isLegible_of_read? (read?_eq_some_iff.mpr ⟨tokens, htokens, htree⟩)).leaves

/-- What a text can be at fault for, other than tokens and trees that are made by hand. -/
def Error.IsReported : Error → Prop
  | lexical _ => True
  | parse error => ∀ lexeme, error.cause ≠ .notNumeral lexeme
  | fault cause =>
      cause = .divisionByZero ∨ (∃ name, cause = .undefinedVariable name) ∨
        cause = .resultTooLarge ∨ cause = .tooDeep

theorem isReported_of_parse [Limits] {tokens : List Token} {error : ParseError}
    (hnumerals : Numerals tokens) (h : parse tokens = .error error) :
    (Error.parse error).IsReported := by
  obtain ⟨seen, stop, _, hrejects, rfl⟩ := rejects_of_parseWithin hnumerals h
  exact hrejects.cause_ne_notNumeral

theorem isReported_of_evaluate [Limits] {P : Int → Prop} {tree : Expr} (htree : tree.Leaves P)
    {env : Environment} {cause : Fault} (h : (tree.evaluate env).1 = .error cause) :
    (Error.fault cause).IsReported := by
  have hkeeps : (tree.evaluateWithin Expr.depthLimit).KeepsTo (fun _ => True) env :=
    Expr.evaluateWithin_keepsTo (fun _ _ _ _ _ => trivial) (htree.imp fun _ _ => trivial) _ env
      (fun _ _ => trivial)
  cases cause with
  | strayNode item => exact absurd h (hkeeps.no_stray item)
  | _ => simp [Error.IsReported]

theorem isReported_of_calculate [Limits] {code : String} {env : Environment} {error : Error}
    (h : (calculate code env).1 = .error error) : error.IsReported := by
  rcases calculate_cases code env with
    ⟨lexical, _, hcalc⟩ | ⟨tokens, parse, htokens, hparse, hcalc⟩ |
    ⟨tokens, tree, htokens, htree, hcalc⟩
  · rw [hcalc] at h
    cases h
    trivial
  · rw [hcalc] at h
    cases h
    exact isReported_of_parse (numerals_of_tokenize htokens) hparse
  · rw [hcalc] at h
    obtain ⟨cause, hcause, rfl⟩ := mapError_eq_error_iff.mp h
    exact isReported_of_evaluate (leaves_of_parse htokens htree) hcause

theorem exists_lexical_iff [Limits] {code : String} {env : Environment} :
    (∃ error, (calculate code env).1 = .error (.lexical error)) ↔
      ∃ error, tokenize code = .error error := by
  rcases calculate_cases code env with
    ⟨error, herror, hcalc⟩ | ⟨tokens, error, htokens, _, hcalc⟩ | ⟨tokens, tree, htokens, _, hcalc⟩
  · simp [herror, hcalc]
  · simp [htokens, hcalc]
  · simp [htokens, hcalc]

theorem exists_parse_iff [Limits] {code : String} {env : Environment} :
    (∃ error, (calculate code env).1 = .error (.parse error)) ↔
      ∃ tokens, tokenize code = .ok tokens ∧ ∃ error, parse tokens = .error error := by
  rcases calculate_cases code env with
    ⟨error, herror, hcalc⟩ | ⟨tokens, error, htokens, herror, hcalc⟩ |
    ⟨tokens, tree, htokens, htree, hcalc⟩
  · simp [herror, hcalc]
  · simp [htokens, herror, hcalc]
  · simp [htokens, htree, hcalc]

theorem calculate_after_of_error [Limits] {code : String} {env : Environment}
    (h : ∀ tokens tree, tokenize code = .ok tokens → parse tokens ≠ .ok tree) :
    (calculate code env).2 = env := by
  rcases calculate_cases code env with
    ⟨error, _, hcalc⟩ | ⟨tokens, error, _, _, hcalc⟩ | ⟨tokens, tree, htokens, htree, _⟩
  · rw [hcalc]
  · rw [hcalc]
  · exact absurd htree (h tokens tree htokens)

theorem isRejected_of_tokenize [Limits] {code : String} {tokens : List Token}
    (h : tokenize code = .ok tokens) :
    (∃ error, parse tokens = .error error) ↔ IsRejected tokens :=
  exists_parseError_iff (numerals_of_tokenize h)

/-- Every text comes to a value or to an error that it is itself at fault for, and the first stage
that refuses it decides which. The environment changes only if the text is evaluated. -/
theorem calculate_by_stages [Limits] (code : String) (env : Environment) :
    (∀ error, (calculate code env).1 = .error error → error.IsReported) ∧
      ((∃ error, (calculate code env).1 = .error (.lexical error)) ↔
        ∃ c ∈ code.toList, ¬ Token.IsKnown c) ∧
      ((∃ error, (calculate code env).1 = .error (.parse error)) ↔
        ∃ tokens, tokenize code = .ok tokens ∧ IsRejected tokens) ∧
      ((∃ c ∈ code.toList, ¬ Token.IsKnown c) ∨
        (∃ tokens, tokenize code = .ok tokens ∧ IsRejected tokens) →
          (calculate code env).2 = env) ∧
      ((∀ c ∈ code.toList, Token.IsKnown c) → ∃ tokens, tokenize code = .ok tokens ∧
        (¬ IsRejected tokens → ∃ tree, parse tokens = .ok tree ∧
          calculate code env = ((tree.evaluate env).1.mapError .fault, (tree.evaluate env).2))) := by
  refine ⟨fun error => isReported_of_calculate, ?_, ?_, ?_, ?_⟩
  · rw [exists_lexical_iff, exists_lexError_iff]
  · rw [exists_parse_iff]
    exact exists_congr fun tokens => and_congr_right isRejected_of_tokenize
  · intro hrefused
    apply calculate_after_of_error
    intro tokens tree htokens htree
    rcases hrefused with hunknown | ⟨other, hother, hrejected⟩
    · obtain ⟨error, herror⟩ := exists_lexError_iff.mpr hunknown
      cases htokens.symm.trans herror
    · cases htokens.symm.trans hother
      obtain ⟨error, herror⟩ := (isRejected_of_tokenize htokens).mpr hrejected
      cases htree.symm.trans herror
  · intro hknown
    obtain ⟨tokens, hscan⟩ := Token.exists_tokens_of_known hknown
    have htokens := tokenize_eq_ok_iff.mpr hscan
    refine ⟨tokens, htokens, fun haccepted => ?_⟩
    cases htree : parse tokens with
    | error error => exact absurd ((isRejected_of_tokenize htokens).mp ⟨error, htree⟩) haccepted
    | ok tree => exact ⟨tree, rfl, calculate_of_parse htokens htree env⟩

end Abacus
