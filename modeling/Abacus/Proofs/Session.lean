import Abacus.Calculation.Record
import Abacus.Dialogue
import Abacus.Proofs.Calculation
import Abacus.Session

namespace Abacus

open Text

namespace Session

def calculations [Limits] (env : Environment) : List String → List Calculation
  | [] => []
  | code :: codes =>
      let calculation := Calculation.of code env
      calculation :: calculations calculation.after codes

theorem calculations_induction [Limits] {Inv : Environment → Prop} {P : Calculation → Prop}
    (hstep : ∀ code env, Inv env →
      P (Calculation.of code env) ∧ Inv (Calculation.of code env).after)
    {env : Environment} (henv : Inv env) (codes : List String) :
    ∀ calculation ∈ calculations env codes, P calculation := by
  induction codes generalizing env with
  | nil => exact List.forall_mem_nil P
  | cons code codes ih =>
      obtain ⟨hfirst, hafter⟩ := hstep code env henv
      exact List.forall_mem_cons.mpr ⟨hfirst, ih hafter⟩

end Session

theorem isWritable_of_apply {op : Operator} {a b value : Int} (h : op.apply a b = .ok value) :
    isWritable value = true := by
  unfold Operator.apply at h
  split at h
  · cases h
  · next result _ =>
      split at h
      · next hresult =>
          cases h
          exact hresult
      · cases h

theorem Environment.isWritable_iff {env : Environment} :
    env.isWritable = true ↔ env.All (Text.isWritable · = true) :=
  List.all_eq_true

theorem Expr.isWritable_of_leaves {tree : Expr} (h : tree.Leaves (Text.isWritable · = true)) :
    tree.isWritable = true := by
  induction tree with
  | lit value => exact h
  | var name => rfl
  | assign name value ih => exact ih h
  | binary op left right ihLeft ihRight =>
      rw [isWritable, ihLeft h.1, ihRight h.2]
      rfl
  | seq first second ihFirst ihSecond =>
      rw [isWritable, ihFirst h.1, ihSecond h.2]
      rfl
  | stray item => exact h.elim

theorem Calculation.stage_tree?_of [Limits] (code : String) (env : Environment) :
    (Calculation.of code env).stage.tree? = read? code := by
  unfold Calculation.of Stage.of read?
  cases tokenize code with
  | error error => rfl
  | ok tokens =>
      cases htree : parse tokens with
      | error error => simp [htree, Except.toOption, Stage.tree?]
      | ok tree => simp [htree, Except.toOption, Stage.tree?]

structure Calculation.StaysWritable (calculation : Calculation) : Prop where
  after : calculation.after.All (Text.isWritable · = true)
  outcome : ∀ value, calculation.outcome = .ok value → Text.isWritable value = true
  tree : ∀ tree, calculation.stage.tree? = some tree → tree.isWritable = true

theorem Calculation.StaysWritable.isWritable {calculation : Calculation}
    (h : calculation.StaysWritable) : calculation.isWritable = true := by
  unfold Calculation.isWritable
  split
  · next value hvalue =>
      rw [h.outcome value hvalue, Environment.isWritable_iff.mpr h.after]
      rfl
  · rfl

theorem staysWritable_of [Limits] {env : Environment} (henv : env.All (Text.isWritable · = true))
    (code : String) : (Calculation.of code env).StaysWritable := by
  have htree (tree : Expr) (h : (Calculation.of code env).stage.tree? = some tree) :
      tree.isWritable = true := by
    rw [Calculation.stage_tree?_of] at h
    exact tree.isWritable_of_leaves (isLegible_of_read? h).leaves
  suffices h : (calculate code env).2.All (Text.isWritable · = true) ∧
      ∀ value, (calculate code env).1 = .ok value → Text.isWritable value = true from
    ⟨h.1, h.2, htree⟩
  rcases calculate_cases code env with
    ⟨error, _, hcalc⟩ | ⟨tokens, error, _, _, hcalc⟩ | ⟨tokens, tree, htokens, htree, hcalc⟩
  · simp [hcalc, henv]
  · simp [hcalc, henv]
  · have hkeeps := Expr.evaluateWithin_keepsTo (fun _ _ _ _ => isWritable_of_apply)
      (leaves_of_parse htokens htree) Expr.depthLimit env henv
    rw [hcalc]
    exact ⟨hkeeps.after, fun value hvalue => hkeeps.value value (mapError_eq_ok_iff.mp hvalue)⟩

theorem Session.staysWritable_of_mem [Limits] {env : Environment}
    (henv : env.All (Text.isWritable · = true)) {codes : List String} {calculation : Calculation}
    (h : calculation ∈ calculations env codes) : calculation.StaysWritable := by
  refine calculations_induction (fun code env' henv' => ?_) henv codes calculation h
  have hstays := staysWritable_of henv' code
  exact ⟨hstays, hstays.after⟩

theorem Calculation.StaysWritable.outcome_isWritable {calculation : Calculation}
    (h : calculation.StaysWritable) : calculation.outcome.isWritable = true := by
  unfold Outcome.isWritable
  split
  · next value hvalue => exact h.outcome value hvalue
  · rfl

theorem Dialogue.ending_ne_unwritable [Limits] {env : Environment}
    (henv : env.All (Text.isWritable · = true)) (reads : List Dialogue.Read) :
    (Dialogue.run env reads).ending ≠ .unwritable := by
  induction reads generalizing env with
  | nil => nofun
  | cons read reads ih =>
      cases read with
      | interrupt => nofun
      | line text =>
          rw [run_line]
          split
          · nofun
          · exact ih henv
          · next code _ =>
              have hstays := staysWritable_of henv code
              simp only [hstays.outcome_isWritable, if_true]
              exact ih hstays.after

/-- A session that starts from numbers of at most `maxDigits` digits binds and comes to no others,
whatever it calculates and wherever that fails. So all that comes of it can be written out, in its
records and in a dialogue. -/
theorem session_stays_writable [Limits] (env : Environment) (codes : List String)
    (h : ∀ binding ∈ env.toList, binding.2.natAbs < 10 ^ maxDigits) :
    (∀ calculation ∈ Session.calculations env codes,
      (∀ binding ∈ calculation.after.toList, binding.2.natAbs < 10 ^ maxDigits ∧
        (toString binding.2.natAbs).length ≤ maxDigits) ∧
      (∀ value, calculation.outcome = .ok value → value.natAbs < 10 ^ maxDigits ∧
        (toString value.natAbs).length ≤ maxDigits) ∧
      (∀ tree, calculation.stage.tree? = some tree → tree.isWritable = true) ∧
      calculation.isWritable = true) ∧
    ∀ reads, (Dialogue.run env reads).ending ≠ .unwritable := by
  have henv : env.All (isWritable · = true) := fun binding hbinding =>
    isWritable_iff_lt_pow.mpr (h binding hbinding)
  have hshort (value : Int) (hvalue : isWritable value = true) :
      value.natAbs < 10 ^ maxDigits ∧ (toString value.natAbs).length ≤ maxDigits :=
    ⟨isWritable_iff_lt_pow.mp hvalue, isWritable_iff_length.mp hvalue⟩
  refine ⟨fun calculation hcalculation => ?_, Dialogue.ending_ne_unwritable henv⟩
  have hstays := Session.staysWritable_of_mem henv hcalculation
  refine ⟨?_, ?_, hstays.tree, hstays.isWritable⟩
  · exact fun binding hbinding => hshort binding.2 (hstays.after binding hbinding)
  · exact fun value hvalue => hshort value (hstays.outcome value hvalue)

theorem session_stays_writable_longest_number :
    let longest : Int := magnitudeBound - 1
    let env : Environment := .ofList [("x", longest)]
    let codes := ["(y = 0 - x) * (z = x + 1)", "y"]
    (∀ binding ∈ env.toList, binding.2.natAbs < 10 ^ maxDigits) ∧
      (Session.calculations env codes).map Calculation.outcome =
        [.error (.fault .resultTooLarge), .ok (-longest)] ∧
      (toString (-longest).natAbs).length ≤ maxDigits := by
  intro longest env codes
  have henv : ∀ binding ∈ env.toList, binding.2.natAbs < 10 ^ maxDigits := by decide +kernel
  have houtcomes : (Session.calculations env codes).map Calculation.outcome =
      [.error (.fault .resultTooLarge), .ok (-longest)] := by decide +kernel
  have hnegative : .ok (-longest) ∈ (Session.calculations env codes).map Calculation.outcome := by
    simp [houtcomes]
  obtain ⟨calculation, hcalculation, hvalue⟩ := List.mem_map.mp hnegative
  obtain ⟨hcalculations, _⟩ := session_stays_writable env codes henv
  obtain ⟨_, hshort, _⟩ := hcalculations calculation hcalculation
  exact ⟨henv, houtcomes, (hshort _ hvalue).2⟩

end Abacus
