import Abacus.Proofs.Evaluation
import Abacus.Proofs.Reading.Numeral

namespace Abacus

open Text

/-! Evaluation with integers of any size. The limit to what can be written out cuts it off at the
first result that is too large, and changes nothing else. -/

namespace Operator

def exact : Operator → Int → Int → Except Fault Int
  | add, a, b => .ok (a + b)
  | sub, a, b => .ok (a - b)
  | mul, a, b => .ok (a * b)
  | div, a, b => if b = 0 then .error .divisionByZero else .ok (a.tdiv b)

theorem exact_eq (op : Operator) (a b : Int) :
    op.exact a b = (op.compute? a b).elim (.error .divisionByZero) .ok := by
  cases op with
  | add | sub | mul => rfl
  | div =>
      rw [exact, compute?, quotient?]
      split <;> rfl

theorem apply_of_exact_ok {op : Operator} {a b result : Int} (h : op.exact a b = .ok result) :
    op.apply a b = if isWritable result then .ok result else .error .resultTooLarge := by
  rw [exact_eq] at h
  unfold apply
  cases hcompute : op.compute? a b with
  | none => simp [hcompute] at h
  | some value =>
      rw [hcompute] at h
      cases h
      rfl

theorem apply_of_exact_error {op : Operator} {a b : Int} {fault : Fault}
    (h : op.exact a b = .error fault) : op.apply a b = .error fault := by
  rw [exact_eq] at h
  unfold apply
  cases hcompute : op.compute? a b with
  | none =>
      rw [hcompute] at h
      exact h
  | some value => simp [hcompute] at h

end Operator

structure Operation where
  result : Int
  environment : Environment
deriving DecidableEq

/-- A run that keeps an account of its operations, the last one at the end. -/
abbrev ExactRun := ExceptT Fault (StateM (Environment × List Operation))

namespace ExactRun

variable {α β : Type}

def outcome (run : ExactRun α) (env : Environment) (operations : List Operation) :
    Except Fault α × Environment × List Operation :=
  run.run.run (env, operations)

def lookup (name : String) : ExactRun Int := do
  MonadExcept.ofExcept ((← get).1.get name)

def assign (name : String) (value : Int) : ExactRun Int := do
  modify fun (env, operations) => (env.set name value, operations)
  return value

def operate (op : Operator) (a b : Int) : ExactRun Int := do
  let result ← MonadExcept.ofExcept (op.exact a b)
  modify fun (env, operations) => (env, operations ++ [⟨result, env⟩])
  return result

end ExactRun

namespace Expr

def exact : Expr → ExactRun Int
  | lit value => pure value
  | var name => ExactRun.lookup name
  | assign name value => do ExactRun.assign name (← value.exact)
  | binary op left right => do
      let first ← left.exact
      let second ← right.exact
      ExactRun.operate op first second
  | seq first second => do
      let _ ← first.exact
      second.exact
  | stray item => throw (.strayNode item)

/-- What an evaluation with integers of any size comes to, the environment that it leaves, and the
operations in the order in which they are done. -/
def evaluateExactly (tree : Expr) (env : Environment) :
    Except Fault Int × Environment × List Operation :=
  tree.exact.outcome env []

end Expr

namespace ExactRun

variable {α β : Type} {run : ExactRun α} {env env' : Environment}
  {operations operations' : List Operation}

@[simp] theorem outcome_pure (value : α) (env : Environment) (operations : List Operation) :
    outcome (pure value) env operations = (.ok value, env, operations) := rfl

@[simp] theorem outcome_throw (fault : Fault) (env : Environment) (operations : List Operation) :
    outcome (throw fault : ExactRun α) env operations = (.error fault, env, operations) := rfl

@[simp] theorem outcome_ofExcept (result : Except Fault α) (env : Environment)
    (operations : List Operation) :
    outcome (MonadExcept.ofExcept result) env operations = (result, env, operations) := by
  cases result <;> rfl

theorem outcome_bind (run : ExactRun α) (next : α → ExactRun β) (env : Environment)
    (operations : List Operation) :
    outcome (run >>= next) env operations =
      match run.outcome env operations with
      | (.ok value, env', operations') => (next value).outcome env' operations'
      | (.error fault, env', operations') => (.error fault, env', operations') := by
  simp only [outcome, ExceptT.run_bind, StateT.run_bind]
  rcases run.run.run (env, operations) with ⟨_ | _, env', operations'⟩ <;> rfl

@[simp] theorem outcome_lookup (name : String) (env : Environment) (operations : List Operation) :
    (lookup name).outcome env operations = (env.get name, env, operations) :=
  outcome_ofExcept (env.get name) env operations

@[simp] theorem outcome_assign (name : String) (value : Int) (env : Environment)
    (operations : List Operation) :
    (assign name value).outcome env operations = (.ok value, env.set name value, operations) := rfl

theorem outcome_operate_of_ok {op : Operator} {a b result : Int} (h : op.exact a b = .ok result)
    (env : Environment) (operations : List Operation) :
    (operate op a b).outcome env operations =
      (.ok result, env, operations ++ [⟨result, env⟩]) := by
  rw [operate, h]
  rfl

theorem outcome_operate_of_error {op : Operator} {a b : Int} {fault : Fault}
    (h : op.exact a b = .error fault) (env : Environment) (operations : List Operation) :
    (operate op a b).outcome env operations = (.error fault, env, operations) := by
  rw [operate, h]
  rfl

end ExactRun

def Operation.isWritable (operation : Operation) : Bool :=
  Text.isWritable operation.result

/-- What the first operation with a result that is too large makes of a run. -/
def cutOff {α : Type} (operations : List Operation) (whole : Except Fault α × Environment) :
    Except Fault α × Environment :=
  match operations.find? (fun operation => !operation.isWritable) with
  | none => whole
  | some operation => (.error .resultTooLarge, operation.environment)

def Run.IsCutOff {α : Type} (run : Run α) (exact : ExactRun α) : Prop :=
  ∀ env operations, ∃ result after more,
    exact.outcome env operations = (result, after, operations ++ more) ∧
      run.outcome env = cutOff more (result, after)

namespace Run.IsCutOff

variable {α β : Type} {run : Run α} {exact : ExactRun α} {next : α → Run β}
  {exactNext : α → ExactRun β}

theorem of_same {result : Environment → Except Fault α} {after : Environment → Environment}
    (hrun : ∀ env, run.outcome env = (result env, after env))
    (hexact : ∀ env operations,
      exact.outcome env operations = (result env, after env, operations)) :
    run.IsCutOff exact := by
  intro env operations
  refine ⟨result env, after env, [], ?_, hrun env⟩
  rw [hexact, List.append_nil]

theorem bind (h : run.IsCutOff exact) (hnext : ∀ value, (next value).IsCutOff (exactNext value)) :
    (run >>= next).IsCutOff (exact >>= exactNext) := by
  intro env operations
  obtain ⟨result, after, more, hexact, hrun⟩ := h env operations
  cases result with
  | error fault =>
      refine ⟨.error fault, after, more, by rw [ExactRun.outcome_bind, hexact], ?_⟩
      unfold cutOff at hrun ⊢
      cases hfirst : more.find? (fun operation => !operation.isWritable) with
      | none | some =>
          rw [hfirst] at hrun
          exact outcome_bind_of_error hrun next
  | ok value =>
      obtain ⟨result', after', others, hexact', hrun'⟩ := hnext value after (operations ++ more)
      refine ⟨result', after', more ++ others, ?_, ?_⟩
      · rw [ExactRun.outcome_bind, hexact, ← List.append_assoc, ← hexact']
      · unfold cutOff at hrun ⊢
        rw [List.find?_append]
        cases hfirst : more.find? (fun operation => !operation.isWritable) with
        | none =>
            rw [hfirst] at hrun
            rw [outcome_bind_of_ok hrun, hrun']
            rfl
        | some operation =>
            rw [hfirst] at hrun
            exact outcome_bind_of_error hrun next

theorem operate (op : Operator) (a b : Int) :
    (ofExcept (op.apply a b)).IsCutOff (ExactRun.operate op a b) := by
  intro env operations
  cases hexact : op.exact a b with
  | error fault =>
      refine ⟨.error fault, env, [], ?_, ?_⟩
      · rw [ExactRun.outcome_operate_of_error hexact, List.append_nil]
      · rw [outcome_ofExcept, Operator.apply_of_exact_error hexact]
        rfl
  | ok result =>
      refine ⟨.ok result, env, [⟨result, env⟩], ExactRun.outcome_operate_of_ok hexact _ _, ?_⟩
      rw [outcome_ofExcept, Operator.apply_of_exact_ok hexact, cutOff, List.find?_singleton]
      cases hwritable : isWritable result with
      | true => simp [Operation.isWritable, hwritable]
      | false => simp [Operation.isWritable, hwritable]

end Run.IsCutOff

theorem Expr.inOrder_isCutOff (tree : Expr) : tree.inOrder.IsCutOff tree.exact := by
  induction tree with
  | lit value => exact .of_same (fun _ => rfl) (fun _ _ => rfl)
  | var name => exact .of_same (Run.outcome_lookup name) (ExactRun.outcome_lookup name)
  | assign name value ih =>
      apply ih.bind
      intro result
      exact .of_same (Run.outcome_assign name result) (ExactRun.outcome_assign name result)
  | binary op left right ihLeft ihRight =>
      apply ihLeft.bind
      intro first
      apply ihRight.bind
      intro second
      exact .operate op first second
  | seq first second ihFirst ihSecond =>
      apply ihFirst.bind
      intro _
      exact ihSecond
  | stray item => exact .of_same (fun _ => rfl) (fun _ _ => rfl)

theorem isWritable_eq_true_iff_lt {operation : Operation} :
    operation.isWritable = true ↔ operation.result.natAbs < 10 ^ maxDigits := by
  rw [Operation.isWritable, isWritable_iff_lt_pow]

/-- Evaluation comes to what exact evaluation comes to, as long as no operator has a result of more
than `maxDigits` digits. Where one has, evaluation stops at the first such, with the environment as
it is then. What is written or bound may be of any size. -/
theorem evaluation_cuts_exact_off [Limits] (tree : Expr) (env : Environment)
    (h : tree.nesting ≤ Expr.depthLimit) :
    (∃ result after operations, tree.evaluateExactly env = (result, after, operations) ∧
      ((∀ operation ∈ operations, operation.result.natAbs < 10 ^ maxDigits) ∧
          tree.evaluate env = (result, after) ∨
        ∃ earlier operation later, operations = earlier ++ operation :: later ∧
          (∀ other ∈ earlier, other.result.natAbs < 10 ^ maxDigits) ∧
          10 ^ maxDigits ≤ operation.result.natAbs ∧
          tree.evaluate env = (.error .resultTooLarge, operation.environment))) ∧
      (∀ value, (Expr.lit value).evaluate env = (.ok value, env)) ∧
      ∀ name value, env.get name = .ok value → (Expr.var name).evaluate env = (.ok value, env) := by
  have heval := Expr.evaluate_eq_outcome h env
  obtain ⟨result, after, operations, hexact, hrun⟩ := tree.inOrder_isCutOff env []
  refine ⟨⟨result, after, operations, hexact, ?_⟩, ?_, ?_⟩
  · rw [heval, hrun, cutOff]
    cases hfirst : operations.find? (fun operation => !operation.isWritable) with
    | none =>
        left
        refine ⟨fun operation hoperation => isWritable_eq_true_iff_lt.mp ?_, rfl⟩
        simpa using List.find?_eq_none.mp hfirst operation hoperation
    | some operation =>
        right
        obtain ⟨hlarge, earlier, later, hoperations, hearlier⟩ :=
          List.find?_eq_some_iff_append.mp hfirst
        refine ⟨earlier, operation, later, hoperations, fun other hother => ?_, ?_, rfl⟩
        · exact isWritable_eq_true_iff_lt.mp (by simpa using hearlier other hother)
        · apply Nat.le_of_not_lt
          rw [← isWritable_eq_true_iff_lt]
          simpa using hlarge
  · intro value
    exact Expr.evaluate_eq_outcome (Nat.zero_le _) env
  · intro name value hvalue
    rw [Expr.evaluate_eq_outcome (Nat.zero_le _) env, ← hvalue]
    exact Run.outcome_lookup name env

/-- In `(y = 2); (z = x * 10 / 10)` the product is too large if `x` has `maxDigits` digits, although
the quotient would not be. Then `y` is bound and `z` is not. -/
theorem evaluation_cut_off_at_product :
    let x : Int := Nat.pow 10 (maxDigits - 1)
    let product : Expr := .binary .mul (.var "x") (.lit 10)
    let tree : Expr :=
      .seq (.assign "y" (.lit 2)) (.assign "z" (.binary .div product (.lit 10)))
    let env : Environment := .ofList [("x", x)]
    let cut : Environment := .ofList [("x", x), ("y", 2)]
    let after : Environment := .ofList [("x", x), ("y", 2), ("z", x)]
    tree.nesting ≤ Expr.depthLimit ∧
      tree.evaluateExactly env = (.ok x, after, [⟨x * 10, cut⟩, ⟨x, cut⟩]) ∧
      tree.evaluate env = (.error .resultTooLarge, cut) := by
  intro x product tree env cut after
  have hnesting : tree.nesting ≤ Expr.depthLimit := by decide
  have hexact : tree.evaluateExactly env = (.ok x, after, [⟨x * 10, cut⟩, ⟨x, cut⟩]) := by
    decide +kernel
  refine ⟨hnesting, hexact, ?_⟩
  obtain ⟨⟨result, env', operations, hsame, hcases⟩, _⟩ :=
    evaluation_cuts_exact_off tree env hnesting
  cases hexact.symm.trans hsame
  have hlarge : 10 ^ maxDigits ≤ (x * 10).natAbs := by
    rw [← magnitudeBound_eq]
    decide +kernel
  rcases hcases with ⟨hsmall, _⟩ | ⟨earlier, operation, later, hoperations, hearlier, _, heval⟩
  · exact absurd (hsmall _ List.mem_cons_self) (Nat.not_lt_of_le hlarge)
  · cases earlier with
    | nil =>
        obtain ⟨rfl, _⟩ := List.cons.inj hoperations
        exact heval
    | cons first earlier =>
        obtain ⟨rfl, _⟩ := List.cons.inj hoperations
        exact absurd (hearlier _ List.mem_cons_self) (Nat.not_lt_of_le hlarge)

end Abacus
