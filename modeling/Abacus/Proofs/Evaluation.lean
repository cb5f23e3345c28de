import Abacus.Expr.Evaluate
import Mathlib.Control.Monad.Basic

namespace Abacus

namespace Run

variable {α β : Type} {run : Run α} {env env' : Environment}

def outcome (run : Run α) (env : Environment) : Except Fault α × Environment :=
  run.run.run env

@[simp] theorem outcome_pure (value : α) (env : Environment) :
    outcome (pure value) env = (.ok value, env) := rfl

@[simp] theorem outcome_throw (fault : Fault) (env : Environment) :
    outcome (throw fault : Run α) env = (.error fault, env) := rfl

@[simp] theorem outcome_ofExcept (result : Except Fault α) (env : Environment) :
    (ofExcept result).outcome env = (result, env) := by
  cases result <;> rfl

@[simp] theorem outcome_lookup (name : String) (env : Environment) :
    (lookup name).outcome env = (env.get name, env) :=
  outcome_ofExcept (env.get name) env

@[simp] theorem outcome_assign (name : String) (value : Int) (env : Environment) :
    (assign name value).outcome env = (.ok value, env.set name value) := rfl

theorem outcome_bind (run : Run α) (next : α → Run β) (env : Environment) :
    outcome (run >>= next) env =
      match run.outcome env with
      | (.ok value, env') => (next value).outcome env'
      | (.error fault, env') => (.error fault, env') := by
  simp only [outcome, ExceptT.run_bind, StateT.run_bind]
  rcases run.run.run env with ⟨_ | _, env'⟩ <;> rfl

theorem outcome_bind_of_ok {value : α} (h : run.outcome env = (.ok value, env'))
    (next : α → Run β) : outcome (run >>= next) env = (next value).outcome env' := by
  rw [outcome_bind, h]

theorem outcome_bind_of_error {fault : Fault} (h : run.outcome env = (.error fault, env'))
    (next : α → Run β) : outcome (run >>= next) env = (.error fault, env') := by
  rw [outcome_bind, h]

theorem outcome_map (f : α → β) (run : Run α) (env : Environment) :
    outcome (f <$> run) env = ((run.outcome env).1.map f, (run.outcome env).2) := by
  rw [map_eq_pure_bind, outcome_bind]
  rcases run.outcome env with ⟨_ | _, env'⟩ <;> rfl

end Run

namespace Environment

def setAll (env : Environment) (bindings : List (String × Int)) : Environment :=
  bindings.foldl (fun env binding => env.set binding.1 binding.2) env

@[simp] theorem setAll_nil (env : Environment) : env.setAll [] = env := rfl

@[simp] theorem setAll_singleton (env : Environment) (name : String) (value : Int) :
    env.setAll [(name, value)] = env.set name value := rfl

theorem setAll_append (env : Environment) (first second : List (String × Int)) :
    env.setAll (first ++ second) = (env.setAll first).setAll second :=
  List.foldl_append

end Environment

namespace Run

variable {α β : Type} {run short : Run α} {env env' : Environment}
  {done bindings : List (String × Int)} {next shortNext : α → Run β}
  {more moreDone : α → Environment → List (String × Int)}

def assignedBehind (run : Run α) (env : Environment)
    (more : α → Environment → List (String × Int)) : List (String × Int) :=
  match run.outcome env with
  | (.ok value, env') => more value env'
  | (.error _, _) => []

theorem assignedBehind_of_ok {value : α} (h : run.outcome env = (.ok value, env')) :
    run.assignedBehind env more = more value env' := by
  rw [assignedBehind, h]

theorem assignedBehind_of_error {fault : Fault} (h : run.outcome env = (.error fault, env')) :
    run.assignedBehind env more = [] := by
  rw [assignedBehind, h]

@[simp] theorem assignedBehind_nil (run : Run α) (env : Environment) :
    run.assignedBehind env (fun _ _ => []) = [] := by
  unfold assignedBehind
  split <;> rfl

def Assigns (run : Run α) (bindings : List (String × Int)) (env : Environment) : Prop :=
  (run.outcome env).2 = env.setAll bindings

theorem Assigns.bind (h : run.Assigns bindings env)
    (hnext : ∀ value env', (next value).Assigns (more value env') env') :
    (run >>= next).Assigns (bindings ++ run.assignedBehind env more) env := by
  unfold Assigns assignedBehind at *
  rcases houtcome : run.outcome env with ⟨fault | value, env'⟩
  · rw [outcome_bind_of_error houtcome, List.append_nil, ← h, houtcome]
  · rw [outcome_bind_of_ok houtcome, Environment.setAll_append, ← h, houtcome]
    exact hnext value env'

theorem Assigns.bind_nothing (h : run.Assigns bindings env)
    (hnext : ∀ value env', (next value).Assigns [] env') :
    (run >>= next).Assigns bindings env := by
  have hbind : (run >>= next).Assigns
      (bindings ++ run.assignedBehind env fun _ _ => []) env := h.bind hnext
  simpa using hbind

theorem ofExcept_assigns (result : Except Fault α) (env : Environment) :
    (ofExcept result).Assigns [] env := by
  simp [Assigns]

/-- The run comes to what the other one does, with the same assignments done; or it gives up where
only the first ones are. -/
def CutsShort (short run : Run α) (done bindings : List (String × Int)) (env : Environment) :
    Prop :=
  done = bindings ∧ short.outcome env = run.outcome env ∨
    done <+: bindings ∧ short.outcome env = (.error .tooDeep, env.setAll done)

theorem CutsShort.refl (run : Run α) (bindings : List (String × Int)) (env : Environment) :
    run.CutsShort run bindings bindings env :=
  .inl ⟨rfl, rfl⟩

theorem CutsShort.tooDeep (run : Run α) (bindings : List (String × Int)) (env : Environment) :
    CutsShort (throw .tooDeep) run [] bindings env :=
  .inr ⟨List.nil_prefix, rfl⟩

theorem CutsShort.bind (h : short.CutsShort run done bindings env) (hrun : run.Assigns bindings env)
    (hnext : ∀ value env',
      (shortNext value).CutsShort (next value) (moreDone value env') (more value env') env') :
    (short >>= shortNext).CutsShort (run >>= next) (done ++ short.assignedBehind env moreDone)
      (bindings ++ run.assignedBehind env more) env := by
  rcases h with ⟨rfl, heq⟩ | ⟨hdone, hshort⟩
  · unfold Assigns at hrun
    rcases houtcome : run.outcome env with ⟨fault | value, env'⟩
    · have hshort := heq.trans houtcome
      rw [assignedBehind_of_error houtcome, assignedBehind_of_error hshort]
      exact .inl ⟨rfl, by rw [outcome_bind_of_error houtcome, outcome_bind_of_error hshort]⟩
    · have hshort := heq.trans houtcome
      rw [houtcome] at hrun
      rw [CutsShort, assignedBehind_of_ok houtcome, assignedBehind_of_ok hshort,
        outcome_bind_of_ok houtcome, outcome_bind_of_ok hshort]
      rcases hnext value env' with ⟨hall, hsame⟩ | ⟨hpart, hcut⟩
      · exact .inl ⟨congrArg (done ++ ·) hall, hsame⟩
      · refine .inr ⟨(List.prefix_append_right_inj done).mpr hpart, ?_⟩
        rw [hcut, Environment.setAll_append, ← hrun]
  · rw [assignedBehind_of_error hshort, List.append_nil]
    exact .inr ⟨hdone.trans (List.prefix_append _ _), outcome_bind_of_error hshort _⟩

theorem CutsShort.bind_same (h : short.CutsShort run done bindings env)
    (hrun : run.Assigns bindings env) :
    (short >>= next).CutsShort (run >>= next) done bindings env := by
  have hbind : (short >>= next).CutsShort (run >>= next)
      (done ++ short.assignedBehind env fun _ _ => [])
      (bindings ++ run.assignedBehind env fun _ _ => []) env :=
    h.bind hrun fun value env' => .refl (next value) [] env'
  simpa using hbind

end Run

namespace Expr

/-! Evaluation in the order in which an expression is written, a left side before the right one
and each of them by itself. -/

def inOrder : Expr → Run Int
  | lit value => pure value
  | var name => Run.lookup name
  | assign name value => do Run.assign name (← value.inOrder)
  | binary op left right => do
      let first ← left.inOrder
      let second ← right.inOrder
      Run.ofExcept (op.apply first second)
  | seq first second => do
      let _ ← first.inOrder
      second.inOrder
  | stray item => throw (.strayNode item)

/-- The assignments that an evaluation in order does, whether or not it comes to a value. -/
def assignments : Expr → Environment → List (String × Int)
  | lit _, _ | var _, _ | stray _, _ => []
  | assign name value, env =>
      value.assignments env ++ value.inOrder.assignedBehind env fun result _ => [(name, result)]
  | binary _ left right, env =>
      left.assignments env ++ left.inOrder.assignedBehind env fun _ env' => right.assignments env'
  | seq first second, env =>
      first.assignments env ++
        first.inOrder.assignedBehind env fun _ env' => second.assignments env'

/-- The most right sides that stand inside of each other. A left side is as deep as the whole. -/
def nesting : Expr → Nat
  | lit _ | var _ | stray _ => 0
  | assign _ value => value.nesting + 1
  | binary _ left right => max left.nesting (right.nesting + 1)
  | seq first second => max first.nesting (second.nesting + 1)

theorem inOrder_assigns (tree : Expr) (env : Environment) :
    tree.inOrder.Assigns (tree.assignments env) env := by
  induction tree generalizing env with
  | lit value => simp [inOrder, assignments, Run.Assigns]
  | var name => simp [inOrder, assignments, Run.Assigns]
  | assign name value ih =>
      apply (ih env).bind
      intro result env'
      simp [Run.Assigns]
  | binary op left right ihLeft ihRight =>
      apply (ihLeft env).bind
      intro first env'
      apply (ihRight env').bind_nothing
      intro second env''
      exact Run.ofExcept_assigns _ _
  | seq first second ihFirst ihSecond =>
      apply (ihFirst env).bind
      intro _ env'
      exact ihSecond env'
  | stray item => simp [inOrder, assignments, Run.Assigns]

theorem walk_eq_bind (nested : Expr → Run Int) (tree : Expr) (steps : List Step) :
    tree.walk nested steps = tree.walk nested [] >>= fun value =>
      steps.foldlM (Step.run nested) value := by
  -- The steps are arbitrary, as walking down a left side adds one to them.
  induction tree generalizing steps with
  | lit value => simp [walk]
  | var name => simp [walk]
  | assign name value _ => simp [walk]
  | binary op left right ih _ =>
      rw [walk, ih, walk, ih [_]]
      simp
  | seq first second ih _ =>
      rw [walk, ih, walk, ih [_]]
      simp
  | stray item => rfl

def evaluateNested : Nat → Expr → Run Int
  | 0, _ => throw .tooDeep
  | depth + 1, tree => tree.evaluateWithin depth

theorem evaluateWithin_eq_walk (depth : Nat) (tree : Expr) :
    tree.evaluateWithin depth = tree.walk (evaluateNested depth) [] := by
  cases depth <;> rfl

theorem evaluateWithin_assign (depth : Nat) (name : String) (value : Expr) :
    (assign name value).evaluateWithin depth =
      evaluateNested depth value >>= Run.assign name := by
  simp [evaluateWithin_eq_walk, walk]

theorem evaluateWithin_binary (depth : Nat) (op : Operator) (left right : Expr) :
    (binary op left right).evaluateWithin depth =
      left.evaluateWithin depth >>= fun first =>
        evaluateNested depth right >>= fun second => Run.ofExcept (op.apply first second) := by
  rw [evaluateWithin_eq_walk, walk, walk_eq_bind, evaluateWithin_eq_walk]
  simp [Step.run]

theorem evaluateWithin_seq (depth : Nat) (first second : Expr) :
    (seq first second).evaluateWithin depth =
      first.evaluateWithin depth >>= fun _ => evaluateNested depth second := by
  rw [evaluateWithin_eq_walk, walk, walk_eq_bind, evaluateWithin_eq_walk]
  simp [Step.run]

theorem evaluateWithin_eq_inOrder {tree : Expr} {depth : Nat} (h : tree.nesting ≤ depth) :
    tree.evaluateWithin depth = tree.inOrder := by
  induction tree generalizing depth with
  | lit value => simp [evaluateWithin_eq_walk, walk, inOrder]
  | var name => simp [evaluateWithin_eq_walk, walk, inOrder]
  | assign name value ih =>
      obtain ⟨depth, rfl⟩ := Nat.exists_eq_add_one_of_ne_zero (Nat.ne_zero_of_lt h)
      rw [evaluateWithin_assign, evaluateNested, ih (Nat.le_of_succ_le_succ h), inOrder]
  | binary op left right ihLeft ihRight =>
      obtain ⟨hleft, hright⟩ := Nat.max_le.mp h
      obtain ⟨depth, rfl⟩ := Nat.exists_eq_add_one_of_ne_zero (Nat.ne_zero_of_lt hright)
      rw [evaluateWithin_binary, ihLeft hleft, evaluateNested,
        ihRight (Nat.le_of_succ_le_succ hright), inOrder]
  | seq first second ihFirst ihSecond =>
      obtain ⟨hfirst, hsecond⟩ := Nat.max_le.mp h
      obtain ⟨depth, rfl⟩ := Nat.exists_eq_add_one_of_ne_zero (Nat.ne_zero_of_lt hsecond)
      rw [evaluateWithin_seq, ihFirst hfirst, evaluateNested,
        ihSecond (Nat.le_of_succ_le_succ hsecond), inOrder]
  | stray item => simp [evaluateWithin_eq_walk, walk, inOrder]

theorem evaluate_eq_outcome [Limits] {tree : Expr} (h : tree.nesting ≤ depthLimit)
    (env : Environment) :
    tree.evaluate env = tree.inOrder.outcome env :=
  congrArg (Run.outcome · env) (evaluateWithin_eq_inOrder h)

def nestedAssignments (within : Nat → Environment → List (String × Int)) :
    Nat → Environment → List (String × Int)
  | 0, _ => []
  | depth + 1, env => within depth env

/-- The assignments that an evaluation within a depth does, whether or not it comes to a value. What
a left side or a value has assigned stays done, wherever the evaluation ends. -/
def assignmentsWithin : Expr → Nat → Environment → List (String × Int)
  | lit _, _, _ | var _, _, _ | stray _, _, _ => []
  | assign name value, depth, env =>
      nestedAssignments value.assignmentsWithin depth env ++
        (evaluateNested depth value).assignedBehind env fun result _ => [(name, result)]
  | binary _ left right, depth, env =>
      left.assignmentsWithin depth env ++ (left.evaluateWithin depth).assignedBehind env
        fun _ env' => nestedAssignments right.assignmentsWithin depth env'
  | seq first second, depth, env =>
      first.assignmentsWithin depth env ++ (first.evaluateWithin depth).assignedBehind env
        fun _ env' => nestedAssignments second.assignmentsWithin depth env'

theorem evaluateNested_cutsShort {tree : Expr}
    (h : ∀ depth env, (tree.evaluateWithin depth).CutsShort tree.inOrder
      (tree.assignmentsWithin depth env) (tree.assignments env) env)
    (depth : Nat) (env : Environment) :
    (evaluateNested depth tree).CutsShort tree.inOrder
      (nestedAssignments tree.assignmentsWithin depth env) (tree.assignments env) env := by
  cases depth with
  | zero => exact .tooDeep _ _ _
  | succ depth => exact h depth env

theorem evaluateWithin_cutsShort (tree : Expr) (depth : Nat) (env : Environment) :
    (tree.evaluateWithin depth).CutsShort tree.inOrder (tree.assignmentsWithin depth env)
      (tree.assignments env) env := by
  -- A left side keeps the depth; a right side has one less, or gives up where there is none.
  induction tree generalizing depth env with
  | lit | var | stray =>
      rw [evaluateWithin_eq_inOrder (Nat.zero_le depth)]
      exact .refl _ _ _
  | assign name value ih =>
      rw [evaluateWithin_assign]
      apply (evaluateNested_cutsShort ih depth env).bind (inOrder_assigns value env)
      intro result env'
      exact .refl _ _ _
  | binary op left right ihLeft ihRight =>
      rw [evaluateWithin_binary]
      apply (ihLeft depth env).bind (inOrder_assigns left env)
      intro first env'
      exact (evaluateNested_cutsShort ihRight depth env').bind_same (inOrder_assigns right env')
  | seq first second ihFirst ihSecond =>
      rw [evaluateWithin_seq]
      apply (ihFirst depth env).bind (inOrder_assigns first env)
      intro _ env'
      exact evaluateNested_cutsShort ihSecond depth env'

end Expr

end Abacus
