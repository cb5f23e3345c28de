import Abacus.Proofs.Evaluation.Values

namespace Abacus

inductive Action where
  | push (value : Int)
  | read (name : String)
  | bind (name : String)
  | apply (op : Operator)
  | drop
  | refuse (item : Stray)

namespace Action

/-- The stack that an action leaves. Where a value is missing on it, zero is bound, and an operator
does nothing; the actions of a tree do not come to that. -/
def run (stack : List Int) : Action → Run (List Int)
  | push value => pure (value :: stack)
  | read name => do return (← Run.lookup name) :: stack
  | bind name => do return (← Run.assign name (stack.headD 0)) :: stack.tail
  | apply op =>
      match stack with
      | second :: first :: rest => do return (← Run.ofExcept (op.apply first second)) :: rest
      | _ => pure stack
  | drop => pure stack.tail
  | refuse item => throw (.strayNode item)

def runAll (actions : List Action) (stack : List Int) : Run (List Int) :=
  actions.foldlM run stack

end Action

def Expr.actions : Expr → List Action
  | lit value => [.push value]
  | var name => [.read name]
  | assign name value => value.actions ++ [.bind name]
  | binary op left right => left.actions ++ right.actions ++ [.apply op]
  | seq first second => first.actions ++ .drop :: second.actions
  | stray item => [.refuse item]

theorem Expr.runAll_actions (tree : Expr) (stack : List Int) :
    Action.runAll tree.actions stack = (· :: stack) <$> tree.inOrder := by
  unfold Action.runAll
  induction tree generalizing stack with
  | lit value => simp [actions, Action.run, inOrder]
  | var name => simp [actions, Action.run, inOrder]
  | assign name value ih => simp [actions, Action.run, inOrder, ih]
  | binary op left right ihLeft ihRight => simp [actions, Action.run, inOrder, ihLeft, ihRight]
  | seq first second ihFirst ihSecond => simp [actions, Action.run, inOrder, ihFirst, ihSecond]
  | stray item => rfl

theorem Expr.refuse_not_mem_actions {P : Int → Prop} {tree : Expr} (h : tree.Leaves P)
    (item : Stray) : .refuse item ∉ tree.actions := by
  induction tree with
  | lit | var => simp [actions]
  | assign name value ih => simp [actions, ih h]
  | binary op left right ihLeft ihRight => simp [actions, ihLeft h.1, ihRight h.2]
  | seq first second ihFirst ihSecond => simp [actions, ihFirst h.1, ihSecond h.2]
  | stray other => exact h.elim

namespace Expr

variable {tree : Expr} {env after : Environment}

theorem outcome_runAll_actions [Limits] (hdepth : tree.nesting ≤ depthLimit) (stack : List Int) :
    (Action.runAll tree.actions stack).outcome env =
      ((tree.evaluate env).1.map (· :: stack), (tree.evaluate env).2) := by
  rw [runAll_actions, Run.outcome_map, evaluate_eq_outcome hdepth]

theorem evaluate_of_runAll_error [Limits] {fault : Fault} (hdepth : tree.nesting ≤ depthLimit)
    (h : (Action.runAll tree.actions []).outcome env = (.error fault, after)) :
    tree.evaluate env = (.error fault, after) := by
  rw [outcome_runAll_actions hdepth] at h
  rcases hvalue : tree.evaluate env with ⟨other | value, env'⟩
  · rw [hvalue] at h
    cases h
    rfl
  · rw [hvalue] at h
    cases h

end Expr

namespace Action

/-- The names that are bound behind an action, or the name that it would read in vain. -/
def check (bound : List String) : Action → Except String (List String)
  | read name => if name ∈ bound then .ok bound else .error name
  | bind name => .ok (name :: bound)
  | _ => .ok bound

def scan (bound : List String) (actions : List Action) : Except String (List String) :=
  actions.foldlM check bound

theorem scan_cons_of_ok {bound bound' : List String} {action : Action}
    (h : check bound action = .ok bound') (actions : List Action) :
    scan bound (action :: actions) = scan bound' actions := by
  rw [scan, List.foldlM_cons, h]
  rfl

theorem exists_read_of_scan {bound : List String} {actions : List Action} {name : String}
    (h : scan bound actions = .error name) :
    ∃ before after names, actions = before ++ .read name :: after ∧
      scan bound before = .ok names ∧ name ∉ names := by
  induction actions generalizing bound with
  | nil => cases h
  | cons action actions ih =>
      cases hcheck : check bound action with
      | error other =>
          have hsame : other = name := by
            rw [scan, List.foldlM_cons, hcheck] at h
            exact Except.error.inj h
          subst hsame
          cases action with
          | read first =>
              rw [check] at hcheck
              split at hcheck
              · cases hcheck
              · next hunbound =>
                  cases hcheck
                  exact ⟨[], actions, bound, rfl, rfl, hunbound⟩
          | _ => cases hcheck
      | ok bound' =>
          rw [scan_cons_of_ok hcheck] at h
          obtain ⟨before, after, names, rfl, hbefore, hname⟩ := ih h
          exact ⟨action :: before, after, names, rfl, (scan_cons_of_ok hcheck before).trans hbefore,
            hname⟩

end Action

namespace Environment

def Binds (env : Environment) (names : List String) : Prop :=
  ∀ name, name ∈ names ↔ name ∈ env.names

variable {env : Environment} {names : List String} {name : String}

theorem Binds.get_of_mem (h : env.Binds names) (hname : name ∈ names) :
    ∃ value, env.get name = .ok value := by
  obtain ⟨value, hvalue⟩ := Option.isSome_iff_exists.mp (contains_iff.mpr ((h name).mp hname))
  exact ⟨value, by rw [get, hvalue]⟩

theorem Binds.get_of_not_mem (h : env.Binds names) (hname : name ∉ names) :
    env.get name = .error (.undefinedVariable name) := by
  have hnone : env.find? name = none := by
    rw [← Option.not_isSome_iff_eq_none]
    exact fun hsome => hname ((h name).mpr (contains_iff.mp hsome))
  rw [get, hnone]

theorem Binds.set (h : env.Binds names) (name : String) (value : Int) :
    (env.set name value).Binds (name :: names) := by
  intro other
  rw [List.mem_cons, h other]
  exact mem_names_upsert.symm

end Environment

theorem Operator.fault_of_apply {op : Operator} {a b : Int} {fault : Fault}
    (h : op.apply a b = .error fault) : fault = .divisionByZero ∨ fault = .resultTooLarge := by
  unfold apply at h
  split at h
  · exact .inl (Except.error.inj h).symm
  · split at h
    · cases h
    · exact .inr (Except.error.inj h).symm

namespace Action

theorem runAll_append (first second : List Action) (stack : List Int) :
    runAll (first ++ second) stack = runAll first stack >>= runAll second :=
  List.foldlM_append

theorem outcome_run_read (name : String) (stack : List Int) (env : Environment) :
    (run stack (.read name)).outcome env = ((env.get name).map (· :: stack), env) := by
  simp [run, Run.outcome_map]

theorem outcome_run_apply (op : Operator) (second first : Int) (rest : List Int)
    (env : Environment) :
    (run (second :: first :: rest) (.apply op)).outcome env =
      ((op.apply first second).map (· :: rest), env) := by
  simp [run, Run.outcome_map]

theorem runAll_cons_of_ok {action : Action} {stack stack' : List Int} {env env' : Environment}
    (h : (run stack action).outcome env = (.ok stack', env')) (actions : List Action) :
    (runAll (action :: actions) stack).outcome env = (runAll actions stack').outcome env' := by
  rw [runAll, List.foldlM_cons, Run.outcome_bind_of_ok h]
  rfl

/-- All actions in front of some operator are done, and that one fails on what they leave. -/
def FailsAtOperator (actions : List Action) (stack : List Int) (env : Environment) (fault : Fault)
    (after : Environment) : Prop :=
  ∃ earlier op later second first rest, actions = earlier ++ .apply op :: later ∧
    (runAll earlier stack).outcome env = (.ok (second :: first :: rest), after) ∧
    op.apply first second = .error fault

namespace FailsAtOperator

variable {actions : List Action} {stack : List Int} {env after : Environment} {fault : Fault}

theorem cons {action : Action} {stack' : List Int} {env' : Environment}
    (h : FailsAtOperator actions stack' env' fault after)
    (hrun : (run stack action).outcome env = (.ok stack', env')) :
    FailsAtOperator (action :: actions) stack env fault after := by
  obtain ⟨earlier, op, later, second, first, rest, rfl, hearlier, happly⟩ := h
  exact ⟨action :: earlier, op, later, second, first, rest, rfl,
    (runAll_cons_of_ok hrun earlier).trans hearlier, happly⟩

theorem append (h : FailsAtOperator actions stack env fault after) (more : List Action) :
    FailsAtOperator (actions ++ more) stack env fault after := by
  obtain ⟨earlier, op, later, second, first, rest, rfl, hearlier, happly⟩ := h
  exact ⟨earlier, op, later ++ more, second, first, rest, by simp, hearlier, happly⟩

theorem outcome (h : FailsAtOperator actions stack env fault after) :
    (runAll actions stack).outcome env = (.error fault, after) := by
  obtain ⟨earlier, op, later, second, first, rest, rfl, hearlier, happly⟩ := h
  rw [runAll_append, Run.outcome_bind_of_ok hearlier, runAll, List.foldlM_cons]
  apply Run.outcome_bind_of_error
  rw [outcome_run_apply, happly]
  rfl

theorem fault_cases (h : FailsAtOperator actions stack env fault after) :
    fault = .divisionByZero ∨ fault = .resultTooLarge := by
  obtain ⟨_, _, _, _, _, _, _, _, happly⟩ := h
  exact Operator.fault_of_apply happly

end FailsAtOperator

theorem run_of_check {bound names : List String} {action : Action}
    (hcheck : check bound action = .ok names) (haction : ∀ item, action ≠ .refuse item)
    {env : Environment} (henv : env.Binds bound) (stack : List Int) :
    (∃ stack' env', (run stack action).outcome env = (.ok stack', env') ∧ env'.Binds names) ∨
      ∃ fault, FailsAtOperator [action] stack env fault env := by
  cases action with
  | push value =>
      cases hcheck
      exact .inl ⟨value :: stack, env, rfl, henv⟩
  | read name =>
      rw [check] at hcheck
      split at hcheck
      · next hname =>
          cases hcheck
          obtain ⟨value, hvalue⟩ := henv.get_of_mem hname
          exact .inl ⟨value :: stack, env, by rw [outcome_run_read, hvalue]; rfl, henv⟩
      · cases hcheck
  | bind name =>
      cases hcheck
      exact .inl ⟨_, _, rfl, henv.set name _⟩
  | apply op =>
      cases hcheck
      rcases stack with _ | ⟨second, _ | ⟨first, rest⟩⟩
      · exact .inl ⟨_, env, rfl, henv⟩
      · exact .inl ⟨_, env, rfl, henv⟩
      · cases happly : op.apply first second with
        | ok value =>
            exact .inl ⟨value :: rest, env, by rw [outcome_run_apply, happly]; rfl, henv⟩
        | error fault => exact .inr ⟨fault, [], op, [], second, first, rest, rfl, rfl, happly⟩
  | drop =>
      cases hcheck
      exact .inl ⟨stack.tail, env, rfl, henv⟩
  | refuse item => exact absurd rfl (haction item)

theorem runAll_of_scan {bound names : List String} {actions : List Action}
    (hscan : scan bound actions = .ok names) (hactions : ∀ item, .refuse item ∉ actions)
    {env : Environment} (henv : env.Binds bound) (stack : List Int) :
    (∃ stack' env', (runAll actions stack).outcome env = (.ok stack', env') ∧ env'.Binds names) ∨
      ∃ fault after, FailsAtOperator actions stack env fault after := by
  induction actions generalizing bound env stack with
  | nil =>
      cases hscan
      exact .inl ⟨stack, env, rfl, henv⟩
  | cons action actions ih =>
      have hfirst (item : Stray) : action ≠ .refuse item := by
        rintro rfl
        exact hactions item List.mem_cons_self
      cases hcheck : check bound action with
      | error name =>
          rw [scan, List.foldlM_cons, hcheck] at hscan
          cases hscan
      | ok bound' =>
          rw [scan_cons_of_ok hcheck] at hscan
          rcases run_of_check hcheck hfirst henv stack with
            ⟨stack', env', hrun, henv'⟩ | ⟨fault, hfails⟩
          · rw [runAll_cons_of_ok hrun]
            rcases ih hscan (fun item hitem => hactions item (List.mem_cons_of_mem _ hitem)) henv'
              stack' with hdone | ⟨fault, after, hfails⟩
            · exact .inl hdone
            · exact .inr ⟨fault, after, hfails.cons hrun⟩
          · exact .inr ⟨fault, env, hfails.append actions⟩

theorem runAll_of_scan_error {bound : List String} {actions : List Action} {name : String}
    (hscan : scan bound actions = .error name) (hactions : ∀ item, .refuse item ∉ actions)
    {env : Environment} (henv : env.Binds bound) (stack : List Int) :
    ∃ before after names, actions = before ++ .read name :: after ∧
      scan bound before = .ok names ∧ name ∉ names ∧
      ((∃ env', (runAll actions stack).outcome env = (.error (.undefinedVariable name), env')) ∨
        ∃ fault env', FailsAtOperator before stack env fault env') := by
  obtain ⟨before, after, names, rfl, hbefore, hname⟩ := exists_read_of_scan hscan
  refine ⟨before, after, names, rfl, hbefore, hname, ?_⟩
  have hnone (item : Stray) : .refuse item ∉ before := fun hitem =>
    hactions item (List.mem_append_left _ hitem)
  rcases runAll_of_scan hbefore hnone henv stack with
    ⟨stack', env', hrun, henv'⟩ | ⟨fault, env', hfails⟩
  · left
    refine ⟨env', ?_⟩
    rw [runAll_append, Run.outcome_bind_of_ok hrun, runAll, List.foldlM_cons]
    apply Run.outcome_bind_of_error
    rw [outcome_run_read, henv'.get_of_not_mem hname]
    rfl
  · exact .inr ⟨fault, env', hfails⟩

end Action

/-- The scan that follows what is bound finds the name that is first read in vain. If there is none,
no evaluation fails for want of a name. If there is one, every evaluation fails: for want of that
name, or at an operator that stands in front of it. -/
theorem unbound_name_found_by_scan [Limits] (tree : Expr) (env : Environment)
    (htree : tree.Leaves fun _ => True) (hdepth : tree.nesting ≤ Expr.depthLimit) :
    (∀ names, Action.scan env.names tree.actions = .ok names →
        ∀ name, (tree.evaluate env).1 ≠ .error (.undefinedVariable name)) ∧
      ∀ name, Action.scan env.names tree.actions = .error name →
        ∃ before after names, tree.actions = before ++ .read name :: after ∧
          Action.scan env.names before = .ok names ∧ name ∉ names ∧
          ((tree.evaluate env).1 = .error (.undefinedVariable name) ∨
            ∃ fault after, Action.FailsAtOperator before [] env fault after ∧
              (fault = .divisionByZero ∨ fault = .resultTooLarge) ∧
              tree.evaluate env = (.error fault, after)) := by
  have hactions := Expr.refuse_not_mem_actions htree
  have henv : env.Binds env.names := fun name => Iff.rfl
  constructor
  · intro names hscan name hname
    rcases Action.runAll_of_scan hscan hactions henv [] with
      ⟨stack, after, hrun, _⟩ | ⟨fault, after, hfails⟩
    · rw [Expr.outcome_runAll_actions hdepth, hname] at hrun
      cases hrun
    · rw [Expr.evaluate_of_runAll_error hdepth hfails.outcome] at hname
      cases hname
      simpa using hfails.fault_cases
  · intro name hscan
    obtain ⟨before, after, names, htreeActions, hbefore, hname, ⟨env', hread⟩ |
      ⟨fault, env', hfails⟩⟩ := Action.runAll_of_scan_error hscan hactions henv []
    · refine ⟨before, after, names, htreeActions, hbefore, hname, .inl ?_⟩
      rw [Expr.evaluate_of_runAll_error hdepth hread]
    · have hwhole := hfails.append (.read name :: after)
      rw [← htreeActions] at hwhole
      exact ⟨before, after, names, htreeActions, hbefore, hname,
        .inr ⟨fault, env', hfails, hfails.fault_cases,
          Expr.evaluate_of_runAll_error hdepth hwhole.outcome⟩⟩

theorem unbound_name_behind_division :
    let quotient : Expr :=
      .binary .div (.assign "x" (.lit 4)) (.binary .sub (.var "x") (.lit 4))
    let tree : Expr := .binary .add (.binary .add quotient (.assign "x" (.var "y"))) (.var "z")
    let env : Environment := .ofList [("a", 1)]
    let after : Environment := .ofList [("a", 1), ("x", 4)]
    tree.Leaves (fun _ => True) ∧ tree.nesting ≤ Expr.depthLimit ∧
      Action.scan env.names tree.actions = .error "y" ∧
      tree.evaluate env = (.error .divisionByZero, after) ∧
      ∃ before behind, tree.actions = before ++ .read "y" :: behind ∧
        Action.FailsAtOperator before [] env .divisionByZero after := by
  intro quotient tree env after
  have htree : tree.Leaves fun _ => True := by simp [tree, quotient, Expr.Leaves]
  have hdepth : tree.nesting ≤ Expr.depthLimit := by decide
  have hscan : Action.scan env.names tree.actions = .error "y" := by decide +kernel
  have heval : tree.evaluate env = (.error .divisionByZero, after) := by decide +kernel
  obtain ⟨before, behind, _, hactions, _, _, hunbound | ⟨fault, env', hfails, _, hfault⟩⟩ :=
    (unbound_name_found_by_scan tree env htree hdepth).2 "y" hscan
  · rw [heval] at hunbound
    cases hunbound
  · cases heval.symm.trans hfault
    exact ⟨htree, hdepth, hscan, heval, before, behind, hactions, hfails⟩

end Abacus
