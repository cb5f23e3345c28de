import Abacus.Proofs.Environment
import Abacus.Proofs.Evaluation

namespace Abacus

namespace Environment

/-- Nothing but the names that are assigned has changed, and no name is gone. -/
structure GrowsBy (env : Environment) (assigned : List String) (after : Environment) : Prop where
  names : after.names = env.names ++ (assigned.filter (· ∉ env.names)).eraseDups
  kept : ∀ name, name ∉ assigned → after.find? name = env.find? name
  bound : ∀ name, env.contains name = true ∨ name ∈ assigned → after.contains name = true

theorem names_set_append (env : Environment) (name : String) (value : Int)
    (assigned : List String) :
    (env.set name value).names ++
        (assigned.filter (· ∉ (env.set name value).names)).eraseDups =
      env.names ++ ((name :: assigned).filter (· ∉ env.names)).eraseDups := by
  rw [names_set]
  split
  · next hbound => rw [List.filter_cons_of_neg (by simpa using hbound)]
  · next hnew =>
      rw [List.filter_cons_of_pos (by simpa using hnew), List.eraseDups_cons, List.append_assoc,
        List.singleton_append, List.filter_filter]
      congr 3
      apply List.filter_congr
      intro other _
      rw [Bool.eq_iff_iff]
      simp [and_comm]

theorem growsBy_setAll (env : Environment) (bindings : List (String × Int)) :
    env.GrowsBy (bindings.map Prod.fst) (env.setAll bindings) := by
  have hnames : (env.setAll bindings).names =
      env.names ++ ((bindings.map Prod.fst).filter (· ∉ env.names)).eraseDups := by
    induction bindings generalizing env with
    | nil => simp
    | cons binding rest ih => exact (ih _).trans (names_set_append env _ binding.2 _)
  refine ⟨hnames, ?_, ?_⟩
  · clear hnames
    intro name hname
    induction bindings generalizing env with
    | nil => rfl
    | cons binding rest ih =>
        obtain ⟨hfirst, hrest⟩ := not_or.mp (mt List.mem_cons.mpr hname)
        exact (ih _ hrest).trans ((find?_set ..).trans (if_neg hfirst))
  · intro name hname
    rw [contains_iff, hnames, List.mem_append, List.mem_eraseDups]
    rw [contains_iff] at hname
    by_cases hbound : name ∈ env.names
    · exact .inl hbound
    · exact .inr (List.mem_filter.mpr ⟨hname.resolve_left hbound, decide_eq_true hbound⟩)

end Environment

/-! An evaluation that comes to a value has gone all the way, so it is the same wherever it is
done within the limit. -/

namespace Run

variable {α β : Type}

theorem outcome_bind_eq_ok_iff {run : Run α} {next : α → Run β} {env after : Environment}
    {result : β} :
    outcome (run >>= next) env = (.ok result, after) ↔
      ∃ value env', run.outcome env = (.ok value, env') ∧
        (next value).outcome env' = (.ok result, after) := by
  rw [outcome_bind]
  rcases run.outcome env with ⟨fault | value, env'⟩
  · simp
  · simp [and_assoc]

end Run

namespace Expr

variable {tree : Expr} {depth : Nat} {env after : Environment} {value : Int}

theorem nesting_lt_of_nested
    (ih : ∀ {depth env after value},
      (tree.evaluateWithin depth).outcome env = (.ok value, after) → tree.nesting ≤ depth)
    (h : (evaluateNested depth tree).outcome env = (.ok value, after)) : tree.nesting < depth := by
  cases depth with
  | zero => cases h
  | succ depth => exact Nat.lt_succ_of_le (ih h)

theorem nesting_le_of_ok (h : (tree.evaluateWithin depth).outcome env = (.ok value, after)) :
    tree.nesting ≤ depth := by
  induction tree generalizing depth env after value with
  | lit | var | stray => exact Nat.zero_le depth
  | assign name part ih =>
      rw [evaluateWithin_assign, Run.outcome_bind_eq_ok_iff] at h
      obtain ⟨_, _, hpart, _⟩ := h
      exact nesting_lt_of_nested ih hpart
  | binary op left right ihLeft ihRight =>
      rw [evaluateWithin_binary, Run.outcome_bind_eq_ok_iff] at h
      obtain ⟨_, _, hleft, hrest⟩ := h
      obtain ⟨_, _, hright, _⟩ := Run.outcome_bind_eq_ok_iff.mp hrest
      exact Nat.max_le.mpr ⟨ihLeft hleft, nesting_lt_of_nested ihRight hright⟩
  | seq first second ihFirst ihSecond =>
      rw [evaluateWithin_seq, Run.outcome_bind_eq_ok_iff] at h
      obtain ⟨_, _, hfirst, hsecond⟩ := h
      exact Nat.max_le.mpr ⟨ihFirst hfirst, nesting_lt_of_nested ihSecond hsecond⟩

theorem evaluate_of_ok [Limits] (hdepth : depth ≤ depthLimit)
    (h : (tree.evaluateWithin depth).outcome env = (.ok value, after)) :
    tree.evaluate env = (.ok value, after) := by
  have hnesting := nesting_le_of_ok h
  rw [evaluateWithin_eq_inOrder hnesting] at h
  rw [← h, ← evaluateWithin_eq_inOrder (Nat.le_trans hnesting hdepth)]
  rfl

end Expr

/-- The assignments in a tree, each by its name and its right side, in the order in which an
evaluation comes by them. -/
def Expr.sites : Expr → List (String × Expr)
  | lit _ | var _ | stray _ => []
  | assign name value => value.sites ++ [(name, value)]
  | binary _ left right => left.sites ++ right.sites
  | seq first second => first.sites ++ second.sites

/-- The sites are done in turn. Each binds the value of its right side, which is evaluated behind
all that comes before it and does the sites that it holds itself. -/
inductive Performs [Limits] (env : Environment) : List (String × Expr) → List (String × Int) → Prop
  | nil : Performs env [] []
  | snoc {sites : List (String × Expr)} {inner : List (String × Int)} {name : String}
      {right : Expr} {value : Int} (earlier : List (String × Int)) :
      Performs env sites (earlier ++ inner) →
      inner.length = right.sites.length →
      right.evaluate (env.setAll earlier) = (.ok value, env.setAll (earlier ++ inner)) →
      Performs env (sites ++ [(name, right)]) (earlier ++ inner ++ [(name, value)])

namespace Performs

variable [Limits] {env : Environment} {sites first second : List (String × Expr)}
  {done more : List (String × Int)}

theorem map_fst (h : Performs env sites done) : done.map Prod.fst = sites.map Prod.fst := by
  induction h with
  | nil => rfl
  | snoc _ _ _ _ ih =>
      rw [List.map_append, ih, List.map_append, List.map_singleton, List.map_singleton]

theorem length_eq (h : Performs env sites done) : done.length = sites.length := by
  simpa using congrArg List.length h.map_fst

theorem append (hfirst : Performs env first done)
    (hsecond : Performs (env.setAll done) second more) :
    Performs env (first ++ second) (done ++ more) := by
  induction hsecond with
  | nil => simpa using hfirst
  | snoc _ _ hinner hright ih =>
      simp only [← Environment.setAll_append, ← List.append_assoc] at hright ih ⊢
      exact .snoc _ ih hinner hright

end Performs

/-- The run does some of the assignments in turn, with these values, and leaves the environment
otherwise as it is. It does all of them if it comes to a value. -/
def Run.Effects [Limits] {α : Type} (run : Run α) (sites : List (String × Expr))
    (done : List (String × Int)) (env : Environment) : Prop :=
  ∃ performed, performed <+: sites ∧ Performs env performed done ∧
    (run.outcome env).2 = env.setAll done ∧
    ∀ value, (run.outcome env).1 = .ok value → performed = sites

namespace Run

variable [Limits] {α β : Type} {run : Run α} {next : α → Run β} {env : Environment}
  {sites more : List (String × Expr)} {done : List (String × Int)}
  {moreDone : α → Environment → List (String × Int)}

theorem Effects.nothing (h : (run.outcome env).2 = env) : run.Effects [] [] env :=
  ⟨[], List.nil_prefix, .nil, h, fun _ _ => rfl⟩

theorem Effects.assigns (h : run.Effects sites done env) : run.Assigns done env := by
  obtain ⟨_, _, _, hafter, _⟩ := h
  exact hafter

theorem Effects.bind_of_error {fault : Fault} {env' : Environment}
    (h : run.Effects sites done env) (houtcome : run.outcome env = (.error fault, env')) :
    (run >>= next).Effects (sites ++ more) done env := by
  obtain ⟨performed, hprefix, hperforms, hafter, _⟩ := h
  refine ⟨performed, hprefix.trans (List.prefix_append sites more), hperforms, ?_, ?_⟩
  · rw [outcome_bind_of_error houtcome, ← hafter, houtcome]
  · simp [outcome_bind_of_error houtcome]

theorem Effects.of_ok {value : α} {env' : Environment} (h : run.Effects sites done env)
    (houtcome : run.outcome env = (.ok value, env')) :
    Performs env sites done ∧ env' = env.setAll done := by
  obtain ⟨performed, _, hperforms, hafter, hall⟩ := h
  rw [houtcome] at hafter hall
  cases hall value rfl
  exact ⟨hperforms, hafter⟩

theorem Effects.bind (h : run.Effects sites done env)
    (hnext : ∀ value env', (next value).Effects more (moreDone value env') env') :
    (run >>= next).Effects (sites ++ more) (done ++ run.assignedBehind env moreDone) env := by
  rcases houtcome : run.outcome env with ⟨fault | value, env'⟩
  · rw [assignedBehind_of_error houtcome, List.append_nil]
    exact h.bind_of_error houtcome
  · rw [assignedBehind_of_ok houtcome]
    obtain ⟨hperforms, rfl⟩ := h.of_ok houtcome
    obtain ⟨part, hprefix, hrest, hafter, hall⟩ := hnext value (env.setAll done)
    refine ⟨sites ++ part, (List.prefix_append_right_inj sites).mpr hprefix,
      hperforms.append hrest, ?_, ?_⟩
    · rw [outcome_bind_of_ok houtcome, hafter, Environment.setAll_append]
    · rw [outcome_bind_of_ok houtcome]
      exact fun result hresult => congrArg _ (hall result hresult)

theorem Effects.bind_nothing (h : run.Effects sites done env)
    (hnext : ∀ value env', ((next value).outcome env').2 = env') :
    (run >>= next).Effects sites done env := by
  have hbind : (run >>= next).Effects (sites ++ [])
      (done ++ run.assignedBehind env fun _ _ => []) env :=
    h.bind fun value env' => .nothing (hnext value env')
  simpa using hbind

end Run

namespace Expr

variable [Limits] {depth : Nat}

theorem evaluateNested_effects {tree : Expr}
    (h : ∀ depth ≤ depthLimit, ∀ env,
      (tree.evaluateWithin depth).Effects tree.sites (tree.assignmentsWithin depth env) env)
    (hdepth : depth ≤ depthLimit) (env : Environment) :
    (evaluateNested depth tree).Effects tree.sites
      (nestedAssignments tree.assignmentsWithin depth env) env := by
  cases depth with
  | zero => exact ⟨[], List.nil_prefix, .nil, rfl, nofun⟩
  | succ depth => exact h depth (Nat.le_of_succ_le hdepth) env

theorem evaluate_of_nested_ok {tree : Expr} {env after : Environment} {value : Int}
    (hdepth : depth ≤ depthLimit)
    (h : (evaluateNested depth tree).outcome env = (.ok value, after)) :
    tree.evaluate env = (.ok value, after) := by
  cases depth with
  | zero => cases h
  | succ depth => exact evaluate_of_ok (Nat.le_of_succ_le hdepth) h

theorem evaluateNested_assign_effects {right : Expr} (name : String) (hdepth : depth ≤ depthLimit)
    {env : Environment} {done : List (String × Int)}
    (h : (evaluateNested depth right).Effects right.sites done env) :
    (evaluateNested depth right >>= Run.assign name).Effects (assign name right).sites
      (done ++ (evaluateNested depth right).assignedBehind env fun value _ => [(name, value)])
      env := by
  rcases houtcome : (evaluateNested depth right).outcome env with ⟨fault | value, after⟩
  · rw [Run.assignedBehind_of_error houtcome, List.append_nil]
    exact h.bind_of_error houtcome
  · rw [Run.assignedBehind_of_ok houtcome]
    obtain ⟨hperforms, rfl⟩ := h.of_ok houtcome
    have hright : right.evaluate env = (.ok value, env.setAll done) :=
      evaluate_of_nested_ok hdepth houtcome
    refine ⟨_, List.prefix_rfl, ?_, ?_, fun _ _ => rfl⟩
    · exact .snoc [] hperforms hperforms.length_eq hright
    · rw [Run.outcome_bind_of_ok houtcome, Environment.setAll_append]
      rfl

theorem evaluateWithin_effects (tree : Expr) (hdepth : depth ≤ depthLimit) (env : Environment) :
    (tree.evaluateWithin depth).Effects tree.sites (tree.assignmentsWithin depth env) env := by
  induction tree generalizing depth env with
  | lit | var | stray =>
      apply Run.Effects.nothing
      rw [evaluateWithin_eq_inOrder (Nat.zero_le depth)]
      simp [inOrder]
  | assign name right ih =>
      rw [evaluateWithin_assign]
      exact evaluateNested_assign_effects name hdepth
        (evaluateNested_effects (fun _ => ih) hdepth env)
  | binary op left right ihLeft ihRight =>
      rw [evaluateWithin_binary]
      apply (ihLeft hdepth env).bind
      intro first env'
      apply (evaluateNested_effects (fun _ => ihRight) hdepth env').bind_nothing
      intro second env''
      simp
  | seq first second ihFirst ihSecond =>
      rw [evaluateWithin_seq]
      apply (ihFirst hdepth env).bind
      intro _ env'
      exact evaluateNested_effects (fun _ => ihSecond) hdepth env'

/-- The assignments that an evaluation does, whether or not it comes to a value. -/
def executed (tree : Expr) (env : Environment) : List (String × Int) :=
  tree.assignmentsWithin depthLimit env

theorem evaluate_effects (tree : Expr) (env : Environment) :
    (tree.evaluateWithin depthLimit).Effects tree.sites (tree.executed env) env :=
  evaluateWithin_effects tree (Nat.le_refl depthLimit) env

end Expr

end Abacus
