import Abacus.Proofs.Evaluation.Effects
import Abacus.Proofs.Session
import Mathlib.Data.List.Forall2

namespace Abacus

/-- The environment afterwards is the one before with these assignments done, each of which binds
the value that its right side had. -/
structure Environment.Undergoes [Limits] (env : Environment) (performed : List (String × Expr))
    (done : List (String × Int)) (after : Environment) : Prop where
  performs : Performs env performed done
  after_eq : after = env.setAll done
  grows : env.GrowsBy (performed.map Prod.fst) after

namespace Environment

variable [Limits] {env between after : Environment} {performed first second : List (String × Expr)}
  {done more : List (String × Int)}

theorem Undergoes.of_performs (h : Performs env performed done) :
    env.Undergoes performed done (env.setAll done) :=
  ⟨h, rfl, h.map_fst ▸ env.growsBy_setAll done⟩

theorem Undergoes.nothing (h : after = env) : env.Undergoes [] [] after :=
  h ▸ .of_performs .nil

theorem Undergoes.trans (hfirst : env.Undergoes first done between)
    (hsecond : between.Undergoes second more after) :
    env.Undergoes (first ++ second) (done ++ more) after := by
  obtain ⟨hdone, rfl, _⟩ := hfirst
  obtain ⟨hmore, rfl, _⟩ := hsecond
  rw [← setAll_append]
  exact .of_performs (hdone.append hmore)

end Environment

theorem Expr.exists_undergoes [Limits] (tree : Expr) (env : Environment) :
    ∃ performed, performed <+: tree.sites ∧
      (∀ value, (tree.evaluate env).1 = .ok value → performed = tree.sites) ∧
      env.Undergoes performed (tree.executed env) (tree.evaluate env).2 := by
  obtain ⟨performed, hprefix, hperforms, hafter, hall⟩ := tree.evaluate_effects env
  exact ⟨performed, hprefix, hall, hafter ▸ .of_performs hperforms⟩

/-- Only where right sides are nested too deeply are fewer assignments done than in order. -/
theorem Expr.executed_prefix [Limits] (tree : Expr) (env : Environment) :
    tree.executed env <+: tree.assignments env ∧
      ((tree.evaluate env).1 ≠ .error .tooDeep → tree.executed env = tree.assignments env) := by
  rcases tree.evaluateWithin_cutsShort depthLimit env with ⟨hall, _⟩ | ⟨hpart, hshort⟩
  · exact ⟨hall ▸ List.prefix_rfl, fun _ => hall⟩
  · exact ⟨hpart, fun h => absurd (congrArg Prod.fst hshort) h⟩

namespace Calculation

def sites (calculation : Calculation) : List (String × Expr) :=
  calculation.stage.tree?.elim [] Expr.sites

/-- The assignments are the first ones in the text, and all of them if it comes to a value. -/
def Begins (performed : List (String × Expr)) (calculation : Calculation) : Prop :=
  performed <+: calculation.sites ∧
    ∀ value, calculation.outcome = .ok value → performed = calculation.sites

theorem sites_of_read? [Limits] {code : String} {tree : Expr} (h : read? code = some tree)
    (env : Environment) : (of code env).sites = tree.sites := by
  rw [sites, stage_tree?_of, h]
  rfl

theorem begins_nil {calculation : Calculation} {error : Error}
    (h : calculation.outcome = .error error) : Begins [] calculation :=
  ⟨List.nil_prefix, fun _ hvalue => nomatch h.symm.trans hvalue⟩

/-- The assignments that are done, which are none where the text cannot be read. -/
def executed [Limits] (calculation : Calculation) : List (String × Int) :=
  calculation.stage.tree?.elim [] fun tree => tree.executed calculation.before

theorem executed_of_read? [Limits] {code : String} {tree : Expr} (h : read? code = some tree)
    (env : Environment) : (of code env).executed = tree.executed env := by
  rw [executed, stage_tree?_of, h]
  rfl

theorem executed_of_unread [Limits] {code : String} (h : read? code = none) (env : Environment) :
    (of code env).executed = [] := by
  rw [executed, stage_tree?_of, h]
  rfl

theorem exists_undergoes [Limits] (code : String) (env : Environment) :
    ∃ performed, Begins performed (of code env) ∧
      env.Undergoes performed (of code env).executed (of code env).after := by
  rcases calculate_cases code env with
    ⟨error, hlexical, hcalc⟩ | ⟨tokens, error, htokens, hparse, hcalc⟩ |
      ⟨tokens, tree, htokens, htree, hcalc⟩
  all_goals obtain ⟨houtcome, hafter⟩ := Prod.mk.inj hcalc
  · rw [executed_of_unread (by simp [read?, hlexical, Except.toOption])]
    exact ⟨[], begins_nil houtcome, .nothing hafter⟩
  · rw [executed_of_unread (by simp [read?, htokens, hparse, Except.toOption])]
    exact ⟨[], begins_nil houtcome, .nothing hafter⟩
  · have hread := read?_eq_some_iff.mpr ⟨tokens, htokens, htree⟩
    obtain ⟨performed, hprefix, hall, hundergoes⟩ := tree.exists_undergoes env
    have hsites := sites_of_read? hread env
    rw [executed_of_read? hread]
    refine ⟨performed, ⟨hsites ▸ hprefix, fun value hvalue => ?_⟩, hafter ▸ hundergoes⟩
    rw [hsites]
    exact hall value (mapError_eq_ok_iff.mp (houtcome ▸ hvalue))

end Calculation

namespace Session

def after [Limits] (env : Environment) (codes : List String) : Environment :=
  codes.foldl (fun env code => (calculate code env).2) env

theorem exists_undergoes [Limits] (codes : List String) (env : Environment) :
    ∃ parts, List.Forall₂ Calculation.Begins parts (calculations env codes) ∧
      env.Undergoes parts.flatten ((calculations env codes).flatMap Calculation.executed)
        (after env codes) := by
  induction codes generalizing env with
  | nil => exact ⟨[], .nil, .nothing rfl⟩
  | cons code codes ih =>
      obtain ⟨part, hbegins, hfirst⟩ := Calculation.exists_undergoes code env
      obtain ⟨parts, hparts, hrest⟩ := ih (Calculation.of code env).after
      exact ⟨part :: parts, .cons hbegins hparts, hfirst.trans hrest⟩

end Session

theorem Dialogue.exists_codes [Limits] (reads : List Dialogue.Read) (env : Environment) :
    ∃ codes, (Dialogue.run env reads).calculations = Session.calculations env codes ∧
      (Dialogue.run env reads).environment = Session.after env codes := by
  induction reads generalizing env with
  | nil => exact ⟨[], rfl, rfl⟩
  | cons read reads ih =>
      cases read with
      | interrupt => exact ⟨[], rfl, rfl⟩
      | line text =>
          rw [Dialogue.run_line]
          split
          · exact ⟨[], rfl, rfl⟩
          · exact ih env
          · next code _ =>
              simp only
              split
              · obtain ⟨codes, hcalculations, hafter⟩ := ih (Calculation.of code env).after
                exact ⟨code :: codes, congrArg _ hcalculations, hafter⟩
              · exact ⟨[code], rfl, rfl⟩

/-- An evaluation does the assignments of its tree in turn, as far as it comes, and nothing else;
and so does each text of a session and each line of a dialogue behind the ones before it. All that
an evaluation in order does before it comes to its value or its fault is done afterwards, too; where
right sides are nested too deeply, all that was done until then. -/
theorem assignments_take_effect_in_turn [Limits] :
    (∀ (tree : Expr) (env : Environment), ∃ performed, performed <+: tree.sites ∧
      (∀ value, (tree.evaluate env).1 = .ok value → performed = tree.sites) ∧
      env.Undergoes performed (tree.executed env) (tree.evaluate env).2 ∧
      tree.executed env <+: tree.assignments env ∧
      ((tree.evaluate env).1 ≠ .error .tooDeep → tree.executed env = tree.assignments env)) ∧
    (∀ (codes : List String) (env : Environment),
      let calculations := Session.calculations env codes
      ∃ parts, List.Forall₂ Calculation.Begins parts calculations ∧
        env.Undergoes parts.flatten (calculations.flatMap Calculation.executed)
          (Session.after env codes)) ∧
    ∀ (reads : List Dialogue.Read) (env : Environment),
      let dialogue := Dialogue.run env reads
      ∃ parts, List.Forall₂ Calculation.Begins parts dialogue.calculations ∧
        env.Undergoes parts.flatten (dialogue.calculations.flatMap Calculation.executed)
          dialogue.environment := by
  refine ⟨fun tree env => ?_, Session.exists_undergoes, fun reads env => ?_⟩
  · obtain ⟨performed, hprefix, hall, hundergoes⟩ := tree.exists_undergoes env
    exact ⟨performed, hprefix, hall, hundergoes, tree.executed_prefix env⟩
  · obtain ⟨codes, hcalculations, hafter⟩ := Dialogue.exists_codes reads env
    simp only [hcalculations, hafter]
    exact Session.exists_undergoes codes env

end Abacus
