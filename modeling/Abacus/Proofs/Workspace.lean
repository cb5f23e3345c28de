import Abacus.Workspace
import Mathlib.Data.List.Nodup

namespace Abacus

open Session (Answer Request)

namespace Session

/-- Requests of a single environment, in turn: each answer, with the environment behind it. -/
def runAll [Limits] (env : Environment) : List Request → List (Answer × Environment)
  | [] => []
  | request :: requests => request.run env :: runAll (request.run env).2 requests

def Request.isSnapshot : Request → Bool
  | snapshot _ _ => true
  | _ => false

theorem Request.run_of_isSnapshot [Limits] {request : Request} (h : request.isSnapshot = true)
    (env : Environment) : (request.run env).2 = env := by
  cases request <;> cases h
  rfl

end Session

namespace Workspace

abbrev Step := String × Request

section Store

variable {workspace : Workspace} {place other : Nat} {env : Environment}

theorem read_write_self (h : place < workspace.store.length) :
    (workspace.write place env).read place = env := by
  simp [read, write, h]

theorem read_write_of_ne (h : other ≠ place) :
    (workspace.write place env).read other = workspace.read other := by
  simp [read, write, h.symm]

theorem fresh_lt_lend : workspace.fresh < (workspace.lend place).store.length := by
  simp [lend, fresh]

theorem read_lend_fresh : (workspace.lend place).read workspace.fresh = workspace.read place := by
  simp [read, lend, fresh]

theorem read_lend_of_lt (h : other < workspace.store.length) :
    (workspace.lend place).read other = workspace.read other := by
  simp [read, lend, List.getElem?_append_left h]

end Store

def HasBegun (workspace : Workspace) (session : String) : Prop :=
  ∃ place, workspace.sessions.lookup session = some place

section Place

variable {workspace : Workspace} {session other : String}

theorem mem_of_lookup {α β : Type} [BEq α] [LawfulBEq α] {entries : List (α × β)} {key : α}
    {value : β} (h : entries.lookup key = some value) : (key, value) ∈ entries := by
  obtain ⟨_, _, rfl, _⟩ := List.lookup_eq_some_iff.mp h
  simp

theorem HasBegun.mem (h : workspace.HasBegun session) :
    (session, workspace.place session) ∈ workspace.sessions := by
  obtain ⟨place, hplace⟩ := h
  simpa [Workspace.place, hplace] using mem_of_lookup hplace

theorem place_of_not_hasBegun (h : ¬ workspace.HasBegun session) :
    workspace.place session = workspace.initial := by
  rw [HasBegun, ← Option.isSome_iff_exists, Bool.not_eq_true, Option.isSome_eq_false_iff,
    Option.isNone_iff_eq_none] at h
  rw [place, h, Option.getD_none]

theorem place_mem (workspace : Workspace) (session : String) : workspace.place session ∈
    workspace.initial :: workspace.copies ++ workspace.sessions.map Prod.snd := by
  by_cases h : workspace.HasBegun session
  · exact List.mem_append_right _ (List.mem_map_of_mem h.mem)
  · simp [place_of_not_hasBegun h]

theorem place_lt (workspace : Workspace) (session : String) :
    workspace.place session < workspace.store.length :=
  workspace.stored _ (workspace.place_mem session)

theorem HasBegun.place_not_mem (h : workspace.HasBegun session) :
    workspace.place session ∉ workspace.initial :: workspace.copies :=
  fun hmem => (List.nodup_append.mp workspace.apart).2.2 _ hmem _ (List.mem_map_of_mem h.mem) rfl

theorem HasBegun.place_ne (h : workspace.HasBegun session) (hne : other ≠ session) :
    workspace.place other ≠ workspace.place session := by
  by_cases hother : workspace.HasBegun other
  · intro heq
    have hnodup := (List.nodup_append.mp workspace.apart).2.1
    exact hne (congrArg Prod.fst (List.inj_on_of_nodup_map hnodup hother.mem h.mem heq))
  · rw [place_of_not_hasBegun hother]
    exact fun heq => h.place_not_mem (heq ▸ List.mem_cons_self)

end Place

section Environment

variable {workspace : Workspace} {session other : String} {place : Nat} {env : Environment}

theorem environment_write_of_ne (h : workspace.place session ≠ place) :
    (workspace.write place env).environment session = workspace.environment session :=
  read_write_of_ne h

theorem environment_write_self :
    (workspace.write (workspace.place session) env).environment session = env :=
  read_write_self (workspace.place_lt session)

theorem environment_lend_write_fresh :
    ((workspace.lend place).write workspace.fresh env).environment session =
      workspace.environment session := by
  have hlt : workspace.place session < workspace.fresh := workspace.place_lt session
  have hplace : (workspace.lend place).place session ≠ workspace.fresh := Nat.ne_of_lt hlt
  rw [environment_write_of_ne hplace]
  exact read_lend_of_lt hlt

theorem begin_of_hasBegun (h : workspace.HasBegun session) : workspace.begin session = workspace :=
  if_pos (Option.isSome_iff_exists.mpr h)

theorem hasBegun_begin (workspace : Workspace) (session : String) :
    (workspace.begin session).HasBegun session := by
  by_cases h : workspace.HasBegun session
  · rwa [begin_of_hasBegun h]
  · refine ⟨workspace.fresh, ?_⟩
    rw [begin, if_neg (mt Option.isSome_iff_exists.mp h)]
    exact List.lookup_cons_self

theorem environment_begin (workspace : Workspace) (session other : String) :
    (workspace.begin session).environment other = workspace.environment other := by
  by_cases h : workspace.HasBegun session
  · rw [begin_of_hasBegun h]
  · rw [begin, if_neg (mt Option.isSome_iff_exists.mp h)]
    by_cases heq : other = session
    · subst heq
      rw [environment, environment, place_of_not_hasBegun h]
      simp [read, Workspace.place, fresh]
    · have hother : (other == session) = false := beq_false_of_ne heq
      have hlt := workspace.place_lt other
      simp only [environment, read, Workspace.place, List.lookup_cons, hother] at hlt ⊢
      simp [List.getElem?_append_left hlt]

end Environment

section Perform

variable {workspace : Workspace} {session other : String} {request : Request} {place : Nat}
  {env : Environment}

theorem exists_of_isSnapshot (h : request.isSnapshot = true) :
    ∃ name value, request = .snapshot name value := by
  cases request <;> cases h
  exact ⟨_, _, rfl⟩

theorem perform_of_not_isSnapshot [Limits] (h : request.isSnapshot = false) :
    workspace.perform session request =
      ((request.run ((workspace.begin session).environment session)).1,
        (workspace.begin session).write ((workspace.begin session).place session)
          (request.run ((workspace.begin session).environment session)).2) := by
  cases request <;> first | rfl | cases h

theorem answer_perform [Limits] (workspace : Workspace) (session : String) (request : Request) :
    (workspace.perform session request).1 = (request.run (workspace.environment session)).1 := by
  cases h : request.isSnapshot with
  | false => rw [perform_of_not_isSnapshot h, environment_begin]
  | true =>
      obtain ⟨name, value, rfl⟩ := exists_of_isSnapshot h
      simp only [perform, Request.run, read_write_self fresh_lt_lend, read_lend_fresh]
      exact congrArg (fun env => Answer.bindings (env.set name value).toList) (environment_begin ..)

theorem environment_perform_self [Limits] (workspace : Workspace) (session : String)
    (request : Request) :
    (workspace.perform session request).2.environment session =
      (request.run (workspace.environment session)).2 := by
  cases h : request.isSnapshot with
  | false => rw [perform_of_not_isSnapshot h, environment_write_self, environment_begin]
  | true =>
      obtain ⟨name, value, rfl⟩ := exists_of_isSnapshot h
      exact environment_lend_write_fresh.trans (environment_begin ..)

theorem environment_perform_of_ne [Limits] (workspace : Workspace) (request : Request)
    (hne : other ≠ session) :
    (workspace.perform session request).2.environment other = workspace.environment other := by
  cases h : request.isSnapshot with
  | false =>
      rw [perform_of_not_isSnapshot h, environment_write_of_ne, environment_begin]
      exact (workspace.hasBegun_begin session).place_ne hne
  | true =>
      obtain ⟨name, value, rfl⟩ := exists_of_isSnapshot h
      exact environment_lend_write_fresh.trans (environment_begin ..)

theorem HasBegun.perform [Limits] (h : workspace.HasBegun other) :
    (workspace.perform session request).2.HasBegun other := by
  have hbegin : (workspace.begin session).HasBegun other := by
    by_cases hsession : workspace.HasBegun session
    · rwa [begin_of_hasBegun hsession]
    · have hne : (other == session) = false := beq_false_of_ne fun heq => hsession (heq ▸ h)
      rw [begin, if_neg (mt Option.isSome_iff_exists.mp hsession)]
      simpa [HasBegun, List.lookup_cons, hne] using h
  cases request <;> exact hbegin

theorem hasBegun_perform [Limits] (workspace : Workspace) (session : String) (request : Request) :
    (workspace.perform session request).2.HasBegun session := by
  have hbegin := workspace.hasBegun_begin session
  cases request <;> exact hbegin

end Perform

section Caller

variable {workspace : Workspace} {session : String} {place : Nat}

theorem environment_write_initial (h : workspace.HasBegun session) (env : Environment) :
    (workspace.write workspace.initial env).environment session = workspace.environment session :=
  environment_write_of_ne fun heq => h.place_not_mem (heq ▸ List.mem_cons_self)

theorem environment_write_copy (hplace : place ∈ workspace.copies) (env : Environment)
    (session : String) :
    (workspace.write place env).environment session = workspace.environment session := by
  apply environment_write_of_ne
  by_cases h : workspace.HasBegun session
  · exact fun heq => h.place_not_mem (heq ▸ List.mem_cons_of_mem _ hplace)
  · rw [place_of_not_hasBegun h]
    rintro rfl
    exact (List.nodup_cons.mp (List.nodup_append.mp workspace.apart).1).1 hplace

end Caller

def after [Limits] (workspace : Workspace) (steps : List Step) : Workspace :=
  steps.foldl (fun workspace step => (workspace.perform step.1 step.2).2) workspace

theorem HasBegun.after [Limits] {workspace : Workspace} {session : String}
    (h : workspace.HasBegun session) (steps : List Step) :
    (workspace.after steps).HasBegun session := by
  induction steps generalizing workspace with
  | nil => exact h
  | cons step steps ih =>
      rw [Workspace.after, List.foldl_cons]
      exact ih h.perform

theorem hasBegun_after [Limits] (workspace : Workspace) {steps : List Step} {step : Step}
    (h : step ∈ steps) : (workspace.after steps).HasBegun step.1 := by
  induction steps generalizing workspace with
  | nil => cases h
  | cons first steps ih =>
      rcases List.mem_cons.mp h with rfl | hrest
      · rw [after, List.foldl_cons]
        exact (workspace.hasBegun_perform step.1 step.2).after steps
      · exact ih _ hrest

def resultsWhere (keep : Step → Bool) (steps : List Step)
    (results : List (Answer × Environment)) : List (Answer × Environment) :=
  ((steps.zip results).filter fun pair => keep pair.1).map Prod.snd

section Results

variable {keep : Step → Bool} {step : Step} {steps : List Step}
  {result : Answer × Environment} {results : List (Answer × Environment)}

theorem resultsWhere_cons_of_pos (h : keep step = true) :
    resultsWhere keep (step :: steps) (result :: results) =
      result :: resultsWhere keep steps results := by
  simp [resultsWhere, h]

theorem resultsWhere_cons_of_neg (h : keep step = false) :
    resultsWhere keep (step :: steps) (result :: results) = resultsWhere keep steps results := by
  simp [resultsWhere, h]

end Results

def AgreeOn (sessions : String → Prop) (workspace other : Workspace) : Prop :=
  ∀ session, sessions session → workspace.environment session = other.environment session

/-- Steps that are not kept leave the environments of these sessions as they are, and those that
are kept are for these sessions. -/
structure Separates [Limits] (keep : Step → Bool) (sessions : String → Prop) : Prop where
  kept : ∀ step, keep step = true → sessions step.1
  dropped : ∀ step, keep step = false → sessions step.1 → ∀ env, (step.2.run env).2 = env

namespace AgreeOn

variable {sessions : String → Prop} {workspace other : Workspace} {keep : Step → Bool}
  {step : Step}

theorem perform [Limits] (h : AgreeOn sessions workspace other) (hstep : sessions step.1) :
    (workspace.perform step.1 step.2).1 = (other.perform step.1 step.2).1 ∧
      AgreeOn sessions (workspace.perform step.1 step.2).2 (other.perform step.1 step.2).2 := by
  rw [answer_perform, answer_perform, h step.1 hstep]
  refine ⟨rfl, fun session hsession => ?_⟩
  by_cases heq : session = step.1
  · subst heq
    rw [environment_perform_self, environment_perform_self, h step.1 hstep]
  · rw [environment_perform_of_ne _ _ heq, environment_perform_of_ne _ _ heq]
    exact h session hsession

theorem perform_left [Limits] (h : AgreeOn sessions workspace other)
    (hstep : sessions step.1 → ∀ env, (step.2.run env).2 = env) :
    AgreeOn sessions (workspace.perform step.1 step.2).2 other := by
  intro session hsession
  rw [← h session hsession]
  by_cases heq : session = step.1
  · subst heq
    rw [environment_perform_self, hstep hsession]
  · exact environment_perform_of_ne _ _ heq

theorem performAll [Limits] (h : AgreeOn sessions workspace other) (hkeep : Separates keep sessions)
    (steps : List Step) :
    resultsWhere keep steps (workspace.performAll steps) =
        other.performAll (steps.filter keep) ∧
      AgreeOn sessions (workspace.after steps) (other.after (steps.filter keep)) := by
  induction steps generalizing workspace other with
  | nil => exact ⟨rfl, h⟩
  | cons step steps ih =>
      cases hstep : keep step with
      | false =>
          rw [List.filter_cons_of_neg (ne_true_of_eq_false hstep), Workspace.performAll,
            resultsWhere_cons_of_neg hstep]
          exact ih (h.perform_left (hkeep.dropped step hstep))
      | true =>
          have hsession := hkeep.kept step hstep
          obtain ⟨hanswer, hafter⟩ := h.perform hsession
          obtain ⟨hresults, hlast⟩ := ih hafter
          rw [List.filter_cons_of_pos hstep, Workspace.performAll, Workspace.performAll,
            resultsWhere_cons_of_pos hstep]
          refine ⟨?_, hlast⟩
          simp only [hanswer, hafter step.1 hsession, hresults]

end AgreeOn

theorem performAll_eq_runAll [Limits] {workspace : Workspace} {session : String} {steps : List Step}
    (h : ∀ step ∈ steps, step.1 = session) :
    workspace.performAll steps =
      Session.runAll (workspace.environment session) (steps.map Prod.snd) := by
  induction steps generalizing workspace with
  | nil => rfl
  | cons step steps ih =>
      obtain ⟨hstep, hsteps⟩ := List.forall_mem_cons.mp h
      subst hstep
      rw [performAll, List.map_cons, Session.runAll]
      simp only [answer_perform, environment_perform_self, ih hsteps]

theorem separates_session [Limits] (session : String) :
    Separates (fun step => step.1 = session) (· = session) where
  kept _ hstep := of_decide_eq_true hstep
  dropped _ hstep hsession := absurd hsession (of_decide_eq_false hstep)

theorem separates_snapshots [Limits] :
    Separates (fun step => !step.2.isSnapshot) (fun _ => True) where
  kept _ _ := trivial
  dropped _ hstep _ env := Session.Request.run_of_isSnapshot (by simpa using hstep) env

end Workspace

/-- However the steps of several sessions are interleaved, each session answers its own as if there
were no others, and holds the same environment behind each of them: that of a single environment
with the initial bindings that is asked them in turn. And however copies of bindings are taken and
changed, everything else is answered as if there had been none. Whatever the caller writes to a
mapping that it holds itself, a copy or the one that sessions begin with, shows in none of them. -/
theorem sessions_do_not_interfere [Limits] (initial : Environment) (steps : List Workspace.Step) :
    let workspace := Workspace.start initial
    (∀ session,
      let own := steps.filter fun step => step.1 = session
      Workspace.resultsWhere (fun step => step.1 = session) steps (workspace.performAll steps) =
          workspace.performAll own ∧
        workspace.performAll own = Session.runAll initial (own.map Prod.snd) ∧
        (workspace.after steps).environment session =
          (workspace.after own).environment session) ∧
    (let others := steps.filter fun step => !step.2.isSnapshot
    Workspace.resultsWhere (fun step => !step.2.isSnapshot) steps (workspace.performAll steps) =
        workspace.performAll others ∧
      ∀ session, (workspace.after steps).environment session =
        (workspace.after others).environment session) ∧
    let final := workspace.after steps
    (∀ place ∈ final.copies, ∀ env session,
      (final.write place env).environment session = final.environment session) ∧
      ∀ step ∈ steps, ∀ env,
        (final.write final.initial env).environment step.1 = final.environment step.1 := by
  intro workspace
  have hagree (sessions : String → Prop) : Workspace.AgreeOn sessions workspace workspace :=
    fun _ _ => rfl
  refine ⟨?_, ?_, ?_⟩
  · intro session own
    obtain ⟨hresults, hafter⟩ :=
      (hagree (· = session)).performAll (Workspace.separates_session session) steps
    have hown : ∀ step ∈ own, step.1 = session := fun step hstep =>
      of_decide_eq_true (List.mem_filter.mp hstep).2
    exact ⟨hresults, Workspace.performAll_eq_runAll hown, hafter session rfl⟩
  · intro others
    obtain ⟨hresults, hafter⟩ :=
      (hagree fun _ => True).performAll Workspace.separates_snapshots steps
    exact ⟨hresults, fun session => hafter session trivial⟩
  · intro final
    exact ⟨fun place hplace => Workspace.environment_write_copy hplace,
      fun step hstep => Workspace.environment_write_initial (workspace.hasBegun_after hstep)⟩

/-- A session asked for between the steps of another one begins with the initial bindings, and the
copy that is changed in between is not its environment. -/
example :
    (Workspace.start (.ofList [("x", 2)])).performAll
        [("a", .set "x" 7), ("b", .snapshot "x" 9), ("a", .get "x"), ("b", .get "x")] =
      [(.done, .ofList [("x", 7)]), (.bindings [("x", 9)], .ofList [("x", 2)]),
        (.value (.ok 7), .ofList [("x", 7)]), (.value (.ok 2), .ofList [("x", 2)])] :=
  rfl

end Abacus
