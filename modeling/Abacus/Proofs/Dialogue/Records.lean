import Abacus.Dialogue

namespace Abacus

variable [Limits]

theorem Calculation.not_overflows_of_low {calculation : Calculation}
    (h : ∀ tree, calculation.stage.tree? = some tree → tree.height ≤ 110) :
    calculation.overflows = false := by
  unfold overflows
  cases htree : calculation.stage.tree? with
  | none => rfl
  | some tree => simpa using Nat.le_trans (h tree htree) Limits.le_height

namespace Dialogue

def withRecords (dialogue : Dialogue) : Dialogue :=
  { dialogue with records := dialogue.calculations.flatMap Calculation.records }

def overflows (dialogue : Dialogue) : Bool :=
  dialogue.calculations.any Calculation.overflows

namespace Turn

def withRecords (turn : Turn) : Turn :=
  { turn with records := turn.calculation.toList.flatMap Calculation.records }

theorem recorded_of_overflows {env : Environment} {read? : Option Read}
    (h : (of env read?).calculation.any Calculation.overflows = true) :
    recorded env read? = ⟨[], none, (of env read?).withRecords.records, env, some .overflow⟩ :=
  if_pos h

theorem recorded_of_not_overflows {env : Environment} {read? : Option Read}
    (h : (of env read?).calculation.any Calculation.overflows = false) :
    recorded env read? = (of env read?).withRecords :=
  if_neg (Bool.not_eq_true _ ▸ h)

theorem withRecords_close (turn : Turn) (unread : List Read) (ending : Ending) :
    (turn.close unread ending).withRecords = turn.withRecords.close unread ending := rfl

theorem withRecords_before (turn : Turn) (rest : Dialogue) :
    (turn.before rest).withRecords = turn.withRecords.before rest.withRecords := by
  simp [Dialogue.withRecords, Turn.withRecords, before, events]

theorem overflows_close (turn : Turn) (unread : List Read) (ending : Ending) :
    (turn.close unread ending).overflows = turn.calculation.any Calculation.overflows := by
  cases h : turn.calculation <;> simp [overflows, close, h]

theorem overflows_before (turn : Turn) (rest : Dialogue) :
    (turn.before rest).overflows =
      (turn.calculation.any Calculation.overflows || rest.overflows) := by
  cases h : turn.calculation <;> simp [overflows, before, h]

end Turn

/-- A dialogue of which records are made is the one without them, unless the stack gives out over
the tree of one of its lines. Then it breaks off, and has shown what the one without shows first. -/
theorem runBy_recorded (env : Environment) (reads : List Read) :
    ((run env reads).overflows = false →
      runBy Turn.recorded env reads = (run env reads).withRecords) ∧
    ((run env reads).overflows = true →
      (runBy Turn.recorded env reads).ending = .overflow ∧
        (runBy Turn.recorded env reads).events <+: (run env reads).events) := by
  induction reads generalizing env with
  | nil => exact ⟨fun _ => rfl, fun h => Bool.noConfusion h⟩
  | cons read reads ih =>
      rw [run, runBy, runBy]
      cases hturn : (Turn.of env (some read)).calculation.any Calculation.overflows with
      | true =>
          rw [Turn.recorded_of_overflows hturn]
          cases hending : (Turn.of env (some read)).ending with
          | some ending =>
              simp only [Turn.overflows_close, hturn]
              exact ⟨fun h => Bool.noConfusion h, fun _ => ⟨rfl, _, rfl⟩⟩
          | none =>
              simp only [Turn.overflows_before, hturn, Bool.true_or]
              exact ⟨fun h => Bool.noConfusion h, fun _ => ⟨rfl, _, rfl⟩⟩
      | false =>
          have hlast : (Turn.of env (some read)).withRecords.ending =
            (Turn.of env (some read)).ending := rfl
          simp only [Turn.recorded_of_not_overflows hturn, hlast]
          cases hending : (Turn.of env (some read)).ending with
          | some ending => simp [Turn.overflows_close, Turn.withRecords_close, hturn]
          | none =>
              obtain ⟨hsame, hbreak⟩ := ih (Turn.of env (some read)).environment
              simp only [Turn.overflows_before, Turn.withRecords_before, hturn, Bool.false_or]
              refine ⟨fun h => congrArg _ (hsame h), fun h => ?_⟩
              obtain ⟨hending, hevents⟩ := hbreak h
              exact ⟨hending, (List.prefix_append_right_inj _).mpr hevents⟩

theorem runBy_recorded_of_low {env : Environment} {reads : List Read}
    (h : ∀ calculation ∈ (run env reads).calculations, ∀ tree,
      calculation.stage.tree? = some tree → tree.height ≤ 110) :
    runBy Turn.recorded env reads = (run env reads).withRecords := by
  apply (runBy_recorded env reads).1
  rw [overflows, List.any_eq_false]
  intro calculation hcalculation
  rw [Calculation.not_overflows_of_low (h calculation hcalculation)]
  exact Bool.false_ne_true

end Dialogue

end Abacus
