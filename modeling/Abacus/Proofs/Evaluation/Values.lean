import Abacus.Proofs.Environment
import Abacus.Proofs.Evaluation

namespace Abacus

/-! Where the numbers of an evaluation come from: what holds of all that are bound and written, and
of all that are computed, holds of the results and of all that are bound afterwards. -/

theorem Operator.apply_ne_strayNode (op : Operator) (a b : Int) (item : Stray) :
    op.apply a b ≠ .error (.strayNode item) := by
  unfold apply
  split
  · nofun
  · split <;> nofun

namespace Run

variable {P : Int → Prop} {run : Run Int} {next : Int → Run Int} {env : Environment}

structure KeepsTo (P : Int → Prop) (run : Run Int) (env : Environment) : Prop where
  after : (run.outcome env).2.All P
  value : ∀ value, (run.outcome env).1 = .ok value → P value
  no_stray : ∀ item, (run.outcome env).1 ≠ .error (.strayNode item)

theorem KeepsTo.bind (h : run.KeepsTo P env)
    (hnext : ∀ value env', P value → env'.All P → (next value).KeepsTo P env') :
    (run >>= next).KeepsTo P env := by
  obtain ⟨hafter, hvalue, hstray⟩ := h
  rcases houtcome : run.outcome env with ⟨fault | value, env'⟩
  · rw [houtcome] at hafter hstray
    rw [← outcome_bind_of_error houtcome next] at hafter hstray
    exact ⟨hafter, by simp [outcome_bind_of_error houtcome], hstray⟩
  · rw [houtcome] at hafter hvalue
    obtain ⟨hafter', hvalue', hstray'⟩ := hnext value env' (hvalue value rfl) hafter
    rw [← outcome_bind_of_ok houtcome next] at hafter' hvalue' hstray'
    exact ⟨hafter', hvalue', hstray'⟩

theorem KeepsTo.pure {value : Int} (hvalue : P value) (henv : env.All P) :
    (Pure.pure value : Run Int).KeepsTo P env :=
  ⟨henv, by simpa using hvalue, by simp⟩

theorem KeepsTo.tooDeep (henv : env.All P) : KeepsTo P (throw .tooDeep) env :=
  ⟨henv, by simp, by simp⟩

theorem KeepsTo.ofExcept {result : Except Fault Int} (henv : env.All P)
    (hvalue : ∀ value, result = .ok value → P value)
    (hstray : ∀ item, result ≠ .error (.strayNode item)) :
    (Run.ofExcept result).KeepsTo P env := by
  constructor <;> rw [outcome_ofExcept]
  · exact henv
  · exact hvalue
  · exact hstray

theorem KeepsTo.lookup (name : String) (henv : env.All P) : (lookup name).KeepsTo P env := by
  constructor <;> rw [outcome_lookup]
  · exact henv
  · exact fun _ => henv.of_get
  · exact env.get_ne_strayNode name

theorem KeepsTo.assign {value : Int} (name : String) (hvalue : P value) (henv : env.All P) :
    (assign name value).KeepsTo P env :=
  ⟨henv.set name hvalue, by simpa using hvalue, by simp⟩

end Run

namespace Expr

variable {P : Int → Prop}

/-- The numbers that are written in the tree satisfy `P`, and it holds no strays. -/
def Leaves (P : Int → Prop) : Expr → Prop
  | lit value => P value
  | var _ => True
  | assign _ value => value.Leaves P
  | binary _ left right => left.Leaves P ∧ right.Leaves P
  | seq first second => first.Leaves P ∧ second.Leaves P
  | stray _ => False

theorem Leaves.imp {Q : Int → Prop} (h : ∀ value, P value → Q value) {tree : Expr}
    (htree : tree.Leaves P) : tree.Leaves Q := by
  induction tree with
  | lit value => exact h value htree
  | var name => trivial
  | assign name value ih => exact ih htree
  | binary op left right ihLeft ihRight => exact ⟨ihLeft htree.1, ihRight htree.2⟩
  | seq first second ihFirst ihSecond => exact ⟨ihFirst htree.1, ihSecond htree.2⟩
  | stray item => exact htree

theorem evaluateNested_keepsTo {tree : Expr}
    (h : ∀ depth env, env.All P → (tree.evaluateWithin depth).KeepsTo P env)
    (depth : Nat) (env : Environment) (henv : env.All P) :
    (evaluateNested depth tree).KeepsTo P env := by
  cases depth with
  | zero => exact .tooDeep henv
  | succ depth => exact h depth env henv

theorem evaluateWithin_keepsTo
    (happly : ∀ (op : Operator) a b value, op.apply a b = .ok value → P value)
    {tree : Expr} (htree : tree.Leaves P) (depth : Nat) (env : Environment) (henv : env.All P) :
    (tree.evaluateWithin depth).KeepsTo P env := by
  induction tree generalizing depth env with
  | lit value =>
      rw [evaluateWithin_eq_inOrder (Nat.zero_le depth)]
      exact .pure htree henv
  | var name =>
      rw [evaluateWithin_eq_inOrder (Nat.zero_le depth)]
      exact .lookup name henv
  | assign name value ih =>
      rw [evaluateWithin_assign]
      apply (evaluateNested_keepsTo (ih htree) depth env henv).bind
      intro result env' hresult henv'
      exact .assign name hresult henv'
  | binary op left right ihLeft ihRight =>
      rw [evaluateWithin_binary]
      apply (ihLeft htree.1 depth env henv).bind
      intro first env' _ henv'
      apply (evaluateNested_keepsTo (ihRight htree.2) depth env' henv').bind
      intro second env'' _ henv''
      exact .ofExcept henv'' (happly op first second) (op.apply_ne_strayNode first second)
  | seq first second ihFirst ihSecond =>
      rw [evaluateWithin_seq]
      apply (ihFirst htree.1 depth env henv).bind
      intro _ env' _ henv'
      exact evaluateNested_keepsTo (ihSecond htree.2) depth env' henv'
  | stray item => exact htree.elim

end Expr

end Abacus
