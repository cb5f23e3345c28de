import Abacus.Environment
import Abacus.Expr.Operator
import Abacus.Limits

namespace Abacus

abbrev Run := ExceptT Fault (StateM Environment)

namespace Run

def ofExcept {α : Type} (result : Except Fault α) : Run α :=
  MonadExcept.ofExcept result

def lookup (name : String) : Run Int := do
  ofExcept ((← get).get name)

def assign (name : String) (value : Int) : Run Int := do
  modify fun env => env.set name value
  return value

end Run

namespace Expr

/-!
A chain such as `1 + 2 + … + n` or `a; b; …; z` is as deep on its left as it is long. Evaluation
therefore goes down the left side of an expression first, keeps what is to be done on the way
back, and then does it in order. Only what stands on a right side counts as nested.
-/

inductive Step where
  | apply (op : Operator) (right : Expr)
  | next (second : Expr)

def Step.run (nested : Expr → Run Int) (value : Int) : Step → Run Int
  | apply op right => do Run.ofExcept (op.apply value (← nested right))
  | next second => nested second

/-- The value of an expression, after which `steps` are taken. -/
def walk (nested : Expr → Run Int) : Expr → List Step → Run Int
  | lit value, steps => steps.foldlM (Step.run nested) value
  | var name, steps => do steps.foldlM (Step.run nested) (← Run.lookup name)
  | assign name value, steps => do
      steps.foldlM (Step.run nested) (← Run.assign name (← nested value))
  | binary op left right, steps => walk nested left (.apply op right :: steps)
  | seq first second, steps => walk nested first (.next second :: steps)
  | stray item, _ => throw (.strayNode item)

/-- Evaluation that gives up where right sides are nested more than `depth` deep. -/
def evaluateWithin : Nat → Expr → Run Int
  | 0, tree => tree.walk (fun _ => throw .tooDeep) []
  | depth + 1, tree => tree.walk (fun nested => evaluateWithin depth nested) []

def depthLimit [Limits] : Nat := Limits.rightSides

theorem le_depthLimit [Limits] : 100 ≤ depthLimit := Limits.le_rightSides

/-- The value of an expression or the fault that came first, and the environment with the
assignments that were done until then. -/
def evaluate [Limits] (tree : Expr) (env : Environment) : Except Fault Int × Environment :=
  ((tree.evaluateWithin depthLimit).run).run env

end Expr

end Abacus
