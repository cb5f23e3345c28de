import Abacus.Expr
import Mathlib.Data.List.Count

namespace Abacus

inductive Mention where
  | reads (name : String)
  | binds (name : String)
deriving DecidableEq, Repr

namespace Expr

/-- The variables and the assignments of a tree, in the order in which an evaluation comes by them.
An assignment comes behind its value. -/
def mentions : Expr → List Mention
  | lit _ | stray _ => []
  | var name => [.reads name]
  | assign name value => value.mentions ++ [.binds name]
  | binary _ left right => left.mentions ++ right.mentions
  | seq first second => first.mentions ++ second.mentions

@[simp] theorem reads_mem_mentions_assign {name other : String} {value : Expr} :
    .reads other ∈ (assign name value).mentions ↔ .reads other ∈ value.mentions := by
  simp [mentions]

@[simp] theorem count_reads_assign (name other : String) (value : Expr) :
    (assign name value).mentions.count (.reads other) = value.mentions.count (.reads other) := by
  simp [mentions]

/-- The tree with `value` in place of the variable `name`. What is assigned stays as it is. -/
def substitute (tree : Expr) (name : String) (value : Expr) : Expr :=
  match tree with
  | lit number => lit number
  | var other => if other = name then value else var other
  | assign other right => assign other (right.substitute name value)
  | binary op left right => binary op (left.substitute name value) (right.substitute name value)
  | seq first second => seq (first.substitute name value) (second.substitute name value)
  | stray item => stray item

@[simp] theorem substitute_var_self (name : String) (value : Expr) :
    (var name).substitute name value = value :=
  if_pos rfl

theorem substitute_eq_self {tree : Expr} {name : String} (h : .reads name ∉ tree.mentions)
    (value : Expr) : tree.substitute name value = tree := by
  induction tree with
  | lit number => rfl
  | var other =>
      rw [mentions, List.mem_singleton, Mention.reads.injEq] at h
      exact if_neg (Ne.symm h)
  | assign other right ih =>
      rw [reads_mem_mentions_assign] at h
      rw [substitute, ih h]
  | binary op left right ihLeft ihRight =>
      rw [mentions, List.mem_append, not_or] at h
      rw [substitute, ihLeft h.1, ihRight h.2]
  | seq first second ihFirst ihSecond =>
      rw [mentions, List.mem_append, not_or] at h
      rw [substitute, ihFirst h.1, ihSecond h.2]
  | stray item => rfl

end Expr

end Abacus
