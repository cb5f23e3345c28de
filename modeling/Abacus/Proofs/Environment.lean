import Abacus.Environment

namespace Abacus.Environment

theorem lookup_cons_eq_ite (name other : String) (value : Int) (bindings : List (String × Int)) :
    ((name, value) :: bindings).lookup other =
      if other = name then some value else bindings.lookup other := by
  rw [List.lookup_cons]
  split
  · next h => rw [if_pos (eq_of_beq h)]
  · next h => rw [if_neg (ne_of_beq_false h)]

theorem lookup_upsert (name other : String) (value : Int) (bindings : List (String × Int)) :
    (upsert name value bindings).lookup other =
      if other = name then some value else bindings.lookup other := by
  induction bindings with
  | nil => exact lookup_cons_eq_ite name other value []
  | cons binding rest ih =>
      obtain ⟨first, old⟩ := binding
      rw [upsert, lookup_cons_eq_ite first]
      split
      · next hfirst =>
          cases (hfirst : first = name)
          rw [lookup_cons_eq_ite]
          split <;> rfl
      · next hfirst =>
          rw [lookup_cons_eq_ite, ih]
          split
          · next hother => rw [if_neg (hother ▸ hfirst)]
          · rfl

theorem find?_set (env : Environment) (name other : String) (value : Int) :
    (env.set name value).find? other = if other = name then some value else env.find? other :=
  lookup_upsert name other value env.toList

theorem map_fst_upsert (name : String) (value : Int) (bindings : List (String × Int)) :
    (upsert name value bindings).map Prod.fst =
      if name ∈ bindings.map Prod.fst then bindings.map Prod.fst
      else bindings.map Prod.fst ++ [name] := by
  induction bindings with
  | nil => rfl
  | cons binding rest ih =>
      by_cases hfirst : binding.1 = name
      · simp [upsert, hfirst]
      · have hmem : name ∈ binding.1 :: rest.map Prod.fst ↔ name ∈ rest.map Prod.fst := by
          simp [Ne.symm hfirst]
        simp only [upsert, if_neg hfirst, List.map_cons, ih, hmem]
        split <;> rfl

theorem names_set (env : Environment) (name : String) (value : Int) :
    (env.set name value).names = if name ∈ env.names then env.names else env.names ++ [name] :=
  map_fst_upsert name value env.toList

theorem contains_iff {env : Environment} {name : String} :
    env.contains name = true ↔ name ∈ env.names := by
  simp only [contains, find?, List.lookup_isSome_iff, names, List.mem_map, beq_iff_eq]
  exact exists_congr fun _ => and_congr_right' eq_comm

theorem get_ne_strayNode (env : Environment) (name : String) (item : Stray) :
    env.get name ≠ .error (.strayNode item) := by
  unfold get
  split <;> nofun

variable {P : Int → Prop} {env : Environment} {name : String} {value : Int}

def All (P : Int → Prop) (env : Environment) : Prop :=
  ∀ binding ∈ env.toList, P binding.2

theorem mem_upsert {binding : String × Int} {bindings : List (String × Int)}
    (h : binding ∈ upsert name value bindings) : binding = (name, value) ∨ binding ∈ bindings := by
  induction bindings with
  | nil => exact .inl (List.mem_singleton.mp h)
  | cons first rest ih =>
      rw [upsert] at h
      split at h
      · rcases List.mem_cons.mp h with heq | hrest
        · exact .inl heq
        · exact .inr (List.mem_cons_of_mem first hrest)
      · rcases List.mem_cons.mp h with rfl | hrest
        · exact .inr List.mem_cons_self
        · exact (ih hrest).imp_right (List.mem_cons_of_mem first)

theorem All.set (h : env.All P) (name : String) (hvalue : P value) :
    (env.set name value).All P := by
  intro binding hbinding
  rcases mem_upsert hbinding with rfl | hold
  · exact hvalue
  · exact h binding hold

theorem All.of_get (h : env.All P) (hget : env.get name = .ok value) : P value := by
  unfold get find? at hget
  split at hget
  · next bound hbound =>
      cases hget
      obtain ⟨before, after, hbindings, _⟩ := List.lookup_eq_some_iff.mp hbound
      exact h (name, value) (by simp [hbindings])
  · cases hget

end Abacus.Environment
