import Abacus.Fault

namespace Abacus

/-- The names that are bound, in the order in which they first were, with their last values. There
is no way to unbind a name. -/
structure Environment where
  toList : List (String × Int)
  nodup : (toList.map Prod.fst).Nodup
deriving DecidableEq

namespace Environment

def empty : Environment := ⟨[], List.nodup_nil⟩

def upsert (name : String) (value : Int) : List (String × Int) → List (String × Int)
  | [] => [(name, value)]
  | binding :: rest =>
      if binding.1 = name then (name, value) :: rest
      else binding :: upsert name value rest

theorem mem_names_upsert {name other : String} {value : Int} {bindings : List (String × Int)} :
    other ∈ (upsert name value bindings).map Prod.fst ↔
      other = name ∨ other ∈ bindings.map Prod.fst := by
  induction bindings with
  | nil => simp [upsert]
  | cons binding rest ih =>
      by_cases h : binding.1 = name
      · simp [upsert, h]
      · simp only [upsert, h, if_false, List.map_cons, List.mem_cons, ih]
        exact or_left_comm

theorem nodup_upsert (name : String) (value : Int) {bindings : List (String × Int)}
    (h : (bindings.map Prod.fst).Nodup) :
    ((upsert name value bindings).map Prod.fst).Nodup := by
  induction bindings with
  | nil => simp [upsert]
  | cons binding rest ih =>
      rw [List.map_cons, List.nodup_cons] at h
      by_cases hname : binding.1 = name
      · simp only [upsert, hname, if_true, List.map_cons, List.nodup_cons]
        exact ⟨hname ▸ h.1, h.2⟩
      · simp only [upsert, if_neg hname, List.map_cons, List.nodup_cons, mem_names_upsert]
        exact ⟨fun hmem => hmem.elim hname h.1, ih h.2⟩

def set (env : Environment) (name : String) (value : Int) : Environment :=
  ⟨upsert name value env.toList, nodup_upsert name value env.nodup⟩

/-- Of a name that comes twice, the last value holds and the first place. -/
def ofList (bindings : List (String × Int)) : Environment :=
  bindings.foldl (fun env binding => env.set binding.1 binding.2) empty

def find? (env : Environment) (name : String) : Option Int :=
  env.toList.lookup name

def get (env : Environment) (name : String) : Except Fault Int :=
  match env.find? name with
  | some value => .ok value
  | none => .error (.undefinedVariable name)

def contains (env : Environment) (name : String) : Bool :=
  (env.find? name).isSome

def names (env : Environment) : List String :=
  env.toList.map Prod.fst

def size (env : Environment) : Nat :=
  env.toList.length

def isWritable (env : Environment) : Bool :=
  env.toList.all fun binding => Text.isWritable binding.2

def render (env : Environment) : String :=
  "\x7b" ++ ", ".intercalate
    (env.toList.map fun binding => quoted binding.1 ++ ": " ++ toString binding.2) ++ "\x7d"

def describe (env : Environment) : String :=
  "Environment(" ++ env.render ++ ")"

end Environment

end Abacus
