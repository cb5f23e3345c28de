import Abacus.Proofs.Environment.Description
import Abacus.Proofs.Evaluation.Effects
import Abacus.Proofs.Session

namespace Abacus

open Text

namespace Environment

variable {env : Environment} {name : String} {value : Int} {bindings : List (String × Int)}

theorem find?_setAll_of_not_mem (h : name ∉ bindings.map Prod.fst) :
    (env.setAll bindings).find? name = env.find? name :=
  (env.growsBy_setAll bindings).kept name h

theorem find?_setAll_of_last {front back : List (String × Int)} (h : name ∉ back.map Prod.fst) :
    (env.setAll (front ++ (name, value) :: back)).find? name = some value := by
  have hset : env.setAll (front ++ (name, value) :: back) =
      ((env.setAll front).set name value).setAll back := env.setAll_append front _
  rw [hset, find?_setAll_of_not_mem h, find?_set, if_pos rfl]

theorem names_ofList (bindings : List (String × Int)) :
    (ofList bindings).names = (bindings.map Prod.fst).eraseDups := by
  have hall : (bindings.map Prod.fst).filter (· ∉ empty.names) = bindings.map Prod.fst :=
    List.filter_eq_self.mpr fun _ _ => decide_eq_true List.not_mem_nil
  have hnames := (empty.growsBy_setAll bindings).names
  rwa [hall] at hnames

theorem names_setAll (env : Environment) (bindings : List (String × Int)) :
    (env.setAll bindings).names =
      env.names ++ ((bindings.map Prod.fst).filter (· ∉ env.names)).eraseDups :=
  (env.growsBy_setAll bindings).names

theorem mem_names_setAll :
    name ∈ (env.setAll bindings).names ↔ name ∈ env.names ∨ name ∈ bindings.map Prod.fst := by
  rw [names_setAll, List.mem_append, List.mem_eraseDups, List.mem_filter]
  by_cases hname : name ∈ env.names <;> simp [hname]

theorem upsert_of_not_mem (h : name ∉ bindings.map Prod.fst) :
    upsert name value bindings = bindings ++ [(name, value)] := by
  induction bindings with
  | nil => rfl
  | cons binding rest ih =>
      obtain ⟨hfirst, hrest⟩ := not_or.mp (mt List.mem_cons.mpr h)
      rw [upsert, if_neg (Ne.symm hfirst), ih hrest, List.cons_append]

theorem toList_setAll_of_nodup (h : (env.names ++ bindings.map Prod.fst).Nodup) :
    (env.setAll bindings).toList = env.toList ++ bindings := by
  induction bindings generalizing env with
  | nil => exact (List.append_nil _).symm
  | cons binding rest ih =>
      have hnew : binding.1 ∉ env.names := fun hmem =>
        (List.nodup_append.mp h).2.2 _ hmem _ List.mem_cons_self rfl
      have hset : (env.set binding.1 binding.2).toList = env.toList ++ [binding] :=
        upsert_of_not_mem hnew
      have hnames : (env.set binding.1 binding.2).names = env.names ++ [binding.1] := by
        rw [names_set, if_neg hnew]
      have hrest : (env.setAll (binding :: rest)).toList =
          ((env.set binding.1 binding.2).setAll rest).toList := rfl
      rw [hrest, ih (by rwa [hnames, List.append_assoc]), hset, List.append_assoc,
        List.singleton_append]

theorem toList_ofList_of_nodup (h : (bindings.map Prod.fst).Nodup) :
    (ofList bindings).toList = bindings :=
  @toList_setAll_of_nodup empty bindings h

theorem get_eq_ok_iff : env.get name = .ok value ↔ env.find? name = some value := by
  unfold get
  cases env.find? name <;> simp

theorem get_eq_error_iff {fault : Fault} :
    env.get name = .error fault ↔ fault = .undefinedVariable name ∧ name ∉ env.names := by
  rw [← contains_iff, contains, get]
  cases env.find? name with
  | none => simp [eq_comm]
  | some value => simp

theorem contains_iff_exists_get : env.contains name = true ↔ ∃ value, env.get name = .ok value := by
  simp only [get_eq_ok_iff, contains, Option.isSome_iff_exists]

theorem lookup_of_mem (hnodup : (bindings.map Prod.fst).Nodup) (h : (name, value) ∈ bindings) :
    bindings.lookup name = some value := by
  induction bindings with
  | nil => cases h
  | cons binding rest ih =>
      obtain ⟨first, bound⟩ := binding
      obtain ⟨hfirst, hrest⟩ := List.nodup_cons.mp hnodup
      rw [lookup_cons_eq_ite]
      rcases List.mem_cons.mp h with heq | hmem
      · cases heq
        exact if_pos rfl
      · have hne : name ≠ first := by
          rintro rfl
          exact hfirst (List.mem_map.mpr ⟨_, hmem, rfl⟩)
        rw [if_neg hne]
        exact ih hrest hmem

theorem get_of_mem_toList (h : (name, value) ∈ env.toList) : env.get name = .ok value :=
  get_eq_ok_iff.mpr (lookup_of_mem env.nodup h)

end Environment

theorem Session.run_describe [Limits] (env : Environment) :
    (Request.run env .describe).1 =
      if ∀ binding ∈ env.toList, binding.2.natAbs < 10 ^ maxDigits then .text env.describe
      else .unwritable := by
  have hwritable : env.isWritable = true ↔
      ∀ binding ∈ env.toList, binding.2.natAbs < 10 ^ maxDigits :=
    Environment.isWritable_iff.trans (forall₂_congr fun _ _ => isWritable_iff_lt_pow)
  simp only [Request.run, hwritable]

/-- An environment with some initial bindings, behind the assignments that were made to it since.
Looking up, listing, copying and showing all go by the same bindings. -/
structure Environment.HoldsLast [Limits] (initial writes : List (String × Int))
    (env : Environment) : Prop where
  last : ∀ {front back : List (String × Int)} {name : String} {value : Int},
    writes = front ++ (name, value) :: back → name ∉ back.map Prod.fst → env.get name = .ok value
  kept : ∀ {name : String}, name ∉ writes.map Prod.fst →
    env.get name = (ofList initial).get name
  error_iff : ∀ {name : String} {fault : Fault}, env.get name = .error fault ↔
    fault = .undefinedVariable name ∧ name ∉ initial.map Prod.fst ∧ name ∉ writes.map Prod.fst
  contains_iff : ∀ {name : String}, env.contains name = true ↔ ∃ value, env.get name = .ok value
  names : env.names =
    (ofList initial).names ++
      ((writes.map Prod.fst).filter (· ∉ (ofList initial).names)).eraseDups
  nodup : env.names.Nodup
  size : env.size = env.names.length
  listed : env.toList.map Prod.fst = env.names
  got : ∀ binding ∈ env.toList, env.get binding.1 = .ok binding.2
  shown : (Session.Request.run env .describe).1 =
    if ∀ binding ∈ env.toList, binding.2.natAbs < 10 ^ maxDigits then .text env.describe
    else .unwritable
  text : env.describe = "Environment(" ++ ("\x7b" ++ ", ".intercalate (env.toList.map fun binding =>
    quoted binding.1 ++ ": " ++ toString binding.2) ++ "\x7d") ++ ")"
  told : ∀ {other : Environment}, other.describe = env.describe → other.toList = env.toList

/-- Behind any assignments each name has the value of the last one, in the place of the first. The
initial bindings come before, as they were given. -/
theorem last_value_in_first_place [Limits] (initial writes : List (String × Int)) :
    ((Environment.ofList initial).setAll writes).HoldsLast initial writes ∧
      (Environment.ofList initial).names = (initial.map Prod.fst).eraseDups ∧
      ((initial.map Prod.fst).Nodup → (Environment.ofList initial).toList = initial) := by
  refine ⟨?_, Environment.names_ofList initial, Environment.toList_ofList_of_nodup⟩
  constructor
  case last =>
    intro front back name value hwrites hlast
    subst hwrites
    exact Environment.get_eq_ok_iff.mpr (Environment.find?_setAll_of_last hlast)
  case kept =>
    intro name hname
    rw [Environment.get, Environment.get, Environment.find?_setAll_of_not_mem hname]
  case error_iff =>
    intro name fault
    rw [Environment.get_eq_error_iff, Environment.mem_names_setAll, Environment.names_ofList,
      List.mem_eraseDups, not_or]
  case contains_iff => exact Environment.contains_iff_exists_get
  case names => exact Environment.names_setAll _ writes
  case nodup => exact Environment.nodup _
  case size => exact (List.length_map Prod.fst).symm
  case listed => rfl
  case got => exact fun _ => Environment.get_of_mem_toList
  case shown => exact Session.run_describe _
  case text => rfl
  case told => exact Environment.toList_eq_of_describe

theorem last_value_in_first_place_assigned_twice :
    let initial := [("b", 1), ("a", 2)]
    let writes : List (String × Int) := [("c", 3), ("a", -4), ("c", 5)]
    let env := (Environment.ofList initial).setAll writes
    (initial.map Prod.fst).Nodup ∧ (Environment.ofList initial).toList = initial ∧
      env.get "c" = .ok 5 ∧ env.get "b" = (Environment.ofList initial).get "b" ∧
      env.get "d" = .error (.undefinedVariable "d") ∧ env.names = ["b", "a", "c"] ∧
      (Session.Request.run env .describe).1 =
        .text "Environment(\x7b'b': 1, 'a': -4, 'c': 5\x7d)" := by
  intro initial writes env
  obtain ⟨holds, hinitial, hkept⟩ := last_value_in_first_place initial writes
  have hnodup : (initial.map Prod.fst).Nodup := by decide
  have hlast : env.get "c" = .ok 5 :=
    @Environment.HoldsLast.last _ _ _ _ holds [("c", 3), ("a", -4)] [] "c" 5 rfl List.not_mem_nil
  have hnames : env.names = ["b", "a", "c"] := by
    rw [holds.names, hinitial]
    decide +kernel
  have hwritable : ∀ binding ∈ env.toList, binding.2.natAbs < 10 ^ maxDigits := by decide +kernel
  have hdescribe : env.describe = "Environment(\x7b'b': 1, 'a': -4, 'c': 5\x7d)" := by
    decide +kernel
  refine ⟨hnodup, hkept hnodup, hlast, holds.kept (by decide),
    holds.error_iff.mpr ⟨rfl, by decide, by decide⟩, hnames, ?_⟩
  rw [holds.shown, if_pos hwritable, hdescribe]

/-- A number with one digit too many is held and listed, and the text is missing. -/
theorem text_missing_of_longer_number :
    let env := Environment.ofList [("x", magnitudeBound)]
    env.names = ["x"] ∧ env.get "x" = .ok magnitudeBound ∧
      (Session.Request.run env .describe).1 = .unwritable ∧
      ∀ text, (Session.Request.run env .describe).1 ≠ .text text := by
  intro env
  have hlong : ¬ ∀ binding ∈ env.toList, binding.2.natAbs < 10 ^ maxDigits := by decide +kernel
  have hmissing : (Session.Request.run env .describe).1 = .unwritable := by
    rw [Session.run_describe, if_neg hlong]
  exact ⟨rfl, rfl, hmissing, fun text => by rw [hmissing]; exact nofun⟩

end Abacus
