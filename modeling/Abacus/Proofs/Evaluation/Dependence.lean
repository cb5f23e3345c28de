import Abacus.Proofs.Evaluation.Effects
import Abacus.Proofs.Mentions

namespace Abacus

/-- The name is read, and is not bound in front of that. -/
def Mention.ReadsFirst (mentions : List Mention) (name : String) : Prop :=
  ∃ before after, mentions = before ++ .reads name :: after ∧ .binds name ∉ before

namespace Mention

theorem not_readsFirst_nil (name : String) : ¬ ReadsFirst [] name := by
  intro h
  obtain ⟨before, after, hmentions, _⟩ := h
  simp at hmentions

theorem readsFirst_reads_cons {other name : String} {mentions : List Mention} :
    ReadsFirst (.reads other :: mentions) name ↔ name = other ∨ ReadsFirst mentions name := by
  constructor
  · intro h
    obtain ⟨before, after, hmentions, hbefore⟩ := h
    rcases List.cons_eq_append_iff.mp hmentions with ⟨rfl, hfirst⟩ | ⟨rest, rfl, hrest⟩
    · cases hfirst
      exact .inl rfl
    · exact .inr ⟨rest, after, hrest, fun hmem => hbefore (List.mem_cons_of_mem _ hmem)⟩
  · intro h
    rcases h with rfl | ⟨before, after, rfl, hbefore⟩
    · exact ⟨[], mentions, rfl, List.not_mem_nil⟩
    · exact ⟨.reads other :: before, after, rfl, by simpa using hbefore⟩

theorem readsFirst_binds_cons {other name : String} {mentions : List Mention} :
    ReadsFirst (.binds other :: mentions) name ↔ name ≠ other ∧ ReadsFirst mentions name := by
  constructor
  · intro h
    obtain ⟨before, after, hmentions, hbefore⟩ := h
    rcases List.cons_eq_append_iff.mp hmentions with ⟨rfl, hfirst⟩ | ⟨rest, rfl, hrest⟩
    · cases hfirst
    · rw [List.mem_cons, not_or, binds.injEq] at hbefore
      exact ⟨hbefore.1, rest, after, hrest, hbefore.2⟩
  · intro h
    obtain ⟨hother, before, after, rfl, hbefore⟩ := h
    refine ⟨.binds other :: before, after, rfl, ?_⟩
    rw [List.mem_cons, not_or, binds.injEq]
    exact ⟨hother, hbefore⟩

end Mention

namespace Mention.ReadsFirst

variable {first second : List Mention} {name : String}

theorem append (h : ReadsFirst first name) (second : List Mention) :
    ReadsFirst (first ++ second) name := by
  obtain ⟨before, after, rfl, hbefore⟩ := h
  exact ⟨before, after ++ second, by simp, hbefore⟩

theorem append_left (h : ReadsFirst second name) (hfirst : .binds name ∉ first) :
    ReadsFirst (first ++ second) name := by
  obtain ⟨before, after, rfl, hbefore⟩ := h
  refine ⟨first ++ before, after, by simp, ?_⟩
  rw [List.mem_append, not_or]
  exact ⟨hfirst, hbefore⟩

end Mention.ReadsFirst

theorem Expr.binds_mem_mentions_iff {tree : Expr} {name : String} :
    .binds name ∈ tree.mentions ↔ name ∈ tree.sites.map Prod.fst := by
  induction tree with
  | lit | stray => simp [mentions, sites]
  | var other => simp [mentions, sites]
  | assign other value ih => simp [mentions, sites, ih]
  | binary op left right ihLeft ihRight =>
      simp only [mentions, sites, List.mem_append, List.map_append, ihLeft, ihRight]
  | seq first second ihFirst ihSecond =>
      simp only [mentions, sites, List.mem_append, List.map_append, ihFirst, ihSecond]

namespace Environment

variable {env other : Environment} {first second : List Mention} {name : String}

def AgreeFor (mentions : List Mention) (env other : Environment) : Prop :=
  ∀ name, Mention.ReadsFirst mentions name → env.find? name = other.find? name

theorem AgreeFor.of_append (h : AgreeFor (first ++ second) env other) :
    AgreeFor first env other :=
  fun name hname => h name (hname.append second)

theorem find?_setAll_congr {done : List (String × Int)}
    (h : name ∉ done.map Prod.fst → env.find? name = other.find? name) :
    (env.setAll done).find? name = (other.setAll done).find? name := by
  induction done generalizing env other with
  | nil => exact h List.not_mem_nil
  | cons binding rest ih =>
      apply ih
      intro hrest
      rw [find?_set, find?_set]
      split
      · rfl
      · next hbinding =>
          apply h
          rw [List.map_cons, List.mem_cons, not_or]
          exact ⟨hbinding, hrest⟩

theorem AgreeFor.setAll {done : List (String × Int)} (h : AgreeFor (first ++ second) env other)
    (hdone : ∀ name, .binds name ∈ first → name ∈ done.map Prod.fst) :
    AgreeFor second (env.setAll done) (other.setAll done) := by
  intro name hname
  apply find?_setAll_congr
  intro hnew
  exact h name (hname.append_left (mt (hdone name) hnew))

theorem get_congr (h : env.find? name = other.find? name) : env.get name = other.get name := by
  rw [get, get, h]

end Environment

/-- In both environments the run comes to the same result and does the same assignments, which
`done` tells for each environment. -/
def Run.Alike {α : Type} (run : Run α) (done : Environment → List (String × Int))
    (env other : Environment) : Prop :=
  (run.outcome env).1 = (run.outcome other).1 ∧ done env = done other

namespace Run

variable {α β : Type} {run : Run α} {next : α → Run β} {env other : Environment}
  {done : Environment → List (String × Int)} {more : α → Environment → List (String × Int)}

theorem Alike.bind (h : run.Alike done env other) (henv : run.Assigns (done env) env)
    (hother : run.Assigns (done other) other)
    (hnext : ∀ value, run.outcome env = (.ok value, env.setAll (done env)) →
      (next value).Alike (more value) (env.setAll (done env)) (other.setAll (done env))) :
    (run >>= next).Alike (fun env => done env ++ run.assignedBehind env more) env other := by
  obtain ⟨hresult, hdone⟩ := h
  have houtcome : run.outcome env = ((run.outcome env).1, env.setAll (done env)) :=
    Prod.ext rfl henv
  have houtcome' : run.outcome other = ((run.outcome env).1, other.setAll (done env)) :=
    Prod.ext hresult.symm (hdone ▸ hother)
  cases hvalue : (run.outcome env).1 with
  | error fault =>
      rw [hvalue] at houtcome houtcome'
      simp only [Alike, assignedBehind_of_error houtcome, assignedBehind_of_error houtcome',
        outcome_bind_of_error houtcome, outcome_bind_of_error houtcome', hdone, and_self]
  | ok value =>
      rw [hvalue] at houtcome houtcome'
      obtain ⟨hsame, hmore⟩ := hnext value houtcome
      simp only [Alike, assignedBehind_of_ok houtcome, assignedBehind_of_ok houtcome',
        outcome_bind_of_ok houtcome, outcome_bind_of_ok houtcome', hsame, hmore, ← hdone, and_self]

theorem Alike.bind_nothing (h : run.Alike done env other) (henv : run.Assigns (done env) env)
    (hother : run.Assigns (done other) other)
    (hnext : ∀ value, ∃ result, ∀ env', ((next value).outcome env').1 = result) :
    (run >>= next).Alike done env other := by
  have hbind : (run >>= next).Alike
      (fun env => done env ++ run.assignedBehind env fun _ _ => []) env other := by
    apply h.bind henv hother
    intro value _
    obtain ⟨result, hresult⟩ := hnext value
    exact ⟨(hresult _).trans (hresult _).symm, rfl⟩
  simpa using hbind

end Run

namespace Expr

variable [Limits] {tree : Expr} {depth : Nat} {env other : Environment}

theorem evaluateNested_alike
    (h : ∀ depth ≤ depthLimit,
      (tree.evaluateWithin depth).Alike (tree.assignmentsWithin depth) env other)
    (hdepth : depth ≤ depthLimit) :
    (evaluateNested depth tree).Alike (nestedAssignments tree.assignmentsWithin depth)
      env other := by
  cases depth with
  | zero => exact ⟨rfl, rfl⟩
  | succ depth => exact h depth (Nat.le_of_succ_le hdepth)

theorem agreeFor_setAll_of_performs {second : List Mention}
    {done : List (String × Int)} (h : Environment.AgreeFor (tree.mentions ++ second) env other)
    (hdone : Performs env tree.sites done) :
    Environment.AgreeFor second (env.setAll done) (other.setAll done) := by
  apply h.setAll
  intro name hname
  rw [hdone.map_fst]
  exact binds_mem_mentions_iff.mp hname

theorem evaluateWithin_alike (tree : Expr) (hdepth : depth ≤ depthLimit)
    (h : Environment.AgreeFor tree.mentions env other) :
    (tree.evaluateWithin depth).Alike (tree.assignmentsWithin depth) env other := by
  -- A right side finds the environments that the left one leaves in both runs.
  induction tree generalizing depth env other with
  | lit | stray =>
      rw [evaluateWithin_eq_inOrder (Nat.zero_le depth)]
      exact ⟨rfl, rfl⟩
  | var name =>
      rw [evaluateWithin_eq_inOrder (Nat.zero_le depth)]
      have hname : env.get name = other.get name :=
        Environment.get_congr (h name ⟨[], [], rfl, List.not_mem_nil⟩)
      refine ⟨?_, rfl⟩
      rw [inOrder, Run.outcome_lookup, Run.outcome_lookup, hname]
  | assign name right ih =>
      rw [evaluateWithin_assign]
      have heffects := evaluateNested_effects (fun _ => evaluateWithin_effects right) hdepth
      apply (evaluateNested_alike (fun _ hle => ih hle h.of_append) hdepth).bind
        (heffects env).assigns (heffects other).assigns
      intro value _
      exact ⟨rfl, rfl⟩
  | binary op left right ihLeft ihRight =>
      rw [evaluateWithin_binary]
      have heffects := evaluateWithin_effects left hdepth
      apply (ihLeft hdepth h.of_append).bind (heffects env).assigns (heffects other).assigns
      intro first hfirst
      have hagree := agreeFor_setAll_of_performs h ((heffects env).of_ok hfirst).1
      have hright := evaluateNested_effects (fun _ => evaluateWithin_effects right) hdepth
      apply (evaluateNested_alike (fun _ hle => ihRight hle hagree) hdepth).bind_nothing
        (hright _).assigns (hright _).assigns
      intro second
      exact ⟨op.apply first second, fun env' => by rw [Run.outcome_ofExcept]⟩
  | seq first second ihFirst ihSecond =>
      rw [evaluateWithin_seq]
      have heffects := evaluateWithin_effects first hdepth
      apply (ihFirst hdepth h.of_append).bind (heffects env).assigns (heffects other).assigns
      intro _ hfirst
      have hagree := agreeFor_setAll_of_performs h ((heffects env).of_ok hfirst).1
      exact evaluateNested_alike (fun _ hle => ihSecond hle hagree) hdepth

end Expr

/-- In environments that bind alike what is read first, an evaluation comes to the same value or the
same fault and does the same assignments with the same values. It leaves all else in each of them as
it is. -/
theorem evaluation_depends_on_reads [Limits] (tree : Expr) (env other : Environment)
    (h : ∀ name, Mention.ReadsFirst tree.mentions name → env.find? name = other.find? name) :
    (tree.evaluate env).1 = (tree.evaluate other).1 ∧
      ∃ performed done, performed <+: tree.sites ∧
        (∀ value, (tree.evaluate env).1 = .ok value → performed = tree.sites) ∧
        tree.executed env = done ∧ tree.executed other = done ∧
        Performs env performed done ∧ Performs other performed done ∧
        (tree.evaluate env).2 = env.setAll done ∧ (tree.evaluate other).2 = other.setAll done ∧
        env.GrowsBy (performed.map Prod.fst) (tree.evaluate env).2 ∧
        other.GrowsBy (performed.map Prod.fst) (tree.evaluate other).2 := by
  obtain ⟨hresult, hsame⟩ := Expr.evaluateWithin_alike tree (Nat.le_refl Expr.depthLimit) h
  replace hsame : tree.executed env = tree.executed other := hsame
  obtain ⟨performed, hprefix, hperforms, hafter, hall⟩ := tree.evaluate_effects env
  obtain ⟨performed', hprefix', hperforms', hafter', _⟩ := tree.evaluate_effects other
  rw [← hsame] at hperforms' hafter'
  have hlength : performed'.length = performed.length :=
    hperforms'.length_eq.symm.trans hperforms.length_eq
  have hsites : performed' = performed :=
    (List.prefix_of_prefix_length_le hprefix' hprefix (Nat.le_of_eq hlength)).eq_of_length hlength
  subst hsites
  have hgrows := env.growsBy_setAll (tree.executed env)
  have hgrows' := other.growsBy_setAll (tree.executed env)
  rw [hperforms.map_fst] at hgrows hgrows'
  exact ⟨hresult, performed', tree.executed env, hprefix, hall, rfl, hsame.symm, hperforms,
    hperforms', hafter, hafter', hafter.symm ▸ hgrows, hafter'.symm ▸ hgrows'⟩

/-- In `(x = a) + (b = x / a); b / x` only `a` is read first. Other bindings of `x` and `b`, and of
what does not stand there, change nothing. -/
theorem evaluation_depends_on_one_of_three :
    let quotient : Expr := .assign "b" (.binary .div (.var "x") (.var "a"))
    let tree : Expr := .seq (.binary .add (.assign "x" (.var "a")) quotient)
      (.binary .div (.var "b") (.var "x"))
    let env : Environment := .ofList [("a", 5)]
    let other : Environment := .ofList [("x", 7), ("y", 8), ("a", 5)]
    (∀ name, Mention.ReadsFirst tree.mentions name ↔ name = "a") ∧
      env.find? "a" = other.find? "a" ∧
      (tree.evaluate env).1 = (tree.evaluate other).1 ∧
      tree.evaluate other = (.ok 0, .ofList [("x", 5), ("y", 8), ("a", 5), ("b", 1)]) := by
  intro quotient tree env other
  have hreads (name : String) : Mention.ReadsFirst tree.mentions name ↔ name = "a" := by
    change Mention.ReadsFirst [.reads "a", .binds "x", .reads "x", .reads "a", .binds "b",
      .reads "b", .reads "x"] name ↔ name = "a"
    simp only [Mention.readsFirst_reads_cons, Mention.readsFirst_binds_cons,
      Mention.not_readsFirst_nil]
    tauto
  have hagree : env.find? "a" = other.find? "a" := by decide
  obtain ⟨hsame, _⟩ := evaluation_depends_on_reads tree env other fun name hname => by
    rw [(hreads name).mp hname]
    exact hagree
  exact ⟨hreads, hagree, hsame, by decide +kernel⟩

end Abacus
