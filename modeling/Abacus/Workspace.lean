import Abacus.Session

namespace Abacus

/-- Sessions by name, and the mappings of names to numbers, each stored at a place. The caller holds
the mapping that sessions begin with and the copies that it has taken. All of them and the
mappings of the sessions are apart from each other. -/
structure Workspace where
  store : List Environment
  initial : Nat
  copies : List Nat
  sessions : List (String × Nat)
  apart : (initial :: copies ++ sessions.map Prod.snd).Nodup
  stored : ∀ place ∈ initial :: copies ++ sessions.map Prod.snd, place < store.length

namespace Workspace

def start (initial : Environment) : Workspace where
  store := [initial]
  initial := 0
  copies := []
  sessions := []
  apart := by simp
  stored := by simp

def read (workspace : Workspace) (place : Nat) : Environment :=
  workspace.store.getD place .empty

def write (workspace : Workspace) (place : Nat) (env : Environment) : Workspace where
  store := workspace.store.set place env
  initial := workspace.initial
  copies := workspace.copies
  sessions := workspace.sessions
  apart := workspace.apart
  stored := by simpa using workspace.stored

def fresh (workspace : Workspace) : Nat :=
  workspace.store.length

theorem fresh_not_mem (workspace : Workspace) :
    workspace.fresh ∉ workspace.initial :: workspace.copies ++ workspace.sessions.map Prod.snd :=
  fun h => Nat.lt_irrefl _ (workspace.stored _ h)

def lend (workspace : Workspace) (place : Nat) : Workspace where
  store := workspace.store ++ [workspace.read place]
  initial := workspace.initial
  copies := workspace.fresh :: workspace.copies
  sessions := workspace.sessions
  apart := (List.Perm.swap ..).nodup_iff.mp
    (List.nodup_cons.mpr ⟨workspace.fresh_not_mem, workspace.apart⟩)
  stored := by
    have := workspace.stored
    simp only [fresh, List.cons_append, List.mem_cons, List.length_append, List.length_singleton]
      at this ⊢
    grind

/-- A session that has not begun yet begins with a copy of the initial mapping. -/
def begin (workspace : Workspace) (session : String) : Workspace :=
  if (workspace.sessions.lookup session).isSome then workspace
  else
    { store := workspace.store ++ [workspace.read workspace.initial]
      initial := workspace.initial
      copies := workspace.copies
      sessions := (session, workspace.fresh) :: workspace.sessions
      apart := List.perm_middle.nodup_iff.mpr
        (List.nodup_cons.mpr ⟨workspace.fresh_not_mem, workspace.apart⟩)
      stored := by
        have := workspace.stored
        simp only [fresh, List.map_cons, List.mem_append, List.mem_cons, List.length_append,
          List.length_singleton] at this ⊢
        grind }

def place (workspace : Workspace) (session : String) : Nat :=
  (workspace.sessions.lookup session).getD workspace.initial

def environment (workspace : Workspace) (session : String) : Environment :=
  workspace.read (workspace.place session)

/-- Of a copy that is asked for, the caller changes one name. Anything else is asked of the mapping
of the session, which is then as it is left. -/
def perform [Limits] (workspace : Workspace) (session : String) (request : Session.Request) :
    Session.Answer × Workspace :=
  let workspace := workspace.begin session
  match request with
  | .snapshot name value =>
      let lent := workspace.lend (workspace.place session)
      let changed := lent.write workspace.fresh ((lent.read workspace.fresh).set name value)
      (.bindings (changed.read workspace.fresh).toList, changed)
  | request =>
      let (answer, env) := request.run (workspace.environment session)
      (answer, workspace.write (workspace.place session) env)

def performAll [Limits] (workspace : Workspace) :
    List (String × Session.Request) → List (Session.Answer × Environment)
  | [] => []
  | (session, request) :: requests =>
      let (answer, workspace') := workspace.perform session request
      (answer, workspace'.environment session) :: workspace'.performAll requests

end Workspace

end Abacus
