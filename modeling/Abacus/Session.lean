import Abacus.Dialogue

namespace Abacus

namespace Session

inductive Request where
  | calculate (code : String)
  | get (name : String)
  | set (name : String) (value : Int)
  | contains (name : String)
  | size
  | names
  | describe
  /-- Takes a copy of all bindings and binds `name` in the copy alone. -/
  | snapshot (name : String) (value : Int)
  | converse (reads : List Dialogue.Read)

inductive Answer where
  | outcome (outcome : Outcome)
  | value (result : Except Fault Int)
  | done
  | truth (value : Bool)
  | count (value : Nat)
  | names (names : List String)
  | text (content : String)
  | bindings (bindings : List (String × Int))
  | dialogue (events : List Dialogue.Event) (unread : Nat)
  | unwritable

def Request.run [Limits] (env : Environment) : Request → Answer × Environment
  | calculate code =>
      let (outcome, env') := Abacus.calculate code env
      (.outcome outcome, env')
  | get name => (.value (env.get name), env)
  | set name value => (.done, env.set name value)
  | contains name => (.truth (env.contains name), env)
  | size => (.count env.size, env)
  | names => (.names env.names, env)
  | describe => (if env.isWritable then .text env.describe else .unwritable, env)
  | snapshot name value => (.bindings (env.set name value).toList, env)
  | converse reads =>
      let dialogue := Dialogue.run env reads
      let answer :=
        match dialogue.ending with
        | .unwritable => .unwritable
        | _ => .dialogue dialogue.events dialogue.unread.length
      (answer, dialogue.environment)

/-- The records of all texts, up to the first over which the stack gives out. -/
def records [Limits] (env : Environment) : List String → List String
  | [] => []
  | code :: codes =>
      let calculation := Calculation.of code env
      calculation.records ++
        if calculation.overflows then [] else records calculation.after codes

end Session

end Abacus
