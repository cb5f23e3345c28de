import Abacus.Expr.Evaluate
import Abacus.Reader.Grammar
import Abacus.Token.Lexer

namespace Abacus

inductive Error where
  | lexical (error : LexError)
  | parse (error : ParseError)
  | fault (fault : Fault)
deriving DecidableEq, Repr

namespace Error

def message : Error → String
  | lexical error => error.message
  | parse error => error.message
  | fault error => error.message

/-- Whether two errors tell the same. A fault that holds nothing tells nothing but that it came
about, so that no two of them are the same. -/
def same : Error → Error → Bool
  | lexical a, lexical b => a == b
  | parse a, parse b => a == b
  | fault (.undefinedVariable a), fault (.undefinedVariable b) => a == b
  | _, _ => false

end Error

abbrev Outcome := Except Error Int

namespace Outcome

def same : Outcome → Outcome → Bool
  | .ok a, .ok b => a == b
  | .error a, .error b => a.same b
  | _, _ => false

def isWritable : Outcome → Bool
  | .ok value => Text.isWritable value
  | .error _ => true

def reply : Outcome → String
  | .ok value => "Result: " ++ toString value
  | .error error => error.message

end Outcome

inductive Calculation.Stage where
  | unread (error : LexError)
  | unparsed (tokens : List Token) (error : ParseError)
  | evaluated (tokens : List Token) (tree : Expr)
      (result : Except Fault Int) (environment : Environment)

structure Calculation where
  code : String
  before : Environment
  stage : Calculation.Stage

namespace Calculation

def Stage.of [Limits] (code : String) (env : Environment) : Stage :=
  match tokenize code with
  | .error error => unread error
  | .ok tokens =>
      match parse tokens with
      | .error error => unparsed tokens error
      | .ok tree =>
          let (result, env') := tree.evaluate env
          evaluated tokens tree result env'

def of [Limits] (code : String) (env : Environment) : Calculation :=
  ⟨code, env, Stage.of code env⟩

def outcome (calculation : Calculation) : Outcome :=
  match calculation.stage with
  | .unread error => .error (.lexical error)
  | .unparsed _ error => .error (.parse error)
  | .evaluated _ _ result _ => result.mapError .fault

def after (calculation : Calculation) : Environment :=
  match calculation.stage with
  | .evaluated _ _ _ env => env
  | _ => calculation.before

end Calculation

/-- A calculation of which no records are made. -/
def calculate [Limits] (code : String) (env : Environment) : Outcome × Environment :=
  let calculation := Calculation.of code env
  (calculation.outcome, calculation.after)

end Abacus
