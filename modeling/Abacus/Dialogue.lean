import Abacus.Calculation.Record

namespace Abacus

open Text

namespace Dialogue

def prompt : String := "> "

def quitCommand : String := "end"

def manual : String :=
  "\n".intercalate
    ["Quick manual:",
      "  Addition or subtraction: use '+' or '-', e.g. '1 + 2'",
      "  Multiplication or division: use '*' or '/', e.g. '1 + 2 / 1' " ++
        "(division truncates toward zero)",
      "  Parentheses: '(' starts a subexpression and ')' ends it, e.g. '(1 + 3) / 2'",
      "  Variables: assign with '=' and separate expressions with ';', " ++
        "e.g. 'x = 4; (x + 5) * 2'",
      "  Variables are kept for the rest of the session",
      "  Type " ++ quoted quitCommand ++ " to quit"]

/-- What one read gives. When there is nothing more to read, the input is at its end. -/
inductive Read where
  | line (text : String)
  | interrupt
deriving DecidableEq, Repr

inductive Event where
  | prompt
  | write (text : String)
deriving DecidableEq, Repr

def Event.render : Event → String
  | prompt => Dialogue.prompt
  | write text => text ++ "\n"

inductive Ending where
  | quit
  | interrupted
  | endOfInput
  | unwritable
  | overflow
deriving DecidableEq, Repr

def Ending.exitCode : Ending → Nat
  | quit | interrupted | endOfInput => 0
  | unwritable | overflow => 1

inductive Request where
  | quit
  | nothing
  | calculate (code : String)
deriving DecidableEq, Repr

def Request.of (line : String) : Request :=
  match trim line.toList with
  | [] => .nothing
  | text => if text = quitCommand.toList then .quit else .calculate line

/-- What one read leads to, behind the prompt. There is an ending if nothing more is read. -/
structure Turn where
  written : List String
  calculation : Option Calculation
  records : List String
  environment : Environment
  ending : Option Ending

namespace Turn

def of [Limits] (env : Environment) : Option Read → Turn
  | none => ⟨[""], none, [], env, some .endOfInput⟩
  | some .interrupt => ⟨[""], none, [], env, some .interrupted⟩
  | some (.line text) =>
      match Request.of text with
      | .quit => ⟨[], none, [], env, some .quit⟩
      | .nothing => ⟨[], none, [], env, none⟩
      | .calculate code =>
          let calculation := Calculation.of code env
          if calculation.outcome.isWritable then
            ⟨[calculation.outcome.reply], some calculation, [], calculation.after, none⟩
          else
            ⟨[], some calculation, [], calculation.after, some .unwritable⟩

/-- The turn with its records. Where the stack gives out over one, nothing is evaluated. -/
def recorded [Limits] (env : Environment) (read? : Option Read) : Turn :=
  let turn := of env read?
  let records := turn.calculation.toList.flatMap Calculation.records
  if turn.calculation.any Calculation.overflows then ⟨[], none, records, env, some .overflow⟩
  else { turn with records := records }

def events (turn : Turn) : List Event :=
  .prompt :: turn.written.map .write

end Turn

end Dialogue

/-- A whole dialogue: what was shown, calculated and noted, the environment at the end, what was
left unread, and why it ended. -/
structure Dialogue where
  events : List Dialogue.Event
  calculations : List Calculation
  records : List String
  environment : Environment
  unread : List Dialogue.Read
  ending : Dialogue.Ending

namespace Dialogue

def Turn.close (turn : Turn) (unread : List Read) (ending : Ending) : Dialogue where
  events := turn.events
  calculations := turn.calculation.toList
  records := turn.records
  environment := turn.environment
  unread := unread
  ending := ending

def Turn.before (turn : Turn) (rest : Dialogue) : Dialogue :=
  { rest with
    events := turn.events ++ rest.events
    calculations := turn.calculation.toList ++ rest.calculations
    records := turn.records ++ rest.records }

def runBy (turnOf : Environment → Option Read → Turn) (env : Environment) :
    List Read → Dialogue
  | [] =>
      let turn := turnOf env none
      turn.close [] (turn.ending.getD .endOfInput)
  | read :: reads =>
      let turn := turnOf env (some read)
      match turn.ending with
      | some ending => turn.close reads ending
      | none => turn.before (runBy turnOf turn.environment reads)

/-- Goes on until the quit command, an interrupt, or the end of the input. The latter two end the
line on which the prompt stands. A result that cannot be written out breaks the dialogue off. No
records are made; of a dialogue with records, see `Turn.recorded`. -/
def run [Limits] (env : Environment) (reads : List Read) : Dialogue :=
  runBy Turn.of env reads

theorem run_line [Limits] (env : Environment) (text : String) (reads : List Read) :
    run env (.line text :: reads) =
      match Request.of text with
      | .quit => ⟨[.prompt], [], [], env, reads, .quit⟩
      | .nothing =>
          let rest := run env reads
          { rest with events := .prompt :: rest.events }
      | .calculate code =>
          let calculation := Calculation.of code env
          if calculation.outcome.isWritable then
            let rest := run calculation.after reads
            { rest with
              events := .prompt :: .write calculation.outcome.reply :: rest.events
              calculations := calculation :: rest.calculations }
          else
            ⟨[.prompt], [calculation], [], calculation.after, reads, .unwritable⟩ := by
  rw [run, runBy, Turn.of]
  cases Request.of text with
  | quit => rfl
  | nothing => rfl
  | calculate code =>
      cases h : (Calculation.of code env).outcome.isWritable with
      | false =>
          simp only [h]
          rfl
      | true =>
          simp only [h]
          rfl

end Dialogue

end Abacus
