import Abacus.CommandLine

namespace Abacus.CommandLine

open Text

def nextLine (input : IO.FS.Stream) (pending : List (List Char)) :
    IO (Option String × List (List Char)) := do
  match pending with
  | line :: pending => return (some (String.ofList line), pending)
  | [] =>
      match lines (← input.getLine).toList with
      | [] => return (none, [])
      | line :: pending => return (some (String.ofList line), pending)

/-- Takes turns as a dialogue does, with lines that are read when they are due. -/
partial def converse (input output errors : IO.FS.Stream)
    (turnOf : Environment → Option Dialogue.Read → Dialogue.Turn)
    (pending : List (List Char)) (env : Environment) : IO Dialogue.Ending := do
  output.putStr (Dialogue.Event.render .prompt)
  output.flush
  let (line?, pending) ← nextLine input pending
  let turn := turnOf env (line?.map .line)
  let time := toString (← IO.monoMsNow)
  turn.records.forM fun record => errors.putStr (recordLine time record)
  turn.written.forM fun text => output.putStr (Dialogue.Event.render (.write text))
  match turn.ending, line? with
  | none, some _ => converse input output errors turnOf pending turn.environment
  | ending?, _ => return ending?.getD .endOfInput

end Abacus.CommandLine

open Abacus Abacus.CommandLine in
def main (arguments : List String) : IO UInt32 := do
  let output ← IO.getStdout
  let errors ← IO.getStderr
  match Invocation.of arguments with
  | .help =>
      output.putStr help
      return 0
  | .refuse error =>
      errors.putStr (complaint error)
      return 2
  | .start options =>
      if options.manual then
        output.putStr (Dialogue.Event.render (.write Dialogue.manual))
      let ending ←
        converse (← IO.getStdin) output errors (turnOf options) [] Environment.empty
      return ending.exitCode.toUInt32
