import Abacus.CommandLine.Options
import Abacus.Dialogue
import Abacus.Text.Lines

namespace Abacus

open Text

namespace CommandLine

def usage : String := "usage: repl.py [-h] [-v] [--no-help]\n"

def help : String :=
  usage ++ "\nInteger calculator with variables\n\noptions:\n" ++
    "  -h, --help     show this help message and exit\n" ++
    "  -v, --verbose  log tokens and syntax trees\n" ++
    "  --no-help      do not print the manual on start\n"

def complaint (error : UsageError) : String :=
  usage ++ "repl.py: error: " ++ error.message ++ "\n"

def channel : String := "intcalc.session"

def recordLine (time record : String) : String :=
  time ++ " - " ++ channel ++ " - DEBUG - " ++ record ++ "\n"

def turnOf [Limits] (options : Options) : Environment → Option Dialogue.Read → Dialogue.Turn :=
  if options.verbose then Dialogue.Turn.recorded else Dialogue.Turn.of

/-- All that a finished command has written, and its exit code. Of a dialogue that breaks off, the
errors are those in front of the account that the interpreter gives of the break. -/
structure Report where
  output : String
  errors : String
  code : Nat
deriving DecidableEq, Repr

/-- The command with some arguments and an input, when every record is made at `time`. -/
def run [Limits] (time : String) (arguments : List String) (input : String) : Report :=
  match Invocation.of arguments with
  | .help => ⟨help, "", 0⟩
  | .refuse error => ⟨"", complaint error, 2⟩
  | .start options =>
      let reads := (lines input.toList).map fun line => Dialogue.Read.line (String.ofList line)
      let dialogue := Dialogue.runBy (turnOf options) Environment.empty reads
      { output :=
          (if options.manual then Dialogue.manual ++ "\n" else "") ++
            String.join (dialogue.events.map Dialogue.Event.render)
        errors := String.join (dialogue.records.map (recordLine time))
        code := dialogue.ending.exitCode }

end CommandLine

end Abacus
