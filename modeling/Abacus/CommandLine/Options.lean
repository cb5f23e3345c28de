import Abacus.Text.Quoted

namespace Abacus.CommandLine

inductive Flag where
  | help
  | verbose
  | noHelp
deriving DecidableEq, Repr

namespace Flag

def all : List Flag := [help, verbose, noHelp]

def long : Flag → String
  | help => "--help"
  | verbose => "--verbose"
  | noHelp => "--no-help"

def short? : Flag → Option Char
  | help => some 'h'
  | verbose => some 'v'
  | noHelp => none

def ofShort? (c : Char) : Option Flag :=
  all.find? fun flag => flag.short? == some c

def names (flag : Flag) : String :=
  "/".intercalate ((flag.short?.map fun c => "-" ++ c.toString).toList ++ [flag.long])

/-- The flags whose long name begins with `text`; of a whole name, that flag alone. -/
def matching (text : List Char) : List Flag :=
  match all.find? fun flag => flag.long.toList == text with
  | some flag => [flag]
  | none => all.filter fun flag => text.isPrefixOf flag.long.toList

end Flag

inductive Sense where
  | flags (flags : List Flag)
  | extra (argument : String)
  | valued (flag : Flag) (value : String)
  | ambiguous (argument : String) (candidates : List Flag)
deriving DecidableEq, Repr

namespace Sense

/-- Short flags written together, from `flag` on. What follows the last known one is taken for
its value. -/
def ofCluster (flag : Flag) (known : List Flag) : List Char → Sense
  | [] => flags (known ++ [flag])
  | c :: others =>
      match Flag.ofShort? c with
      | some next => ofCluster next (known ++ [flag]) others
      | none => valued flag (String.ofList (c :: others))

/-- A short flag and what is written after it. More flags may be set off by an equals sign, but
then there has to be one. -/
def ofShort (flag : Flag) : List Char → Sense
  | ['='] => valued flag ""
  | '=' :: others => ofCluster flag [] others
  | others => ofCluster flag [] others

def ofLong (argument : String) : Sense :=
  let text := argument.toList
  match Flag.matching (text.takeWhile (· != '=')), text.dropWhile (· != '=') with
  | [], _ => extra argument
  | [flag], [] => flags [flag]
  | [flag], _ :: value => valued flag (String.ofList value)
  | candidates, _ => ambiguous argument candidates

def of (argument : String) : Sense :=
  match argument.toList with
  | '-' :: '-' :: _ => ofLong argument
  | '-' :: c :: others =>
      match Flag.ofShort? c with
      | some flag => ofShort flag others
      | none => extra argument
  | _ => extra argument

/-- Two hyphens alone make themselves and all that follows plain arguments. -/
def ofAll (arguments : List String) : List Sense :=
  (arguments.takeWhile (· != "--")).map of ++ (arguments.dropWhile (· != "--")).map extra

end Sense

structure Options where
  verbose : Bool
  manual : Bool
deriving DecidableEq, Repr

namespace Options

def default : Options := ⟨false, true⟩

def add (options : Options) : Flag → Options
  | .help => options
  | .verbose => { options with verbose := true }
  | .noHelp => { options with manual := false }

end Options

inductive UsageError where
  | ambiguous (argument : String) (candidates : List Flag)
  | valued (flag : Flag) (value : String)
  | unrecognized (arguments : List String)
deriving DecidableEq, Repr

def UsageError.message : UsageError → String
  | ambiguous argument candidates =>
      "ambiguous option: " ++ argument ++ " could match " ++
        ", ".intercalate (candidates.map Flag.long)
  | valued flag value =>
      "argument " ++ flag.names ++ ": ignored explicit argument " ++ quoted value
  | unrecognized arguments => "unrecognized arguments: " ++ " ".intercalate arguments

def Sense.ambiguity? : Sense → Option UsageError
  | ambiguous argument candidates => some (.ambiguous argument candidates)
  | _ => none

inductive Invocation where
  | help
  | refuse (error : UsageError)
  | start (options : Options)
deriving DecidableEq, Repr

namespace Invocation

/-- Follows the arguments in order. Help and a needless value stand at once; arguments that mean
nothing are reported only at the end. -/
def follow (options : Options) (extras : List String) : List Sense → Invocation
  | [] => if extras.isEmpty then start options else refuse (.unrecognized extras)
  | .extra argument :: rest => follow options (extras ++ [argument]) rest
  | .valued flag value :: _ => refuse (.valued flag value)
  | .ambiguous argument candidates :: _ => refuse (.ambiguous argument candidates)
  | .flags flags :: rest =>
      if flags.contains .help then help
      else follow (flags.foldl Options.add options) extras rest

/-- An ambiguous argument is reported before any other is followed. -/
def of (arguments : List String) : Invocation :=
  let senses := Sense.ofAll arguments
  match senses.findSome? Sense.ambiguity? with
  | some error => refuse error
  | none => follow Options.default [] senses

end Invocation

end Abacus.CommandLine
