import OperatorModes.Cli.Arguments
import OperatorModes.Cli.Report
import OperatorModes.Document.Config

/-!
# Running a command

A run is a function of the command line and of what reading each file gives. Whatever keeps it from
its end is reported as one line on the error output with exit code 2, and nothing else is printed:
first the configuration is read, then the input, then the effects of the definitions are looked up.
Of a document that cannot be decoded the line gives the cause without its place in the text, which the
program prints after it. The program also writes the log of a run, from the level that is asked for,
to the error output; here the log is a list of its own (`Event`) and no part of what is printed.
-/

namespace OperatorModes.Cli

/-- Why a file cannot be read as text. -/
inductive FileFault where
  | notFound
  | isDirectory
  /-- The path goes on below a file. -/
  | notDirectory
  | nameTooLong
  | notText
  | other (cause : String)
  deriving DecidableEq, Repr

/-- The message for a file that cannot be read. -/
def FileFault.message (fault : FileFault) : String :=
  "I/O error: " ++
    match fault with
    | notFound => "No such file or directory (os error 2)"
    | isDirectory => "Is a directory (os error 21)"
    | notDirectory => "Not a directory (os error 20)"
    | nameTooLong => "File name too long (os error 36)"
    | notText => "stream did not contain valid UTF-8"
    | other cause => cause

/-- What reading each file gives. -/
abbrev Files : Type := String → Except FileFault String

/-- Why a run cannot go on. -/
inductive RunFault where
  | unreadable (path : String) (fault : FileFault)
  | badConfig (path : String) (cause : Json.ReadError)
  | badInput (path : String) (cause : Json.ReadError)
  | missingEffect (cause : MissingEffect)
  /-- A definition without an effect, met while inferring. -/
  | nothingToInfer (cause : MissingEffect)
  deriving DecidableEq, Repr

/-- The message for a run that cannot go on, without the place of a cause in a document. -/
def RunFault.message : RunFault → String
  | unreadable path fault => path ++ ": " ++ fault.message
  | badConfig path cause => path ++ ": invalid config: " ++ cause.message
  | badInput path cause => path ++ ": malformed input: " ++ cause.message
  | missingEffect cause => cause.message
  | nothingToInfer cause => cause.detail

/-- What is left of a run that cannot go on. -/
def RunFault.output (colour : Bool) (fault : RunFault) : Output :=
  { exit := 2, err := [errorLine colour fault.message] }

/-- Reads a file and what it holds. -/
def load {α : Type} (files : Files) (read : String → Except Json.ReadError α)
    (bad : String → Json.ReadError → RunFault) (path : String) : Except RunFault α :=
  match files path with
  | .error fault => .error (.unreadable path fault)
  | .ok document =>
    match read document with
    | .ok a => .ok a
    | .error cause => .error (bad path cause)

/-- The configuration of a run: that of its file, or the default. -/
def loadConfig (files : Files) : Option String → Except RunFault Config
  | none => .ok {}
  | some path => load files Config.ofDocument .badConfig path

/-- The input of a run. -/
def loadInput (files : Files) (path : String) : Except RunFault CheckInput :=
  load files CheckInput.ofDocument .badInput path

/-- The checker settings under the switches of the command line. Hiding suggestions also keeps them
from being denied. -/
def CheckOptions.settings (options : CheckOptions) (config : CheckerConfig) : CheckerConfig :=
  if options.noSuggestions then { reportSuggestions := false, denySuggestions := false }
  else if options.denySuggestions then { config with denySuggestions := true }
  else config

/-- The input of a check and its report. -/
def CheckOptions.report (files : Files) (options : CheckOptions) :
    Except RunFault (CheckInput × CheckReport) :=
  match loadConfig files options.config with
  | .error fault => .error fault
  | .ok config =>
    match loadInput files options.file with
    | .error fault => .error fault
    | .ok input =>
      match (options.settings config.checker).check input.module input.effects with
      | .error cause => .error (.missingEffect cause)
      | .ok report => .ok (input, report)

/-- Runs `check`. -/
def runCheck (files : Files) (colour : Bool) (options : CheckOptions) : Output :=
  match options.report files with
  | .error fault => fault.output colour
  | .ok (input, report) =>
    if options.json then checkJson input.module.definitions report
    else checkWords colour options.file input.module.definitions report

/-- The definitions of an input with their inferred qualifiers. -/
def InferOptions.rows (files : Files) (options : InferOptions) :
    Except RunFault (List (Definition × Qualifier)) :=
  match loadInput files options.file with
  | .error fault => .error fault
  | .ok input =>
    match inferRows input.effects input.module.definitions with
    | .error cause => .error (.nothingToInfer cause)
    | .ok rows => .ok rows

/-- Runs `infer`. -/
def runInfer (files : Files) (colour : Bool) (options : InferOptions) : Output :=
  match options.rows files with
  | .error fault => fault.output colour
  | .ok rows => inferReport colour options.json rows

/-- The name and version of the program. -/
def versionLine : String := "modecheck 0.1.0"

/-- What the program is for and how it is used. -/
def helpLines : List String :=
  ["Checks that every definition's declared qualifier matches the effect inferred for its body",
    "",
    "Usage: modecheck check FILE [--json] [--deny-suggestions] [--no-suggestions] [--config FILE]",
    "       modecheck infer FILE [--json]",
    "       modecheck version",
    "       modecheck help [COMMAND]"]

/-- Runs what a command line asks for. -/
def run (files : Files) (colour : Bool) : Invocation → Output
  | .check options => runCheck files colour options
  | .infer options => runInfer files colour options
  | .version => { exit := 0, out := [versionLine] }
  | .help => { exit := 0, out := helpLines }
  | .misuse => { exit := 2, err := helpLines }

/-- The files that a command may read, in the order in which it does. -/
def Invocation.paths : Invocation → List String
  | check options => options.config.toList ++ [options.file]
  | infer options => [options.file]
  | _ => []

end OperatorModes.Cli
