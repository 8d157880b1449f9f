import OperatorModes.Cli.Run

/-!
# The program

Reads the files that the command line names, runs, and prints.
-/

namespace OperatorModes

/-- Whether a code is the system's of this number, with or without its sign turned. -/
def isCode (number code : UInt32) : Bool :=
  code = number || -code = number

/-- The fault of a file that could not be read. -/
def fileFault : IO.Error → Cli.FileFault
  | .noFileOrDirectory .. => .notFound
  | .inappropriateType _ code _ => if isCode 20 code then .notDirectory else .isDirectory
  | fault@(.invalidArgument _ code _) =>
    if isCode 36 code then .nameTooLong else .other (toString fault)
  | fault => .other (toString fault)

/-- Reads a file as text. -/
def readFile (path : String) : IO (Except Cli.FileFault String) := do
  try
    let bytes ← IO.FS.readBinFile path
    match String.fromUTF8? bytes with
    | some text => return .ok text
    | none => return .error .notText
  catch fault => return .error (fileFault fault)

/-- Runs the command line. -/
def runMain (args : List String) : IO UInt32 := do
  let invocation := Cli.Invocation.parse args
  let texts ← invocation.paths.mapM fun path => return (path, ← readFile path)
  let files : Cli.Files := fun path => (texts.lookup path).getD (.error .notFound)
  let colour := Cli.wantsColour (← IO.getEnv "CLICOLOR_FORCE") (← IO.getEnv "NO_COLOR")
    (← IO.getEnv "CLICOLOR") (← (← IO.getStdout).isTty)
  let output := Cli.run files colour invocation
  IO.print (Cli.unlines output.out)
  IO.eprint (Cli.unlines output.err)
  return output.exit.toUInt32

end OperatorModes

/-- The program. -/
def main (args : List String) : IO UInt32 :=
  OperatorModes.runMain args
