import LayoutGrammar.CommandLine.Run

/-!
# Main

The program: it reads the file that its arguments name and prints the tree of the program in it.
-/

namespace LayoutGrammar
namespace CommandLine

/-- Why reading a file failed. -/
def ReadFailure.ofError : IO.Error → ReadFailure
  | .noFileOrDirectory .. => .missing
  | .inappropriateType _ 20 _ => .belowFile
  | .inappropriateType .. => .directory
  | reason => .other (toString reason)

/-- The bytes of a file, or why they cannot be read. -/
def readBytes (path : String) : IO (Except ReadFailure ByteArray) := do
  try
    pure (.ok (← IO.FS.readBinFile path))
  catch reason =>
    pure (.error (.ofError reason))

/-- Does what the arguments ask for, and answers the exit code. -/
def runArguments (arguments : List String) : IO UInt32 := do
  let bytes ← match Options.ofArguments? arguments with
    | some options => readBytes options.file
    | none => pure (.error .missing)
  let result := run (fun _ => bytes) arguments
  IO.print result.stdout
  IO.eprint result.stderr
  pure result.code

end CommandLine
end LayoutGrammar

def main (arguments : List String) : IO UInt32 :=
  LayoutGrammar.CommandLine.runArguments arguments
