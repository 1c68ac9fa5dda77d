import LayoutGrammar.CommandLine.Options
import LayoutGrammar.Diagnostic.Report
import LayoutGrammar.Evaluation.Parse
import LayoutGrammar.Program.Grammar
import LayoutGrammar.Token.Stream
import LayoutGrammar.Tree.Display

/-!
# Run of the command line

The command line reads a program and prints its tree.  What it does is a function of its arguments and of
what reading a file answers.
-/

namespace LayoutGrammar
namespace CommandLine

/-- Why a file cannot be read. -/
inductive ReadFailure where
  | missing
  | directory
  /-- The path leads through a file. -/
  | belowFile
  | notText
  | other (reason : String)
deriving DecidableEq

/-- A failure to read a file in words. -/
def ReadFailure.message : ReadFailure → String
  | missing => "No such file or directory (os error 2)"
  | directory => "Is a directory (os error 21)"
  | belowFile => "Not a directory (os error 20)"
  | notText => "stream did not contain valid UTF-8"
  | other reason => reason

/-- What the command line leaves behind. -/
structure Result where
  /-- The exit code. -/
  code : UInt32
  /-- What was printed. -/
  stdout : String
  /-- What was printed as errors. -/
  stderr : String

/-- How the command line is to be used. -/
def usage : String := "Usage: [--tokens] [--compact] [--max-depth <N>] <FILE>\n"

/-- The name that a file is shown by: the last part of its path that names something, or the path when
that leads up or nowhere. -/
def fileName (path : String) : String :=
  match ((path.splitOn "/").filter fun part => part ≠ "" ∧ part ≠ ".").getLast? with
  | none | some ".." => path
  | some part => part

/-- The text of a file, unless it cannot be read. -/
def readText (read : String → Except ReadFailure ByteArray) (path : String) :
    Except ReadFailure String := do
  match String.fromUTF8? (← read path) with
  | some text => pure text
  | none => throw .notText

/-- The result of finding something wrong with a source text after printing something. -/
def Result.ofDiagnostic (stdout source : String) (d : Diagnostic) : Result :=
  match d.report? source with
  | some report => ⟨1, stdout, report⟩
  | none => ⟨101, stdout, "The place of an error is too far to the right to be shown\n"⟩

/-- The result of reading a program from a source text. -/
def runOnSource (options : Options) (source : String) : Result :=
  match Token.ofSource source (fileName options.file) with
  | .error d => .ofDiagnostic "" source d
  | .ok tokens =>
    let stream := if options.tokens then
      String.join (tokens.map fun token => token.shown ++ "\n") else ""
    let run := ((Parse.start Program.grammar tokens).withLimit options.limit).run
    match run.outcome with
    | .error d => .ofDiagnostic stream source d
    | .ok _ =>
      let tree := run.parse.tree
      ⟨0, stream ++ if options.compact then tree.compact ++ "\n" else tree.outline, ""⟩

/-- The result of the command line on some arguments. -/
def run (read : String → Except ReadFailure ByteArray) (arguments : List String) : Result :=
  match Options.ofArguments? arguments with
  | none => ⟨2, "", usage⟩
  | some options =>
    match readText read options.file with
    | .ok source => runOnSource options source
    | .error failure => ⟨1, "", s!"Failed to read {options.file}: {failure.message}\n"⟩

end CommandLine
end LayoutGrammar
