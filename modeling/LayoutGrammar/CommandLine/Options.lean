import LayoutGrammar.Evaluation.Session

/-!
# Options

The arguments of the command line: one file, and options in any order, none of them twice.  After `--`
every argument is a file.
-/

namespace LayoutGrammar
namespace CommandLine

/-- What the command line asks for. -/
structure Options where
  /-- The path of the file to read. -/
  file : String
  /-- Whether to print the tokens. -/
  tokens : Bool
  /-- Whether to print the tree on one line. -/
  compact : Bool
  /-- The greatest depth of nested evaluations. -/
  limit : Nat
deriving DecidableEq

/-- What some of the arguments ask for. -/
structure Draft where
  /-- The path of the file, if it is given. -/
  file : Option String
  /-- Whether `--tokens` is given. -/
  tokens : Bool
  /-- Whether `--compact` is given. -/
  compact : Bool
  /-- The limit, if it is given. -/
  limit : Option Nat

/-- The 64-bit word that a numeral stands for: digits, possibly after a plus sign. -/
def word? (numeral : List Char) : Option Nat :=
  let digits := match numeral with
    | '+' :: digits => digits
    | digits => digits
  if digits ≠ [] ∧ digits.all Char.isDigit then
    let value := digits.foldl (fun value digit => 10 * value + (digit.toNat - '0'.toNat)) 0
    if value < UInt64.size then some value else none
  else
    none

namespace Draft

/-- A draft with a file, which has to be the only one. -/
def addFile (d : Draft) (file : String) : Option Draft :=
  if file = "" ∨ d.file.isSome then none else some { d with file := some file }

/-- A draft with a limit, which has to be the only one. -/
def addLimit (d : Draft) (numeral : List Char) : Option Draft :=
  if d.limit.isSome then none else (word? numeral).map fun limit => { d with limit := some limit }

/-- A draft with an argument that takes no other argument. -/
def addArgument (d : Draft) (argument : String) : Option Draft :=
  match argument.toList with
  | '-' :: '-' :: 'm' :: 'a' :: 'x' :: '-' :: 'd' :: 'e' :: 'p' :: 't' :: 'h' :: '=' :: numeral =>
    d.addLimit numeral
  | '-' :: _ :: _ => none
  | _ => d.addFile argument

/-- A draft with the arguments that are left. -/
def addAll (d : Draft) : List String → Option Draft
  | [] => some d
  | "--" :: files => files.foldlM addFile d
  | "--tokens" :: others => if d.tokens then none else { d with tokens := true }.addAll others
  | "--compact" :: others => if d.compact then none else { d with compact := true }.addAll others
  | "--max-depth" :: numeral :: others =>
    (d.addLimit numeral.toList).bind fun d => d.addAll others
  | argument :: others => (d.addArgument argument).bind fun d => d.addAll others

end Draft

/-- The options that arguments ask for, unless there is something wrong with them. -/
def Options.ofArguments? (arguments : List String) : Option Options := do
  let draft ← (⟨none, false, false, none⟩ : Draft).addAll arguments
  let file ← draft.file
  pure ⟨file, draft.tokens, draft.compact, draft.limit.getD defaultLimit⟩

end CommandLine
end LayoutGrammar
