import LayoutGrammar.Diagnostic.Basic
import LayoutGrammar.Text.Blank
import LayoutGrammar.Text.Line

/-!
# Report

A diagnostic as it is told to the reader of a text: what is wrong, the file, the line with its number, and
a caret under the place in the line.  The line is shown without the blanks at its ends.  The width of the
arrow that ends in the caret is a 16-bit word; a place too far to the right for that has no report.
-/

namespace LayoutGrammar
namespace Diagnostic

/-- The first line of a report. -/
def heading (d : Diagnostic) : String :=
  match d.cause.tip? with
  | some tip => s!"Error: {d.cause.name} ({tip})\n"
  | none => s!"Error: {d.cause.name}\n"

/-- The place of an offset in a text; an offset past the last character is placed after that one. -/
def place? (text : List Char) (offset : Nat) : Option Text.LinePlace :=
  match Text.lineAt? text offset with
  | some place => some place
  | none =>
    if offset = 0 then
      none
    else
      (Text.lineAt? text (offset - 1)).map fun place => { place with column := place.column + 1 }

/-- The bar between the numbers of lines and their texts. -/
def bar (number : Nat) : String :=
  String.ofList (List.replicate ((toString number).length + 1) ' ') ++ "|"

/-- The arrow to a place: a sign for each byte before it, and the caret.  It is shorter by the number of
spaces that start the line. -/
def arrow (place : Text.LinePlace) : List Char :=
  List.replicate (place.column - (place.line.takeWhile (· = ' ')).length) '-' ++ ['^']

/-- The line of a place, and the arrow to the place, unless the arrow is too wide. -/
def excerpt? (place : Text.LinePlace) : Option String :=
  let shown := Text.trim (place.line.dropWhile (· = ' '))
  if (arrow place).length < UInt16.size then
    some (s!"{bar place.number}\n"
      ++ s!"{place.number} | {String.ofList shown}\n"
      ++ s!"{bar place.number} {String.ofList (arrow place)}\n")
  else
    none

/-- A diagnostic as it is told to the reader of a text, unless its place cannot be shown. -/
def report? (d : Diagnostic) (source : String) : Option String :=
  let opening := d.heading ++ s!"-> {d.position.file}\n"
  match place? source.toList d.position.offset.toNat with
  | some place => (excerpt? place).map fun shown => opening ++ shown
  | none => some opening

end Diagnostic
end LayoutGrammar
