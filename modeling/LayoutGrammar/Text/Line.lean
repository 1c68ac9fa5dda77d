import LayoutGrammar.Text.Offset

/-!
# Line

The lines of a text are its pieces cut after every newline, so that putting them together gives the text
back (`flatten_lines`).  `lineAt?` finds the line that holds an offset.
-/

namespace LayoutGrammar
namespace Text

/-- The pieces of a text, cut after every newline. -/
def lines : List Char → List (List Char)
  | [] => []
  | c :: text =>
    if c = '\n' then
      [c] :: lines text
    else
      match lines text with
      | [] => [[c]]
      | line :: others => (c :: line) :: others

/-- A place in a line of a text. -/
structure LinePlace where
  /-- The number of the line, counted from one. -/
  number : Nat
  /-- The line, with the newline that ends it. -/
  line : List Char
  /-- The offset of the place in the line. -/
  column : Nat
deriving DecidableEq

/-- The place at an offset into the lines that are numbered from `number` on. -/
def placeIn? (number : Nat) : List (List Char) → Nat → Option LinePlace
  | [], _ => none
  | line :: others, offset =>
    if offset < size line then
      some ⟨number, line, offset⟩
    else
      placeIn? (number + 1) others (offset - size line)

/-- The place at an offset into a text, when the offset is inside the text. -/
def lineAt? (text : List Char) (offset : Nat) : Option LinePlace :=
  placeIn? 1 (lines text) offset

/-- The lines of a text make up the text. -/
@[simp]
theorem flatten_lines (text : List Char) : (lines text).flatten = text := by
  fun_induction lines text with
  | case1 => rfl
  | case2 text ih => simp [ih]
  | case3 c text _ hlines ih => simpa [hlines] using ih
  | case4 c text _ line others hlines ih => simpa [hlines] using ih

end Text
end LayoutGrammar
