import LayoutGrammar.Text.Offset

/-!
# Window

A window on a text shows the text from an offset to the end.  The offset is a 64-bit word and may be moved
anywhere up to the greatest one; there is something to show only when it is the offset of a character or
of the end.
-/

namespace LayoutGrammar
namespace Text

/-- A text with an offset into it. -/
structure Window where
  /-- The whole text. -/
  text : List Char
  /-- The offset from which the text is shown. -/
  offset : Nat

namespace Window

/-- The window that shows a whole text. -/
def ofString (text : String) : Window := ⟨text.toList, 0⟩

/-- The window moved on by a number of bytes, unless there is no word for its offset. -/
def advance? (w : Window) (bytes : Nat) : Option Window :=
  if w.offset + bytes < UInt64.size then some { w with offset := w.offset + bytes } else none

/-- The text in the window, when the offset does not split a character or pass the end. -/
def rest? (w : Window) : Option (List Char) := after? w.offset w.text

/-- The first character in the window, if any, when there is something to show. -/
def front? (w : Window) : Option (Option Char) := w.rest?.map List.head?

/-- Whether the window has reached the end of the text. -/
def atEnd (w : Window) : Bool := size w.text ≤ w.offset

end Window
end Text
end LayoutGrammar
