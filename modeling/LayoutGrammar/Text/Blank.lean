/-!
# Blank

The blank characters are the 25 characters with the Unicode property `White_Space`; `trim` removes them
from both ends of a text.
-/

namespace LayoutGrammar
namespace Text

/-- The ranges of the code points whose characters are blank. -/
def blankRanges : List (Nat × Nat) := [
  (0x9, 0xd), (0x20, 0x20), (0x85, 0x85), (0xa0, 0xa0), (0x1680, 0x1680), (0x2000, 0x200a),
  (0x2028, 0x2029), (0x202f, 0x202f), (0x205f, 0x205f), (0x3000, 0x3000)]

/-- A blank character. -/
def isBlank (c : Char) : Bool :=
  blankRanges.any fun range => range.1 ≤ c.toNat && c.toNat ≤ range.2

/-- A text without the blank characters at its start. -/
def trimStart (text : List Char) : List Char := text.dropWhile isBlank

/-- A text without the blank characters at its end. -/
def trimEnd (text : List Char) : List Char := (trimStart text.reverse).reverse

/-- A text without the blank characters at its ends. -/
def trim (text : List Char) : List Char := trimEnd (trimStart text)

end Text
end LayoutGrammar
