/-!
# Position

A position is an offset into a named text.  Offsets are 32-bit words; the offset of a place beyond them
is taken modulo their number.
-/

namespace LayoutGrammar

/-- An offset into a named text. -/
structure Position where
  /-- The number of bytes before the position. -/
  offset : UInt32
  /-- The name of the text. -/
  file : String
deriving DecidableEq

/-- The position of what comes from no text. -/
def Position.null : Position := ⟨0, "<null>"⟩

/-- The position at a number of bytes into a named text. -/
def Position.ofOffset (file : String) (bytes : Nat) : Position := ⟨bytes.toUInt32, file⟩

theorem Position.toNat_ofOffset {bytes : Nat} (h : bytes < UInt32.size) (file : String) :
  (Position.ofOffset file bytes).offset.toNat = bytes
  := UInt32.toNat_ofNat_of_lt' h

/-- The stretch of a text between two positions. -/
structure Span where
  /-- The position of the first byte. -/
  start : Position
  /-- The position after the last byte. -/
  stop : Position
deriving DecidableEq

/-- The span of what comes from no text. -/
def Span.null : Span := ⟨.null, .null⟩

end LayoutGrammar
