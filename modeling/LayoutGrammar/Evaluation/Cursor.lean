import LayoutGrammar.Token.Basic

/-!
# Cursor

A cursor is a place in a list of tokens.  It may be past the end, where it finds nothing.
-/

namespace LayoutGrammar

/-- A place in a list of tokens. -/
structure Cursor where
  /-- The number of tokens before the place. -/
  index : Nat
  /-- The tokens from the place on. -/
  rest : List Token

namespace Cursor

/-- The place after a number of tokens. -/
def ofIndex (tokens : List Token) (index : Nat) : Cursor := ⟨index, tokens.drop index⟩

/-- A cursor moved on by a number of tokens. -/
def advance (c : Cursor) (tokens : Nat) : Cursor := ⟨c.index + tokens, c.rest.drop tokens⟩

/-- Where a cursor is in the source, with `ending` as the place past the last token. -/
def position (c : Cursor) (ending : Position) : Position :=
  match c.rest with
  | token :: _ => token.span.start
  | [] => ending

/-- What a cursor is at, as it is shown. -/
def found (c : Cursor) : String :=
  match c.rest with
  | token :: _ => if token.kind = .eof then "end of input" else "`" ++ token.shown ++ "`"
  | [] => "end of input"

@[simp]
theorem advance_zero (c : Cursor) : c.advance 0 = c := rfl

@[simp]
theorem advance_advance (c : Cursor) (first second : Nat) :
  (c.advance first).advance second = c.advance (first + second)
  := by
  simp [advance, Nat.add_assoc]

@[simp]
theorem index_advance (c : Cursor) (count : Nat) : (c.advance count).index = c.index + count := rfl

@[simp]
theorem rest_advance (c : Cursor) (count : Nat) : (c.advance count).rest = c.rest.drop count := rfl

@[simp]
theorem advance_ofIndex (tokens : List Token) (index count : Nat) :
  (ofIndex tokens index).advance count = ofIndex tokens (index + count)
  := by
  simp [ofIndex, advance]

end Cursor

/-- The place past the last of some tokens: the end of the last one. -/
def Position.ofEnd (tokens : List Token) : Position :=
  match tokens.getLast? with
  | some token => token.span.stop
  | none => .null

end LayoutGrammar
