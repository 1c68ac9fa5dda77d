import LayoutGrammar.Diagnostic.Basic
import LayoutGrammar.Text.Offset
import LayoutGrammar.Token.Pattern

/-!
# Scan

How a text is cut into lexemes, which are tokens placed by offsets into one text.

The indentation of lines makes blocks.  A scan keeps the widths of the blocks that are open, the innermost
first.  At the start of the text and after every newline the spaces and tabs that follow are counted; a
line deeper than the innermost block opens a block, a shallower one closes blocks until one of its width is
found.  Lines that hold nothing but spacing and a comment have no bearing on blocks.  The end of a line is
marked once, however many newlines follow, and the end of a block is the end of a line as well.
-/

namespace LayoutGrammar

/-- A token placed by offsets. -/
structure Lexeme where
  /-- What the token is. -/
  kind : Terminal
  /-- The text the token stands for. -/
  value : String
  /-- The offset of the first byte. -/
  start : Nat
  /-- The offset after the last byte. -/
  stop : Nat
deriving DecidableEq

/-- What is wrong in a text, and at which offset. -/
structure Fault where
  /-- What is wrong. -/
  cause : Cause
  /-- The offset of the place. -/
  offset : Nat
deriving DecidableEq

/-- A scan of a text, part of which has been cut into lexemes. -/
structure Scan where
  /-- The text that is left. -/
  rest : List Char
  /-- The number of bytes before the text that is left. -/
  offset : Nat
  /-- The kind of the last lexeme, if there is one. -/
  last : Option Terminal
  /-- The widths of the open blocks, the innermost first. -/
  blocks : List Nat

namespace Scan

/-- The scan of a whole text. -/
def ofText (text : List Char) : Scan := ⟨text, 0, none, []⟩

/-- A scan after a piece of its text. -/
def skip (s : Scan) (piece rest : List Char) : Scan :=
  { s with rest := rest, offset := s.offset + Text.size piece }

/-- A scan after as many bytes of its text as a piece has. -/
def pass (s : Scan) (piece : List Char) : Scan :=
  s.skip piece ((Text.after? (Text.size piece) s.rest).getD [])

/-- A scan passes over a piece that its text starts with. -/
theorem pass_of_append {s : Scan} {piece rest : List Char} (h : piece ++ rest = s.rest) :
  s.pass piece = s.skip piece rest
  := by
  rw [pass, ← h, Text.after?_size_append]
  rfl

/-- The lexeme of a mark, which takes no text. -/
def mark (s : Scan) (kind : Terminal) : Lexeme := ⟨kind, "", s.offset, s.offset⟩

/-! ## Marks of lines and blocks -/

/-- Marks the end of a line, unless nothing was there since the last one. -/
def endLogicalLine (s : Scan) : List Lexeme × Scan :=
  match s.last with
  | none | some .endOfLine => ([], s)
  | some _ => ([s.mark .endOfLine], { s with last := some .endOfLine })

/-- The marks of the ends of a number of blocks. -/
def blockEnds (s : Scan) (count : Nat) : List Lexeme :=
  (List.replicate count [s.mark .dedent, s.mark .endOfLine]).flatten

/-- A character of the indentation of a line. -/
def isIndentation (c : Char) : Bool := c = ' ' || c = '\t'

/-- Whether a line has no bearing on blocks, by what follows its indentation: nothing, the end of the line,
a carriage return or a comment. -/
def isBare : List Char → Bool
  | [] => true
  | '\n' :: _ | '\r' :: _ => true
  | '/' :: '/' :: _ => true
  | _ => false

/-- Marks the blocks that the indentation of a line opens and closes. -/
def indentLine (s : Scan) : Except Fault (List Lexeme × Scan) :=
  let indentation := s.rest.takeWhile isIndentation
  let s := s.skip indentation (s.rest.dropWhile isIndentation)
  let width := indentation.length
  if isBare s.rest then
    .ok ([], s)
  else if s.blocks.headD 0 < width then
    if s.last.isNone then
      .error ⟨.indentation width, s.offset⟩
    else
      .ok ([s.mark .indent], { s with last := some .indent, blocks := width :: s.blocks })
  else
    let blocks := s.blocks.dropWhile fun block => width < block
    let closed := s.blocks.length - blocks.length
    if blocks.headD 0 = width then
      .ok (s.blockEnds closed,
        { s with last := if closed = 0 then s.last else some .endOfLine, blocks := blocks })
    else
      .error ⟨.indentation width, s.offset⟩

/-- The marks at the end of a text. -/
def finish (s : Scan) : List Lexeme :=
  s.endLogicalLine.1 ++ s.blockEnds s.blocks.length ++ [⟨.eof, "EOF", s.offset, s.offset⟩]

/-! ## Steps -/

/-- Cuts off the first piece of a text that is not empty. -/
def step (s : Scan) : Except Fault (List Lexeme × Scan) :=
  match Pattern.first? s.rest with
  | none => .error ⟨.unrecognised (String.ofList (s.rest.take 1)), s.offset⟩
  | some (.newline, piece, _) => do
    let (ended, s) := s.endLogicalLine
    let (marks, s) ← (s.pass (Pattern.newline.passed piece)).indentLine
    pure (ended ++ marks, s)
  | some (pattern, piece, _) =>
    let passed := pattern.passed piece
    match pattern.token? piece with
    | some (kind, value) =>
      .ok ([⟨kind, String.ofList value, s.offset, s.offset + Text.size passed⟩],
        { s.pass passed with last := some kind })
    | none => .ok ([], s.pass passed)

theorem rest_endLogicalLine (s : Scan) : s.endLogicalLine.2.rest = s.rest := by
  unfold endLogicalLine
  split <;> rfl

/-- A step passes over the piece that comes first. -/
theorem step_eq (s : Scan) :
  s.step = match Pattern.first? s.rest with
    | none => .error ⟨.unrecognised (String.ofList (s.rest.take 1)), s.offset⟩
    | some (.newline, piece, rest) =>
      (s.endLogicalLine.2.skip piece rest).indentLine.map fun (marks, next) =>
        (s.endLogicalLine.1 ++ marks, next)
    | some (pattern, piece, rest) =>
      match pattern.token? piece with
      | some (kind, value) =>
        .ok ([⟨kind, String.ofList value, s.offset, s.offset + Text.size piece⟩],
          { s.skip piece rest with last := some kind })
      | none => .ok ([], s.skip piece rest)
  := by
  unfold step
  split
  · rfl
  · next piece rest hfirst =>
    have happend : piece ++ rest = s.endLogicalLine.2.rest := by
      rw [rest_endLogicalLine]
      exact (Pattern.append_of_first? hfirst).1
    simp only [Pattern.passed_of_first? hfirst, pass_of_append happend, bind_pure_comp]
    rfl
  · next pattern piece rest _ hfirst =>
    simp only [Pattern.passed_of_first? hfirst, pass_of_append (Pattern.append_of_first? hfirst).1]

theorem length_rest_indentLine {s next : Scan} {marks : List Lexeme}
    (h : s.indentLine = .ok (marks, next)) :
  next.rest.length ≤ s.rest.length
  := by
  have hdrop : (s.rest.dropWhile isIndentation).length ≤ s.rest.length :=
    (List.dropWhile_suffix _).length_le
  simp only [indentLine] at h
  split at h
  · cases h
    exact hdrop
  · split at h
    · split at h
      · cases h
      · cases h
        exact hdrop
    · split at h
      · cases h
        exact hdrop
      · cases h

/-- A step leaves less text. -/
theorem length_rest_step {s next : Scan} {lexemes : List Lexeme} (h : s.step = .ok (lexemes, next)) :
  next.rest.length < s.rest.length
  := by
  have hless {pattern : Pattern} {piece rest : List Char}
      (hfirst : Pattern.first? s.rest = some (pattern, piece, rest)) :
      rest.length < s.rest.length := by
    obtain ⟨happend, hne⟩ := Pattern.append_of_first? hfirst
    have := List.length_pos_iff.2 hne
    simp only [← happend, List.length_append]
    omega
  rw [step_eq] at h
  split at h
  · cases h
  · next piece rest hfirst =>
    cases hmarks : (s.endLogicalLine.2.skip piece rest).indentLine with
    | error fault => simp [hmarks, Except.map] at h
    | ok found =>
      obtain ⟨marks, after⟩ := found
      have := length_rest_indentLine hmarks
      obtain ⟨-, rfl⟩ := by simpa [hmarks, Except.map] using h
      exact Nat.lt_of_le_of_lt this (hless hfirst)
  · next hfirst =>
    split at h <;> cases h <;> exact hless hfirst

/-- The lexemes of the text that is left. -/
def lexemes (s : Scan) : Except Fault (List Lexeme) :=
  if s.rest.isEmpty then
    .ok s.finish
  else
    match _h : s.step with
    | .error fault => .error fault
    | .ok (found, next) => next.lexemes.map fun others => found ++ others
termination_by s.rest.length
decreasing_by exact length_rest_step _h

end Scan

/-- The lexemes of a text. -/
def Lexeme.ofText (text : List Char) : Except Fault (List Lexeme) := do
  let (marks, s) ← (Scan.ofText text).indentLine
  let others ← s.lexemes
  pure (marks ++ others)

end LayoutGrammar
