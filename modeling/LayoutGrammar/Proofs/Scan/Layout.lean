import LayoutGrammar.Proofs.Scan.Pieces

/-!
# Layout

The logical lines of a text and the blocks they open, as a tree (`LogicalLine`), and the stream that they
are written as: the items of a line are followed by the mark of its end, and the lines of a block stand
between the marks of its start and end, the latter being the end of a line as well (`LogicalLine.stream`).
-/

namespace LayoutGrammar

/-- A logical line: the items that stand on it, of which there is at least one, and the lines of the block
that it opens, if any. -/
inductive LogicalLine (α : Type) where
  | mk (first : α) (others : List α) (block : List (LogicalLine α))

namespace LogicalLine

section

variable {α β : Type} (item : α → β) (mark : Terminal → β)

mutual

/-- The stream of a line and of the block that it opens. -/
def stream : LogicalLine α → List β
  | mk first others block => (first :: others).map item ++ mark .endOfLine :: streamBlock block

/-- The stream of the lines of a block, between its marks, unless there are no lines. -/
def streamBlock : List (LogicalLine α) → List β
  | [] => []
  | line :: lines =>
    mark .indent :: (stream line ++ streamEach lines) ++ [mark .dedent, mark .endOfLine]

/-- The stream of some lines one after the other. -/
def streamEach : List (LogicalLine α) → List β
  | [] => []
  | line :: lines => stream line ++ streamEach lines

end

end

section

variable {α β γ δ : Type} {f : α → β}

mutual

/-- A line with other items. -/
def map (f : α → β) : LogicalLine α → LogicalLine β
  | mk first others block => mk (f first) (others.map f) (mapEach f block)

/-- Some lines with other items. -/
def mapEach (f : α → β) : List (LogicalLine α) → List (LogicalLine β)
  | [] => []
  | line :: lines => map f line :: mapEach f lines

end

variable {item : α → γ} {mark : Terminal → γ} {item' : β → δ} {mark' : Terminal → δ} {g : γ → δ}

mutual

/-- The stream of a line with other items is that of the line, with its parts replaced. -/
theorem map_stream (hitem : ∀ a, g (item a) = item' (f a)) (hmark : ∀ kind, g (mark kind) = mark' kind) :
  (line : LogicalLine α) → (stream item mark line).map g = stream item' mark' (line.map f)
  | mk first others block => by
    simp [stream, map, hitem, hmark, map_streamBlock hitem hmark block]

theorem map_streamBlock (hitem : ∀ a, g (item a) = item' (f a))
    (hmark : ∀ kind, g (mark kind) = mark' kind) :
  (lines : List (LogicalLine α)) →
    (streamBlock item mark lines).map g = streamBlock item' mark' (mapEach f lines)
  | [] => rfl
  | line :: lines => by
    simp [streamBlock, mapEach, hmark, map_stream hitem hmark line, map_streamEach hitem hmark lines]

theorem map_streamEach (hitem : ∀ a, g (item a) = item' (f a))
    (hmark : ∀ kind, g (mark kind) = mark' kind) :
  (lines : List (LogicalLine α)) →
    (streamEach item mark lines).map g = streamEach item' mark' (mapEach f lines)
  | [] => rfl
  | line :: lines => by
    simp [streamEach, mapEach, map_stream hitem hmark line, map_streamEach hitem hmark lines]

end

end

/-- The kinds of the tokens of a line that are not marks. -/
abbrev PlainKind : Type := { kind : Terminal // kind.isMark = false }

/-- The kinds of the tokens of some lines. -/
def kinds (lines : List (LogicalLine PlainKind)) : List Terminal := streamEach Subtype.val id lines

end LogicalLine
end LayoutGrammar
