import LayoutGrammar.Proofs.Scan.Layout
import Mathlib.Data.List.DropRight

/-!
# Columns

Where the logical lines of a text start, whatever their indentation (`Text.lineStarts`), and what stands
before them (`Text.lead`).  Lines are `Aligned` when the lines of every block are at one column, deeper than
the line that opens the block.  `Offside` says what may come from the start of a line on in a stream whose
lines are aligned, within blocks of some widths.
-/

namespace LayoutGrammar

/-! ## Places in a text -/

namespace Text

/-- The characters of a text before an offset. -/
def before : Nat → List Char → List Char
  | 0, _ => []
  | _ + 1, [] => []
  | n + 1, c :: text => c :: before (n + 1 - c.utf8Size) text

/-- What stands on a line of a text before an offset. -/
def lead (text : List Char) (offset : Nat) : List Char := (before offset text).rtakeWhile (· ≠ '\n')

/-- The column of an offset into a text: the number of bytes that stand before it on its line. -/
def column (text : List Char) (offset : Nat) : Nat := size (lead text offset)

/-- Whether an offset into a text counts as at a column: it is at that one, or a carriage return stands before
it on its line, which keeps its column from being looked at. -/
def IsAtColumn (text : List Char) (offset width : Nat) : Prop :=
  '\r' ∈ lead text offset ∨ column text offset = width

theorem before_append (front rest : List Char) (n : Nat) :
  before (size front + n) (front ++ rest) = front ++ before n rest
  := by
  induction front with
  | nil => simp
  | cons c front ih =>
    obtain ⟨k, hk⟩ := Nat.exists_eq_succ_of_ne_zero (Nat.pos_iff_ne_zero.mp c.utf8Size_pos)
    rw [size_cons, Nat.add_assoc, List.cons_append, hk, Nat.succ_add, before, hk]
    simpa using ih

theorem before_size_append (front rest : List Char) : before (size front) (front ++ rest) = front := by
  simpa [before] using before_append front rest 0

theorem lead_zero (text : List Char) : lead text 0 = [] := by
  simp [lead, before]

section

variable {text rest : List Char} {offset : Nat}

/-- A newline ends a line. -/
theorem lead_newline (h : after? offset text = some ('\n' :: rest)) :
  lead text (offset + size ['\n']) = []
  := by
  obtain ⟨front, rfl, rfl⟩ := after?_eq_some_iff.mp h
  rw [lead, ← size_append, List.append_cons front '\n' rest, before_size_append]
  apply List.rtakeWhile_concat_neg
  simp

/-- A line goes on as long as there is no newline. -/
theorem lead_append {piece : List Char} (h : after? offset text = some (piece ++ rest))
    (hpiece : '\n' ∉ piece) :
  lead text (offset + size piece) = lead text offset ++ piece
  := by
  obtain ⟨front, rfl, rfl⟩ := after?_eq_some_iff.mp h
  rw [lead, lead, before_size_append, ← size_append, ← List.append_assoc, before_size_append,
    List.rtakeWhile, List.reverse_append, List.takeWhile_append_of_pos]
  · simp [List.rtakeWhile]
  · intro c hc
    have hne : c ≠ '\n' := by
      rintro rfl
      apply hpiece (List.mem_reverse.mp hc)
    simpa using hne

end

/-- The offsets of the first tokens of the logical lines of a text, up to the first place where no token is
recognised, from an offset on.  On a line that has a token already no other one is its first. -/
def lineStarts (inLine : Bool) (offset : Nat) (text : List Char) : List Nat :=
  match _h : Pattern.first? text with
  | none => []
  | some (pattern, piece, rest) =>
    let isToken := (pattern.token? piece).isSome
    (if isToken && !inLine then [offset] else [])
      ++ lineStarts (isToken || inLine && pattern ≠ .newline) (offset + size piece) rest
termination_by text.length
decreasing_by
  obtain ⟨happend, hne⟩ := Pattern.append_of_first? _h
  have := List.length_pos_iff.mpr hne
  simp only [← happend, List.length_append]
  omega

section

variable {inLine : Bool} {offset : Nat} {text piece rest : List Char} {pattern : Pattern}

theorem lineStarts_of_none (h : Pattern.first? text = none) :
  lineStarts inLine offset text = []
  := by
  rw [lineStarts]
  split <;> simp_all

theorem lineStarts_of_some (h : Pattern.first? text = some (pattern, piece, rest)) :
  lineStarts inLine offset text
    = (if (pattern.token? piece).isSome && !inLine then [offset] else [])
      ++ lineStarts ((pattern.token? piece).isSome || inLine && pattern ≠ .newline) (offset + size piece) rest
  := by
  rw [lineStarts]
  split <;> simp_all

theorem lineStarts_of_token? {kind : Terminal} {value : List Char}
    (h : Pattern.first? text = some (pattern, piece, rest))
    (htoken : pattern.token? piece = some (kind, value)) :
  lineStarts inLine offset text
    = (if inLine then [] else [offset]) ++ lineStarts true (offset + size piece) rest
  := by
  cases inLine <;> simp [lineStarts_of_some h, htoken]

theorem lineStarts_of_newline (h : Pattern.first? text = some (.newline, piece, rest)) :
  lineStarts inLine offset text = lineStarts false (offset + size piece) rest
  := by
  simp [lineStarts_of_some h, Pattern.token?]

theorem lineStarts_of_space (h : Pattern.first? text = some (pattern, piece, rest))
    (hspace : pattern = .blanks ∨ pattern = .comment) :
  lineStarts inLine offset text = lineStarts inLine (offset + size piece) rest
  := by
  obtain rfl | rfl := hspace <;> simp [lineStarts_of_some h, Pattern.token?]

end

/-- Spacing has no bearing on where lines start. -/
theorem lineStarts_dropWhile (inLine : Bool) (offset : Nat) (text : List Char) :
  lineStarts inLine (offset + size (text.takeWhile Pattern.isSpacing)) (text.dropWhile Pattern.isSpacing)
    = lineStarts inLine offset text
  := by
  cases text with
  | nil => rfl
  | cons c text =>
    by_cases hc : Pattern.isSpacing c = true
    · rw [lineStarts_of_space (Pattern.first?_of_isSpacing hc text) (Or.inl rfl)]
      simp [hc]
    · simp [hc]

end Text

/-! ## Lines and blocks -/

namespace LogicalLine

section

variable {α : Type}

mutual

/-- The first items of a line and of the lines below it, in order. -/
def heads : LogicalLine α → List α
  | mk first _ block => first :: headsEach block

/-- The first items of some lines and of the lines below them, in order. -/
def headsEach : List (LogicalLine α) → List α
  | [] => []
  | line :: lines => heads line ++ headsEach lines

end

/-- Whether the first item of a line is at a column, and the lines of every block below it are at one column
too, deeper than the line that opens the block. -/
inductive Aligned (isAt : α → Nat → Prop) : (column : Nat) → LogicalLine α → Prop
  | mk {column inner : Nat} {first : α} {others : List α} {block : List (LogicalLine α)}
      (hfirst : isAt first column) (hdeeper : column < inner)
      (hblock : ∀ line ∈ block, Aligned isAt inner line) : Aligned isAt column (.mk first others block)

end

end LogicalLine

open LogicalLine

/-- The lexemes that are not marks. -/
abbrev PlainLexeme : Type := { l : Lexeme // l.kind.isMark = false }

/-- The offset of the first byte of a lexeme that is not a mark. -/
def PlainLexeme.start (l : PlainLexeme) : Nat := l.val.start

/-- A part of a stream: a token, or a mark of some kind. -/
abbrev Part : Type := PlainLexeme ⊕ Terminal

/-- A lexeme as a part of a stream. -/
def Lexeme.part (l : Lexeme) : Part :=
  if h : l.kind.isMark = false then .inl ⟨l, h⟩ else .inr l.kind

/-- Whether a line of a text is at a column, with the lines of its blocks. -/
def LogicalLine.IsAligned (text : List Char) (column : Nat) (line : LogicalLine PlainLexeme) : Prop :=
  line.Aligned (fun l => Text.IsAtColumn text l.start) column

/-! ## What may be left of an aligned stream -/

/-- Where lines may start and which parts may come from the start of a line on, within open blocks of some
widths, the innermost first. -/
inductive Offside (text : List Char) : (blocks starts : List Nat) → Option (List Part) → Prop
  /-- The end of the text, when no block is open. -/
  | eof : Offside text [] [] (some [.inr .eof])
  /-- Nothing is known of the parts of a text that no token is recognised in from here on. -/
  | cut {blocks : List Nat} : Offside text blocks [] none
  /-- A line, and what comes after it. -/
  | line {blocks starts : List Nat} {parts : Option (List Part)} (line : LogicalLine PlainLexeme)
      (aligned : line.IsAligned text (blocks.headD 0)) (more : Offside text blocks starts parts) :
      Offside text blocks (line.heads.map PlainLexeme.start ++ starts)
        (parts.map fun ps => line.stream .inl .inr ++ ps)
  /-- The end of the innermost block, and what comes after it. -/
  | close {block : Nat} {blocks starts : List Nat} {parts : Option (List Part)}
      (more : Offside text blocks starts parts) :
      Offside text (block :: blocks) starts (parts.map fun ps => .inr .dedent :: .inr .endOfLine :: ps)

/-- Where lines may start and which parts may come from the end of a line on, where a block may start. -/
def OffsideAfterLine (text : List Char) (blocks starts : List Nat) (parts : Option (List Part)) : Prop :=
  ∃ lines inner others rest, blocks.headD 0 < inner ∧ (∀ line ∈ lines, line.IsAligned text inner)
    ∧ Offside text blocks others rest ∧ starts = (headsEach lines).map PlainLexeme.start ++ others
    ∧ parts = rest.map fun ps => streamBlock .inl .inr lines ++ ps

/-- Where lines may start and which parts may come on a line that has a token already. -/
def OffsideInLine (text : List Char) (blocks starts : List Nat) (parts : Option (List Part)) : Prop :=
  ∃ (others : List PlainLexeme) (rest : Option (List Part)), OffsideAfterLine text blocks starts rest
    ∧ parts = rest.map fun ps => others.map .inl ++ .inr .endOfLine :: ps

/-- Where lines may start and which parts may come where the first token of a line should be. -/
inductive OffsideAtToken (text : List Char) (blocks : List Nat) :
    (starts : List Nat) → Option (List Part) → Prop
  /-- No token is recognised. -/
  | cut : OffsideAtToken text blocks [] none
  /-- A token at the column of the innermost block, and what comes after it. -/
  | token {starts : List Nat} {parts : Option (List Part)} {l : PlainLexeme}
      (h : Text.IsAtColumn text l.start (blocks.headD 0)) (more : OffsideInLine text blocks starts parts) :
      OffsideAtToken text blocks (l.start :: starts) (parts.map fun ps => .inl l :: ps)

section

variable {text : List Char} {blocks starts : List Nat} {parts : Option (List Part)}

theorem Offside.afterLine (h : Offside text blocks starts parts) :
  OffsideAfterLine text blocks starts parts
  := by
  use [], blocks.headD 0 + 1, starts, parts, Nat.lt_succ_self _, by simp, h, rfl
  simp [streamBlock]

theorem OffsideAfterLine.inLine (h : OffsideAfterLine text blocks starts parts) :
  OffsideInLine text blocks starts (parts.map fun ps => .inr .endOfLine :: ps)
  := ⟨[], parts, h, rfl⟩

theorem OffsideInLine.cons (l : PlainLexeme) (h : OffsideInLine text blocks starts parts) :
  OffsideInLine text blocks starts (parts.map fun ps => .inl l :: ps)
  := by
  obtain ⟨others, rest, hrest, rfl⟩ := h
  use l :: others, rest, hrest
  simp [Function.comp_def]

/-- A token starts a line. -/
theorem OffsideAtToken.offside (h : OffsideAtToken text blocks starts parts) :
  Offside text blocks starts parts
  := by
  cases h with
  | cut => apply Offside.cut
  | @token starts parts l hl more =>
    obtain ⟨others, _, ⟨lines, inner, starts, rest, hinner, hlines, hrest, rfl, rfl⟩, rfl⟩ := more
    have hline := Offside.line ⟨l, others, lines⟩ (.mk hl hinner hlines) hrest
    simpa [stream, heads, Function.comp_def] using hline

/-- What comes before the end of a block is lines, at its column. -/
theorem Offside.exists_lines {block : Nat} (h : Offside text (block :: blocks) starts parts) :
  ∃ lines others rest, (∀ line ∈ lines, line.IsAligned text block) ∧ Offside text blocks others rest
    ∧ starts = (headsEach lines).map PlainLexeme.start ++ others
    ∧ parts = rest.map fun ps => streamEach .inl .inr lines ++ .inr .dedent :: .inr .endOfLine :: ps
  := by
  generalize hall : block :: blocks = all at h
  induction h with
  | eof => contradiction
  | cut => exact ⟨[], [], none, by simp, .cut, rfl, rfl⟩
  | @line _ _ _ line aligned _ ih =>
    obtain ⟨lines, others, rest, hlines, hrest, rfl, rfl⟩ := ih hall
    subst hall
    use line :: lines, others, rest, List.forall_mem_cons.mpr ⟨aligned, hlines⟩, hrest
    simp [headsEach, streamEach, Function.comp_def]
  | @close _ _ starts parts more =>
    obtain ⟨rfl, rfl⟩ := List.cons.inj hall
    use [], starts, parts, by simp, more
    simp [headsEach, streamEach]

/-- A block starts where its first line does, which is deeper than the line before. -/
theorem OffsideAtToken.opens {width : Nat} (h : OffsideAtToken text (width :: blocks) starts parts)
    (hwidth : blocks.headD 0 < width) :
  OffsideAfterLine text blocks starts (parts.map fun ps => .inr .indent :: ps)
  := by
  cases h with
  | cut => apply Offside.cut.afterLine
  | @token starts parts l hl more =>
    obtain ⟨others, _, ⟨below, inner, starts, rest, hinner, hbelow, hmore, rfl, rfl⟩, rfl⟩ := more
    obtain ⟨lines, starts, rest, hlines, hrest, rfl, rfl⟩ := hmore.exists_lines
    use ⟨l, others, below⟩ :: lines, width, starts, rest, hwidth
    refine ⟨List.forall_mem_cons.mpr ⟨.mk hl hinner hbelow, hlines⟩, hrest, ?_, ?_⟩
    · simp [headsEach, heads]
    · simp [streamBlock, stream, Function.comp_def]

/-- Some blocks may be closed before a line. -/
theorem Offside.closes (h : Offside text blocks starts parts) (closed : List Nat) :
  Offside text (closed ++ blocks) starts
    (parts.map fun ps => (List.replicate closed.length [.inr .dedent, .inr .endOfLine]).flatten ++ ps)
  := by
  induction closed with
  | nil => simpa using h
  | cons block closed ih =>
    have hclose : Offside text (block :: (closed ++ blocks)) starts _ := Offside.close ih
    simpa [List.replicate_succ, Function.comp_def] using hclose

/-- At the end, with no block open, there are lines that are not indented, and the end of the text. -/
theorem Offside.exists_aligned (h : Offside text [] starts parts) :
  ∃ lines : List (LogicalLine PlainLexeme), (∀ line ∈ lines, line.IsAligned text 0)
    ∧ (headsEach lines).map PlainLexeme.start = starts
    ∧ ∀ ps ∈ parts, ps = streamEach .inl .inr lines ++ [.inr .eof]
  := by
  generalize hblocks : [] = blocks at h
  induction h with
  | eof => use [], by simp, rfl, by simp [streamEach]
  | cut => use [], by simp, rfl, by simp
  | @line _ _ _ line aligned _ ih =>
    obtain ⟨lines, hlines, rfl, hparts⟩ := ih hblocks
    subst hblocks
    use line :: lines, List.forall_mem_cons.mpr ⟨aligned, hlines⟩
    constructor
    · simp [headsEach]
    · intro ps hps
      obtain ⟨rest, hrest, rfl⟩ := Option.map_eq_some_iff.mp hps
      simp [streamEach, hparts rest hrest]
  | close => contradiction

end

end LayoutGrammar
