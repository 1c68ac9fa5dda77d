import LayoutGrammar.Proofs.Scan.Layout
import LayoutGrammar.Proofs.Scan.Spelling

/-!
# Reading back what is written

Logical lines of words, written with a fixed number of blanks for each block that a line is in
(`LogicalLine.writtenEach`), are read back with their kinds and values (`ofSource_writtenEach`).  What carries
this is `Scan.Resumes`, which tells what is said from the start of a line on: the ends of the blocks that are
deeper than the line, however many are open, and then the line.
-/

namespace LayoutGrammar

/-! ## What is written -/

/-- A word, as kind and value. -/
def Word.entry (w : Word) : Terminal × String := (w.kind, w.value)

/-- A mark, as kind and value. -/
def Terminal.entry (kind : Terminal) : Terminal × String := (kind, "")

/-- A lexeme, as kind and value. -/
def Lexeme.entry (l : Lexeme) : Terminal × String := (l.kind, l.value)

/-- A token, as kind and value. -/
def Token.entry (t : Token) : Terminal × String := (t.kind, t.value)

/-- Some words, with a blank between each two. -/
def Word.line (words : List Word) : List Char := List.intercalate [' '] (words.map text)

namespace LogicalLine

mutual

/-- A line that is in some blocks, with blanks for each of them, and the block that it opens. -/
def written (width depth : Nat) : LogicalLine Word → List Char
  | mk first others block =>
    List.replicate (depth * width) ' '
      ++ (Word.line (first :: others) ++ '\n' :: writtenEach width (depth + 1) block)

/-- Lines that are in some blocks, one after the other. -/
def writtenEach (width depth : Nat) : List (LogicalLine Word) → List Char
  | [] => []
  | line :: lines => written width depth line ++ writtenEach width depth lines

end

end LogicalLine

open LogicalLine

/-! ## Words of a line -/

/-- A line starts with its first word and a separator. -/
theorem Word.exists_line (first : Word) (others : List Word) (rest : List Char) :
  ∃ sep more, IsSeparator sep ∧ line (first :: others) ++ '\n' :: rest = first.text ++ sep :: more
  := by
  cases others with
  | nil =>
    use '\n', rest, .inr rfl
    simp [line]
  | cons second others =>
    use ' ', line (second :: others) ++ '\n' :: rest, .inl rfl
    simp [line]

theorem Word.line_cons_cons (first second : Word) (others : List Word) :
  line (first :: second :: others) = first.text ++ ' ' :: line (second :: others)
  := by
  simp [line]

/-- A line does not start with spacing. -/
theorem Word.isSpacing_line (first : Word) (others : List Word) (rest : List Char) :
  ∀ c ∈ (line (first :: others) ++ '\n' :: rest).head?, Pattern.isSpacing c = false
  := by
  obtain ⟨sep, more, hsep, heq⟩ := exists_line first others rest
  obtain ⟨pattern, hfirst, htoken⟩ := first.exists_first?_text hsep more
  rw [heq]
  apply Pattern.isSpacing_of_token? hfirst htoken

/-- It starts with a token. -/
theorem Word.isAtToken_line (first : Word) (others : List Word) (rest : List Char) :
  Scan.IsAtToken (line (first :: others) ++ '\n' :: rest)
  where
  isBare_eq := by
    obtain ⟨sep, more, hsep, heq⟩ := exists_line first others rest
    obtain ⟨pattern, hfirst, htoken⟩ := first.exists_first?_text hsep more
    rw [heq]
    apply Pattern.isBare_of_token? hfirst htoken
  not_indented c hc := by
    have hspacing := isSpacing_line first others rest c hc
    simp only [Pattern.isSpacing, Bool.or_eq_false_iff] at hspacing
    simp [Scan.isIndentation, hspacing]

namespace Scan

variable {s next : Scan} {rest : List Char} {xs : List (Terminal × String)}

/-- Whether a scan yields lexemes of some kinds and values. -/
def Says (s : Scan) (xs : List (Terminal × String)) : Prop :=
  ∃ found, s.Yields found ∧ found.map Lexeme.entry = xs

/-- Whether a scan at the start of a line yields lexemes of some kinds and values. -/
def SaysFromLine (s : Scan) (xs : List (Terminal × String)) : Prop :=
  ∃ marks next ys, s.Measures marks next ∧ next.Says ys ∧ marks.map Lexeme.entry ++ ys = xs

theorem Says.move {found : List Lexeme} (hmove : s.Moves found next) (h : next.Says xs) :
  s.Says (found.map Lexeme.entry ++ xs)
  := by
  obtain ⟨others, hothers, rfl⟩ := h
  use found ++ others, Yields.move hmove hothers
  apply List.map_append

theorem says_word {sep : Char} (w : Word) (hsep : IsSeparator sep) (hrest : s.rest = w.text ++ sep :: rest)
    (h : Says { s.skip w.text (sep :: rest) with last := some w.kind } xs) :
  s.Says (w.entry :: xs)
  := by
  obtain ⟨pattern, hfirst, htoken⟩ := w.exists_first?_text hsep rest
  rw [← hrest] at hfirst
  have hsays := Says.move (Moves.token hfirst htoken) h
  simpa [Lexeme.entry, Word.entry] using hsays

theorem says_blank (hspacing : ∀ c ∈ rest.head?, Pattern.isSpacing c = false) (hrest : s.rest = ' ' :: rest)
    (h : (s.skip [' '] rest).Says xs) :
  s.Says xs
  := by
  have hfirst : Pattern.first? s.rest = some (.blanks, [' '], rest) := by
    have hblank : ∀ c ∈ [' '], Pattern.isSpacing c = true := by simp [Pattern.isSpacing]
    rw [hrest]
    exact Pattern.first?_spacing hblank (by simp) hspacing
  apply Says.move (Moves.space hfirst (.inl rfl)) h

/-- The end of a line is marked after a word. -/
theorem says_newline {w : Word} (hlast : s.last = some w.kind) (hrest : s.rest = '\n' :: rest)
    (h : Scan.SaysFromLine { s.skip ['\n'] rest with last := some .endOfLine } xs) :
  s.Says (Terminal.entry .endOfLine :: xs)
  := by
  obtain ⟨marks, next, ys, hmarks, hys, rfl⟩ := h
  have hfirst := Pattern.first?_newline rest
  rw [← hrest] at hfirst
  have hended := endLogicalLine_of_isMark hlast w.isMark_kind
  have hmove : s.Moves (s.endLogicalLine.1 ++ marks) next := by
    apply Moves.newline hfirst
    rw [hended]
    apply hmarks
  have hsays := Says.move hmove hys
  rw [hended] at hsays
  simpa [mark, Lexeme.entry, Terminal.entry] using hsays

/-- The words of a line are said, and the mark of its end, and what comes after it. -/
theorem says_line (first : Word) (others : List Word)
    (hrest : s.rest = Word.line (first :: others) ++ '\n' :: rest)
    (h : ∀ next : Scan, next.rest = rest → next.blocks = s.blocks → next.last = some .endOfLine →
      next.SaysFromLine xs) :
  s.Says ((first :: others).map Word.entry ++ Terminal.entry .endOfLine :: xs)
  := by
  induction others generalizing first s with
  | nil =>
    apply says_word first (.inr rfl) (by simpa [Word.line] using hrest)
    apply says_newline rfl rfl
    apply h <;> rfl
  | cons second others ih =>
    rw [Word.line_cons_cons, List.append_assoc] at hrest
    apply says_word first (.inl rfl) hrest
    apply says_blank (Word.isSpacing_line second others rest) rfl
    apply ih second rfl
    apply h

/-! ## Blocks -/

/-- The marks of the ends of some blocks, as kinds and values. -/
def closings (count : Nat) : List (Terminal × String) :=
  (List.replicate count [Terminal.entry .dedent, Terminal.entry .endOfLine]).flatten

/-- The widths of some blocks, the innermost first. -/
def openBlocks (width : Nat) : Nat → List Nat
  | 0 => []
  | depth + 1 => (depth + 1) * width :: openBlocks width depth

theorem headD_openBlocks (width depth : Nat) :
  (openBlocks width depth).headD 0 = depth * width
  := by
  cases depth <;> simp [openBlocks]

/-- The blocks that are deeper than some of them come first. -/
theorem openBlocks_add {width : Nat} (hwidth : 0 < width) (depth extra : Nat) :
  ∃ closed, openBlocks width (depth + extra) = closed ++ openBlocks width depth ∧ closed.length = extra
    ∧ ∀ block ∈ closed, depth * width < block
  := by
  induction extra with
  | zero => use []; simp
  | succ extra ih =>
    obtain ⟨closed, hclosed, hlength, hdeeper⟩ := ih
    use (depth + extra + 1) * width :: closed
    have hinnermost : depth * width < (depth + extra + 1) * width :=
      (Nat.mul_lt_mul_right hwidth).mpr (by omega)
    exact ⟨congrArg _ hclosed, congrArg _ hlength, List.forall_mem_cons.mpr ⟨hinnermost, hdeeper⟩⟩

/-- The indentation of a line is measured by the number of its blanks. -/
theorem indented_of_replicate {count : Nat} (hrest : s.rest = List.replicate count ' ' ++ rest)
    (hat : IsAtToken rest) :
  s.width = count ∧ s.indented.rest = rest
  := by
  obtain ⟨hwidth, hindented⟩ := indented_of_append hrest (by simp [isIndentation]) hat.not_indented
  rw [List.length_replicate] at hwidth
  use hwidth
  rw [hindented]
  rfl

theorem length_openBlocks (width depth : Nat) :
  (openBlocks width depth).length = depth
  := by
  induction depth with
  | zero => rfl
  | succ depth ih => simp [openBlocks, ih]

theorem entries_blockEnds (s : Scan) (count : Nat) :
  (s.blockEnds count).map Lexeme.entry = closings count
  := by
  simp [blockEnds, closings, mark, List.map_flatten, Lexeme.entry, Terminal.entry]

/-- A line closes the blocks that are deeper. -/
theorem exists_measures_of_closes {width depth extra : Nat} (hwidth : 0 < width)
    (hrest : s.rest = List.replicate (depth * width) ' ' ++ rest)
    (hat : IsAtToken rest) (hblocks : s.blocks = openBlocks width (depth + extra)) :
  ∃ marks next, s.Measures marks next
    ∧ marks.map Lexeme.entry = closings extra ∧ next.rest = rest ∧ next.blocks = openBlocks width depth
  := by
  obtain ⟨closed, hclosed, rfl, hdeeper⟩ := openBlocks_add hwidth depth extra
  obtain ⟨hcount, hindented⟩ := indented_of_replicate hrest hat
  rw [← hcount] at hdeeper
  have hmarks := Measures.closes (hindented ▸ hat.isBare_eq) (hblocks.trans hclosed) hdeeper
    (by rw [headD_openBlocks, hcount])
  exact ⟨_, _, hmarks, entries_blockEnds _ _, hindented, rfl⟩

/-- A line that is one block deeper opens it. -/
theorem exists_measures_of_opens {width depth : Nat} (hwidth : 0 < width)
    (hrest : s.rest = List.replicate ((depth + 1) * width) ' ' ++ rest)
    (hat : IsAtToken rest) (hblocks : s.blocks = openBlocks width depth) (hlast : s.last ≠ none) :
  ∃ mark next, s.Measures [mark] next ∧ mark.entry = Terminal.entry .indent
    ∧ next.rest = rest ∧ next.blocks = openBlocks width (depth + 1)
  := by
  obtain ⟨hcount, hindented⟩ := indented_of_replicate hrest hat
  have hdeeper : s.blocks.headD 0 < s.width := by
    rw [hblocks, headD_openBlocks, hcount]
    apply (Nat.mul_lt_mul_right hwidth).mpr
    omega
  have hmarks := Measures.opens (hindented ▸ hat.isBare_eq) hdeeper hlast
  rw [hcount, hblocks] at hmarks
  exact ⟨_, _, hmarks, rfl, hindented, rfl⟩

/-- What is said from a text on, at the start of a line that is in some blocks at most: whichever blocks are
open that are deeper, their ends are said first. -/
def Resumes (width depth : Nat) (text : List Char) (xs : List (Terminal × String)) : Prop :=
  ∀ (s : Scan) (extra : Nat), s.rest = text → s.blocks = openBlocks width (depth + extra) →
    s.endLogicalLine = ([], s) →
    s.SaysFromLine (closings extra ++ xs)

variable {width depth : Nat} {text : List Char}

/-- In a block, the end of the block is said before what comes after it. -/
theorem Resumes.succ (h : Resumes width depth text xs) :
  Resumes width (depth + 1) text (Terminal.entry .dedent :: Terminal.entry .endOfLine :: xs)
  := by
  intro s extra hrest hblocks hended
  rw [Nat.add_assoc, Nat.add_comm 1] at hblocks
  have hsays := h s (extra + 1) hrest hblocks hended
  simpa [closings, List.replicate_succ'] using hsays

/-- At the end of the text the end of the text is said. -/
theorem resumes_nil (width : Nat) :
  Resumes width 0 [] [(.eof, "EOF")]
  := by
  intro s extra hrest hblocks hended
  rw [Nat.zero_add] at hblocks
  have hindented : s.indented = s := by
    obtain ⟨rest, offset, last, blocks⟩ := s
    obtain rfl : rest = [] := hrest
    rfl
  have hbare : s.Measures [] s := by
    have hmarks := Measures.bare (s := s) (by simp [hindented, hrest, isBare])
    rwa [hindented] at hmarks
  use [], s, s.finish.map Lexeme.entry, hbare, ⟨s.finish, Yields.finish hrest, rfl⟩
  rw [finish, hended, hblocks, length_openBlocks]
  simp [entries_blockEnds, Lexeme.entry]

end Scan

/-! ## Lines -/

/-- A line is its blanks, and a token after them. -/
theorem LogicalLine.exists_written (width depth : Nat) (line : LogicalLine Word) (text : List Char) :
  ∃ rest, line.written width depth ++ text = List.replicate (depth * width) ' ' ++ rest
    ∧ Scan.IsAtToken rest
  := by
  cases line with
  | mk first others block =>
    use Word.line (first :: others) ++ '\n' :: (writtenEach width (depth + 1) block ++ text)
    use by simp [written]
    apply Word.isAtToken_line

mutual

/-- A line after its indentation is said, with its block. -/
theorem LogicalLine.says_stream {width depth : Nat} {text : List Char} {xs : List (Terminal × String)}
    {s : Scan} (hwidth : 0 < width) (line : LogicalLine Word) (h : Scan.Resumes width depth text xs)
    (hrest : List.replicate (depth * width) ' ' ++ s.rest = line.written width depth ++ text)
    (hblocks : s.blocks = Scan.openBlocks width depth) :
  s.Says (line.stream Word.entry Terminal.entry ++ xs)
  := by
  cases line with
  | mk first others block =>
    rw [written, List.append_assoc, List.append_cancel_left_eq, List.append_assoc] at hrest
    rw [stream, List.append_assoc]
    apply Scan.says_line first others hrest
    intro next hnext hopen hlast
    apply saysFromLine_streamBlock hwidth block h hnext (hopen.trans hblocks) hlast

/-- The lines of a block are said, between its marks. -/
theorem LogicalLine.saysFromLine_streamBlock {width depth : Nat} {text : List Char}
    {xs : List (Terminal × String)} {s : Scan} (hwidth : 0 < width) (block : List (LogicalLine Word))
    (h : Scan.Resumes width depth text xs) (hrest : s.rest = writtenEach width (depth + 1) block ++ text)
    (hblocks : s.blocks = Scan.openBlocks width depth) (hlast : s.last = some .endOfLine) :
  s.SaysFromLine (streamBlock Word.entry Terminal.entry block ++ xs)
  := by
  cases block with
  | nil => apply h s 0 hrest hblocks (Scan.endLogicalLine_of_endOfLine hlast)
  | cons line lines =>
    have hlines := resumes_streamEach hwidth lines h.succ
    rw [writtenEach, List.append_assoc] at hrest
    obtain ⟨rest, hwritten, hat⟩ :=
      exists_written width (depth + 1) line (writtenEach width (depth + 1) lines ++ text)
    obtain ⟨mark, next, hmeasures, hmark, hnext, hopen⟩ :=
      Scan.exists_measures_of_opens hwidth (hrest.trans hwritten) hat hblocks (by simp [hlast])
    have hsays := says_stream hwidth line hlines (hnext ▸ hwritten.symm) hopen
    refine ⟨[mark], next, _, hmeasures, hsays, ?_⟩
    simp [streamBlock, hmark]

/-- Some lines are said before what comes after them. -/
theorem LogicalLine.resumes_streamEach {width depth : Nat} {text : List Char}
    {xs : List (Terminal × String)} (hwidth : 0 < width) (lines : List (LogicalLine Word))
    (h : Scan.Resumes width depth text xs) :
  Scan.Resumes width depth (writtenEach width depth lines ++ text)
    (streamEach Word.entry Terminal.entry lines ++ xs)
  := by
  cases lines with
  | nil => apply h
  | cons line lines =>
    have hlines := resumes_streamEach hwidth lines h
    intro s extra hrest hblocks _
    rw [writtenEach, List.append_assoc] at hrest
    obtain ⟨rest, hwritten, hat⟩ :=
      exists_written width depth line (writtenEach width depth lines ++ text)
    obtain ⟨marks, next, hmeasures, hmarks, hnext, hopen⟩ :=
      Scan.exists_measures_of_closes hwidth (hrest.trans hwritten) hat hblocks
    have hsays := says_stream hwidth line hlines (hnext ▸ hwritten.symm) hopen
    refine ⟨marks, next, _, hmeasures, hsays, ?_⟩
    simp [streamEach, hmarks]

end

/-- Lines of words, written with some blanks for each block, are read back as they are. -/
theorem ofSource_writtenEach (width : Nat) (hwidth : 0 < width) (lines : List (LogicalLine Word))
    (file : String) :
  ∃ tokens, Token.ofSource (String.ofList (writtenEach width 0 lines)) file = .ok tokens
    ∧ tokens.map Token.entry = streamEach Word.entry Terminal.entry lines ++ [(.eof, "EOF")]
  := by
  have hresumes := resumes_streamEach hwidth lines (Scan.resumes_nil width)
  rw [List.append_nil] at hresumes
  obtain ⟨marks, next, ys, hmarks, ⟨found, hyields, rfl⟩, hys⟩ :=
    hresumes (Scan.ofText (writtenEach width 0 lines)) 0 rfl rfl rfl
  obtain ⟨rfl, rfl⟩ := hmarks.eq_of_fresh rfl rfl
  use found.map (Token.ofLexeme file)
  constructor
  · apply Token.ofSource_eq_ok_iff.mpr
    use found
    rw [String.toList_ofList]
    use Lexeme.ofText_eq_ok_iff.mpr ⟨hmarks, hyields⟩
  · rw [List.map_map]
    apply hys

/-- A block in a block, and a literal with a quote, a backslash and a newline in it. -/
def nestedLines : List (LogicalLine Word) :=
  let name : Word := ⟨.identifier, "or_2", by decide, by intro other; cases other <;> decide⟩
  let number : Word := ⟨.number, "10", .whole (by simp [IsDigits])⟩
  let literal : Word := .literal "\"\\\n //é"
  let inner : LogicalLine Word := .mk (.fixed .not "!" (by decide)) [.fixed .notEqual "!=" (by decide)] []
  let outer : LogicalLine Word := .mk (.fixed .printWord "print" (by decide)) [number] [inner]
  [.mk (.fixed .not "not" (by decide)) [name] [outer], .mk literal [.fixed .divide "/" (by decide)] []]

/-- The lines as they are written, and what is read back. -/
theorem ofSource_nestedLines :
  0 < 2 ∧ writtenEach 2 0 nestedLines
    = "not or_2\n  print 10\n    ! !=\n\"\\\"\\\\\n //é\" /\n".toList
  ∧ ∃ tokens, Token.ofSource (String.ofList (writtenEach 2 0 nestedLines)) "text" = .ok tokens
    ∧ tokens.map Token.entry = [(.not, "not"), (.identifier, "or_2"), (.endOfLine, ""), (.indent, ""),
      (.printWord, "print"), (.number, "10"), (.endOfLine, ""), (.indent, ""), (.not, "!"), (.notEqual, "!="),
      (.endOfLine, ""), (.dedent, ""), (.endOfLine, ""), (.dedent, ""), (.endOfLine, ""),
      (.string, "\"\\\n //é"), (.divide, "/"), (.endOfLine, ""), (.eof, "EOF")]
  := by
  use by decide, by decide +kernel
  obtain ⟨tokens, htokens, hentries⟩ := ofSource_writtenEach 2 (by decide) nestedLines "text"
  use tokens, htokens, hentries

end LayoutGrammar
