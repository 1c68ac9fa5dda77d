import LayoutGrammar.Proofs.Scan.Languages
import LayoutGrammar.Proofs.Scan.Tiling
import Mathlib.Data.List.Basic

/-!
# The seam after a line

What a scan does with a text that ends in a newline does not depend on what comes after it.  No pattern goes
on over a newline but the literal, and a literal that is closed goes no further than its closing quote
(`Pattern.first?_append`).  So the scan of a longer text makes the same steps (`Scan.Moves.extend`), up to the
last newline.  From there on it finds what is found from the start of a line on (`Scan.fromLine`), and a scan
that is at the start of a line with nothing left closes its blocks before a token there as it does at the end
of the text (`Scan.IsAtLineStart`).
-/

namespace LayoutGrammar

namespace Pattern

/-! ## Classes of characters -/

section

variable {isIn : Char → Bool} {text : List Char} (hin : isIn '\n' = false) (hmem : '\n' ∈ text)
include hin hmem

theorem mem_dropWhile_of_mem :
  '\n' ∈ text.dropWhile isIn
  := by
  rw [← List.takeWhile_append_dropWhile (p := isIn) (l := text), List.mem_append] at hmem
  apply hmem.resolve_left
  intro htake
  simpa [hin] using List.mem_takeWhile_imp htake

/-- The characters of a class at the start of a text stop at its end of a line. -/
theorem span_append_of_mem (others : List Char) :
  (text ++ others).takeWhile isIn = text.takeWhile isIn
    ∧ (text ++ others).dropWhile isIn = text.dropWhile isIn ++ others
  := by
  have hne := List.ne_nil_of_mem (mem_dropWhile_of_mem hin hmem)
  have hstop : ∀ c ∈ (text.dropWhile isIn ++ others).head?, isIn c = false := by
    rw [List.head?_append_of_ne_nil _ hne]
    apply Text.stop_dropWhile
  have hin : ∀ c ∈ text.takeWhile isIn, isIn c = true := fun c hc => List.mem_takeWhile_imp hc
  have hspan := Text.span_append hin hstop
  rwa [← List.append_assoc, List.takeWhile_append_dropWhile] at hspan

end

/-! ## Patterns -/

/-- A pattern that does not match literals matches nothing that goes on after a newline. -/
theorem prefix_of_matches {pattern : Pattern} (hpattern : pattern ∈ table) (hliteral : pattern ≠ literal)
    {text others other : List Char} (hmem : '\n' ∈ text) (hother : other <+: text ++ others)
    (hmatch : pattern.Matches other) :
  other <+: text
  := by
  rcases List.prefix_or_prefix_of_prefix hother (List.prefix_append text others) with hle | hle
  · apply hle
  · have hnewline := hle.subset hmem
    by_cases heq : pattern = newline
    · subst heq
      obtain rfl : other = ['\n'] := hmatch
      have hlength := List.length_pos_iff.mpr (List.ne_nil_of_mem hmem)
      obtain rfl := hle.eq_of_length_le hlength
      apply List.prefix_rfl
    · apply absurd hnewline (newline_not_mem_of_matches hpattern hmatch heq hliteral)

/-- What comes first in a text is decided by the end of the line, unless it is a literal that is not closed. -/
theorem first?_append {text : List Char} (hmem : '\n' ∈ text) (others : List Char) {pattern : Pattern}
    {piece rest : List Char} (h : first? text = some (pattern, piece, rest)) :
  first? (text ++ others) = some (pattern, piece, rest ++ others)
  := by
  apply first?_append_of_forall h
  intro hquote q hq other hother hmatch
  have hliteral : q ≠ literal := by
    rintro rfl
    obtain ⟨inner, -, rfl⟩ := hmatch
    obtain ⟨c, text, rfl⟩ := List.exists_cons_of_ne_nil (List.ne_nil_of_mem hmem)
    obtain ⟨rfl, -⟩ := List.cons_prefix_cons.mp hother
    apply hquote rfl
  have hprefix := prefix_of_matches hq hliteral hmem hother hmatch
  exact ⟨⟨other, hprefix, hmatch⟩, fun _ => hprefix⟩

/-- What comes first in a text does not end in a newline, unless it is the newline. -/
theorem getLast?_ne_newline {pattern : Pattern} {text piece rest : List Char}
    (h : first? text = some (pattern, piece, rest)) (hpattern : pattern ≠ .newline) :
  piece.getLast? ≠ some '\n'
  := by
  by_cases hliteral : pattern = .literal
  · subst hliteral
    obtain ⟨inner, rfl⟩ := exists_of_literal (split?_of_first? h).2
    rw [List.getLast?_concat]
    decide
  · apply mt List.mem_of_getLast?
    obtain ⟨htable, hsplit⟩ := split?_of_first? h
    apply newline_not_mem_of_matches htable (matches_of_split? hsplit) hpattern hliteral

end Pattern

/-! ## The text of a line -/

namespace Scan

variable {s next : Scan} {marks : List Lexeme}

/-- After the indentation of a line the text that is left is the rest of the line. -/
theorem Measures.rest_eq (hmarks : s.Measures marks next) :
  next.rest = s.indented.rest
  := by
  cases hmarks <;> rfl

theorem Measures.offset_eq (hmarks : s.Measures marks next) :
  next.offset = s.indented.offset
  := by
  cases hmarks <;> rfl

/-- How the indentation of a line is measured depends only on its width and on whether the line is bare. -/
theorem Measures.withRest {t : Scan} {rest : List Char} (hmarks : s.Measures marks next)
    (hindented : t.indented = { s.indented with rest := rest }) (hwidth : t.width = s.width)
    (hbare : isBare rest = isBare s.indented.rest) :
  t.Measures marks { next with rest := rest }
  := by
  have hlast : t.last = s.last := by
    show t.indented.last = s.indented.last
    rw [hindented]
  have hblocks : t.blocks = s.blocks := by
    show t.indented.blocks = s.indented.blocks
    rw [hindented]
  have hbare' : isBare t.indented.rest = isBare s.indented.rest := hindented ▸ hbare
  cases hmarks with
  | bare hb =>
    rw [← hindented]
    apply Measures.bare (hbare'.trans hb)
  | opens hb hdeeper hsome =>
    have hmeasures := Measures.opens (hbare'.trans hb) (hblocks ▸ hwidth ▸ hdeeper) (hlast ▸ hsome)
    rw [hindented, hwidth, hblocks] at hmeasures
    apply hmeasures
  | closes hb hsplit hclosed hbelow =>
    have hmeasures := Measures.closes (hbare'.trans hb) (hblocks.trans hsplit) (hwidth ▸ hclosed)
      (hwidth ▸ hbelow)
    rw [hindented, hlast] at hmeasures
    apply hmeasures

end Scan

/-! ## Scans of longer texts -/

namespace Scan

/-- A scan with more text at the end. -/
def extend (s : Scan) (others : List Char) : Scan := { s with rest := s.rest ++ others }

section

variable {s next : Scan} {marks found : List Lexeme} (hend : s.rest.getLast? = some '\n')
  (others : List Char)

theorem isBare_append {text : List Char} (hend : text.getLast? = some '\n') :
  isBare (text ++ others) = isBare text
  := by
  match text with
  | [] => cases hend
  | [c] =>
    cases hend
    rfl
  | c :: d :: text =>
    simp only [List.cons_append]
    unfold isBare
    split <;> split <;> simp_all

include hend

theorem getLast?_indented :
  s.indented.rest.getLast? = some '\n'
  := by
  have hin : isIndentation '\n' = false := rfl
  have hmem := Pattern.mem_dropWhile_of_mem hin (List.mem_of_getLast? hend)
  rw [← List.takeWhile_append_dropWhile (p := isIndentation) (l := s.rest),
    List.getLast?_append_of_ne_nil _ (List.ne_nil_of_mem hmem)] at hend
  apply hend

theorem indented_extend :
  (s.extend others).indented = s.indented.extend others
  := by
  have hin : isIndentation '\n' = false := rfl
  obtain ⟨htake, hdrop⟩ := Pattern.span_append_of_mem hin (List.mem_of_getLast? hend) others
  simp only [indented, extend, skip]
  rw [htake, hdrop]

theorem width_extend :
  (s.extend others).width = s.width
  := by
  have hin : isIndentation '\n' = false := rfl
  simp only [width, extend]
  rw [(Pattern.span_append_of_mem hin (List.mem_of_getLast? hend) others).1]

/-- The indentation of a line is measured alike when there is more text after it. -/
theorem Measures.extend (hmarks : s.Measures marks next) :
  (s.extend others).Measures marks (next.extend others) ∧ next.rest.getLast? = some '\n'
  := by
  have hlast := getLast?_indented hend
  have hextended := hmarks.withRest (indented_extend hend others) (width_extend hend others)
    (isBare_append others hlast)
  have hnext : next.extend others = { next with rest := s.indented.rest ++ others } := by
    rw [Scan.extend, hmarks.rest_eq]
  rw [hnext, hmarks.rest_eq]
  use hextended, hlast

omit hend in
theorem endLogicalLine_extend (s : Scan) :
  (s.extend others).endLogicalLine = (s.endLogicalLine.1, s.endLogicalLine.2.extend others)
  := by
  unfold endLogicalLine
  cases hlast : s.last with
  | none => simp [Scan.extend, hlast]
  | some kind => cases kind <;> simp [Scan.extend, hlast, mark]

/-- A step is made alike when there is more text at the end, unless it is over the last newline. -/
theorem Moves.extend (hmove : s.Moves found next) (hmore : s.rest ≠ ['\n']) :
  (s.extend others).Moves found (next.extend others) ∧ next.rest.getLast? = some '\n'
  := by
  have hmem := List.mem_of_getLast? hend
  -- What is left after a piece ends in the newline too, if the piece does not.
  have hrest {pattern : Pattern} {piece rest : List Char}
      (hfirst : Pattern.first? s.rest = some (pattern, piece, rest)) (hne : rest ≠ []) :
      rest.getLast? = some '\n' := by
    rwa [← (Pattern.append_of_first? hfirst).1, List.getLast?_append_of_ne_nil _ hne] at hend
  have hleft {pattern : Pattern} {piece rest : List Char}
      (hfirst : Pattern.first? s.rest = some (pattern, piece, rest)) (hpattern : pattern ≠ .newline) :
      rest ≠ [] := by
    rintro rfl
    apply Pattern.getLast?_ne_newline hfirst hpattern
    rw [← hend, ← (Pattern.append_of_first? hfirst).1, List.append_nil]
  cases hmove with
  | @token pattern piece rest value kind hfirst htoken =>
    have hpattern : pattern ≠ .newline := by
      rintro rfl
      cases htoken
    use .token (Pattern.first?_append hmem others hfirst) htoken
    apply hrest hfirst (hleft hfirst hpattern)
  | @space pattern piece rest hfirst hspace =>
    have hpattern : pattern ≠ .newline := by
      rcases hspace with rfl | rfl <;> decide
    use .space (Pattern.first?_append hmem others hfirst) hspace
    apply hrest hfirst (hleft hfirst hpattern)
  | @newline piece rest marks _ hfirst hmarks =>
    have hne : rest ≠ [] := by
      rintro rfl
      apply hmore (Pattern.first?_of_newline hfirst).2
    obtain ⟨hmeasures, hlast⟩ := Measures.extend (hrest hfirst hne) others hmarks
    have hmore : (s.extend others).Moves ((s.extend others).endLogicalLine.1 ++ marks)
        (next.extend others) := by
      apply Moves.newline (Pattern.first?_append hmem others hfirst)
      rw [endLogicalLine_extend]
      apply hmeasures
    rw [endLogicalLine_extend] at hmore
    use hmore

end

/-! ## The line after the seam -/

section

variable {s next : Scan} {marks found : List Lexeme}

theorem Measures.forall_pos (hmarks : s.Measures marks next) (hpos : ∀ block ∈ s.blocks, 0 < block) :
  ∀ block ∈ next.blocks, 0 < block
  := by
  cases hmarks with
  | bare => apply hpos
  | opens _ hdeeper =>
    apply List.forall_mem_cons.mpr ⟨Nat.zero_lt_of_lt hdeeper, hpos⟩
  | closes _ hblocks =>
    intro block hblock
    apply hpos
    simp [hblocks, hblock]

theorem blocks_endLogicalLine (s : Scan) :
  s.endLogicalLine.2.blocks = s.blocks
  := by
  unfold endLogicalLine
  split <;> rfl

/-- No block that a step leaves open has width zero. -/
theorem Moves.forall_pos (hmove : s.Moves found next) (hpos : ∀ block ∈ s.blocks, 0 < block) :
  ∀ block ∈ next.blocks, 0 < block
  := by
  cases hmove with
  | token | space => apply hpos
  | newline _ hmarks =>
    apply hmarks.forall_pos
    rw [skip, blocks_endLogicalLine]
    apply hpos

/-- Where a line is at its first token, there is no indentation. -/
theorem indented_of_isAtToken (h : IsAtToken s.rest) :
  s.indented = s ∧ s.width = 0
  := by
  obtain ⟨rest, offset, last, blocks⟩ := s
  cases rest with
  | nil => cases h.isBare_eq
  | cons c rest => simp [indented, width, skip, h.not_indented c rfl]

/-- What is found from the first token of a line on does not depend on what came before it. -/
theorem lexemes_of_isAtToken (h : IsAtToken s.rest) (last : Option Terminal) :
  { s with last := last }.lexemes = s.lexemes
  := by
  have hne : s.rest ≠ [] := by
    intro hnil
    cases hnil ▸ h.isBare_eq
  have hstep : { s with last := last }.step = s.step := by
    rw [step_eq, step_eq]
    cases hfirst : Pattern.first? s.rest with
    | none => rfl
    | some found =>
      obtain ⟨pattern, piece, rest⟩ := found
      obtain ⟨kind, value, htoken⟩ := h.exists_token? hfirst
      cases pattern with
      | newline => cases htoken
      | _ => simp only [htoken, skip]
  rw [lexemes_eq (s := { s with last := last }) hne, lexemes_eq hne, hstep]

/-- After the end of a line there is no other one to mark. -/
theorem endLogicalLine_of_last (h : s.last = next.endLogicalLine.2.last) :
  s.endLogicalLine = ([], s)
  := by
  have hlast : next.endLogicalLine.2.last = none ∨ next.endLogicalLine.2.last = some .endOfLine := by
    unfold endLogicalLine
    split <;> simp_all
  rw [← h] at hlast
  rcases hlast with hnone | hend
  · apply endLogicalLine_of_none hnone
  · apply endLogicalLine_of_endOfLine hend

/-- A line at its first token that is not indented closes all blocks. -/
theorem measures_of_isAtToken (h : IsAtToken s.rest) (hpos : ∀ block ∈ s.blocks, 0 < block) :
  s.Measures (s.blockEnds s.blocks.length)
    { s with last := if s.blocks = [] then s.last else some .endOfLine, blocks := [] }
  := by
  obtain ⟨hindented, hwidth⟩ := indented_of_isAtToken h
  have hmarks : s.Measures (s.indented.blockEnds s.blocks.length)
      { s.indented with last := if s.blocks = [] then s.last else some .endOfLine, blocks := [] } := by
    apply Measures.closes
    · rw [hindented, h.isBare_eq]
    · apply (List.append_nil s.blocks).symm
    · rwa [hwidth]
    · rw [hwidth]
      rfl
  rwa [hindented] at hmarks

end

/-! ## From line to line -/

/-- What is found from the start of a line on. -/
def fromLine (s : Scan) : Except Fault (List Lexeme) :=
  s.indentLine.bind fun result => result.2.lexemes.map (result.1 ++ ·)

section

variable {s next : Scan} {marks : List Lexeme} {rest : List Char}

theorem fromLine_of_measures (hmarks : s.Measures marks next) :
  s.fromLine = next.lexemes.map (marks ++ ·)
  := by
  rw [fromLine, indentLine_eq_ok_iff.mpr hmarks]
  rfl

/-- At a newline the end of the line is marked, before what is found from the next line on. -/
theorem lexemes_eq_fromLine (hrest : s.rest = '\n' :: rest) :
  s.lexemes = (s.endLogicalLine.2.skip ['\n'] rest).fromLine.map (s.endLogicalLine.1 ++ ·)
  := by
  have hne : s.rest ≠ [] := by simp [hrest]
  have hfirst := Pattern.first?_newline rest
  rw [← hrest] at hfirst
  rw [lexemes_eq hne, fromLine]
  simp only [step_eq, hfirst]
  cases (s.endLogicalLine.2.skip ['\n'] rest).indentLine with
  | error fault => rfl
  | ok result =>
    show result.2.lexemes.map _ = (result.2.lexemes.map _).map _
    cases result.2.lexemes <;> simp [Except.map]

/-- Whether a scan is at the start of a line, at the end of a text of some bytes. -/
structure IsAtLineStart (bytes : Nat) (line : Scan) : Prop where
  /-- Nothing is left of the text. -/
  rest_eq : line.rest = []
  /-- All of it has been scanned. -/
  offset_eq : line.offset = bytes
  /-- The end of the line before is marked, if there was a token at all. -/
  ended : line.endLogicalLine = ([], line)
  /-- No open block has width zero. -/
  pos : ∀ block ∈ line.blocks, 0 < block

/-- The lexemes of a text are found from the start of its first line on. -/
theorem ofText_eq_fromLine (text : List Char) :
  Lexeme.ofText text = (ofText text).fromLine
  := by
  rw [Lexeme.ofText, fromLine]
  cases (ofText text).indentLine with
  | error fault => rfl
  | ok result =>
    show result.2.lexemes.bind _ = result.2.lexemes.map _
    cases result.2.lexemes <;> rfl

variable {bytes : Nat} {line : Scan}

/-- At the end of a text the blocks that are open are closed. -/
theorem IsAtLineStart.fromLine_nil (h : line.IsAtLineStart bytes) :
  line.fromLine = .ok (line.blockEnds line.blocks.length ++ [⟨.eof, "EOF", bytes, bytes⟩])
  := by
  have hindented : line.indented = line := by
    obtain ⟨rest, offset, last, blocks⟩ := line
    obtain rfl : rest = [] := h.rest_eq
    rfl
  have hmarks : line.Measures [] line.indented := by
    apply Measures.bare
    rw [hindented, h.rest_eq]
    rfl
  rw [fromLine_of_measures hmarks, hindented, lexemes_of_nil h.rest_eq, finish, h.ended, h.offset_eq]
  rfl

/-- Before a line at its first token they are closed as well. -/
theorem IsAtLineStart.fromLine_of_isAtToken (h : line.IsAtLineStart bytes) {others : List Char}
    (hothers : IsAtToken others) :
  (line.extend others).fromLine
    = (Scan.mk others bytes none []).lexemes.map (line.blockEnds line.blocks.length ++ ·)
  := by
  have hrest : (line.extend others).rest = others := by simp [extend, h.rest_eq]
  have hmarks := measures_of_isAtToken (s := line.extend others) (hrest.symm ▸ hothers) h.pos
  rw [fromLine_of_measures hmarks]
  congr 1
  have hlexemes := lexemes_of_isAtToken (s := ⟨others, bytes, none, []⟩) hothers
    (if line.blocks = [] then line.last else some .endOfLine)
  simpa [extend, h.rest_eq, h.offset_eq] using hlexemes

end

end Scan
end LayoutGrammar
