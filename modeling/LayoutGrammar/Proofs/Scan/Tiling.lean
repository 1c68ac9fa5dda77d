import LayoutGrammar.Proofs.Scan.Pieces

/-!
# Lexemes tile the text

The lexemes of a text and the gaps between them make up the text, and the gaps hold only spacing, newlines
and comments (`Lossless`).  What carries this is `Tiles`: from any place in a scan on, what is found tiles
the text that is left, and after a token of a line a newline comes with the mark of the end of the line.
-/

namespace LayoutGrammar

/-! ## Parts of a text -/

namespace Text

/-- Whether a piece stands in a text between two offsets, which are those of characters, and what is the rest
of the text then. -/
structure Between (text : List Char) (start stop : Nat) (piece rest : List Char) : Prop where
  /-- From the first offset on there is the piece. -/
  after_start : after? start text = some (piece ++ rest)
  /-- From the second one on there is the rest. -/
  after_stop : after? stop text = some rest

theorem after?_add {text piece rest : List Char} {offset : Nat}
    (h : after? offset text = some (piece ++ rest)) :
  after? (offset + size piece) text = some rest
  := by
  obtain ⟨front, rfl, rfl⟩ := after?_eq_some_iff.mp h
  apply after?_eq_some_iff.mpr
  use front ++ piece
  simp

theorem between_of_after? {text piece rest : List Char} {offset : Nat}
    (h : after? offset text = some (piece ++ rest)) :
  Between text offset (offset + size piece) piece rest
  := ⟨h, after?_add h⟩

/-- A piece is as long as the distance between its offsets. -/
theorem Between.stop_eq {text piece rest : List Char} {start stop : Nat}
    (h : Between text start stop piece rest) :
  stop = start + size piece
  := by
  obtain ⟨front, rfl, rfl⟩ := after?_eq_some_iff.mp h.after_start
  obtain ⟨others, heq, rfl⟩ := after?_eq_some_iff.mp h.after_stop
  rw [← List.append_assoc] at heq
  rw [← List.append_cancel_right heq, size_append]

theorem Between.stop_le {text piece rest : List Char} {start stop : Nat}
    (h : Between text start stop piece rest) :
  stop ≤ size text
  := by
  obtain ⟨front, rfl, rfl⟩ := after?_eq_some_iff.mp h.after_stop
  rw [size_append]
  omega

/-- A text at the end of a line: the end of the whole text, or a newline. -/
def IsAtLineEnd (text : List Char) : Prop := ∀ c ∈ text.head?, c = '\n'

theorem IsAtLineEnd.mem_or {gap rest : List Char} (h : IsAtLineEnd (gap ++ rest)) :
  '\n' ∈ gap ∨ IsAtLineEnd rest
  := by
  cases gap with
  | nil => apply Or.inr h
  | cons c gap =>
    obtain rfl := h c rfl
    simp

/-- What may stand between the tokens of a text, before the rest of it: spaces, tabs, carriage returns,
newlines, and comments up to the end of their lines.  No comment holds a newline. -/
inductive IsGap (rest : List Char) : List Char → Prop
  /-- Nothing at all. -/
  | nil : IsGap rest []
  /-- A blank character. -/
  | blank {c : Char} {gap : List Char} (hc : c ∈ [' ', '\t', '\r', '\n']) (more : IsGap rest gap) :
      IsGap rest (c :: gap)
  /-- A comment. -/
  | comment {body gap : List Char} (hbody : '\n' ∉ body) (hend : IsAtLineEnd (gap ++ rest))
      (more : IsGap rest gap) : IsGap rest ('/' :: '/' :: body ++ gap)

theorem IsGap.append {first second rest : List Char} (h : IsGap (second ++ rest) first)
    (hsecond : IsGap rest second) :
  IsGap rest (first ++ second)
  := by
  induction h with
  | nil => apply hsecond
  | blank hc _ ih => apply IsGap.blank hc ih
  | @comment body gap hbody hend _ ih =>
    rw [← List.append_assoc] at hend
    simpa using IsGap.comment hbody hend ih

theorem isGap_of_forall {gap : List Char} (rest : List Char) (h : ∀ c ∈ gap, c ∈ [' ', '\t', '\r', '\n']) :
  IsGap rest gap
  := by
  induction gap with
  | nil => apply IsGap.nil
  | cons c gap ih =>
    obtain ⟨hc, hgap⟩ := List.forall_mem_cons.mp h
    apply IsGap.blank hc (ih hgap)

theorem isGap_of_blanks {text piece rest : List Char}
    (h : Pattern.first? text = some (.blanks, piece, rest)) :
  IsGap rest piece ∧ '\n' ∉ piece
  := by
  have hspacing : ∀ c ∈ piece, c = ' ' ∨ c = '\t' ∨ c = '\r' := by
    intro c hc
    simpa [Pattern.isSpacing, or_assoc] using Pattern.isSpacing_of_blanks h c hc
  constructor
  · apply isGap_of_forall
    intro c hc
    rcases hspacing c hc with rfl | rfl | rfl <;> simp
  · intro hmem
    simpa using hspacing _ hmem

theorem isGap_of_comment {text piece rest : List Char}
    (h : Pattern.first? text = some (.comment, piece, rest)) :
  IsGap rest piece ∧ '\n' ∉ piece
  := by
  obtain ⟨body, rfl, hbody, hend⟩ := Pattern.exists_of_comment h
  constructor
  · have hgap : IsGap rest ('/' :: '/' :: body ++ []) :=
      IsGap.comment hbody (by simpa [IsAtLineEnd] using hend) IsGap.nil
    simpa using hgap
  · simpa using hbody

end Text

open Text

/-! ## Tilings -/

/-- Whether a lexeme is what a piece of text stands for.  A mark takes no text; a literal is in double
quotes; the value of any other token is the piece. -/
structure Lexeme.Stands (l : Lexeme) (piece : List Char) : Prop where
  /-- Marks are the lexemes that take no text. -/
  isMark_iff : l.kind.isMark = true ↔ piece = []
  /-- A literal is in double quotes. -/
  quoted : l.kind = .string → ∃ inner, piece = '"' :: inner ++ ['"']
  /-- The value of any other token is what stands there. -/
  value_eq : l.kind.isMark = false → l.kind ≠ .string → l.value = String.ofList piece

/-- A mark stands for no text. -/
theorem Lexeme.stands_mark {kind : Terminal} (hkind : kind.isMark = true) (value : String)
    (offset : Nat) :
  Lexeme.Stands ⟨kind, value, offset, offset⟩ []
  := by
  constructor
  · simpa using hkind
  · rintro rfl
    cases hkind
  · simp [hkind]

/-- A token of a pattern stands for the piece that the pattern matches. -/
theorem Lexeme.stands_of_token? {pattern : Pattern} {text piece rest value : List Char} {kind : Terminal}
    (hfirst : Pattern.first? text = some (pattern, piece, rest))
    (htoken : pattern.token? piece = some (kind, value)) (start stop : Nat) :
  Lexeme.Stands ⟨kind, String.ofList value, start, stop⟩ piece
  := by
  obtain ⟨-, hne⟩ := Pattern.append_of_first? hfirst
  obtain ⟨hkind, hvalue⟩ := Pattern.of_token? hfirst htoken
  constructor
  · simp [hkind, hne]
  · intro hstring
    simpa [show kind = .string from hstring] using hvalue
  · intro _ hstring
    rw [if_neg hstring] at hvalue
    rw [hvalue]

/-- How lexemes tile a text from an offset on.  On a line that has a token already, a newline comes with the
mark of the end of the line, and this mark comes nowhere but there and at the end of the text. -/
inductive Tiles : (inLine : Bool) → (offset : Nat) → (text : List Char) → List Lexeme → Prop
  /-- The end of the text. -/
  | eof {inLine : Bool} {offset : Nat} {gap : List Char} (hgap : IsGap [] gap) :
      Tiles inLine offset gap [⟨.eof, "EOF", offset + size gap, offset + size gap⟩]
  /-- A lexeme after a gap. -/
  | lexeme {inLine : Bool} {offset : Nat} {gap piece rest : List Char} {l : Lexeme} {others : List Lexeme}
      (hgap : IsGap (piece ++ rest) gap) (hstart : l.start = offset + size gap)
      (hstop : l.stop = l.start + size piece) (hstands : l.Stands piece)
      (hpiece : ∀ c ∈ piece.head?, c ≠ '\n')
      (hline : inLine = true → '\n' ∉ gap ∧ (l.kind.isMark = true → l.kind = .endOfLine ∧ IsAtLineEnd rest))
      (more : Tiles (!l.kind.isMark) l.stop rest others) :
      Tiles inLine offset (gap ++ piece ++ rest) (l :: others)

section

variable {inLine : Bool} {offset : Nat} {rest : List Char} {found : List Lexeme}

/-- A gap may come before what is tiled. -/
theorem Tiles.skip {gap : List Char} (hgap : IsGap rest gap) (hline : inLine = true → '\n' ∉ gap)
    (h : Tiles inLine (offset + size gap) rest found) :
  Tiles inLine offset (gap ++ rest) found
  := by
  cases h with
  | @eof _ _ last hlast =>
    rw [Nat.add_assoc, ← size_append]
    apply Tiles.eof (IsGap.append (by simpa using hgap) hlast)
  | @lexeme _ _ next piece rest l others hnext hstart hstop hstands hpiece hmore more =>
    rw [List.append_assoc] at hgap
    have hlexeme : Tiles inLine offset (gap ++ next ++ piece ++ rest) (l :: others) :=
      Tiles.lexeme (hgap.append hnext) (by simpa [Nat.add_assoc] using hstart) hstop hstands hpiece
        (fun h => by simpa [hline h] using hmore h) more
    simpa using hlexeme

/-- A lexeme may come right away. -/
theorem Tiles.cons {piece : List Char} {l : Lexeme} (hstart : l.start = offset)
    (hstop : l.stop = l.start + size piece) (hstands : l.Stands piece)
    (hpiece : ∀ c ∈ piece.head?, c ≠ '\n')
    (hline : inLine = true → l.kind.isMark = true → l.kind = .endOfLine ∧ IsAtLineEnd rest)
    (more : Tiles (!l.kind.isMark) l.stop rest found) :
  Tiles inLine offset (piece ++ rest) (l :: found)
  := by
  have hlexeme : Tiles inLine offset ([] ++ piece ++ rest) (l :: found) :=
    Tiles.lexeme IsGap.nil hstart hstop hstands hpiece (fun h => ⟨by simp, hline h⟩) more
  simpa using hlexeme

/-- A mark may come before what is tiled, if no token is on the line yet. -/
theorem Tiles.mark {kind : Terminal} (hkind : kind.isMark = true) (value : String)
    (h : Tiles false offset rest found) :
  Tiles false offset rest (⟨kind, value, offset, offset⟩ :: found)
  := by
  apply Tiles.cons rfl rfl (Lexeme.stands_mark hkind value offset) (by simp) (by simp)
  simpa [hkind] using h

end

/-! ## Scans -/

namespace Scan

variable {s next : Scan} {found others marks : List Lexeme}

/-- Whether there is a token on the line of a scan. -/
def inLine (s : Scan) : Bool := s.last.any fun kind => !kind.isMark

theorem isAtLineEnd_newline (rest : List Char) : IsAtLineEnd ('\n' :: rest) := by
  simp [IsAtLineEnd]

/-- The mark of the end of a line may come before what is tiled. -/
theorem tiles_endLogicalLine (hend : IsAtLineEnd s.rest)
    (h : Tiles s.endLogicalLine.2.inLine s.offset s.rest others) :
  Tiles s.inLine s.offset s.rest (s.endLogicalLine.1 ++ others)
  := by
  cases hlast : s.last with
  | none =>
    rw [endLogicalLine_of_none hlast] at h ⊢
    apply h
  | some kind =>
    by_cases hkind : kind.isMark = true
    · by_cases heq : kind = .endOfLine
      · subst heq
        rw [endLogicalLine_of_endOfLine hlast] at h ⊢
        apply h
      · have hline : s.inLine = false := by simp [inLine, hlast, hkind]
        have hmarked : s.endLogicalLine
            = ([s.mark .endOfLine], { s with last := some .endOfLine }) := by
          unfold endLogicalLine
          split <;> simp_all
        rw [hmarked] at h ⊢
        rw [hline]
        apply Tiles.mark rfl "" h
    · rw [Bool.not_eq_true] at hkind
      rw [endLogicalLine_of_isMark hlast hkind] at h ⊢
      apply Tiles.cons rfl rfl (Lexeme.stands_mark rfl "" s.offset) (by simp)
      · intro _ _
        use rfl
      · apply h

/-- The marks of the ends of blocks may come before what is tiled. -/
theorem tiles_blockEnds (h : Tiles false s.offset s.rest others) (count : Nat) :
  Tiles false s.offset s.rest (s.blockEnds count ++ others)
  := by
  induction count with
  | zero => simpa [blockEnds] using h
  | succ count ih =>
    rw [blockEnds, List.replicate_succ, List.flatten_cons]
    apply Tiles.mark rfl ""
    apply Tiles.mark rfl "" ih

/-- The indentation of a line is a gap. -/
theorem tiles_of_indented (h : Tiles false s.indented.offset s.indented.rest others) :
  Tiles false s.offset s.rest others
  := by
  have hgap : IsGap s.indented.rest (s.rest.takeWhile isIndentation) := by
    apply isGap_of_forall
    intro c hc
    rcases s.eq_of_mem_indentation c hc with rfl | rfl <;> simp
  have hskip := Tiles.skip hgap (by simp) h
  rwa [show s.rest.takeWhile isIndentation ++ s.indented.rest = s.rest from
    List.takeWhile_append_dropWhile] at hskip

theorem Measures.tiles (hmarks : s.Measures marks next) (hline : s.inLine = false)
    (h : Tiles next.inLine next.offset next.rest others) :
  Tiles false s.offset s.rest (marks ++ others)
  := by
  apply tiles_of_indented
  cases hmarks with
  | bare =>
    rw [show s.indented.inLine = false from hline] at h
    apply h
  | opens => apply Tiles.mark rfl "" h
  | @closes closed =>
    apply tiles_blockEnds
    by_cases hclosed : closed = []
    · rw [inLine, if_pos hclosed] at h
      rw [← hline]
      apply h
    · rw [inLine, if_neg hclosed] at h
      apply h

/-- After the mark of the end of a line there is no token on it. -/
theorem inLine_endLogicalLine (s : Scan) :
  s.endLogicalLine.2.inLine = false
  := by
  unfold endLogicalLine inLine
  split <;> simp_all [Terminal.isMark]

theorem offset_endLogicalLine (s : Scan) :
  s.endLogicalLine.2.offset = s.offset
  := by
  unfold endLogicalLine
  split <;> rfl

theorem Moves.tiles (hmove : s.Moves found next) (h : Tiles next.inLine next.offset next.rest others) :
  Tiles s.inLine s.offset s.rest (found ++ others)
  := by
  cases hmove with
  | @token pattern piece rest value kind hfirst htoken =>
    obtain ⟨happend, -⟩ := Pattern.append_of_first? hfirst
    have hstart := Pattern.ne_newline_of_token? hfirst htoken
    have hmark := (Pattern.of_token? hfirst htoken).1
    have hpiece : ∀ c ∈ piece.head?, c ≠ '\n' := by
      intro c hc
      apply hstart c
      rw [← happend]
      cases piece <;> simp_all
    rw [← happend]
    apply Tiles.cons rfl rfl (Lexeme.stands_of_token? hfirst htoken _ _) hpiece
    · intro _ hkind
      rw [hmark] at hkind
      contradiction
    · simpa [inLine, hmark, skip] using h
  | @space pattern piece rest hfirst hspace =>
    obtain ⟨happend, -⟩ := Pattern.append_of_first? hfirst
    rw [← happend]
    have hgap : IsGap rest piece ∧ '\n' ∉ piece := by
      rcases hspace with rfl | rfl
      · apply isGap_of_blanks hfirst
      · apply isGap_of_comment hfirst
    apply Tiles.skip hgap.1 (fun _ => hgap.2) h
  | @newline piece rest marks _ hfirst hmarks =>
    obtain ⟨rfl, hrest⟩ := Pattern.first?_of_newline hfirst
    have hmore := hmarks.tiles (inLine_endLogicalLine s) h
    rw [skip, offset_endLogicalLine] at hmore
    have hskip := Tiles.skip (isGap_of_forall rest (by simp)) (by simp) hmore
    rw [List.append_assoc]
    apply tiles_endLogicalLine
    · rw [hrest]
      apply isAtLineEnd_newline
    · rw [inLine_endLogicalLine, hrest]
      apply hskip

theorem Yields.tiles (h : s.Yields found) :
  Tiles s.inLine s.offset s.rest found
  := by
  induction h with
  | @finish s hrest =>
    rw [Scan.finish, List.append_assoc]
    apply tiles_endLogicalLine (by simp [hrest, IsAtLineEnd])
    rw [inLine_endLogicalLine]
    apply tiles_blockEnds
    rw [hrest]
    apply Tiles.eof IsGap.nil
  | move hmove _ ih => apply hmove.tiles ih

end Scan

theorem Lexeme.tiles_of_ofText {text : List Char} {found : List Lexeme}
    (h : Lexeme.ofText text = .ok found) :
  Tiles false 0 text found
  := by
  obtain ⟨-, hyields⟩ := Lexeme.ofText_eq_ok_iff.mp h
  apply Scan.tiles_of_indented (s := Scan.ofText text) hyields.tiles

end LayoutGrammar
