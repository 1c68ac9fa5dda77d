import LayoutGrammar.Proofs.Scan.Tiling
import Mathlib.Data.List.Forall2

/-!
# Scanning loses nothing

The tokens of a source and the gaps between them make up its text, in order (`Lossless`): every token stands
for the part of the text at its span, every gap holds spacing, newlines and comments only, and a newline in
a gap is told by the mark of the end of a line (`lossless_of_ofSource`).  The places that a scan goes through
are all at the ends of characters (`Scan.Reached.after?_eq`).
-/

namespace LayoutGrammar

open Text

/-- Whether a gap and a piece after it are what comes of a text with a lexeme. -/
def Lexeme.IsPart (text : List Char) (l : Lexeme) (part : List Char × List Char) : Prop :=
  ∃ rest, IsGap (part.2 ++ rest) part.1 ∧ Between text l.start l.stop part.2 rest ∧ l.Stands part.2

/-- How lexemes and the gaps between them make up a text. -/
structure Lossless (text : List Char) (lexemes : List Lexeme) : Prop where
  /-- Every lexeme stands for the piece of the text between its offsets. -/
  stands : ∀ l ∈ lexemes, ∃ piece rest, Between text l.start l.stop piece rest ∧ l.Stands piece
  /-- The offsets of a lexeme are in order, and just those of marks are the same. -/
  start_le_stop : ∀ l ∈ lexemes, l.start ≤ l.stop ∧ (l.start = l.stop ↔ l.kind.isMark = true)
  /-- There is a gap before the first lexeme. -/
  before : ∀ l ∈ lexemes.head?, ∃ gap rest, Between text 0 l.start gap rest ∧ IsGap rest gap
  /-- There is a gap from each lexeme to the next one. -/
  between : ∀ a b, [a, b] <:+: lexemes →
    a.stop ≤ b.start ∧ ∃ gap rest, Between text a.stop b.start gap rest ∧ IsGap rest gap
  /-- Between two tokens that are not marks there is the mark of the end of a line just when there is a
  newline, which is not in a comment as comments hold none. -/
  newline_iff : ∀ a marks b, a :: marks ++ [b] <:+: lexemes → a.kind.isMark = false →
    b.kind.isMark = false → (∀ m ∈ marks, m.kind.isMark = true) →
    ∃ gap rest, Between text a.stop b.start gap rest ∧ IsGap rest gap
      ∧ ('\n' ∈ gap ↔ ∃ m ∈ marks, m.kind = .endOfLine)
  /-- The end of the text comes last, after all of it. -/
  last : ∃ others, lexemes = others ++ [⟨.eof, "EOF", size text, size text⟩]
  /-- The gaps and the pieces, one of each for a lexeme, are all of the text. -/
  text_eq : ∃ parts : List (List Char × List Char), lexemes.Forall₂ (Lexeme.IsPart text) parts
    ∧ text = (parts.map fun part => part.1 ++ part.2).flatten

/-- A lexeme stands for a piece between offsets that are in order, and are the same for marks only. -/
theorem Lexeme.Stands.le_and_eq_iff {l : Lexeme} {text piece rest : List Char} (h : l.Stands piece)
    (hbetween : Between text l.start l.stop piece rest) :
  l.start ≤ l.stop ∧ (l.start = l.stop ↔ l.kind.isMark = true)
  := by
  rw [h.isMark_iff, hbetween.stop_eq]
  use Nat.le_add_right _ _
  constructor
  · intro hsize
    by_contra hne
    have := size_pos hne
    omega
  · rintro rfl
    simp

/-! ## What tiles a text makes it up -/

section

variable {text whole : List Char} {inLine : Bool} {offset : Nat} {l : Lexeme} {others found : List Lexeme}

/-- The first lexeme, and the gap before it. -/
theorem Tiles.head (h : Tiles inLine offset text (l :: others)) (hafter : after? offset whole = some text) :
  ∃ gap piece rest, Between whole offset l.start gap (piece ++ rest) ∧ IsGap (piece ++ rest) gap
    ∧ Between whole l.start l.stop piece rest ∧ l.Stands piece
  := by
  cases h with
  | eof hgap =>
    rw [← List.append_nil text] at hafter
    have hbetween := between_of_after? hafter
    have hstands : Lexeme.Stands ⟨.eof, "EOF", offset + size text, offset + size text⟩ [] :=
      Lexeme.stands_mark rfl _ _
    use text, [], [], hbetween, hgap, ⟨hbetween.after_stop, hbetween.after_stop⟩
  | @lexeme _ _ gap piece rest _ _ hgap hstart hstop hstands =>
    rw [List.append_assoc] at hafter
    have hbetween := between_of_after? hafter
    use gap, piece, rest
    rw [hstop, hstart]
    use hbetween, hgap, between_of_after? hbetween.after_stop

/-- What comes after the first lexeme is tiled from its end on. -/
theorem Tiles.tail (h : Tiles inLine offset text (l :: others)) (hothers : others ≠ [])
    (hafter : after? offset whole = some text) :
  ∃ rest, after? l.stop whole = some rest ∧ Tiles (!l.kind.isMark) l.stop rest others
  := by
  cases h with
  | eof => contradiction
  | @lexeme _ _ gap piece rest _ _ hgap hstart hstop _ _ _ more =>
    use rest
    rw [List.append_assoc] at hafter
    rw [hstop, hstart]
    use after?_add (after?_add hafter)
    rw [hstart] at hstop
    rwa [← hstop]

/-- What comes after some lexemes is tiled from some place on. -/
theorem Tiles.of_append {before : List Lexeme} (h : Tiles inLine offset text (before ++ l :: others))
    (hafter : after? offset whole = some text) :
  ∃ inLine' offset' text', after? offset' whole = some text' ∧ Tiles inLine' offset' text' (l :: others)
  := by
  induction before generalizing inLine offset text with
  | nil => use inLine, offset, text, hafter, h
  | cons _ before ih =>
    obtain ⟨rest, hrest, more⟩ := h.tail (by simp) hafter
    apply ih more hrest

/-- Every lexeme stands for a piece of the whole text. -/
theorem Tiles.exists_piece (h : Tiles inLine offset text found) (hafter : after? offset whole = some text)
    (hl : l ∈ found) :
  ∃ piece rest, Between whole l.start l.stop piece rest ∧ l.Stands piece
  := by
  obtain ⟨before, others, rfl⟩ := List.append_of_mem hl
  obtain ⟨_, _, _, hafter, hfrom⟩ := h.of_append hafter
  obtain ⟨-, piece, rest, -, -, hpiece⟩ := hfrom.head hafter
  use piece, rest

theorem Tiles.exists_last (h : Tiles inLine offset text found) (hafter : after? offset whole = some text) :
  ∃ others, found = others ++ [⟨.eof, "EOF", size whole, size whole⟩]
  := by
  induction h with
  | @eof _ offset gap =>
    obtain ⟨front, rfl, rfl⟩ := after?_eq_some_iff.mp hafter
    use []
    simp
  | @lexeme _ _ _ _ _ l _ _ hstart hstop _ _ _ _ ih =>
    rw [List.append_assoc] at hafter
    rw [hstop, hstart] at ih
    obtain ⟨others, rfl⟩ := ih (after?_add (after?_add hafter))
    use l :: others
    simp

/-- What is tiled is a gap and a piece for each lexeme. -/
theorem Tiles.exists_parts (h : Tiles inLine offset text found) (hafter : after? offset whole = some text) :
  ∃ parts : List (List Char × List Char), found.Forall₂ (Lexeme.IsPart whole) parts
    ∧ text = (parts.map fun part => part.1 ++ part.2).flatten
  := by
  induction h with
  | @eof _ offset gap hgap =>
    have hend : after? (offset + size gap) whole = some [] := after?_add (by simpa using hafter)
    use [(gap, [])]
    constructor
    · apply List.Forall₂.cons _ List.Forall₂.nil
      use [], hgap, ⟨hend, hend⟩
      apply Lexeme.stands_mark rfl
    · simp
  | @lexeme _ offset gap piece rest l _ hgap hstart hstop hstands _ _ _ ih =>
    rw [List.append_assoc] at hafter
    have hpiece : after? l.start whole = some (piece ++ rest) := hstart ▸ after?_add hafter
    have hrest : after? l.stop whole = some rest := hstop ▸ after?_add hpiece
    obtain ⟨parts, hparts, rfl⟩ := ih hrest
    use (gap, piece) :: parts
    constructor
    · apply List.Forall₂.cons _ hparts
      use (parts.map fun part => part.1 ++ part.2).flatten, hgap, ⟨hpiece, hrest⟩
    · simp

/-- Before a token there is a gap, and no newline right before the token. -/
theorem Tiles.before_token (h : Tiles inLine offset text (l :: others)) (hl : l.kind.isMark = false) :
  ∃ gap rest, text = gap ++ rest ∧ l.start = offset + size gap ∧ IsGap rest gap ∧ ¬ IsAtLineEnd rest
    ∧ (inLine = true → '\n' ∉ gap)
  := by
  cases h with
  | eof => cases hl
  | @lexeme _ _ gap piece rest _ _ hgap hstart _ hstands hpiece hline =>
    use gap, piece ++ rest, List.append_assoc .., hstart, hgap
    constructor
    · intro hend
      have hne : piece ≠ [] := by
        intro hnil
        rw [hstands.isMark_iff.mpr hnil] at hl
        contradiction
      obtain ⟨c, piece, rfl⟩ := List.exists_cons_of_ne_nil hne
      exact absurd (hend c rfl) (hpiece c rfl)
    · intro h
      apply (hline h).1

/-- After a mark no token is on the line, and if one was before it, then a newline comes. -/
theorem Tiles.after_mark (h : Tiles inLine offset text (l :: others)) (hl : l.kind.isMark = true)
    (hothers : others ≠ []) :
  ∃ gap rest, text = gap ++ rest ∧ IsGap rest gap ∧ Tiles false (offset + size gap) rest others
    ∧ (inLine = true → '\n' ∉ gap ∧ l.kind = .endOfLine ∧ IsAtLineEnd rest)
  := by
  cases h with
  | eof => contradiction
  | @lexeme _ _ gap piece rest _ _ hgap hstart hstop hstands _ hline more =>
    obtain rfl := hstands.isMark_iff.mp hl
    rw [hl, hstop, hstart] at more
    use gap, rest, by simp, hgap, more
    intro h
    use (hline h).1, ((hline h).2 hl).1, ((hline h).2 hl).2

/-- At the end of a line, there is a newline up to the next token. -/
theorem Tiles.exists_newline {marks : List Lexeme} (h : Tiles false offset text (marks ++ l :: others))
    (hl : l.kind.isMark = false) (hmarks : ∀ m ∈ marks, m.kind.isMark = true) :
  ∃ gap rest, text = gap ++ rest ∧ l.start = offset + size gap ∧ IsGap rest gap
    ∧ (IsAtLineEnd text → '\n' ∈ gap)
  := by
  induction marks generalizing offset text with
  | nil =>
    obtain ⟨gap, rest, rfl, hstart, hgap, hrest, -⟩ := h.before_token hl
    use gap, rest, rfl, hstart, hgap
    intro hend
    apply hend.mem_or.resolve_right hrest
  | cons m marks ih =>
    obtain ⟨hm, hmarks⟩ := List.forall_mem_cons.mp hmarks
    obtain ⟨gap, _, rfl, hgap, more, -⟩ := h.after_mark hm (by simp)
    obtain ⟨next, rest, rfl, hstart, hnext, hnewline⟩ := ih more hmarks
    use gap ++ next, rest, by simp, by simpa [Nat.add_assoc] using hstart, hgap.append hnext
    intro hend
    rw [List.mem_append]
    apply hend.mem_or.imp_right hnewline

/-- From a token on, up to the next one, there is a newline just when there is the mark of the end of a
line. -/
theorem Tiles.newline_iff {marks : List Lexeme} (h : Tiles true offset text (marks ++ l :: others))
    (hl : l.kind.isMark = false) (hmarks : ∀ m ∈ marks, m.kind.isMark = true) :
  ∃ gap rest, text = gap ++ rest ∧ l.start = offset + size gap ∧ IsGap rest gap
    ∧ ('\n' ∈ gap ↔ ∃ m ∈ marks, m.kind = .endOfLine)
  := by
  cases marks with
  | nil =>
    obtain ⟨gap, rest, rfl, hstart, hgap, -, hline⟩ := h.before_token hl
    use gap, rest, rfl, hstart, hgap
    simpa using hline rfl
  | cons m marks =>
    obtain ⟨hm, hmarks⟩ := List.forall_mem_cons.mp hmarks
    obtain ⟨gap, _, rfl, hgap, more, hline⟩ := h.after_mark hm (by simp)
    obtain ⟨-, hkind, hend⟩ := hline rfl
    obtain ⟨next, rest, rfl, hstart, hnext, hnewline⟩ := more.exists_newline hl hmarks
    use gap ++ next, rest, by simp, by simpa [Nat.add_assoc] using hstart, hgap.append hnext
    simp [hkind, hnewline hend]

theorem Tiles.lossless (h : Tiles false 0 text found) :
  Lossless text found
  where
  stands l hl := h.exists_piece (after?_zero text) hl
  start_le_stop l hl := by
    obtain ⟨piece, rest, hbetween, hstands⟩ := h.exists_piece (after?_zero text) hl
    apply hstands.le_and_eq_iff hbetween
  before l hl := by
    obtain ⟨others, rfl⟩ := List.head?_eq_some_iff.mp hl
    obtain ⟨gap, piece, rest, hbetween, hgap, -⟩ := h.head (after?_zero text)
    use gap, piece ++ rest
  between a b hab := by
    obtain ⟨before, others, rfl⟩ := hab
    rw [List.append_assoc] at h
    obtain ⟨_, _, _, hafter, hfrom⟩ := h.of_append (after?_zero text)
    obtain ⟨_, hafter, hfrom⟩ := hfrom.tail (by simp) hafter
    obtain ⟨gap, piece, rest, hbetween, hgap, -⟩ := hfrom.head hafter
    constructor
    · rw [hbetween.stop_eq]
      apply Nat.le_add_right
    · use gap, piece ++ rest
  newline_iff a marks b hab ha hb hmarks := by
    obtain ⟨before, others, rfl⟩ := hab
    rw [List.append_assoc] at h
    obtain ⟨_, _, _, hafter, hfrom⟩ := h.of_append (after?_zero text)
    obtain ⟨_, hafter, hfrom⟩ := hfrom.tail (by simp) hafter
    rw [ha] at hfrom
    obtain ⟨gap, rest, rfl, hbstart, hgap, hiff⟩ := Tiles.newline_iff (by simpa using hfrom) hb hmarks
    use gap, rest
    rw [hbstart]
    use between_of_after? hafter
  last := h.exists_last (after?_zero text)
  text_eq := h.exists_parts (after?_zero text)

end

/-! ## Scans -/

namespace Scan

/-- The scans that the scan of a text goes through. -/
inductive Reached (text : List Char) : Scan → Prop
  /-- The scan of the whole text. -/
  | start : Reached text (ofText text)
  /-- The scan after the indentation of the first line. -/
  | indented {marks : List Lexeme} {s : Scan} (hmarks : (ofText text).Measures marks s) : Reached text s
  /-- A scan after a step. -/
  | move {s next : Scan} {found : List Lexeme} (hreached : Reached text s) (hmove : s.Moves found next) :
      Reached text next

variable {text piece rest : List Char} {s next : Scan} {marks found : List Lexeme}

theorem after?_skip (hafter : after? s.offset text = some s.rest) (happend : piece ++ rest = s.rest) :
  after? (s.skip piece rest).offset text = some (s.skip piece rest).rest
  := by
  rw [← happend] at hafter
  apply after?_add hafter

theorem Measures.after?_eq (hmarks : s.Measures marks next) (hafter : after? s.offset text = some s.rest) :
  after? next.offset text = some next.rest
  := by
  have hindented : after? s.indented.offset text = some s.indented.rest :=
    after?_skip hafter List.takeWhile_append_dropWhile
  cases hmarks <;> apply hindented

theorem Moves.after?_eq (hmove : s.Moves found next) (hafter : after? s.offset text = some s.rest) :
  after? next.offset text = some next.rest
  := by
  cases hmove with
  | token hfirst | space hfirst => apply after?_skip hafter (Pattern.append_of_first? hfirst).1
  | newline hfirst hmarks =>
    apply hmarks.after?_eq
    apply after?_skip
    · rwa [offset_endLogicalLine, rest_endLogicalLine]
    · rw [rest_endLogicalLine]
      apply (Pattern.append_of_first? hfirst).1

/-- A scan is at the end of a character always, with the text after it left. -/
theorem Reached.after?_eq (h : Reached text s) :
  after? s.offset text = some s.rest
  := by
  induction h with
  | start => apply after?_zero
  | indented hmarks => apply hmarks.after?_eq (after?_zero text)
  | move _ hmove ih => apply hmove.after?_eq ih

end Scan

/-! ## Sources -/

namespace Token

/-- The lexeme of a token. -/
def lexeme (t : Token) : Lexeme :=
  ⟨t.kind, t.value, t.span.start.offset.toNat, t.span.stop.offset.toNat⟩

/-- The offsets of a token are those of its lexeme, unless they are too large. -/
theorem lexeme_ofLexeme {l : Lexeme} (file : String) (hstart : l.start < UInt32.size)
    (hstop : l.stop < UInt32.size) :
  (ofLexeme file l).lexeme = l
  := by
  rw [lexeme, ofLexeme, Position.toNat_ofOffset hstart, Position.toNat_ofOffset hstop]

end Token

/-- The tokens of a source make up its text.  They are all in its file, and no place that the scan goes
through is inside a character. -/
theorem lossless_of_ofSource (source file : String) (tokens : List Token)
    (hsize : source.utf8ByteSize < UInt32.size) (h : Token.ofSource source file = .ok tokens) :
  (∀ t ∈ tokens, t.span.start.file = file ∧ t.span.stop.file = file)
  ∧ Lossless source.toList (tokens.map Token.lexeme)
  ∧ ∀ s, Scan.Reached source.toList s → after? s.offset source.toList = some s.rest
  := by
  obtain ⟨lexemes, hlexemes, rfl⟩ := Token.ofSource_eq_ok_iff.mp h
  have hlossless := (Lexeme.tiles_of_ofText hlexemes).lossless
  have hoffsets : ∀ l ∈ lexemes, (Token.ofLexeme file l).lexeme = l := by
    intro l hl
    obtain ⟨piece, rest, hbetween, -⟩ := hlossless.stands l hl
    have hstop : l.stop < UInt32.size := Nat.lt_of_le_of_lt (size_toList source ▸ hbetween.stop_le) hsize
    have hstart := (hlossless.start_le_stop l hl).1
    apply Token.lexeme_ofLexeme file (Nat.lt_of_le_of_lt hstart hstop) hstop
  constructor
  · simp [Token.ofLexeme, Position.ofOffset]
  · rw [List.map_map, List.map_congr_left (g := id) (by simpa using hoffsets), List.map_id]
    use hlossless
    intro s hs
    apply hs.after?_eq

/-- A line with a comment and a block after it, with characters of several bytes. -/
def accentedBlock : String := "x=\"é\\\"\" // ö\n y"

/-- The gaps are a blank and the comment before the end of the first line, and the newline and the indentation
after it. -/
theorem lossless_accentedBlock :
  accentedBlock.utf8ByteSize < UInt32.size
  ∧ ∃ tokens, Token.ofSource accentedBlock "text" = .ok tokens
    ∧ tokens.map Token.lexeme = [⟨.identifier, "x", 0, 1⟩, ⟨.assign, "=", 1, 2⟩, ⟨.string, "é\"", 2, 8⟩,
      ⟨.endOfLine, "", 14, 14⟩, ⟨.indent, "", 16, 16⟩, ⟨.identifier, "y", 16, 17⟩,
      ⟨.endOfLine, "", 17, 17⟩, ⟨.dedent, "", 17, 17⟩, ⟨.endOfLine, "", 17, 17⟩, ⟨.eof, "EOF", 17, 17⟩]
    ∧ (∀ t ∈ tokens, t.span.start.file = "text" ∧ t.span.stop.file = "text")
    ∧ Lossless accentedBlock.toList (tokens.map Token.lexeme)
    ∧ ∀ s, Scan.Reached accentedBlock.toList s → after? s.offset accentedBlock.toList = some s.rest
  := by
  have hsize : accentedBlock.utf8ByteSize < UInt32.size := by decide
  have hlexemes : (Token.ofSource accentedBlock "text").toOption.map (List.map Token.lexeme)
      = some [⟨.identifier, "x", 0, 1⟩, ⟨.assign, "=", 1, 2⟩, ⟨.string, "é\"", 2, 8⟩,
        ⟨.endOfLine, "", 14, 14⟩, ⟨.indent, "", 16, 16⟩, ⟨.identifier, "y", 16, 17⟩,
        ⟨.endOfLine, "", 17, 17⟩, ⟨.dedent, "", 17, 17⟩, ⟨.endOfLine, "", 17, 17⟩,
        ⟨.eof, "EOF", 17, 17⟩] := by
    decide +kernel
  obtain ⟨tokens, htokens, hlexemes⟩ := Option.map_eq_some_iff.mp hlexemes
  have hsource : Token.ofSource accentedBlock "text" = .ok tokens := by
    cases h : Token.ofSource accentedBlock "text" <;> simp_all [Except.toOption]
  use hsize, tokens, hsource, hlexemes
  apply lossless_of_ofSource _ _ _ hsize hsource

end LayoutGrammar
