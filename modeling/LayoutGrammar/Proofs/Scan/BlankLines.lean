import LayoutGrammar.Proofs.Scan.Concatenation
import LayoutGrammar.Proofs.Scan.RoundTrip

/-!
# Lines without tokens

A line of spacing, possibly with a comment, has no bearing on anything: a scan that is at its start is at the
start of the next line with the same blocks open, and the end of the line before is not marked again
(`Scan.fromLine_blankLine`).  So such a line may be inserted wherever a line starts, and the tokens stay as
they are; what was wrong after it is wrong further on by its length (`ofSource_insert_blankLine`).
-/

namespace LayoutGrammar

open Text

/-! ## Lines -/

/-- A line of spacing, possibly with a comment. -/
structure BlankLine where
  /-- The spaces, tabs and carriage returns at the front. -/
  spacing : List Char
  /-- What the comment says after its slashes, if there is one. -/
  comment : Option (List Char)
  /-- There is only spacing at the front. -/
  isSpacing : ∀ c ∈ spacing, c = ' ' ∨ c = '\t' ∨ c = '\r'
  /-- The comment is on the line. -/
  inLine : ∀ body ∈ comment, '\n' ∉ body

namespace BlankLine

/-- The comment of a line, with its slashes. -/
def remark (line : BlankLine) : List Char :=
  match line.comment with
  | none => []
  | some body => '/' :: '/' :: body

/-- The text of a line, with the newline at its end. -/
def text (line : BlankLine) : List Char := line.spacing ++ line.remark ++ ['\n']

/-- After the spacing there is a comment or the end of the line. -/
theorem isSpacing_remark (line : BlankLine) (rest : List Char) :
  ∀ c ∈ (line.remark ++ '\n' :: rest).head?, Pattern.isSpacing c = false
  := by
  unfold remark
  split <;> simp [Pattern.isSpacing]

/-- The indentation of a line stops at a carriage return or after all of the spacing, and then the line is
bare. -/
theorem exists_indentation (line : BlankLine) (rest : List Char) :
  ∃ front spacing, line.spacing = front ++ spacing
    ∧ (∀ c ∈ front, Scan.isIndentation c = true)
    ∧ (∀ c ∈ (spacing ++ (line.remark ++ '\n' :: rest)).head?, Scan.isIndentation c = false)
    ∧ Scan.isBare (spacing ++ (line.remark ++ '\n' :: rest)) = true
  := by
  use line.spacing.takeWhile Scan.isIndentation, line.spacing.dropWhile Scan.isIndentation,
    List.takeWhile_append_dropWhile.symm, fun c hc => List.mem_takeWhile_imp hc
  have hstop := stop_dropWhile Scan.isIndentation line.spacing
  have hspacing : ∀ c ∈ line.spacing.dropWhile Scan.isIndentation, c = ' ' ∨ c = '\t' ∨ c = '\r' :=
    fun c hc => line.isSpacing c (List.dropWhile_subset _ hc)
  cases hrest : line.spacing.dropWhile Scan.isIndentation with
  | nil =>
    rw [List.nil_append, remark]
    split <;> simp [Scan.isIndentation, Scan.isBare]
  | cons c spacing =>
    rw [hrest] at hstop hspacing
    have hno := hstop c rfl
    simp only [Scan.isIndentation, Bool.or_eq_false_iff, decide_eq_false_iff_not] at hno
    obtain rfl : c = '\r' := by simpa [hno] using hspacing c List.mem_cons_self
    simp [Scan.isIndentation, Scan.isBare]

end BlankLine

/-! ## Scans -/

namespace Scan

variable {s : Scan} {rest : List Char}

theorem skip_skip (s : Scan) (piece other rest more : List Char) :
  (s.skip piece rest).skip other more = s.skip (piece ++ other) more
  := by
  simp [skip, Nat.add_assoc]

/-- Where the end of a line is marked, it is so after a piece that has no token. -/
theorem ended_skip (hended : s.endLogicalLine = ([], s)) (piece : List Char) :
  (s.skip piece rest).endLogicalLine = ([], s.skip piece rest)
  := by
  have hlast : (s.skip piece rest).last = s.endLogicalLine.2.last := by
    rw [hended]
    rfl
  apply endLogicalLine_of_last hlast

/-- What only separates tokens is passed over, if there is anything. -/
theorem lexemes_of_space {piece : List Char} (hrest : s.rest = piece ++ rest)
    (hspace : piece ≠ [] → ∃ pattern, Pattern.first? s.rest = some (pattern, piece, rest)
      ∧ (pattern = .blanks ∨ pattern = .comment)) :
  s.lexemes = (s.skip piece rest).lexemes
  := by
  by_cases hne : piece = []
  · rw [hne, List.nil_append] at hrest
    rw [hne, ← hrest]
    rfl
  · obtain ⟨pattern, hfirst, hpattern⟩ := hspace hne
    rw [lexemes_of_moves (.space hfirst hpattern)]
    cases (s.skip piece rest).lexemes <;> rfl

theorem lexemes_of_spacing {spacing : List Char} (hrest : s.rest = spacing ++ rest)
    (hspacing : ∀ c ∈ spacing, c = ' ' ∨ c = '\t' ∨ c = '\r')
    (hstop : ∀ c ∈ rest.head?, Pattern.isSpacing c = false) :
  s.lexemes = (s.skip spacing rest).lexemes
  := by
  have hall : ∀ c ∈ spacing, Pattern.isSpacing c = true := by
    simpa [Pattern.isSpacing, or_assoc] using hspacing
  apply lexemes_of_space hrest
  intro hne
  use .blanks
  rw [hrest]
  use Pattern.first?_spacing hall hne hstop, .inl rfl

theorem lexemes_of_remark (line : BlankLine) (hrest : s.rest = line.remark ++ '\n' :: rest) :
  s.lexemes = (s.skip line.remark ('\n' :: rest)).lexemes
  := by
  apply lexemes_of_space hrest
  intro hne
  obtain ⟨body, hcomment⟩ : ∃ body, line.comment = some body := by
    cases hcomment : line.comment with
    | none => simp [BlankLine.remark, hcomment] at hne
    | some body => use body
  have hremark : line.remark = '/' :: '/' :: body := by simp [BlankLine.remark, hcomment]
  use .comment
  rw [hrest, hremark]
  use Pattern.first?_comment (line.inLine body hcomment) (by simp), .inr rfl

/-- From a line without tokens on nothing else is found than from the next line on. -/
theorem fromLine_blankLine (line : BlankLine) (hrest : s.rest = line.text ++ rest)
    (hended : s.endLogicalLine = ([], s)) :
  s.fromLine = (s.skip line.text rest).fromLine
  := by
  obtain ⟨front, spacing, hspacing, hfront, hstop, hbare⟩ := line.exists_indentation rest
  have htext : s.rest = front ++ (spacing ++ (line.remark ++ '\n' :: rest)) := by
    simpa [BlankLine.text, hspacing] using hrest
  obtain ⟨-, hindented⟩ := indented_of_append htext hfront hstop
  have hmarks : s.Measures [] s.indented := by
    apply Measures.bare
    rw [hindented]
    apply hbare
  have hmore : ∀ c ∈ spacing, c = ' ' ∨ c = '\t' ∨ c = '\r' := by
    intro c hc
    apply line.isSpacing c
    rw [hspacing]
    apply List.mem_append_right front hc
  rw [fromLine_of_measures hmarks, hindented, lexemes_of_spacing rfl hmore (line.isSpacing_remark rest),
    lexemes_of_remark line rfl, skip_skip, skip_skip, lexemes_eq_fromLine rfl, ended_skip hended, skip_skip]
  rw [BlankLine.text, hspacing, List.append_assoc front spacing]
  cases (s.skip (front ++ (spacing ++ line.remark) ++ ['\n']) rest).fromLine <;> rfl

end Scan

/-! ## Texts -/

/-- What is found in a text with a line without tokens is what is found without the line, further on from
where the line is. -/
theorem Lexeme.exists_ofText_blankLine {text : List Char} {found : List Lexeme} (h : ofText text = .ok found)
    (hend : ∀ c ∈ text.getLast?, c = '\n') (line : BlankLine) (others : List Char) :
  ∃ front outcome, ofText (text ++ others) = outcome.map (front ++ ·)
    ∧ ofText (text ++ (line.text ++ others))
      = (Fault.shiftOutcome (size line.text) (List.map (shift (size line.text))) outcome).map (front ++ ·)
  := by
  obtain ⟨front, start, hstart, hextend⟩ := exists_line h hend
  use front, (start.extend others).fromLine, hextend others
  have hrest : (start.extend (line.text ++ others)).rest = line.text ++ others := by
    simp [Scan.extend, hstart.rest_eq]
  have hended : (start.extend (line.text ++ others)).endLogicalLine
      = ([], start.extend (line.text ++ others)) := by
    rw [Scan.endLogicalLine_extend, hstart.ended]
  have hshift : (start.extend (line.text ++ others)).skip line.text others
      = (start.extend others).shift (size line.text) := by
    simp [Scan.extend, Scan.skip, Scan.shift, hstart.rest_eq]
  rw [hextend, Scan.fromLine_blankLine line hrest hended, hshift, Scan.fromLine_shift]

/-! ## Sources -/

/-- A line without tokens may be inserted after a source that is empty or ends in a newline: the kinds and
values of the tokens stay as they are, and what is wrong is wrong further on by the length of the line. -/
theorem ofSource_insert_blankLine (source other file : String) (line : BlankLine) (tokens : List Token)
    (hsize : source.utf8ByteSize + size line.text + other.utf8ByteSize < UInt32.size)
    (hsource : Token.ofSource source file = .ok tokens) (hend : ∀ c ∈ source.toList.getLast?, c = '\n') :
  (∃ without within, Token.ofSource (source ++ other) file = .ok without
    ∧ Token.ofSource (source ++ String.ofList line.text ++ other) file = .ok within
    ∧ within.map Token.entry = without.map Token.entry)
  ∨ ∃ d e, Token.ofSource (source ++ other) file = .error d
    ∧ Token.ofSource (source ++ String.ofList line.text ++ other) file = .error e
    ∧ d.IsShifted (size line.text) e
  := by
  obtain ⟨lexemes, hlexemes, rfl⟩ := Token.ofSource_eq_ok_iff.mp hsource
  obtain ⟨front, outcome, hwithout, hwithin⟩ :=
    Lexeme.exists_ofText_blankLine hlexemes hend line other.toList
  have hwhole : (source ++ String.ofList line.text ++ other).toList
      = source.toList ++ (line.text ++ other.toList) := by
    simp
  rw [← hwhole] at hwithin
  rw [← String.toList_append] at hwithout
  cases outcome with
  | ok back =>
    left
    use (front ++ back).map (Token.ofLexeme file),
      (front ++ back.map (Lexeme.shift (size line.text))).map (Token.ofLexeme file)
    use Token.ofSource_eq_ok_iff.mpr ⟨_, hwithout, rfl⟩, Token.ofSource_eq_ok_iff.mpr ⟨_, hwithin, rfl⟩
    rw [List.map_append, List.map_append, List.map_append, List.map_append, List.map_map]
    congr 1
    simp [Lexeme.shift, Token.ofLexeme, Token.entry]
  | error fault =>
    right
    have hoffset := Lexeme.offset_le_of_ofText hwithout
    rw [size_toList, String.utf8ByteSize_append] at hoffset
    use .ofFault file fault, .ofFault file (fault.shift (size line.text))
    rw [Token.ofSource, Token.ofSource, hwithout, hwithin]
    use rfl, rfl, rfl
    apply Position.isShifted_ofOffset file
    omega

/-- An indented comment with a quote and operators in it, of fifteen bytes. -/
def indentedRemark : BlankLine where
  spacing := ['\t', ' ', '\r']
  comment := some " \"é == (".toList
  isSpacing := by simp
  inLine := by simp

/-- Between a line and its block the comment changes nothing, and a fault after it is further on. -/
theorem ofSource_insert_indentedRemark :
  (∃ without within, Token.ofSource ("x\n" ++ "  y\n") "text" = .ok without
    ∧ Token.ofSource ("x\n" ++ String.ofList indentedRemark.text ++ "  y\n") "text" = .ok within
    ∧ within.map Token.entry = without.map Token.entry
    ∧ without.map Token.kind
      = [.identifier, .endOfLine, .indent, .identifier, .endOfLine, .dedent, .endOfLine, .eof])
  ∧ ∃ e, Token.ofSource ("x\n" ++ "  y\n z") "text" = .error ⟨.indentation 1, ⟨7, "text"⟩⟩
    ∧ Token.ofSource ("x\n" ++ String.ofList indentedRemark.text ++ "  y\n z") "text" = .error e
    ∧ Diagnostic.IsShifted 15 ⟨.indentation 1, ⟨7, "text"⟩⟩ e
  := by
  have hsource : Token.ofSource "x\n" "text" = .ok [⟨.identifier, "x", ⟨⟨0, "text"⟩, ⟨1, "text"⟩⟩⟩,
      ⟨.endOfLine, "", ⟨⟨1, "text"⟩, ⟨1, "text"⟩⟩⟩, ⟨.eof, "EOF", ⟨⟨2, "text"⟩, ⟨2, "text"⟩⟩⟩] := by
    decide +kernel
  have hend : ∀ c ∈ "x\n".toList.getLast?, c = '\n' := by
    simp
  constructor
  · have hkinds : (Token.ofSource ("x\n" ++ "  y\n") "text").toOption.map (List.map Token.kind) = some
        [.identifier, .endOfLine, .indent, .identifier, .endOfLine, .dedent, .endOfLine, .eof] := by
      decide +kernel
    rcases ofSource_insert_blankLine "x\n" "  y\n" "text" indentedRemark _ (by decide) hsource hend with
      ⟨without, within, hwithout, hwithin, hentries⟩ | ⟨d, e, hd, -⟩
    · rw [hwithout] at hkinds
      exact ⟨without, within, hwithout, hwithin, hentries, Option.some.inj hkinds⟩
    · rw [hd] at hkinds
      cases hkinds
  · have herror : Token.ofSource ("x\n" ++ "  y\n z") "text" = .error ⟨.indentation 1, ⟨7, "text"⟩⟩ := by
      decide +kernel
    rcases ofSource_insert_blankLine "x\n" "  y\n z" "text" indentedRemark _ (by decide) hsource hend with
      ⟨without, within, hwithout, -⟩ | ⟨d, e, hd, he, hshifted⟩
    · rw [herror] at hwithout
      cases hwithout
    · obtain rfl := Except.error.inj (herror.symm.trans hd)
      exact ⟨e, herror, he, hshifted⟩

end LayoutGrammar
