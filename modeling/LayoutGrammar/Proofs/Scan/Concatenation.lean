import LayoutGrammar.Proofs.Scan.Faults
import LayoutGrammar.Proofs.Scan.Lossless

/-!
# Sources one after the other

When a source ends in a newline and another one starts with a token, the tokens of both together are those of
the first, without the end of the text, and those of the second, further on by the length of the first
(`ofSource_append`).  At the seam the blocks of the first are closed in either way, and no block is open where
the second starts; what is found from there on does not depend on the place (`Scan.lexemes_shift`).
-/

namespace LayoutGrammar

open Text

/-! ## Texts one after the other -/

namespace Scan

/-- What is found in a text that ends in a newline is found in a longer one too, up to the line after it. -/
theorem Yields.exists_line {text : List Char} {s : Scan} {found : List Lexeme} (h : s.Yields found)
    (hend : s.rest.getLast? = some '\n') (hpos : ∀ block ∈ s.blocks, 0 < block)
    (hafter : after? s.offset text = some s.rest) :
  ∃ front line, IsAtLineStart (size text) line
    ∧ ∀ others, (s.extend others).lexemes = (line.extend others).fromLine.map (front ++ ·)
  := by
  induction h with
  | finish hrest => simp [hrest] at hend
  | @move s next cut more hmove hmore ih =>
    by_cases hlast : s.rest = ['\n']
    · use s.endLogicalLine.1, s.endLogicalLine.2.skip ['\n'] []
      constructor
      · constructor
        · rfl
        · obtain ⟨before, rfl, hbefore⟩ := after?_eq_some_iff.mp hafter
          rw [skip, offset_endLogicalLine, size_append, hbefore, hlast]
        · have hkind : (s.endLogicalLine.2.skip ['\n'] []).last = s.endLogicalLine.2.last := rfl
          apply endLogicalLine_of_last hkind
        · rwa [skip, blocks_endLogicalLine]
      · intro others
        have hrest : (s.extend others).rest = '\n' :: others := by simp [extend, hlast]
        rw [lexemes_eq_fromLine hrest, endLogicalLine_extend]
        rfl
    · obtain ⟨-, hnext⟩ := Moves.extend hend [] hmove hlast
      obtain ⟨front, line, hline, hextend⟩ := ih hnext (hmove.forall_pos hpos) (hmove.after?_eq hafter)
      use cut ++ front, line, hline
      intro others
      rw [lexemes_of_moves (Moves.extend hend others hmove hlast).1, hextend]
      cases (line.extend others).fromLine <;> simp [Except.map]

end Scan

/-! ## Texts further on -/

/-- A lexeme that is a number of bytes further on. -/
def Lexeme.shift (bytes : Nat) (l : Lexeme) : Lexeme :=
  { l with start := l.start + bytes, stop := l.stop + bytes }

/-- A fault that is a number of bytes further on. -/
def Fault.shift (bytes : Nat) (fault : Fault) : Fault := { fault with offset := fault.offset + bytes }

/-- An outcome in a text, with what is found moved in some way, and a fault further on. -/
def Fault.shiftOutcome {α : Type} (bytes : Nat) (move : α → α) : Except Fault α → Except Fault α
  | .ok found => .ok (move found)
  | .error fault => .error (fault.shift bytes)

namespace Scan

/-- A scan that is a number of bytes further on. -/
def shift (bytes : Nat) (s : Scan) : Scan := { s with offset := s.offset + bytes }

/-- Lexemes and the scan after them, a number of bytes further on. -/
def shiftResult (bytes : Nat) (result : List Lexeme × Scan) : List Lexeme × Scan :=
  (result.1.map (Lexeme.shift bytes), result.2.shift bytes)

variable (bytes : Nat) (s : Scan)

@[simp]
theorem rest_shift : (s.shift bytes).rest = s.rest := rfl

@[simp]
theorem last_shift : (s.shift bytes).last = s.last := rfl

@[simp]
theorem blocks_shift : (s.shift bytes).blocks = s.blocks := rfl

theorem skip_shift (piece rest : List Char) :
  (s.shift bytes).skip piece rest = (s.skip piece rest).shift bytes
  := by
  simp [skip, shift, Nat.add_right_comm]

theorem endLogicalLine_shift :
  (s.shift bytes).endLogicalLine = shiftResult bytes s.endLogicalLine
  := by
  unfold endLogicalLine
  rw [last_shift]
  split <;> rfl

theorem blockEnds_shift (count : Nat) :
  (s.shift bytes).blockEnds count = (s.blockEnds count).map (Lexeme.shift bytes)
  := by
  simp [blockEnds, List.map_flatten, mark, shift, Lexeme.shift]

theorem finish_shift :
  (s.shift bytes).finish = s.finish.map (Lexeme.shift bytes)
  := by
  rw [finish, finish, endLogicalLine_shift, blockEnds_shift]
  simp [shiftResult, shift, Lexeme.shift]

/-- The indentation of a line is measured alike wherever it is. -/
theorem indentLine_shift :
  (s.shift bytes).indentLine = Fault.shiftOutcome bytes (shiftResult bytes) s.indentLine
  := by
  have hindented : (s.shift bytes).indented = s.indented.shift bytes := skip_shift bytes s _ _
  have hwidth : (s.shift bytes).width = s.width := rfl
  have hshallower : (s.shift bytes).shallower = s.shallower := rfl
  simp only [indentLine_eq, hindented, hwidth, hshallower, blockEnds_shift, rest_shift, last_shift,
    blocks_shift]
  split_ifs <;> rfl

/-- A step is made alike wherever it is. -/
theorem step_shift :
  (s.shift bytes).step = Fault.shiftOutcome bytes (shiftResult bytes) s.step
  := by
  rw [step_eq, step_eq, rest_shift]
  cases Pattern.first? s.rest with
  | none => rfl
  | some found =>
    obtain ⟨pattern, piece, rest⟩ := found
    cases pattern with
    | newline =>
      simp only [endLogicalLine_shift, shiftResult, skip_shift, indentLine_shift]
      cases (s.endLogicalLine.2.skip piece rest).indentLine with
      | error fault => rfl
      | ok result => simp [Fault.shiftOutcome, shiftResult, Except.map]
    | _ =>
      simp only [skip_shift]
      split
      next => simp [Fault.shiftOutcome, shiftResult, shift, Lexeme.shift, skip, Nat.add_right_comm]
      next => rfl

/-- A scan finds the same further on. -/
theorem lexemes_shift :
  (s.shift bytes).lexemes = Fault.shiftOutcome bytes (List.map (Lexeme.shift bytes)) s.lexemes
  := by
  fun_induction lexemes s with
  | case1 s hrest =>
    rw [lexemes_of_nil (s := s.shift bytes) (List.isEmpty_iff.mp hrest), finish_shift]
    rfl
  | case2 s hrest fault hstep =>
    rw [lexemes_eq (s := s.shift bytes) (by simpa [shift] using hrest), step_shift, hstep]
    rfl
  | case3 s hrest cut next hstep ih =>
    rw [lexemes_eq (s := s.shift bytes) (by simpa [shift] using hrest), step_shift, hstep]
    simp only [Fault.shiftOutcome, Except.bind, shiftResult, ih]
    cases next.lexemes <;> simp [Except.map]

theorem fromLine_shift :
  (s.shift bytes).fromLine = Fault.shiftOutcome bytes (List.map (Lexeme.shift bytes)) s.fromLine
  := by
  rw [fromLine, fromLine, indentLine_shift]
  cases s.indentLine with
  | error fault => rfl
  | ok result =>
    simp only [Fault.shiftOutcome, Except.bind, shiftResult, lexemes_shift]
    cases result.2.lexemes <;> simp [Except.map]

end Scan

/-! ## Lexemes of texts one after the other -/

namespace Lexeme

variable {text others : List Char} {found : List Lexeme}

theorem ofText_of_measures {s : Scan} (h : (Scan.ofText text).Measures [] s) :
  ofText text = s.lexemes
  := by
  rw [Scan.ofText_eq_fromLine, Scan.fromLine_of_measures h]
  cases s.lexemes <;> rfl

/-- A text that starts with a token is scanned from its start. -/
theorem ofText_of_isAtToken (h : Scan.IsAtToken text) :
  ofText text = (Scan.ofText text).lexemes
  := by
  have hmarks := Scan.measures_of_isAtToken (s := Scan.ofText text) h (by simp [Scan.ofText])
  exact ofText_of_measures hmarks

/-- What is found in a text that is empty or ends in a newline is found in a longer one too, up to the line
after it. -/
theorem exists_line (h : ofText text = .ok found) (hend : ∀ c ∈ text.getLast?, c = '\n') :
  ∃ front line, Scan.IsAtLineStart (size text) line
    ∧ ∀ others, ofText (text ++ others) = (line.extend others).fromLine.map (front ++ ·)
  := by
  cases hlast : text.getLast? with
  | none =>
    obtain rfl := List.getLast?_eq_none_iff.mp hlast
    use [], Scan.ofText []
    constructor
    · constructor
      · rfl
      · rfl
      · rfl
      · simp [Scan.ofText]
    · intro others
      show ofText others = (Scan.ofText others).fromLine.map ([] ++ ·)
      rw [Scan.ofText_eq_fromLine]
      cases (Scan.ofText others).fromLine <;> rfl
  | some c =>
    obtain rfl := hend c hlast
    obtain ⟨hmarks, hyields⟩ := ofText_eq_ok_iff.mp h
    have hextend (others : List Char) :=
      Scan.Measures.extend (s := Scan.ofText text) hlast others hmarks
    have hpos : ∀ block ∈ (Scan.ofText text).indented.blocks, 0 < block := by
      simp [Scan.indented, Scan.skip, Scan.ofText]
    obtain ⟨front, line, hline, hothers⟩ :=
      hyields.exists_line (hextend []).2 hpos (hmarks.after?_eq (after?_zero text))
    use front, line, hline
    intro others
    rw [← hothers]
    apply ofText_of_measures (hextend others).1

/-- The lexemes of two texts, one after the other, are those of the first and then those of the second,
further on. -/
theorem exists_ofText_append (h : ofText text = .ok found) (hend : ∀ c ∈ text.getLast?, c = '\n')
    (hothers : Scan.IsAtToken others) :
  ∃ front, found = front ++ [⟨.eof, "EOF", size text, size text⟩]
    ∧ ofText (text ++ others)
      = (Fault.shiftOutcome (size text) (List.map (shift (size text))) (ofText others)).map (front ++ ·)
  := by
  obtain ⟨front, line, hline, hextend⟩ := exists_line h hend
  have hshift : Scan.mk others (size text) none [] = (Scan.ofText others).shift (size text) := by
    simp [Scan.ofText, Scan.shift]
  use front ++ line.blockEnds line.blocks.length
  constructor
  · have hfound := hextend []
    rw [List.append_nil, h, show line.extend [] = line by simp [Scan.extend], hline.fromLine_nil] at hfound
    simpa [Except.map] using hfound
  · rw [hextend, hline.fromLine_of_isAtToken hothers, hshift, Scan.lexemes_shift, ← ofText_of_isAtToken hothers]
    cases ofText others <;> simp [Except.map, Fault.shiftOutcome]

end Lexeme

/-! ## Sources one after the other -/

/-- Whether a position is a number of bytes before another one in the same file. -/
def Position.IsShifted (bytes : Nat) (p q : Position) : Prop :=
  q.file = p.file ∧ q.offset.toNat = p.offset.toNat + bytes

/-- Whether a token is the same as another one a number of bytes further on. -/
structure Token.IsShifted (bytes : Nat) (t u : Token) : Prop where
  /-- The kinds are the same. -/
  kind_eq : u.kind = t.kind
  /-- The values are the same. -/
  value_eq : u.value = t.value
  /-- The second token starts further on. -/
  start : t.span.start.IsShifted bytes u.span.start
  /-- It ends further on. -/
  stop : t.span.stop.IsShifted bytes u.span.stop

/-- Whether a diagnostic is the same as another one a number of bytes further on. -/
structure Diagnostic.IsShifted (bytes : Nat) (d e : Diagnostic) : Prop where
  /-- The causes are the same. -/
  cause_eq : e.cause = d.cause
  /-- The second diagnostic is further on. -/
  position : d.position.IsShifted bytes e.position

section

variable {bytes offset : Nat}

theorem Position.isShifted_ofOffset (file : String) (h : offset + bytes < UInt32.size) :
  (ofOffset file offset).IsShifted bytes (ofOffset file (offset + bytes))
  := by
  use rfl
  rw [toNat_ofOffset h, toNat_ofOffset (by omega)]

theorem Token.isShifted_ofLexeme (file : String) {l : Lexeme} (hle : l.start ≤ l.stop)
    (hstop : l.stop + bytes < UInt32.size) :
  (ofLexeme file l).IsShifted bytes (ofLexeme file (l.shift bytes))
  where
  kind_eq := rfl
  value_eq := rfl
  start := Position.isShifted_ofOffset file (by omega)
  stop := Position.isShifted_ofOffset file hstop

end

/-- A text is at its first token when it starts with neither spacing nor a newline nor a comment. -/
theorem Scan.isAtToken_of_head? {text : List Char} (hne : text ≠ [])
    (hfirst : ∀ c ∈ text.head?, c ∉ [' ', '\t', '\r', '\n']) (hcomment : ¬ ['/', '/'] <+: text) :
  IsAtToken text
  where
  isBare_eq := by
    apply isBare_eq_false_iff.mpr ⟨hne, ?_, hcomment⟩
    intro c hc
    have hc' := hfirst c hc
    simp_all
  not_indented c hc := by
    have hc' := hfirst c hc
    simp_all [isIndentation]

/-- When a source ends in a newline, or is empty, and another one starts with neither spacing nor a newline
nor a comment, the tokens of both together are those of the first, without the end of the text, and those of
the second, further on by the length of the first.  What is wrong in the second is wrong in both together,
further on by as much. -/
theorem ofSource_append (source other file : String) (tokens : List Token)
    (hsize : source.utf8ByteSize + other.utf8ByteSize < UInt32.size)
    (hsource : Token.ofSource source file = .ok tokens) (hend : ∀ c ∈ source.toList.getLast?, c = '\n')
    (hne : other ≠ "") (hfirst : ∀ c ∈ other.toList.head?, c ∉ [' ', '\t', '\r', '\n'])
    (hcomment : ¬ ['/', '/'] <+: other.toList) :
  ∃ front eof, tokens = front ++ [eof] ∧ eof.kind = .eof
    ∧ (∀ others, Token.ofSource other file = .ok others → ∃ moved,
      Token.ofSource (source ++ other) file = .ok (front ++ moved)
        ∧ others.Forall₂ (Token.IsShifted source.utf8ByteSize) moved)
    ∧ ∀ d, Token.ofSource other file = .error d → ∃ e,
      Token.ofSource (source ++ other) file = .error e ∧ d.IsShifted source.utf8ByteSize e
  := by
  obtain ⟨lexemes, hlexemes, rfl⟩ := Token.ofSource_eq_ok_iff.mp hsource
  have hat : Scan.IsAtToken other.toList := Scan.isAtToken_of_head? (by simpa using hne) hfirst hcomment
  obtain ⟨front, rfl, happend⟩ := Lexeme.exists_ofText_append hlexemes hend hat
  rw [← String.toList_append, size_toList] at happend
  refine ⟨_, _, List.map_append, rfl, ?_, ?_⟩
  · intro others hothers
    obtain ⟨found, hfound, rfl⟩ := Token.ofSource_eq_ok_iff.mp hothers
    rw [hfound] at happend
    use (found.map (Lexeme.shift source.utf8ByteSize)).map (Token.ofLexeme file)
    constructor
    · apply Token.ofSource_eq_ok_iff.mpr
      exact ⟨_, happend, List.map_append.symm⟩
    · rw [List.map_map, List.forall₂_map_left_iff, List.forall₂_map_right_iff, List.forall₂_same]
      intro l hl
      have hlossless := (Lexeme.tiles_of_ofText hfound).lossless
      obtain ⟨piece, rest, hbetween, -⟩ := hlossless.stands l hl
      have hstop := hbetween.stop_le
      rw [size_toList] at hstop
      apply Token.isShifted_ofLexeme file (hlossless.start_le_stop l hl).1 (by omega)
  · intro d hd
    unfold Token.ofSource at hd ⊢
    cases hfault : Lexeme.ofText other.toList with
    | ok found => simp [hfault] at hd
    | error fault =>
      obtain rfl : Diagnostic.ofFault file fault = d := by simpa [hfault] using hd
      have hoffset := Lexeme.offset_le_of_ofText hfault
      rw [size_toList] at hoffset
      rw [happend, hfault]
      refine ⟨_, rfl, rfl, ?_⟩
      apply Position.isShifted_ofOffset file
      omega

/-- A line with a comment and a block after it, of twelve bytes. -/
def commentedBlock : String := "x // é\n  y\n"

/-- The block is closed before another line, which is read as by itself, and a fault there is found as well. -/
theorem ofSource_append_commentedBlock :
  ∃ front eof, Token.ofSource commentedBlock "text" = .ok (front ++ [eof])
    ∧ front.map Token.kind = [.identifier, .endOfLine, .indent, .identifier, .endOfLine, .dedent, .endOfLine]
    ∧ (∃ others moved, Token.ofSource "z=1" "text" = .ok others
      ∧ Token.ofSource (commentedBlock ++ "z=1") "text" = .ok (front ++ moved)
      ∧ others.Forall₂ (Token.IsShifted 12) moved)
    ∧ ∃ d e, Token.ofSource "z $" "text" = .error d
      ∧ Token.ofSource (commentedBlock ++ "z $") "text" = .error e ∧ d.IsShifted 12 e
  := by
  have hsize : commentedBlock.utf8ByteSize = 12 := by decide
  have hend : ∀ c ∈ commentedBlock.toList.getLast?, c = '\n' := by
    have hlast : commentedBlock.toList.getLast? = some '\n' := by
      decide +kernel
    simp [hlast]
  have hfirst {other : String} (hz : other.toList.head? = some 'z') :
      ∀ c ∈ other.toList.head?, c ∉ [' ', '\t', '\r', '\n'] := by
    simp [hz]
  have hkinds : (Token.ofSource commentedBlock "text").toOption.map (List.map Token.kind)
      = some ([.identifier, .endOfLine, .indent, .identifier, .endOfLine, .dedent, .endOfLine] ++ [.eof]) := by
    decide +kernel
  obtain ⟨tokens, htokens, hkinds⟩ := Option.map_eq_some_iff.mp hkinds
  have hsource : Token.ofSource commentedBlock "text" = .ok tokens := by
    cases h : Token.ofSource commentedBlock "text" <;> simp_all [Except.toOption]
  obtain ⟨front, eof, rfl, heof, hothers, -⟩ := ofSource_append commentedBlock "z=1" "text" tokens
    (by rw [hsize]; decide) hsource hend (by decide) (hfirst (by decide)) (by decide +kernel)
  obtain ⟨front', eof', hfront, -, -, hfaults⟩ := ofSource_append commentedBlock "z $" "text" _
    (by rw [hsize]; decide) hsource hend (by decide) (hfirst (by decide)) (by decide +kernel)
  obtain ⟨rfl, -⟩ := List.append_inj' hfront rfl
  rw [hsize] at hothers hfaults
  refine ⟨front, eof, hsource, ?_, ?_, ?_⟩
  · rw [List.map_append] at hkinds
    apply List.append_inj_left' hkinds rfl
  · have hok : (Token.ofSource "z=1" "text").toOption.isSome = true := by
      decide +kernel
    cases h : Token.ofSource "z=1" "text" with
    | error d => simp [h, Except.toOption] at hok
    | ok others =>
      obtain ⟨moved, hmoved, hshifted⟩ := hothers others h
      exact ⟨others, moved, rfl, hmoved, hshifted⟩
  · have herror : (Token.ofSource "z $" "text").toOption = none := by
      decide +kernel
    cases h : Token.ofSource "z $" "text" with
    | ok others => simp [h, Except.toOption] at herror
    | error d =>
      obtain ⟨e, he, hshifted⟩ := hfaults d h
      exact ⟨d, e, rfl, he, hshifted⟩

end LayoutGrammar
