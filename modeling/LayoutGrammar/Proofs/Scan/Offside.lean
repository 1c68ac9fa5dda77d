import LayoutGrammar.Proofs.Scan.Columns
import LayoutGrammar.Proofs.Scan.Lossless

/-!
# The offside rule

The blocks of a token stream follow the columns of the lines of its text, and a text whose lines fit no blocks
is refused (`isLaidOut_of_ofSource`).  What carries this is `Scan.Aligns`: from any place in a scan on, the
lines to come are at the columns of the blocks that are open there, or in deeper blocks.  One thing escapes
the rule: a line with a carriage return at its front is in the block of the line before it, wherever its
first token is (`not_isLaidOut_indentedReturn`).
-/

namespace LayoutGrammar

open LogicalLine Text

namespace Scan

/-! ## Faults -/

/-- What a scan finds up to the end of its text, or nothing if it comes to a place where no token is
recognised. -/
inductive Passes : Scan → Option (List Lexeme) → Prop
  /-- At the end of the text there are only marks left. -/
  | finish {s : Scan} (hrest : s.rest = []) : Passes s (some s.finish)
  /-- No token is recognised. -/
  | cut {s : Scan} (hfirst : Pattern.first? s.rest = none) : Passes s none
  /-- Before that there is a step. -/
  | move {s next : Scan} {found : List Lexeme} {others : Option (List Lexeme)}
      (hmove : s.Moves found next) (hothers : next.Passes others) : Passes s (others.map (found ++ ·))

/-- A scan passes unless it fails for the indentation of a line. -/
theorem passes_or_cause (s : Scan) :
  s.Passes s.lexemes.toOption ∨ ∃ fault width, s.lexemes = .error fault ∧ fault.cause = .indentation width
  := by
  fun_induction lexemes s with
  | case1 s hrest => apply Or.inl (Passes.finish (List.isEmpty_iff.mp hrest))
  | case2 s _ fault hstep =>
    rcases fault_of_step hstep with ⟨hfirst, -⟩ | ⟨piece, rest, -, hmarks⟩
    · apply Or.inl (Passes.cut hfirst)
    · obtain ⟨-, rfl⟩ := fault_of_indentLine hmarks
      apply Or.inr ⟨_, _, rfl, rfl⟩
  | case3 s _ found next hstep ih =>
    rcases ih with hpasses | ⟨fault, width, hfault, hcause⟩
    · left
      convert Passes.move (step_eq_ok_iff.mp hstep) hpasses
      cases next.lexemes <;> rfl
    · apply Or.inr ⟨fault, width, by rw [hfault]; rfl, hcause⟩

/-! ## The front of a line -/

/-- Whether what was read of a line up to a scan, which is no token, is all that is measured of it: it is
as wide as the innermost block, unless the line is bare or has a carriage return there. -/
def IsAtFront (text : List Char) (s : Scan) : Prop :=
  '\r' ∈ lead text s.offset
  ∨ (∀ c ∈ s.rest.head?, isIndentation c = false)
    ∧ (isBare s.rest = true ∨ column text s.offset = s.blocks.headD 0)

variable {text : List Char} {s next : Scan}

/-- A token at the front of a line is at the column of the innermost block. -/
theorem IsAtFront.isAtColumn (h : s.IsAtFront text) (hbare : isBare s.rest = false) :
  IsAtColumn text s.offset (s.blocks.headD 0)
  := by
  rcases h with hreturn | ⟨-, hrest⟩
  · apply Or.inl hreturn
  · rw [hbare] at hrest
    apply Or.inr (hrest.resolve_left (by simp))

/-- A scan is at the front of a line where the line ends. -/
theorem isAtFront_of_isAtLineEnd (h : IsAtLineEnd s.rest) :
  s.IsAtFront text
  := by
  right
  cases hrest : s.rest with
  | nil => simp [isBare]
  | cons c rest =>
    obtain rfl := h c (by simp [hrest])
    simp [isBare, isIndentation]

/-- Spacing and comments leave a scan at the front of a line. -/
theorem IsAtFront.skip (h : s.IsAtFront text) (hafter : after? s.offset text = some s.rest)
    {pattern : Pattern} {piece rest : List Char}
    (hfirst : Pattern.first? s.rest = some (pattern, piece, rest))
    (hspace : pattern = .blanks ∨ pattern = .comment) :
  (s.skip piece rest).IsAtFront text
  := by
  obtain ⟨happend, hne⟩ := Pattern.append_of_first? hfirst
  rcases hspace with rfl | rfl
  · left
    have hnewline := (isGap_of_blanks hfirst).2
    rw [← happend] at hafter
    rw [Scan.skip, lead_append hafter hnewline, List.mem_append]
    -- Spaces and tabs that come first were measured, so that other spacing has a carriage return.
    rcases h with hreturn | ⟨hindented, -⟩
    · apply Or.inl hreturn
    · right
      have hspacing := Pattern.isSpacing_of_blanks hfirst
      obtain ⟨c, others, rfl⟩ := List.exists_cons_of_ne_nil hne
      have hc := hspacing c List.mem_cons_self
      have hno := hindented c (by simp [← happend])
      simp only [Pattern.isSpacing, isIndentation, Bool.or_eq_true, Bool.or_eq_false_iff, decide_eq_true_eq,
        decide_eq_false_iff_not] at hc hno
      obtain rfl : c = '\r' := by simpa [hno] using hc
      apply List.mem_cons_self
  · obtain ⟨_, -, -, hend⟩ := Pattern.exists_of_comment hfirst
    apply isAtFront_of_isAtLineEnd (s := s.skip piece rest) hend

/-! ## Scans of aligned lines -/

/-- The parts of what is found, unless a text is cut. -/
def parts (found : Option (List Lexeme)) : Option (List Part) := found.map (List.map Lexeme.part)

/-- The line starts from a scan on. -/
def starts (s : Scan) (inLine : Bool) : List Nat := lineStarts inLine s.offset s.rest

/-- Whether what is found from a place in a scan on has the lines in the blocks that their columns tell. -/
structure Aligns (text : List Char) (s : Scan) (found : Option (List Lexeme)) : Prop where
  /-- Before the first token there are lines to come. -/
  fresh : s.last = none → s.blocks = [] → s.IsAtFront text →
    Offside text [] (s.starts false) (parts found)
  /-- After the end of a line a block may start. -/
  ended : s.last = some .endOfLine → s.IsAtFront text →
    OffsideAfterLine text s.blocks (s.starts false) (parts found)
  /-- After a token its line is completed. -/
  inLine : ∀ kind, s.last = some kind → kind.isMark = false →
    OffsideInLine text s.blocks (s.starts true) (parts found)
  /-- Where a line starts there is a token, at the column of the innermost block. -/
  atToken : IsAtToken s.rest → column text s.offset = s.blocks.headD 0 →
    OffsideAtToken text s.blocks (s.starts false) (parts found)

variable {found : List Lexeme} {others : Option (List Lexeme)} {marks : List Lexeme}

theorem part_mark (s : Scan) (kind : Terminal) (h : kind.isMark = true) :
  (s.mark kind).part = .inr kind
  := by
  simp [Lexeme.part, mark, h]

theorem parts_blockEnds (s : Scan) (count : Nat) :
  (s.blockEnds count).map Lexeme.part = (List.replicate count [.inr .dedent, .inr .endOfLine]).flatten
  := by
  simp [blockEnds, List.map_flatten, part_mark s .dedent rfl, part_mark s .endOfLine rfl]

theorem parts_append (found : List Lexeme) (others : Option (List Lexeme)) :
  parts (others.map (found ++ ·)) = (parts others).map (found.map Lexeme.part ++ ·)
  := by
  cases others <;> simp [parts]

/-! ### The indentation of a line -/

theorem starts_indented (s : Scan) (inLine : Bool) :
  s.indented.starts inLine = s.starts inLine
  := by
  have hspacing : ∀ c ∈ s.rest.takeWhile isIndentation, Pattern.isSpacing c = true := by
    intro c hc
    rcases s.eq_of_mem_indentation c hc with rfl | rfl <;> rfl
  have hrest : s.rest.takeWhile isIndentation ++ s.indented.rest = s.rest :=
    List.takeWhile_append_dropWhile
  rw [starts, starts, ← lineStarts_dropWhile, ← lineStarts_dropWhile _ s.offset]
  conv_rhs => rw [← hrest, List.takeWhile_append_of_pos hspacing, List.dropWhile_append_of_pos hspacing,
    size_append, ← Nat.add_assoc]
  rfl

/-- What stands before a line after its indentation is as wide as the indentation. -/
theorem column_indented (hafter : after? s.offset text = some s.rest)
    (hlead : lead text s.offset = []) :
  column text s.indented.offset = s.width
  := by
  have hindentation := s.eq_of_mem_indentation
  have hnewline : '\n' ∉ s.rest.takeWhile isIndentation := by
    intro hmem
    simpa using hindentation _ hmem
  rw [← @List.takeWhile_append_dropWhile _ isIndentation s.rest] at hafter
  rw [column, indented, skip, lead_append hafter hnewline, hlead, List.nil_append, width]
  generalize s.rest.takeWhile isIndentation = indentation at hindentation
  induction indentation with
  | nil => rfl
  | cons c indentation ih =>
    obtain ⟨hc, hothers⟩ := List.forall_mem_cons.mp hindentation
    have hone : c.utf8Size = 1 := by
      rcases hc with rfl | rfl <;> rfl
    rw [size_cons, ih hothers, hone, List.length_cons, Nat.add_comm]

/-- The indentation of a line, once measured, leaves a scan at its front. -/
theorem Measures.isAtFront (hmarks : s.Measures marks next)
    (hcolumn : column text s.indented.offset = s.width) :
  next.IsAtFront text
  := by
  right
  cases hmarks with
  | bare hbare => use s.not_isIndentation_indented, Or.inl hbare
  | opens => use s.not_isIndentation_indented, Or.inr hcolumn
  | closes _ _ _ hwidth => use s.not_isIndentation_indented, Or.inr (hcolumn.trans hwidth.symm)

/-- What aligns a scan after the indentation of a line aligns it before the line. -/
theorem Measures.aligns (hmarks : s.Measures marks next)
    (hcolumn : column text s.indented.offset = s.width) (h : next.Aligns text others) :
  (s.last = none → s.blocks = [] →
    Offside text [] (s.starts false) (parts (others.map (marks ++ ·))))
  ∧ (s.last = some .endOfLine →
    OffsideAfterLine text s.blocks (s.starts false) (parts (others.map (marks ++ ·))))
  := by
  have hfront := hmarks.isAtFront hcolumn
  rw [parts_append, ← s.starts_indented]
  constructor
  · intro hlast hblocks
    obtain ⟨rfl, rfl⟩ := hmarks.eq_of_fresh hlast hblocks
    simpa using h.fresh hlast hblocks hfront
  · intro hlast
    cases hmarks with
    | bare =>
      have hended : OffsideAfterLine text s.blocks (s.indented.starts false) (parts others) :=
        h.ended hlast hfront
      simpa using hended
    | opens hbare hdeeper =>
      rw [List.map_singleton, part_mark _ .indent rfl]
      apply (h.atToken (isAtToken_indented hbare) hcolumn).opens hdeeper
    | @closes closed blocks hbare hblocks _ hwidth =>
      have hoffside := (h.atToken (isAtToken_indented hbare) (hcolumn.trans hwidth.symm)).offside
      rw [parts_blockEnds, hblocks]
      apply (hoffside.closes closed).afterLine

/-! ### Steps -/

theorem aligns_cut (hfirst : Pattern.first? s.rest = none) :
  s.Aligns text none
  := by
  have hstarts (inLine : Bool) : s.starts inLine = [] := lineStarts_of_none hfirst
  constructor
  · intro _ _ _
    rw [hstarts]
    apply Offside.cut
  · intro _ _
    rw [hstarts]
    apply Offside.cut.afterLine
  · intro _ _ _
    rw [hstarts]
    apply Offside.cut.afterLine.inLine
  · intro _ _
    rw [hstarts]
    apply OffsideAtToken.cut

theorem aligns_finish (hrest : s.rest = []) :
  s.Aligns text (some s.finish)
  := by
  have hstarts (inLine : Bool) : s.starts inLine = [] := by
    apply lineStarts_of_none
    rw [hrest]
    rfl
  let ending : Lexeme := ⟨.eof, "EOF", s.offset, s.offset⟩
  have hoffside : Offside text s.blocks [] (some ((s.blockEnds s.blocks.length ++ [ending]).map Lexeme.part))
      := by
    have hending : ending.part = .inr .eof := rfl
    rw [List.map_append, parts_blockEnds]
    have heof : Offside text [] [] (some [.inr .eof]) := Offside.eof
    simpa [hending] using heof.closes s.blocks
  constructor
  · intro hlast hblocks _
    rw [hstarts, finish, endLogicalLine_of_none hlast]
    rw [hblocks] at hoffside
    simpa [parts, hblocks] using hoffside
  · intro hlast _
    rw [hstarts, finish, endLogicalLine_of_endOfLine hlast]
    simpa [parts] using hoffside.afterLine
  · intro kind hlast hkind
    rw [hstarts, finish, endLogicalLine_of_isMark hlast hkind]
    simpa [parts, part_mark s .endOfLine rfl] using hoffside.afterLine.inLine
  · intro h
    have hbare := h.isBare_eq
    rw [hrest] at hbare
    cases hbare

section

variable {pattern : Pattern} {piece rest : List Char}

/-- What aligns a scan after a token, with the token, aligns it before the token. -/
theorem aligns_token {kind : Terminal} {value : List Char}
    (hfirst : Pattern.first? s.rest = some (pattern, piece, rest))
    (htoken : pattern.token? piece = some (kind, value))
    (h : Aligns text { s.skip piece rest with last := some kind } others) :
  s.Aligns text (others.map ([⟨kind, String.ofList value, s.offset, s.offset + size piece⟩] ++ ·))
  := by
  have hkind := (Pattern.of_token? hfirst htoken).1
  have hbare := Pattern.isBare_of_token? hfirst htoken
  have hline := h.inLine kind rfl hkind
  let l : PlainLexeme := ⟨⟨kind, String.ofList value, s.offset, s.offset + size piece⟩, hkind⟩
  have hparts : parts (others.map ([l.val] ++ ·)) = (parts others).map fun ps => .inl l :: ps := by
    have hpart : l.val.part = .inl l := by simp [Lexeme.part, l, hkind]
    rw [parts_append, List.map_singleton, hpart]
    rfl
  have hat (hcolumn : IsAtColumn text s.offset (s.blocks.headD 0)) :
      OffsideAtToken text s.blocks (s.starts false) (parts (others.map ([l.val] ++ ·))) := by
    rw [hparts, starts, lineStarts_of_token? hfirst htoken]
    apply OffsideAtToken.token (l := l) hcolumn hline
  constructor
  · intro _ hblocks hfront
    rw [← hblocks]
    apply (hat (hfront.isAtColumn hbare)).offside
  · intro _ hfront
    apply (hat (hfront.isAtColumn hbare)).offside.afterLine
  · intro _ _ _
    rw [hparts, starts, lineStarts_of_token? hfirst htoken]
    apply hline.cons l
  · intro _ hwidth
    apply hat (Or.inr hwidth)

/-- What aligns a scan after spacing or a comment aligns it before that. -/
theorem aligns_space (hfirst : Pattern.first? s.rest = some (pattern, piece, rest))
    (hspace : pattern = .blanks ∨ pattern = .comment) (hafter : after? s.offset text = some s.rest)
    (h : (s.skip piece rest).Aligns text others) :
  s.Aligns text others
  := by
  have hstarts (inLine : Bool) : s.starts inLine = (s.skip piece rest).starts inLine :=
    lineStarts_of_space hfirst hspace
  constructor
  · intro hlast hblocks hfront
    rw [hstarts]
    apply h.fresh hlast hblocks (hfront.skip hafter hfirst hspace)
  · intro hlast hfront
    rw [hstarts]
    apply h.ended hlast (hfront.skip hafter hfirst hspace)
  · intro kind hlast hkind
    rw [hstarts]
    apply h.inLine kind hlast hkind
  · intro hat
    obtain ⟨kind, value, htoken⟩ := hat.exists_token? hfirst
    rcases hspace with rfl | rfl <;> cases htoken

/-- What aligns a scan after a newline, with the marks there, aligns it before the newline. -/
theorem aligns_newline (hfirst : Pattern.first? s.rest = some (.newline, piece, rest))
    (hmarks : (s.endLogicalLine.2.skip piece rest).Measures marks next)
    (hafter : after? s.offset text = some s.rest) (h : next.Aligns text others) :
  s.Aligns text (others.map ((s.endLogicalLine.1 ++ marks) ++ ·))
  := by
  obtain ⟨rfl, hrest⟩ := Pattern.first?_of_newline hfirst
  rw [hrest] at hafter
  have hstarts (inLine : Bool) :
      s.starts inLine = (s.endLogicalLine.2.skip ['\n'] rest).starts false := by
    rw [starts, lineStarts_of_newline hfirst, starts, skip, offset_endLogicalLine]
  have hcolumn : column text (s.endLogicalLine.2.skip ['\n'] rest).indented.offset
      = (s.endLogicalLine.2.skip ['\n'] rest).width := by
    rw [← offset_endLogicalLine] at hafter
    have hnewline := between_of_after? (show after? _ text = some (['\n'] ++ rest) from hafter)
    apply column_indented hnewline.after_stop (lead_newline hafter)
  obtain ⟨hfresh, hended⟩ := hmarks.aligns hcolumn h
  constructor
  · intro hlast hblocks _
    rw [hstarts]
    rw [endLogicalLine_of_none hlast] at hfresh ⊢
    apply hfresh hlast hblocks
  · intro hlast _
    rw [hstarts]
    rw [endLogicalLine_of_endOfLine hlast] at hended ⊢
    apply hended hlast
  · intro kind hlast hkind
    rw [hstarts]
    rw [endLogicalLine_of_isMark hlast hkind] at hended ⊢
    have hline := (hended rfl).inLine
    rw [parts_append, Option.map_map] at hline
    rw [parts_append, List.map_append, List.map_singleton, part_mark _ .endOfLine rfl]
    apply hline
  · intro hat
    obtain ⟨kind, value, htoken⟩ := hat.exists_token? hfirst
    cases htoken

end

/-- What aligns a scan after a step, with what the step cuts off, aligns it before the step. -/
theorem Moves.aligns (hmove : s.Moves found next) (hafter : after? s.offset text = some s.rest)
    (h : next.Aligns text others) :
  s.Aligns text (others.map (found ++ ·))
  := by
  cases hmove with
  | token hfirst htoken => apply aligns_token hfirst htoken h
  | space hfirst hspace => simpa using aligns_space hfirst hspace hafter h
  | newline hfirst hmarks => apply aligns_newline hfirst hmarks hafter h

/-- What is found from any place in a scan on aligns it. -/
theorem Passes.aligns {found : Option (List Lexeme)} (h : s.Passes found)
    (hafter : after? s.offset text = some s.rest) :
  s.Aligns text found
  := by
  induction h with
  | finish hrest => apply aligns_finish hrest
  | cut hfirst => apply aligns_cut hfirst
  | move hmove _ ih => apply hmove.aligns hafter (ih (hmove.after?_eq hafter))

end Scan

/-! ## Texts -/

/-- How a text is laid out: the lines start where the logical lines of the text do, the lines of every block
are at one column, deeper than the line that opens the block, and the other lines are not indented. -/
structure Text.IsLaidOut (text : List Char) (lines : List (LogicalLine PlainLexeme)) : Prop where
  /-- The first tokens of the lines are those of the logical lines of the text. -/
  starts_eq : (headsEach lines).map PlainLexeme.start = lineStarts false 0 text
  /-- The lines are aligned. -/
  aligned : ∀ line ∈ lines, line.IsAligned text 0

/-- Unless the indentation of a line is at fault, a text is laid out, as its lexemes tell if there are any. -/
theorem Lexeme.exists_isLaidOut_or_cause (text : List Char) :
  (∃ lines, IsLaidOut text lines ∧ ∀ found, Lexeme.ofText text = .ok found →
    found.map Lexeme.part = streamEach .inl .inr lines ++ [.inr .eof])
  ∨ ∃ fault width, Lexeme.ofText text = .error fault ∧ fault.cause = .indentation width
  := by
  cases hindent : (Scan.ofText text).indentLine with
  | error fault =>
    obtain ⟨-, hfault⟩ := Scan.fault_of_indentLine hindent
    right
    use fault, (Scan.ofText text).width
    simp [Lexeme.ofText, hindent, bind, Except.bind, hfault]
  | ok result =>
    obtain ⟨marks, s⟩ := result
    have hmarks := Scan.indentLine_eq_ok_iff.mp hindent
    obtain ⟨rfl, rfl⟩ := hmarks.eq_of_fresh rfl rfl
    rcases (Scan.ofText text).indented.passes_or_cause with hpasses | ⟨fault, width, hfault, hcause⟩
    · left
      have hcolumn := Scan.column_indented (s := Scan.ofText text) (after?_zero text) (lead_zero text)
      have haligns := hpasses.aligns (hmarks.after?_eq (after?_zero text))
      obtain ⟨lines, haligned, hstarts, hparts⟩ :=
        (haligns.fresh rfl rfl (hmarks.isAtFront hcolumn)).exists_aligned
      rw [Scan.starts_indented] at hstarts
      use lines, ⟨hstarts, haligned⟩
      intro found hfound
      apply hparts
      have hlexemes := Scan.lexemes_eq_ok_iff.mpr (Lexeme.ofText_eq_ok_iff.mp hfound).2
      simp [Scan.parts, hlexemes, Except.toOption]
    · right
      use fault, width
      simp [Lexeme.ofText, hindent, hfault, bind, Except.bind, hcause]

/-- The tokens of a source have its lines in blocks that follow their columns, but for lines with a carriage
return at their front.  When there are no blocks that the lines, up to the first place where no token is
recognised, fit in, the source is refused for the indentation of a line. -/
theorem isLaidOut_of_ofSource (source file : String) :
  (∀ tokens, Token.ofSource source file = .ok tokens → ∃ lexemes lines,
    Lexeme.ofText source.toList = .ok lexemes ∧ tokens = lexemes.map (Token.ofLexeme file)
    ∧ lexemes.map Lexeme.part = streamEach .inl .inr lines ++ [.inr .eof]
    ∧ IsLaidOut source.toList lines)
  ∧ ((∀ lines, ¬ IsLaidOut source.toList lines) → ∃ width position,
    Token.ofSource source file = .error ⟨.indentation width, position⟩)
  := by
  rcases Lexeme.exists_isLaidOut_or_cause source.toList with
    ⟨lines, hlaid, hparts⟩ | ⟨fault, width, hfault, hcause⟩
  · constructor
    · intro tokens htokens
      obtain ⟨lexemes, hlexemes, heq⟩ := Token.ofSource_eq_ok_iff.mp htokens
      use lexemes, lines, hlexemes, heq, hparts lexemes hlexemes
    · intro hnone
      apply absurd hlaid (hnone lines)
  · have hsource : Token.ofSource source file = .error (.ofFault file fault) := by
      simp [Token.ofSource, hfault]
    constructor
    · intro tokens htokens
      simp [hsource] at htokens
    · intro _
      use width, .ofOffset file fault.offset
      rw [hsource, Diagnostic.ofFault, hcause]

/-- A line that is indented by two blanks, and then a carriage return. -/
def indentedReturn : String := "  \rx"

/-- The line is in no block, though three bytes stand before its token. -/
theorem not_isLaidOut_indentedReturn :
  ∃ lexemes, Lexeme.ofText indentedReturn.toList = .ok lexemes
    ∧ Token.ofSource indentedReturn "shell" = .ok (lexemes.map (Token.ofLexeme "shell"))
    ∧ ¬ ∃ lines, lexemes.map Lexeme.part = streamEach .inl .inr lines ++ [.inr .eof]
      ∧ ∀ line ∈ lines, line.Aligned (fun l width => column indentedReturn.toList l.start = width) 0
  := by
  have hfound : (Lexeme.ofText indentedReturn.toList).toOption
      = some [⟨.identifier, "x", 3, 4⟩, ⟨.endOfLine, "", 4, 4⟩, ⟨.eof, "EOF", 4, 4⟩] := by
    decide +kernel
  have hlexemes : Lexeme.ofText indentedReturn.toList
      = .ok [⟨.identifier, "x", 3, 4⟩, ⟨.endOfLine, "", 4, 4⟩, ⟨.eof, "EOF", 4, 4⟩] := by
    cases h : Lexeme.ofText indentedReturn.toList <;> simp_all [Except.toOption]
  refine ⟨_, hlexemes, Token.ofSource_eq_ok_iff.mpr ⟨_, hlexemes, rfl⟩, ?_⟩
  rintro ⟨_ | ⟨⟨first, others, block⟩, lines⟩, hparts, haligned⟩
  · simp [streamEach, Lexeme.part, Terminal.isMark] at hparts
  · have hfirst : first.val = ⟨.identifier, "x", 3, 4⟩ := by
      simp [streamEach, stream, Lexeme.part, Terminal.isMark] at hparts
      obtain rfl := Sum.inl.inj hparts.1
      rfl
    cases haligned _ List.mem_cons_self with
    | mk hcolumn =>
      rw [PlainLexeme.start, hfirst] at hcolumn
      revert hcolumn
      decide +kernel

end LayoutGrammar
