import LayoutGrammar.Proofs.Scan.Seam

/-!
# Places of faults

A scan fails at the first place where something is wrong: what comes before it is found when the text is cut
off there (`Scan.exists_upTo_of_lexemes`), since no piece up to there is decided by what is after it
(`Pattern.first?_of_append`), and at the end of a text all blocks are closed.  At the place itself either no
pattern matches anything, or a line starts whose indentation fits no block (`Cause.IsAt`).
-/

namespace LayoutGrammar

open Text

/-! ## Places -/

/-- Whether something is wrong at a place of a text, by what is before the place and what is after it. -/
inductive Cause.IsAt : Cause → List Char → List Char → Prop
  /-- No pattern matches anything that starts with the character at the place. -/
  | unrecognised {before others : List Char} {c : Char}
      (hnone : ∀ pattern ∈ Pattern.table, ∀ piece, piece <+: c :: others → ¬ pattern.Matches piece) :
      IsAt (.unrecognised (String.singleton c)) before (c :: others)
  /-- Before the place there is the indentation of a line, after it neither the end of the line nor a
  comment. -/
  | indentation {line indentation rest : List Char} (hline : ∀ c ∈ line.getLast?, c = '\n')
      (hindentation : ∀ c ∈ indentation, c = ' ' ∨ c = '\t') (hne : rest ≠ [])
      (hfirst : ∀ c ∈ rest.head?, c ≠ '\n' ∧ c ≠ '\r') (hcomment : ¬ ['/', '/'] <+: rest) :
      IsAt (.indentation (size indentation)) (line ++ indentation) rest

/-- Whether a fault is at a place of a text, by what is before the place and what is after it. -/
structure Fault.IsAt (fault : Fault) (before rest : List Char) : Prop where
  /-- The offset is that of the place. -/
  offset_eq : fault.offset = size before
  /-- The cause is there. -/
  cause : fault.cause.IsAt before rest

/-- Spaces and tabs are of one byte each. -/
theorem Text.size_of_indentation {text : List Char} (h : ∀ c ∈ text, c = ' ' ∨ c = '\t') :
  size text = text.length
  := by
  induction text with
  | nil => rfl
  | cons c text ih =>
    obtain ⟨hc, htext⟩ := List.forall_mem_cons.mp h
    have hsize : c.utf8Size = 1 := by rcases hc with rfl | rfl <;> rfl
    rw [size_cons, ih htext, hsize, List.length_cons, Nat.add_comm]

/-! ## Texts that are cut off -/

/-- Whether a line is bare is told alike by what is kept of it. -/
theorem Pattern.isBare_eq_of_first? {pattern : Pattern} {text piece rest others : List Char}
    (h : first? text = some (pattern, piece, rest))
    (hothers : first? (piece ++ others) = some (pattern, piece, others)) :
  Scan.isBare (piece ++ others) = Scan.isBare text
  := by
  rw [Bool.eq_iff_iff, isBare_iff_of_first? h, isBare_iff_of_first? hothers]

namespace Scan

variable {s next : Scan} {marks found : List Lexeme} {fault : Fault}

/-- A scan of which only an initial piece of the text is kept. -/
def upTo (s : Scan) (kept : List Char) : Scan := { s with rest := kept }

theorem endLogicalLine_upTo (s : Scan) (kept : List Char) :
  (s.upTo kept).endLogicalLine = (s.endLogicalLine.1, s.endLogicalLine.2.upTo kept)
  := by
  unfold endLogicalLine
  rw [show (s.upTo kept).last = s.last from rfl]
  split <;> rfl

/-- Whether a fault is at a place in the text that is left of a scan, and what comes before the place is found
when the text is cut off there.  What is kept, if it is anything, tells whether the line is bare, so that the
indentation before it is measured as in the whole text. -/
def FailsFirst (s : Scan) (fault : Fault) : Prop :=
  ∀ before, size before = s.offset → ∃ kept beyond, s.rest = kept ++ beyond
    ∧ fault.IsAt (before ++ kept) beyond
    ∧ (kept = [] ∨ isBare kept = isBare s.rest)
    ∧ ∃ found, (s.upTo kept).lexemes = .ok found

/-- The same of a scan at the start of a line. -/
def FailsFirstFromLine (s : Scan) (fault : Fault) : Prop :=
  ∀ before, size before = s.offset → (∀ c ∈ before.getLast?, c = '\n') → ∃ kept beyond,
    s.rest = kept ++ beyond
    ∧ fault.IsAt (before ++ kept) beyond
    ∧ ∃ found, (s.upTo kept).fromLine = .ok found

/-! ## Lines that are cut off -/

/-- A line of indentation alone is found. -/
theorem exists_fromLine_of_isIndentation (h : ∀ c ∈ s.rest, isIndentation c = true) :
  ∃ found, s.fromLine = .ok found
  := by
  have hrest : s.indented.rest = [] := List.dropWhile_eq_nil_iff.mpr h
  have hmarks : s.Measures [] s.indented := by
    apply Measures.bare
    rw [hrest]
    rfl
  use s.indented.finish
  rw [fromLine_of_measures hmarks, lexemes_of_nil hrest]
  rfl

/-- A line is found when it is cut off where its rest is found. -/
theorem Measures.exists_fromLine_upTo {kept beyond : List Char} (hmarks : s.Measures marks next)
    (hrest : next.rest = kept ++ beyond) (hbare : kept = [] ∨ isBare kept = isBare next.rest)
    (hkept : ∃ found, (next.upTo kept).lexemes = .ok found) :
  ∃ found, (s.upTo (s.rest.takeWhile isIndentation ++ kept)).fromLine = .ok found
  := by
  have hall : ∀ c ∈ s.rest.takeWhile isIndentation, isIndentation c = true :=
    fun c hc => List.mem_takeWhile_imp hc
  by_cases hnil : kept = []
  -- A line that is cut off after its indentation is bare, whatever came after it.
  · apply exists_fromLine_of_isIndentation
    simpa [hnil, upTo] using hall
  · replace hbare := hbare.resolve_left hnil
    rw [hmarks.rest_eq] at hrest hbare
    have hstop : ∀ c ∈ kept.head?, isIndentation c = false := by
      intro c hc
      apply s.not_isIndentation_indented c
      rw [hrest]
      simp [Option.mem_def.mp hc]
    obtain ⟨hwidth, hindented⟩ := indented_of_append
      (s := s.upTo (s.rest.takeWhile isIndentation ++ kept)) rfl hall hstop
    obtain ⟨found, hfound⟩ := hkept
    use marks ++ found
    rw [fromLine_of_measures (hmarks.withRest hindented hwidth hbare)]
    show (next.upTo kept).lexemes.map _ = _
    rw [hfound]
    rfl

/-- The indentation of a line fails at its end. -/
theorem isAt_of_indentLine (h : s.indentLine = .error fault) {before : List Char}
    (hbefore : size before = s.offset) (hline : ∀ c ∈ before.getLast?, c = '\n') :
  fault.IsAt (before ++ s.rest.takeWhile isIndentation) s.indented.rest
  := by
  obtain ⟨hbare, rfl⟩ := fault_of_indentLine h
  constructor
  · rw [size_append, hbefore]
    rfl
  · rw [width, ← size_of_indentation s.eq_of_mem_indentation]
    obtain ⟨hne, hfirst, hcomment⟩ := isBare_eq_false_iff.mp hbare
    apply Cause.IsAt.indentation hline s.eq_of_mem_indentation hne hfirst hcomment

theorem failsFirstFromLine_of_indentLine (h : s.indentLine = .error fault) :
  s.FailsFirstFromLine fault
  := by
  intro before hbefore hline
  use s.rest.takeWhile isIndentation, s.indented.rest, List.takeWhile_append_dropWhile.symm,
    isAt_of_indentLine h hbefore hline
  apply exists_fromLine_of_isIndentation
  intro c hc
  apply List.mem_takeWhile_imp hc

/-- After the indentation of a line a fault is in the rest of it. -/
theorem Measures.failsFirstFromLine (hmarks : s.Measures marks next) (h : next.FailsFirst fault) :
  s.FailsFirstFromLine fault
  := by
  intro before hbefore _
  have hnext : size (before ++ s.rest.takeWhile isIndentation) = next.offset := by
    rw [size_append, hbefore, hmarks.offset_eq]
    rfl
  obtain ⟨kept, beyond, hrest, hat, hbare, hkept⟩ := h _ hnext
  use s.rest.takeWhile isIndentation ++ kept, beyond
  constructor
  · rw [List.append_assoc, ← hrest, hmarks.rest_eq]
    apply List.takeWhile_append_dropWhile.symm
  · rw [← List.append_assoc]
    use hat
    apply hmarks.exists_fromLine_upTo hrest hbare hkept

/-! ## Steps that are cut off -/

/-- At a newline a fault is in the line after it. -/
theorem failsFirst_of_newline {rest : List Char} (hrest : s.rest = '\n' :: rest)
    (h : (s.endLogicalLine.2.skip ['\n'] rest).FailsFirstFromLine fault) :
  s.FailsFirst fault
  := by
  intro before hbefore
  have hline : size (before ++ ['\n']) = (s.endLogicalLine.2.skip ['\n'] rest).offset := by
    rw [size_append, hbefore, skip, offset_endLogicalLine]
  obtain ⟨kept, beyond, hsplit, hat, found, hfound⟩ := h _ hline (by simp)
  use '\n' :: kept, beyond
  constructor
  · rw [hrest]
    apply congrArg _ hsplit
  · rw [List.append_cons]
    use hat, .inr (by rw [hrest]; rfl), s.endLogicalLine.1 ++ found
    rw [lexemes_eq_fromLine (s := s.upTo ('\n' :: kept)) rfl, endLogicalLine_upTo]
    show ((s.endLogicalLine.2.skip ['\n'] rest).upTo kept).fromLine.map _ = _
    rw [hfound]
    rfl

/-- Before any other step a fault is in what the step leaves. -/
theorem FailsFirst.of_piece {pattern : Pattern} {piece rest : List Char} (h : next.FailsFirst fault)
    (hfirst : Pattern.first? s.rest = some (pattern, piece, rest)) (hrest : next.rest = rest)
    (hoffset : next.offset = s.offset + size piece)
    (hmove : ∀ kept, Pattern.first? (s.upTo (piece ++ kept)).rest = some (pattern, piece, kept) →
      ∃ found, (s.upTo (piece ++ kept)).Moves found (next.upTo kept)) :
  s.FailsFirst fault
  := by
  intro before hbefore
  have hpiece : size (before ++ piece) = next.offset := by rw [size_append, hbefore, hoffset]
  obtain ⟨kept, beyond, hsplit, hat, -, others, hothers⟩ := h _ hpiece
  rw [hrest] at hsplit
  have htext : s.rest = (piece ++ kept) ++ beyond := by
    rw [← (Pattern.append_of_first? hfirst).1, hsplit, List.append_assoc]
  -- The text is cut off after the piece, so that the piece comes first still.
  have hkept : Pattern.first? (piece ++ kept) = some (pattern, piece, kept) := by
    apply Pattern.first?_of_append
    rw [← htext, hfirst, hsplit]
  use piece ++ kept, beyond, htext
  rw [← List.append_assoc]
  obtain ⟨found, hfound⟩ := hmove kept hkept
  use hat, .inr (Pattern.isBare_eq_of_first? hfirst hkept), found ++ others
  rw [lexemes_of_moves hfound, hothers]
  rfl

/-- After a step that is made a fault is in what it leaves. -/
theorem Moves.failsFirst (hmove : s.Moves found next) (h : next.FailsFirst fault) :
  s.FailsFirst fault
  := by
  cases hmove with
  | token hfirst htoken =>
    apply h.of_piece hfirst rfl rfl
    intro kept hkept
    exact ⟨_, Moves.token hkept htoken⟩
  | space hfirst hspace =>
    apply h.of_piece hfirst rfl rfl
    intro kept hkept
    exact ⟨_, Moves.space hkept hspace⟩
  | newline hfirst hmarks =>
    obtain ⟨rfl, hrest⟩ := Pattern.first?_of_newline hfirst
    apply failsFirst_of_newline hrest (hmarks.failsFirstFromLine h)

/-- A step that is not made fails at the first fault. -/
theorem failsFirst_of_step (h : s.step = .error fault) (hne : s.rest ≠ []) :
  s.FailsFirst fault
  := by
  rcases fault_of_step h with ⟨hfirst, rfl⟩ | ⟨piece, rest, hfirst, hmarks⟩
  · obtain ⟨c, others, hcons⟩ := List.exists_cons_of_ne_nil hne
    intro before hbefore
    use [], s.rest, rfl
    rw [List.append_nil, hcons]
    rw [hcons, Pattern.first?_eq_none_iff] at hfirst
    use ⟨hbefore.symm, .unrecognised hfirst⟩, .inl rfl, (s.upTo []).finish
    apply lexemes_of_nil (s := s.upTo []) rfl
  · obtain ⟨rfl, hrest⟩ := Pattern.first?_of_newline hfirst
    apply failsFirst_of_newline hrest (failsFirstFromLine_of_indentLine hmarks)

/-! ## The first fault -/

/-- A scan fails at the first fault. -/
theorem failsFirst_of_lexemes (h : s.lexemes = .error fault) :
  s.FailsFirst fault
  := by
  fun_induction lexemes s with
  | case1 => cases h
  | case2 s hrest other hstep =>
    cases h
    apply failsFirst_of_step hstep (by simpa using hrest)
  | case3 s _ cut next hstep ih =>
    apply (step_eq_ok_iff.mp hstep).failsFirst
    apply ih (map_eq_error_iff.mp h)

theorem failsFirstFromLine_of_fromLine (h : s.fromLine = .error fault) :
  s.FailsFirstFromLine fault
  := by
  cases hindent : s.indentLine with
  | error other =>
    obtain rfl : other = fault := by simpa [fromLine, hindent, Except.bind] using h
    apply failsFirstFromLine_of_indentLine hindent
  | ok result =>
    obtain ⟨marks, next⟩ := result
    have hmarks := indentLine_eq_ok_iff.mp hindent
    rw [fromLine_of_measures hmarks, map_eq_error_iff] at h
    apply hmarks.failsFirstFromLine (failsFirst_of_lexemes h)

end Scan

/-! ## Sources -/

/-- A text fails at a place in it, before which everything is found. -/
theorem Lexeme.exists_place {text : List Char} {fault : Fault} (h : ofText text = .error fault) :
  ∃ before rest, text = before ++ rest ∧ fault.IsAt before rest ∧ ∃ found, ofText before = .ok found
  := by
  rw [Scan.ofText_eq_fromLine] at h
  obtain ⟨before, rest, htext, hat, found, hfound⟩ :=
    Scan.failsFirstFromLine_of_fromLine h [] rfl (by simp)
  use before, rest, htext, hat, found
  rw [Scan.ofText_eq_fromLine]
  apply hfound

theorem Lexeme.offset_le_of_ofText {text : List Char} {fault : Fault} (h : ofText text = .error fault) :
  fault.offset ≤ size text
  := by
  obtain ⟨before, rest, rfl, hat, -⟩ := exists_place h
  rw [hat.offset_eq, size_append]
  apply Nat.le_add_right

/-- A source fails at a place in it that is the end of a character.  What comes before the place has tokens by
itself, and what is wrong is at the place. -/
theorem exists_place_of_ofSource (source file : String) (d : Diagnostic)
    (hsize : source.utf8ByteSize < UInt32.size) (h : Token.ofSource source file = .error d) :
  ∃ before rest, source.toList = before ++ rest
    ∧ d.position.file = file ∧ d.position.offset.toNat = size before
    ∧ d.cause.IsAt before rest
    ∧ ∃ tokens, Token.ofSource (String.ofList before) file = .ok tokens
  := by
  unfold Token.ofSource at h
  cases hfault : Lexeme.ofText source.toList with
  | ok found => simp [hfault] at h
  | error fault =>
    obtain rfl : Diagnostic.ofFault file fault = d := by simpa [hfault] using h
    have hoffset := Lexeme.offset_le_of_ofText hfault
    rw [size_toList] at hoffset
    obtain ⟨before, rest, hsource, hat, found, hfound⟩ := Lexeme.exists_place hfault
    use before, rest, hsource, rfl
    constructor
    · rw [← hat.offset_eq]
      apply UInt32.toNat_ofNat_of_lt' (Nat.lt_of_le_of_lt hoffset hsize)
    · use hat.cause, found.map (Token.ofLexeme file)
      apply Token.ofSource_eq_ok_iff.mpr
      use found
      rw [String.toList_ofList]
      use hfound

/-- A block that is closed by a line of a width that no block has, of seventeen bytes. -/
def misalignedLine : String := "x // é\n    y\n  z"

/-- A block with a literal that is not closed. -/
def unclosedLiteral : String := "x\n  \"y // z\\\"\n"

/-- The one fails before the last letter, and the other at the quote. -/
theorem exists_place_misalignedLine :
  (∃ before, misalignedLine.toList = before ++ ['z'] ∧ size before = 16
    ∧ Token.ofSource misalignedLine "text" = .error ⟨.indentation 2, ⟨16, "text"⟩⟩
    ∧ Cause.IsAt (.indentation 2) before ['z']
    ∧ ∃ tokens, Token.ofSource (String.ofList before) "text" = .ok tokens)
  ∧ ∃ before rest, unclosedLiteral.toList = before ++ rest ∧ size before = 4
    ∧ Token.ofSource unclosedLiteral "text" = .error ⟨.unrecognised "\"", ⟨4, "text"⟩⟩
    ∧ Cause.IsAt (.unrecognised "\"") before rest
    ∧ ∃ tokens, Token.ofSource (String.ofList before) "text" = .ok tokens
  := by
  constructor
  · have herror : Token.ofSource misalignedLine "text" = .error ⟨.indentation 2, ⟨16, "text"⟩⟩ := by
      decide +kernel
    obtain ⟨before, rest, hsource, -, hsize, hcause, htokens⟩ :=
      exists_place_of_ofSource misalignedLine "text" _ (by decide) herror
    have hrest : after? 16 misalignedLine.toList = some ['z'] := by
      decide +kernel
    have hplace : after? 16 misalignedLine.toList = some rest :=
      after?_eq_some_iff.mpr ⟨before, hsource, hsize.symm⟩
    obtain rfl : ['z'] = rest := Option.some.inj (hrest.symm.trans hplace)
    exact ⟨before, hsource, hsize.symm, herror, hcause, htokens⟩
  · have herror : Token.ofSource unclosedLiteral "text" = .error ⟨.unrecognised "\"", ⟨4, "text"⟩⟩ := by
      decide +kernel
    obtain ⟨before, rest, hsource, -, hsize, hcause, htokens⟩ :=
      exists_place_of_ofSource unclosedLiteral "text" _ (by decide) herror
    exact ⟨before, rest, hsource, hsize.symm, herror, hcause, htokens⟩

end LayoutGrammar
