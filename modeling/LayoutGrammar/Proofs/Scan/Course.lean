import LayoutGrammar.Token.Stream
import Mathlib.Data.List.TakeWhile
import Mathlib.Tactic.Use

/-!
# The course of a scan

What a scan may do, said once: what the indentation of a line comes to (`Scan.Measures`), what a step cuts
off (`Scan.Moves`) and which lexemes are found up to the end of the text (`Scan.Yields`).  A scan finds some
lexemes just when it yields them (`Scan.lexemes_eq_ok_iff`), so that a property of streams of lexemes is
shown case by case, on the steps from the end of the text back to its start.  There are two ways to fail
(`Scan.fault_of_step`): no token is recognised, or a line is indented as no block is.
-/

namespace LayoutGrammar

/-! ## Classes of characters -/

/-- The characters of a class at the start of a text stop at the first one that is not of the class. -/
theorem Text.span_append {isIn : Char → Bool} {piece rest : List Char} (hpiece : ∀ c ∈ piece, isIn c = true)
    (hrest : ∀ c ∈ rest.head?, isIn c = false) :
  (piece ++ rest).takeWhile isIn = piece ∧ (piece ++ rest).dropWhile isIn = rest
  := by
  rw [List.takeWhile_append_of_pos hpiece, List.dropWhile_append_of_pos hpiece]
  cases rest with
  | nil => simp
  | cons c rest => simp [hrest c rfl]

/-- What follows them does not start with a character of the class. -/
theorem Text.stop_dropWhile (isIn : Char → Bool) (text : List Char) :
  ∀ c ∈ (text.dropWhile isIn).head?, isIn c = false
  := by
  intro c hc
  have hstop := List.head?_dropWhile_not isIn text
  rw [Option.mem_def.mp hc] at hstop
  simpa using hstop

namespace Scan

/-! ## The indentation of a line -/

/-- The number of characters of the indentation of the line at the front of a scan. -/
def width (s : Scan) : Nat := (s.rest.takeWhile isIndentation).length

/-- A scan after the indentation of a line. -/
def indented (s : Scan) : Scan :=
  s.skip (s.rest.takeWhile isIndentation) (s.rest.dropWhile isIndentation)

/-- The indentation of a line stops at the first character that is not of it. -/
theorem indented_of_append {s : Scan} {front rest : List Char} (hrest : s.rest = front ++ rest)
    (hfront : ∀ c ∈ front, isIndentation c = true) (hstop : ∀ c ∈ rest.head?, isIndentation c = false) :
  s.width = front.length ∧ s.indented = s.skip front rest
  := by
  obtain ⟨htake, hdrop⟩ := Text.span_append hfront hstop
  rw [width, indented, hrest, htake, hdrop]
  use rfl

/-- The open blocks, without those that are deeper than the line at the front of a scan. -/
def shallower (s : Scan) : List Nat := s.blocks.dropWhile fun block => s.width < block

/-- What the indentation of a line comes to: marks, and the scan after them. -/
inductive Measures (s : Scan) : List Lexeme → Scan → Prop
  /-- A line that has no bearing on blocks. -/
  | bare (hbare : isBare s.indented.rest = true) : Measures s [] s.indented
  /-- A line deeper than the innermost block opens a block, if a token is before it. -/
  | opens (hbare : isBare s.indented.rest = false) (hdeeper : s.blocks.headD 0 < s.width)
      (hlast : s.last ≠ none) :
      Measures s [s.indented.mark .indent]
        { s.indented with last := some .indent, blocks := s.width :: s.blocks }
  /-- Any other line closes the blocks that are deeper, and is in a block of its width then. -/
  | closes {closed blocks : List Nat} (hbare : isBare s.indented.rest = false)
      (hblocks : s.blocks = closed ++ blocks) (hclosed : ∀ block ∈ closed, s.width < block)
      (hwidth : blocks.headD 0 = s.width) :
      Measures s (s.indented.blockEnds closed.length)
        { s.indented with last := if closed = [] then s.last else some .endOfLine, blocks := blocks }

/-- How the indentation of a line is measured, by the names of its parts. -/
theorem indentLine_eq (s : Scan) :
  s.indentLine =
    if isBare s.indented.rest then
      .ok ([], s.indented)
    else if s.blocks.headD 0 < s.width then
      if s.last.isNone then
        .error ⟨.indentation s.width, s.indented.offset⟩
      else
        .ok ([s.indented.mark .indent],
          { s.indented with last := some .indent, blocks := s.width :: s.blocks })
    else if s.shallower.headD 0 = s.width then
      .ok (s.indented.blockEnds (s.blocks.length - s.shallower.length),
        { s.indented with
          last := if s.blocks.length - s.shallower.length = 0 then s.last else some .endOfLine
          blocks := s.shallower })
    else
      .error ⟨.indentation s.width, s.indented.offset⟩
  := rfl

/-- The deeper blocks come first, before a block that has the width of the line. -/
theorem shallower_eq {s : Scan} {closed blocks : List Nat} (hblocks : s.blocks = closed ++ blocks)
    (hclosed : ∀ block ∈ closed, s.width < block) (hwidth : blocks.headD 0 = s.width) :
  s.shallower = blocks
  := by
  rw [shallower, hblocks, List.dropWhile_append_of_pos (by simpa using hclosed)]
  cases blocks with
  | nil => rfl
  | cons block others =>
    obtain rfl : block = s.width := hwidth
    simp

theorem indentLine_eq_ok_iff {s next : Scan} {marks : List Lexeme} :
  s.indentLine = .ok (marks, next) ↔ s.Measures marks next
  := by
  rw [indentLine_eq]
  constructor
  · intro h
    split at h
    next hbare =>
      cases h
      apply Measures.bare hbare
    next hbare =>
      rw [Bool.not_eq_true] at hbare
      split at h
      next hdeeper =>
        split at h
        next => cases h
        next hlast =>
          cases h
          apply Measures.opens hbare hdeeper
          simpa using hlast
      next hdeeper =>
        split at h
        next hwidth =>
          cases h
          have hblocks : s.blocks = s.blocks.takeWhile (fun block => s.width < block) ++ s.shallower :=
            List.takeWhile_append_dropWhile.symm
          have hclosed : ∀ block ∈ s.blocks.takeWhile (fun block => s.width < block), s.width < block := by
            intro block hblock
            simpa using List.mem_takeWhile_imp hblock
          have hlength := congrArg List.length hblocks
          rw [List.length_append] at hlength
          rw [← Nat.eq_sub_of_add_eq hlength.symm]
          simpa only [List.length_eq_zero_iff] using Measures.closes hbare hblocks hclosed hwidth
        next => cases h
  · rintro (hbare | ⟨hbare, hdeeper, hlast⟩ | @⟨closed, _, hbare, hblocks, hclosed, hwidth⟩)
    · rw [if_pos hbare]
    · rw [if_neg (by simp [hbare]), if_pos hdeeper, if_neg (by simpa using hlast)]
    · have hshallower := shallower_eq hblocks hclosed hwidth
      have hdeeper : ¬ s.blocks.headD 0 < s.width := by
        rw [hblocks, Nat.not_lt]
        cases closed with
        | nil => apply hwidth.ge
        | cons block others => apply (hclosed block List.mem_cons_self).le
      rw [if_neg (by simp [hbare]), if_neg hdeeper, if_pos (by rw [hshallower, hwidth]), hshallower, hblocks]
      simp [List.length_eq_zero_iff]

/-- The indentation of a line fails at its end, for its width. -/
theorem fault_of_indentLine {s : Scan} {fault : Fault} (h : s.indentLine = .error fault) :
  isBare s.indented.rest = false ∧ fault = ⟨.indentation s.width, s.indented.offset⟩
  := by
  rw [indentLine_eq] at h
  split_ifs at h with hbare <;> cases h <;> exact ⟨by simpa using hbare, rfl⟩

/-! ## Steps -/

/-- What a step cuts off: lexemes, and the scan after them. -/
inductive Moves (s : Scan) : List Lexeme → Scan → Prop
  /-- A piece that stands for a token. -/
  | token {pattern : Pattern} {piece rest value : List Char} {kind : Terminal}
      (hfirst : Pattern.first? s.rest = some (pattern, piece, rest))
      (htoken : pattern.token? piece = some (kind, value)) :
      Moves s [⟨kind, String.ofList value, s.offset, s.offset + Text.size piece⟩]
        { s.skip piece rest with last := some kind }
  /-- A piece that only separates tokens of a line. -/
  | space {pattern : Pattern} {piece rest : List Char}
      (hfirst : Pattern.first? s.rest = some (pattern, piece, rest))
      (hspace : pattern = .blanks ∨ pattern = .comment) : Moves s [] (s.skip piece rest)
  /-- A newline, with the indentation of the line after it. -/
  | newline {piece rest : List Char} {marks : List Lexeme} {next : Scan}
      (hfirst : Pattern.first? s.rest = some (.newline, piece, rest))
      (hmarks : (s.endLogicalLine.2.skip piece rest).Measures marks next) :
      Moves s (s.endLogicalLine.1 ++ marks) next

theorem step_eq_ok_iff {s next : Scan} {found : List Lexeme} :
  s.step = .ok (found, next) ↔ s.Moves found next
  := by
  constructor
  · intro h
    rw [step_eq] at h
    split at h
    next => cases h
    next piece rest hfirst =>
      cases hmarks : (s.endLogicalLine.2.skip piece rest).indentLine with
      | error fault => simp [hmarks, Except.map] at h
      | ok result =>
        obtain ⟨rfl, rfl⟩ := by simpa [hmarks, Except.map] using h
        apply Moves.newline hfirst (indentLine_eq_ok_iff.mp hmarks)
    next pattern piece rest hne hfirst =>
      split at h
      next kind value htoken =>
        cases h
        apply Moves.token hfirst htoken
      next hnone =>
        cases h
        apply Moves.space hfirst
        cases pattern <;> simp_all [Pattern.token?]
  · rintro (@⟨pattern, _, _, _, _, hfirst, htoken⟩ | ⟨hfirst, rfl | rfl⟩ | ⟨hfirst, hmarks⟩)
    · cases pattern with
      | newline => cases htoken
      | _ => simp only [step_eq, hfirst, htoken]
    · simp [step_eq, hfirst, Pattern.token?]
    · simp [step_eq, hfirst, Pattern.token?]
    · simp [step_eq, hfirst, indentLine_eq_ok_iff.mpr hmarks, Except.map]

/-- A step fails where no token is recognised, or for the indentation of the line after a newline. -/
theorem fault_of_step {s : Scan} {fault : Fault} (h : s.step = .error fault) :
  Pattern.first? s.rest = none ∧ fault = ⟨.unrecognised (String.ofList (s.rest.take 1)), s.offset⟩
  ∨ ∃ piece rest, Pattern.first? s.rest = some (.newline, piece, rest)
    ∧ (s.endLogicalLine.2.skip piece rest).indentLine = .error fault
  := by
  rw [step_eq] at h
  split at h
  next hfirst =>
    cases h
    apply Or.inl ⟨hfirst, rfl⟩
  next piece rest hfirst =>
    cases hmarks : (s.endLogicalLine.2.skip piece rest).indentLine with
    | ok result => simp [hmarks, Except.map] at h
    | error other =>
      obtain rfl : other = fault := by simpa [hmarks, Except.map] using h
      apply Or.inr ⟨piece, rest, hfirst, hmarks⟩
  next => split at h <;> cases h

/-! ## Steps up to the end -/

theorem lexemes_of_nil {s : Scan} (h : s.rest = []) :
  s.lexemes = .ok s.finish
  := by
  rw [lexemes]
  simp [h]

/-- What is found from a place on is what a step finds there and what is found after it. -/
theorem lexemes_eq {s : Scan} (h : s.rest ≠ []) :
  s.lexemes = s.step.bind fun result => result.2.lexemes.map (result.1 ++ ·)
  := by
  rw [lexemes, if_neg (by simpa using h)]
  split
  next hstep => simp [hstep, Except.bind]
  next hstep => simp [hstep, Except.bind]

/-- What is found may come after something else that is found, but a fault stays as it is. -/
theorem map_eq_error_iff {α β : Type} {f : α → β} {outcome : Except Fault α} {fault : Fault} :
  outcome.map f = .error fault ↔ outcome = .error fault
  := by
  cases outcome <;> simp [Except.map]

theorem lexemes_of_moves {s next : Scan} {found : List Lexeme} (hmove : s.Moves found next) :
  s.lexemes = next.lexemes.map (found ++ ·)
  := by
  have hstep := step_eq_ok_iff.mpr hmove
  have hrest : s.rest ≠ [] := by
    have hlt := length_rest_step hstep
    apply List.length_pos_iff.mp (by omega)
  rw [lexemes_eq hrest, hstep]
  rfl

/-- The lexemes from a place in a scan up to the end of the text. -/
inductive Yields : Scan → List Lexeme → Prop
  /-- At the end of the text there are only marks left. -/
  | finish {s : Scan} (hrest : s.rest = []) : Yields s s.finish
  /-- Before it there is a step. -/
  | move {s next : Scan} {found others : List Lexeme} (hmove : s.Moves found next)
      (hothers : next.Yields others) : Yields s (found ++ others)

theorem lexemes_eq_ok_iff {s : Scan} {found : List Lexeme} :
  s.lexemes = .ok found ↔ s.Yields found
  := by
  constructor
  · intro h
    fun_induction lexemes s generalizing found with
    | case1 s hrest =>
      cases h
      apply Yields.finish (List.isEmpty_iff.mp hrest)
    | case2 => cases h
    | case3 s hrest cut next hstep ih =>
      cases hothers : next.lexemes with
      | error fault => simp [hothers, Except.map] at h
      | ok others =>
        obtain rfl : cut ++ others = found := by simpa [hothers, Except.map] using h
        apply Yields.move (step_eq_ok_iff.mp hstep) (ih hothers)
  · intro h
    induction h with
    | finish hrest => apply lexemes_of_nil hrest
    | move hmove _ ih =>
      rw [lexemes_of_moves hmove, ih]
      rfl

end Scan

/-- Before the first token no block is opened or closed. -/
theorem Scan.Measures.eq_of_fresh {s next : Scan} {marks : List Lexeme} (h : s.Measures marks next)
    (hlast : s.last = none) (hblocks : s.blocks = []) :
  marks = [] ∧ next = s.indented
  := by
  cases h with
  | bare => simp
  | opens _ _ hsome => contradiction
  | closes _ hboth =>
    rw [hblocks, eq_comm, List.append_eq_nil_iff] at hboth
    obtain ⟨rfl, rfl⟩ := hboth
    simp [blockEnds, indented, skip, hlast, hblocks]

/-- The lexemes of a text are those yielded after the indentation of its first line. -/
theorem Lexeme.ofText_eq_ok_iff {text : List Char} {found : List Lexeme} :
  Lexeme.ofText text = .ok found
    ↔ (Scan.ofText text).Measures [] (Scan.ofText text).indented
      ∧ (Scan.ofText text).indented.Yields found
  := by
  unfold ofText
  constructor
  · intro h
    cases hmarks : (Scan.ofText text).indentLine with
    | error fault => simp [hmarks, bind, Except.bind] at h
    | ok result =>
      obtain ⟨marks, s⟩ := result
      have hmeasures := Scan.indentLine_eq_ok_iff.mp hmarks
      obtain ⟨rfl, rfl⟩ := hmeasures.eq_of_fresh rfl rfl
      use hmeasures
      apply Scan.lexemes_eq_ok_iff.mp
      cases hothers : (Scan.ofText text).indented.lexemes with
      | error fault => simp [hmarks, hothers, bind, Except.bind] at h
      | ok others => simpa [hmarks, hothers, bind, Except.bind, pure, Except.pure] using h
  · rintro ⟨hmarks, hothers⟩
    simp [Scan.indentLine_eq_ok_iff.mpr hmarks, Scan.lexemes_eq_ok_iff.mpr hothers, bind, Except.bind,
      pure, Except.pure]

/-- The lexemes that the tokens of a source are made of. -/
theorem Token.ofSource_eq_ok_iff {source file : String} {tokens : List Token} :
  Token.ofSource source file = .ok tokens
    ↔ ∃ lexemes, Lexeme.ofText source.toList = .ok lexemes
      ∧ tokens = lexemes.map (Token.ofLexeme file)
  := by
  unfold ofSource
  cases Lexeme.ofText source.toList <;> simp [eq_comm]

end LayoutGrammar
