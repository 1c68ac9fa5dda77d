import LayoutGrammar.Program.Grammar
import LayoutGrammar.Proofs.Diagnostic.Report
import LayoutGrammar.Proofs.Evaluation.Kinds
import LayoutGrammar.Proofs.Grammar.Validation
import LayoutGrammar.Proofs.Scan.BlankLines
import LayoutGrammar.Proofs.Scan.Faults
import LayoutGrammar.Proofs.Scan.Lossless

/-!
# Where diagnostics are

A text fails to be scanned at the end of one of its characters, and a parse fails at one of its tokens or past the
last one (`Parse.isAmong_of_run`), which are at the ends of characters as well.  In a text that is not empty such a
place is in a line, or at the end of the last one (`Diagnostic.exists_place?`), so that every diagnostic of the
program is told with a line of the text, unless the arrow to the place is too wide (`exists_report_of_program`).
-/

namespace LayoutGrammar

open Text

/-! ## Positions in a text -/

/-- The positions in a file that are at the start of its text, or at the end of a character. -/
structure Position.IsIn (text : List Char) (file : String) (p : Position) : Prop where
  /-- The position is in the file. -/
  file_eq : p.file = file
  /-- The bytes before the position are those of the first characters. -/
  exists_before : ∃ before rest, text = before ++ rest ∧ p.offset.toNat = size before

section

variable {source file : String} (hsize : source.utf8ByteSize < UInt32.size)
include hsize

theorem Position.isIn_ofOffset {offset : Nat} {rest : List Char}
    (h : after? offset source.toList = some rest) :
  (Position.ofOffset file offset).IsIn source.toList file
  := by
  obtain ⟨before, hsource, rfl⟩ := after?_eq_some_iff.mp h
  refine ⟨rfl, before, rest, hsource, ?_⟩
  have hle : size before ≤ source.utf8ByteSize := by
    rw [← size_toList, hsource, size_append]
    apply Nat.le_add_right
  apply toNat_ofOffset (Nat.lt_of_le_of_lt hle hsize)

/-- There are tokens, which start and stop in the text. -/
theorem Token.isIn_of_ofSource {tokens : List Token} (h : ofSource source file = .ok tokens) :
  tokens ≠ [] ∧ ∀ t ∈ tokens, t.span.start.IsIn source.toList file ∧ t.span.stop.IsIn source.toList file
  := by
  obtain ⟨lexemes, hlexemes, rfl⟩ := ofSource_eq_ok_iff.mp h
  have hlossless := (Lexeme.tiles_of_ofText hlexemes).lossless
  constructor
  · obtain ⟨others, rfl⟩ := hlossless.last
    simp
  · intro t ht
    obtain ⟨l, hl, rfl⟩ := List.mem_map.mp ht
    obtain ⟨piece, rest, hbetween, -⟩ := hlossless.stands l hl
    exact ⟨Position.isIn_ofOffset hsize hbetween.after_start, Position.isIn_ofOffset hsize hbetween.after_stop⟩

/-- A text fails to be scanned at a place in it. -/
theorem Diagnostic.isIn_of_ofSource {d : Diagnostic} (h : Token.ofSource source file = .error d) :
  d.position.IsIn source.toList file
  := by
  unfold Token.ofSource at h
  cases hfault : Lexeme.ofText source.toList with
  | ok found => simp [hfault] at h
  | error fault =>
    obtain rfl : ofFault file fault = d := by simpa [hfault] using h
    obtain ⟨before, rest, hsource, hat, -⟩ := Lexeme.exists_place hfault
    apply Position.isIn_ofOffset hsize (after?_eq_some_iff.mpr ⟨before, hsource, hat.offset_eq.symm⟩)

end

/-- A place among some tokens, or past the last of them, is where the tokens are. -/
theorem Cursor.position_of_forall {tokens : List Token} {P : Position → Prop} (hne : tokens ≠ [])
    (h : ∀ t ∈ tokens, P t.span.start ∧ P t.span.stop) (index : Nat) :
  P ((ofIndex tokens index).position (.ofEnd tokens))
  := by
  unfold position
  split
  next token rest hrest =>
    have hmem : token ∈ tokens.drop index := by
      rw [show tokens.drop index = token :: rest from hrest]
      apply List.mem_cons_self
    apply (h token (List.mem_of_mem_drop hmem)).1
  next =>
    rw [Position.ofEnd, List.getLast?_eq_getLast_of_ne_nil hne]
    apply (h _ (List.getLast_mem hne)).2

/-! ## Diagnostics of a parse -/

/-- Whether a diagnostic that is not of an unknown rule is at one of some tokens, or past the last of them. -/
def Diagnostic.IsAmong (tokens : List Token) (d : Diagnostic) : Prop :=
  (∀ rule, d.cause ≠ .unknownRule rule) →
    ∃ index, d.position = (Cursor.ofIndex tokens index).position (.ofEnd tokens)

/-- What is told of some tokens, and the same of others, is at a token. -/
theorem Diagnostic.Alike.isAmong {limit : Nat} {tokens others : List Token} {d e : Diagnostic}
    (h : Alike limit tokens others d e) :
  d.IsAmong tokens
  := by
  intro hknown
  cases h with
  | @mismatch _ index => exact ⟨index, rfl⟩
  | tooDeep _ index => exact ⟨index, rfl⟩
  | unknownRule rule => cases hknown rule rfl

/-- Evaluations of a session are those of a session whose tokens are replaced by themselves. -/
theorem Session.relates_id (session : Session) :
  (Correspondence.replaced session.limit session.tokens id).Relates session.setting session.setting
  := by
  have h := @relates_map session.tokens id (fun _ => rfl) session.grammar session.limit
  rw [List.map_id] at h
  apply h

namespace Parse

variable {d : Diagnostic}

theorem isAmong_of_checkEnd {parse : Parse} (hout : parse.checkEnd = .error d) :
  d.IsAmong parse.tokens
  := by
  intro _
  use parse.position
  unfold checkEnd at hout
  split at hout
  next token rest hdrop =>
    split at hout
    · cases hout
    · obtain rfl := Except.error.inj hout
      rw [Cursor.ofIndex, hdrop]
      rfl
  next => cases hout

/-- A run of productions fails at a token or past the last one, when what was kept of the evaluations before is
told the same when tokens are replaced by themselves. -/
theorem isAmong_of_runEach {ps : List Production} {session : Session} {parse : Parse}
    (htokens : session.tokens = parse.tokens)
    (hmemory : (Correspondence.replaced session.limit session.tokens id).Memories session.memory session.memory)
    (hout : (runEach ps session parse).outcome = .error d) :
  d.IsAmong parse.tokens
  := by
  induction ps generalizing session parse with
  | nil => apply isAmong_of_checkEnd hout
  | cons p others ih =>
    let r := Correspondence.replaced session.limit session.tokens id
    have hp : r.Productions p p := Correspondence.productions_refl trivial fun _ _ => ⟨rfl, rfl⟩
    have hplace : r.place (session.cursor parse.position) (session.cursor parse.position) := by
      use parse.position, rfl
      rw [List.map_id]
      rfl
    -- The session after the evaluation keeps what is told the same again.
    obtain ⟨⟨houtcome, -⟩, hafter⟩ := session.relates_id.session hmemory rfl rfl hp hplace
    simp only [runEach] at hout
    cases hfirst : (session.evaluate p parse.position).1.outcome with
    | ok reading =>
      rw [hfirst] at hout
      have hadd : (parse.add reading).tokens = parse.tokens := by
        unfold add
        split <;> rfl
      rw [← hadd]
      apply @ih (session.evaluate p parse.position).2 (parse.add reading) (htokens.trans hadd.symm) hafter hout
    | error reason =>
      rw [hfirst] at hout houtcome
      obtain rfl := Except.error.inj hout
      cases houtcome with
      | error told => exact htokens ▸ told.isAmong

/-- A parse fails at a token or past the last one, or for an unknown rule. -/
theorem isAmong_of_run {parse : Parse} (hout : parse.run.outcome = .error d) :
  d.IsAmong parse.tokens
  := @isAmong_of_runEach d _ (.start parse.grammar parse.tokens parse.limit) parse rfl
    (Correspondence.memories_fresh _) hout

end Parse

/-! ## Lines of places -/

/-- The place of an offset of a text: in the line that holds the offset, or at the end of the last line. -/
def Text.LinePlace.IsOf (text : List Char) (offset : Nat) (place : LinePlace) : Prop :=
  lineAt? text offset = some place
    ∨ offset = size text ∧ (lines text).getLast? = some place.line
      ∧ place.number = (lines text).length ∧ place.column = size place.line

theorem Text.LinePlace.IsOf.line_mem {text : List Char} {offset : Nat} {place : LinePlace}
    (h : place.IsOf text offset) :
  place.line ∈ lines text
  := by
  obtain hplace | ⟨-, hlast, -⟩ := h
  · obtain ⟨above, below, hlines, -⟩ := lineAt?_eq_some_iff.mp hplace
    simp [hlines]
  · apply List.mem_of_getLast? hlast

/-- Every offset that is not beyond the end of a text that is not empty has a place. -/
theorem Diagnostic.exists_place? {text : List Char} {offset : Nat} (hne : text ≠ []) (hle : offset ≤ size text) :
  ∃ place, place? text offset = some place ∧ place.IsOf text offset
  := by
  cases hplace : lineAt? text offset with
  | some place => exact ⟨place, place?_of_lineAt? hplace, Or.inl hplace⟩
  | none =>
    have hge := lineAt?_eq_none_iff.mp hplace
    have hpos := size_pos hne
    cases hlast : lineAt? text (offset - 1) with
    | none =>
      have hbeyond := lineAt?_eq_none_iff.mp hlast
      omega
    | some place =>
      obtain ⟨hline, hnumber, hcolumn⟩ := getLast?_lines hlast (by omega)
      refine ⟨{ place with column := place.column + 1 }, ?_, Or.inr ⟨by omega, hline, hnumber, hcolumn⟩⟩
      rw [place?, hplace, if_neg (by omega), hlast]
      rfl

/-! ## Reports -/

/-- Every diagnostic of the program can be located: that of a source that is not cut into tokens, and that of a parse
of its tokens, whatever the limit.  It is in the file, at the end of a character of the source or at its start.  If
the source is not empty, the report ends in the line of the position, which is the last line for a position at the
end of the source, and an arrow to the position; there is a report unless the arrow is too wide. -/
theorem exists_report_of_program (source file : String) (d : Diagnostic) (hsize : source.utf8ByteSize < UInt32.size)
    (h : Token.ofSource source file = .error d
      ∨ ∃ parse : Parse, parse.grammar = Program.grammar ∧ Token.ofSource source file = .ok parse.tokens
        ∧ parse.run.outcome = .error d) :
  d.position.file = file
  ∧ (∃ before rest, source.toList = before ++ rest ∧ d.position.offset.toNat = size before)
  ∧ (source ≠ "" → ∃ place : LinePlace, place.IsOf source.toList d.position.offset.toNat
    ∧ (d.report? source = none ↔ UInt16.size ≤ (Diagnostic.arrow place).length)
    ∧ ∀ report, d.report? source = some report → ∃ above,
        lines report.toList = above ++ [Diagnostic.shownLine place ++ ['\n'], Diagnostic.shownArrow place ++ ['\n']])
  := by
  have hin : d.position.IsIn source.toList file := by
    rcases h with h | ⟨parse, hgrammar, htokens, hout⟩
    · apply Diagnostic.isIn_of_ofSource hsize h
    · obtain ⟨hne, hmem⟩ := Token.isIn_of_ofSource hsize htokens
      have hvalid : parse.grammar.validate = .ok () := by
        rw [hgrammar]
        decide +kernel
      obtain ⟨index, hposition⟩ := Parse.isAmong_of_run hout (Parse.cause_of_validate hvalid hout)
      rw [hposition]
      apply Cursor.position_of_forall hne hmem
  obtain ⟨before, rest, hsource, hoffset⟩ := hin.exists_before
  refine ⟨hin.file_eq, ⟨before, rest, hsource, hoffset⟩, fun hne => ?_⟩
  have htext : source.toList ≠ [] := by
    simpa using hne
  have hle : d.position.offset.toNat ≤ size source.toList := by
    rw [hsource, hoffset, size_append]
    apply Nat.le_add_right
  obtain ⟨place, hplace, hof⟩ := Diagnostic.exists_place? htext hle
  refine ⟨place, hof, ?_, fun report hreport => ?_⟩
  · simp [Diagnostic.report?_eq hplace]
  · apply Diagnostic.exists_lines_of_report? hplace hof.line_mem hreport

/-- A group that is not closed, at the end of a text. -/
def unclosedGroup : String := "x = (1 + 2"

/-- What is missing from the group. -/
def missingParenthesis : Diagnostic :=
  ⟨.tooFew ⟨.group, "`CloseParen`", 6, "`EndOfLine`"⟩, ⟨10, "final.lang"⟩⟩

/-- What is missing is told at the end of the text, and shown after the last character of its only line. -/
theorem exists_report_unclosedGroup :
  let report := "Error: UnderMatch (Group expected `CloseParen`, found `EndOfLine`)\n-> final.lang\n"
    ++ "  |\n1 | x = (1 + 2\n  | ----------^\n"
  (∃ tokens, Token.ofSource unclosedGroup "final.lang" = .ok tokens
    ∧ (Parse.start Program.grammar tokens).run.outcome = .error missingParenthesis)
  ∧ missingParenthesis.report? unclosedGroup = some report
  ∧ ∃ place above, LinePlace.IsOf unclosedGroup.toList 10 place
    ∧ lines report.toList = above ++ [Diagnostic.shownLine place ++ ['\n'], Diagnostic.shownArrow place ++ ['\n']]
  := by
  intro report
  have hrun : (Token.ofSource unclosedGroup "final.lang").toOption.map
      (fun tokens => (Parse.start Program.grammar tokens).run.outcome) = some (.error missingParenthesis) := by
    decide +kernel
  obtain ⟨tokens, htokens, hout⟩ := Option.map_eq_some_iff.mp hrun
  have hsource : Token.ofSource unclosedGroup "final.lang" = .ok tokens := by
    cases h : Token.ofSource unclosedGroup "final.lang" <;> simp_all [Except.toOption]
  have hreport : missingParenthesis.report? unclosedGroup = some report := by
    decide +kernel
  obtain ⟨-, -, hlocated⟩ := exists_report_of_program unclosedGroup "final.lang" missingParenthesis (by decide)
    (Or.inr ⟨_, rfl, hsource, hout⟩)
  obtain ⟨place, hplace, -, hlines⟩ := hlocated (by decide)
  obtain ⟨above, habove⟩ := hlines report hreport
  exact ⟨⟨tokens, hsource, hout⟩, hreport, place, above, hplace, habove⟩

/-- A letter, and after some blanks a character that starts no token. -/
def spaced (blanks : Nat) : List Char := 'x' :: (List.replicate blanks ' ' ++ ['$'])

/-- The last character is not recognised. -/
theorem Lexeme.ofText_spaced (blanks : Nat) :
  ofText (spaced (blanks + 1)) = .error ⟨.unrecognised "$", blanks + 2⟩
  := by
  have hat : Scan.IsAtToken (spaced (blanks + 1)) := ⟨rfl, by simp [spaced, Scan.isIndentation]⟩
  have hfirst : Pattern.first? (spaced (blanks + 1))
      = some (.word, ['x'], List.replicate (blanks + 1) ' ' ++ ['$']) :=
    @Pattern.first?_of_isName ' ' ['x'] (List.replicate blanks ' ' ++ ['$']) (by decide) (Or.inl rfl)
  have hword : Pattern.token? .word ['x'] = some (.identifier, ['x']) := by
    decide
  let last : Scan := ⟨['$'], blanks + 2, some .identifier, []⟩
  have hstep : last.step = .error ⟨.unrecognised "$", blanks + 2⟩ := rfl
  have hlast : last.lexemes = .error ⟨.unrecognised "$", blanks + 2⟩ := by
    rw [Scan.lexemes_eq (by simp [last]), hstep]
    rfl
  have hblanks : size (List.replicate (blanks + 1) ' ') = blanks + 1 := by
    rw [size_eq_length (by simp), List.length_replicate]
  have hskip : Scan.skip { (Scan.ofText (spaced (blanks + 1))).skip ['x'] (List.replicate (blanks + 1) ' ' ++ ['$'])
      with last := some .identifier } (List.replicate (blanks + 1) ' ') ['$'] = last := by
    have hoffset : 0 + size ['x'] + (blanks + 1) = blanks + 2 := by
      rw [size_cons, size_nil, show 'x'.utf8Size = 1 from rfl]
      omega
    simp only [Scan.skip, Scan.ofText, hblanks, hoffset, last]
  rw [Lexeme.ofText_of_isAtToken hat, Scan.lexemes_of_moves (Scan.Moves.token hfirst hword),
    Scan.lexemes_of_spacing rfl (by simp) (by simp; decide), hskip, hlast]
  rfl

theorem size_spaced (blanks : Nat) :
  size (spaced blanks) = blanks + 2
  := by
  have hbytes : ∀ c ∈ spaced blanks, c.toNat < 128 := by
    simp only [spaced, List.mem_cons, List.mem_append, List.mem_replicate, List.not_mem_nil, or_false]
    rintro c (rfl | ⟨-, rfl⟩ | rfl) <;> decide
  rw [size_eq_length hbytes, spaced]
  simp

/-- Too far to the right for an arrow, a diagnostic has no report. -/
theorem Diagnostic.report?_spaced (d : Diagnostic) {blanks : Nat} (hoffset : d.position.offset.toNat = blanks + 1)
    (hwide : UInt16.size ≤ blanks + 2) :
  d.report? (String.ofList (spaced blanks)) = none
  := by
  have hlines : lines (spaced blanks) = [spaced blanks] :=
    lines_of_not_mem (by simp [spaced]) (by simp [spaced])
  have hplace : lineAt? (String.ofList (spaced blanks)).toList d.position.offset.toNat
      = some ⟨1, spaced blanks, blanks + 1⟩ := by
    rw [String.toList_ofList]
    apply lineAt?_eq_some_iff.mpr
    use [], [], hlines
    simp [hoffset, size_spaced]
  have harrow : (arrow ⟨1, spaced blanks, blanks + 1⟩).length = blanks + 2 := by
    simp [arrow, spaced]
  rw [report?_eq (place?_of_lineAt? hplace), harrow, if_neg (by omega)]

/-- A diagnostic may be too far to the right for its line to be shown. -/
theorem not_exists_report_of_program :
  ¬ ∀ (source file : String) (d : Diagnostic), source.utf8ByteSize < UInt32.size →
    Token.ofSource source file = .error d → source ≠ "" → ∃ report, d.report? source = some report
  := by
  intro h
  obtain ⟨blanks, hwide, hfits⟩ : ∃ blanks, UInt16.size ≤ blanks + 3 ∧ blanks + 3 < UInt32.size :=
    ⟨65533, by decide, by decide⟩
  let source := String.ofList (spaced (blanks + 1))
  have htext : source.toList = spaced (blanks + 1) := String.toList_ofList
  have hsize : source.utf8ByteSize < UInt32.size := by
    rw [← size_toList, htext, size_spaced]
    apply hfits
  have herror : Token.ofSource source "shell" = .error ⟨.unrecognised "$", .ofOffset "shell" (blanks + 2)⟩ := by
    rw [Token.ofSource, htext, Lexeme.ofText_spaced]
    rfl
  have hne : source ≠ "" := by
    intro hnil
    rw [hnil] at htext
    cases htext
  have hoffset : (Position.ofOffset "shell" (blanks + 2)).offset.toNat = blanks + 2 :=
    Position.toNat_ofOffset (by omega) "shell"
  obtain ⟨report, hreport⟩ := h source "shell" _ hsize herror hne
  rw [Diagnostic.report?_spaced _ hoffset hwide] at hreport
  cases hreport

end LayoutGrammar
