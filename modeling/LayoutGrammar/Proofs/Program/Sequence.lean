import LayoutGrammar.Proofs.Evaluation.Again
import LayoutGrammar.Proofs.Evaluation.Context
import LayoutGrammar.Proofs.Evaluation.Limit
import LayoutGrammar.Proofs.Program.Parse

/-!
# Programs one after the other

A program that is followed by another is read as the two are by themselves (`Program.run_append`).  A statement
ends with the end of its line, and what was discarded on the way got no further, so that it is read the same
whatever comes after it (`Program.statementAt_append`).  The statements of the first program are therefore read
as they are by themselves, and then those of the second (`Program.statementsFrom_append`), which are some tokens
later than by themselves (`Program.statementsFrom_shift`).  Nothing that was discarded in the first program is
told for the second, since it did not get as far (`Attempt.Continues.promote_eq`).
-/

namespace LayoutGrammar
namespace Program

/-! ## One statement -/

/-- What the production of statements reads below the root. -/
def statementRead (s : Setting) (c : Cursor) : Attempt Reading :=
  evaluate s s.limit 1 statementProduction c

/-- A match of the opening item of the root: the children of a statement. -/
def statementAt (s : Setting) : Cursor → Attempt (Option Piece) :=
  matchOnce s (evaluate s s.limit 1) .root rootProduction.opening.target

section

variable {s t : Setting} (hs : s.grammar = grammar) {c : Cursor}
include hs

theorem candidates_statement :
  s.grammar.candidates (Choice.one .statement).members = .ok [statementProduction]
  := by
  rw [hs]
  decide +kernel

/-- Nothing that a statement discards got beyond its end. -/
theorem reach_le_of_discarded {reading : Reading} (hout : (statementRead s c).outcome = .ok reading)
    (hmatch : reading.isMatch = true) {m : Diagnostic} (hm : m ∈ (statementRead s c).journal.discarded) :
  m.reach ≤ c.index + reading.consumed
  := by
  have hforetold := evaluate_foretells hs s.limit 1 statementProduction statementProduction_mem c
  have hfound := hforetold.ok reading hout
  rw [Reading.found?, if_pos hmatch] at hfound
  obtain ⟨-, -, -, hreach⟩ := hfound
  apply Journal.reach_le_iff.mp hreach
  apply (conduct_stands.evaluate s.limit 1 statementProduction c).raised_of_discarded m hm

/-- In the events of a statement nothing is looked ahead for. -/
theorem isPlain_of_mem_statementRead :
  ∀ e ∈ (statementRead s c).journal.events, e.isPlain = true
  := by
  have hplain : ∀ p ∈ s.grammar.productions, p.looksAhead = false := by
    rw [hs]
    apply looksAhead_eq_false
  have hlogs : (statementRead s c).Logs fun e => e.isPlain = true :=
    (nesting_of_looksAhead hplain).evaluate_logs s.limit (looksAhead_eq_false _ statementProduction_mem)
  apply hlogs.of_mem

variable (hgrammar : t.grammar = s.grammar) (hlimit : t.limit = s.limit)
include hgrammar hlimit

/-- A statement reads the same whatever comes after it. -/
theorem statementRead_append {reading : Reading} (hout : (statementRead s c).outcome = .ok reading)
    (hmatch : reading.isMatch = true) (more : List Token) :
  (statementRead t (c.append more)).outcome = .ok reading
    ∧ (statementRead t (c.append more)).journal.events = (statementRead s c).journal.events
  := by
  have hplain : ∀ p ∈ s.grammar.productions, p.IsPlain := by
    rw [hs]
    exact fun p hp => ⟨looksAhead_eq_false p hp, (suits p hp).keeps⟩
  have hle := ((evaluate_finds_progresses s s.limit 1 statementProduction c).of_ok reading hout).le_length
  have hreach (m : Diagnostic) (hm : .discarded m ∈ (statementRead s c).journal.events) :
      m.reach ≤ c.index + reading.consumed := by
    apply reach_le_of_discarded hs hout hmatch
    rw [Journal.discarded, Event.outside_of_isPlain (isPlain_of_mem_statementRead hs)]
    exact List.mem_filterMap.mpr ⟨_, hm, rfl⟩
  have hindex : (c.append more).index = c.index := rfl
  unfold statementRead
  rw [hlimit]
  apply evaluate_of_agree hgrammar hlimit hplain rfl hindex hout hmatch hreach
  apply List.take_append_of_le_length hle

/-- A statement matches the same whatever comes after it, and has discarded nothing that got beyond it. -/
theorem statementAt_append {piece : Piece} (hout : (statementAt s c).outcome = .ok (some piece))
    (more : List Token) :
  (statementAt t (c.append more)).outcome = .ok (some ⟨piece.trees, piece.cursor.append more⟩)
    ∧ (statementAt t (c.append more)).journal.StopsBy piece.cursor.index
  := by
  obtain ⟨reading, hread, hmatch, rfl⟩ :=
    exists_of_matchOnce_single (candidates_statement hs) .root hout
  have hle := ((evaluate_finds_progresses s s.limit 1 statementProduction c).of_ok reading hread).le_length
  obtain ⟨houtcome, hevents⟩ := statementRead_append hs hgrammar hlimit hread hmatch more
  obtain ⟨hfound, hsame⟩ : (statementAt t (c.append more)).outcome
        = .ok (some ⟨graft .root true reading.node, (c.append more).advance reading.consumed⟩)
      ∧ (statementAt t (c.append more)).journal.events = (statementRead t (c.append more)).journal.events :=
    matchOnce_of_single (candidates_statement (hgrammar.trans hs)) .root houtcome hmatch
  refine ⟨?_, ?_, ?_⟩
  · rw [hfound, Cursor.advance_append hle]
  · exact (conduct_stands.matchOnce (conduct_stands.evaluate t.limit 1) .root _ (c.append more)).balanced
  · intro m hm
    rw [Journal.discarded, hsame, hevents] at hm
    apply reach_le_of_discarded hs hread hmatch hm

end

/-! ## Statements one after the other -/

/-- The matches of the opening item of the root. -/
def statementsFrom (s : Setting) : Cursor → Attempt Matches := matchMany (statementAt s)

section

variable {s t : Setting} {c : Cursor}

theorem statementAt_finds_advances (s : Setting) (c : Cursor) :
  (statementAt s c).Finds fun found => ∀ piece ∈ found, piece.Advances c
  := matchOnce_finds_advances s s.limit 1 .root rootProduction.opening.target c

/-- The statements that are read from a place on are the same when there are more tokens, and then those of the
tokens after them come. -/
theorem statementsFrom_append (hs : s.grammar = grammar) (hgrammar : t.grammar = s.grammar)
    (hlimit : t.limit = s.limit) {found : Matches} (hout : (statementsFrom s c).outcome = .ok found)
    (more : List Token) :
  (statementsFrom t (c.append more)).Continues found (statementsFrom t (found.cursor.append more))
  := by
  apply matchMany_continues (statementAt_finds_advances s) (statementAt_finds_advances t) _ hout
  intro c piece hpiece
  apply statementAt_append hs hgrammar hlimit hpiece

/-- Statements are the same when there are more tokens before them. -/
theorem statementsFrom_shift {count : Nat} {sameEnding : Prop} (hgrammar : t.grammar = s.grammar)
    (hlimit : t.limit = s.limit) (hending : sameEnding → t.ending = s.ending) (c : Cursor) :
  (statementsFrom s c).Mirrors (.shifted count sameEnding) (Correspondence.shifted count sameEnding).Found
    (statementsFrom t (c.shift count))
  := by
  have hrelates : (Correspondence.shifted count sameEnding).Relates s t :=
    relates_shifted hgrammar hlimit hending
  have hinner {p q : Production} {c d : Cursor}
      (hpq : (Correspondence.shifted count sameEnding).Productions p q)
      (hplace : (Correspondence.shifted count sameEnding).place c d) :=
    hrelates.evaluate s.limit 1 hpq hplace
  unfold statementsFrom statementAt
  rw [hlimit]
  apply (hrelates.matchMany hinner .root rfl rfl).mirrors rfl

end

/-! ## Runs -/

/-- What the evaluations of a parse of programs share. -/
def settingOf (ts : List Token) (limit : Nat) : Setting := (Session.start grammar ts limit).setting

/-- The statements of some tokens, up to the first place where there is none. -/
def statementsOf (ts : List Token) (limit : Nat) : Attempt Matches :=
  statementsFrom (settingOf ts limit) ⟨0, ts⟩

/-- A parse of programs that has read some statements. -/
def having (ts : List Token) (limit : Nat) (found : Matches) : Parse :=
  ⟨grammar, ts, limit, found.cursor.index, ⟨.root, found.trees⟩⟩

section

variable (ts : List Token) (limit : Nat)

theorem matchItem_root :
  matchItem (settingOf ts limit) (evaluate (settingOf ts limit) limit 1) .root rootProduction.opening ⟨0, ts⟩
    = statementsOf ts limit
  := if_pos rfl

theorem outcome_attempted :
  (attempted ts limit).outcome = (statementsOf ts limit).outcome.map (Matches.reading .root ⟨0, ts⟩)
  := by
  rw [← matchItem_root, ← matchProduction_outcome_of_single 0]
  rfl

theorem follow_attempted (m : Memory) :
  m.follow (attempted ts limit).journal = m.follow (statementsOf ts limit).journal
  := by
  rw [← matchItem_root, ← follow_matchProduction_of_single 0]
  rfl

variable {ts limit}

/-- A parse takes in the statements that it finds. -/
theorem add_reading {found : Matches} (hout : (statementsOf ts limit).outcome = .ok found) :
  (fresh ts limit).add (found.reading .root ⟨0, ts⟩) = having ts limit found
  := by
  rw [← matchItem_root] at hout
  obtain ⟨hnone, hkeeps⟩ := (matchItem_finds_keeps .root rootProduction.opening ⟨0, ts⟩).of_ok found hout
  by_cases hcount : found.count = 0
  · obtain rfl := hnone hcount
    rfl
  · have hne := hkeeps rfl hcount
    have hreading : found.reading .root ⟨0, ts⟩ = ⟨⟨.root, found.trees⟩, found.cursor.index⟩ := by
      simp [Matches.reading, Piece.reading, hcount, hne]
    rw [hreading, Parse.add_of_isMatch (by simpa [Reading.isMatch, Node.isEmpty] using hne)]
    simp [fresh, having, Parse.start, Parse.withLimit, Node.isEmpty, Node.empty]

/-- A parse that finds statements comes out as what is left tells. -/
theorem run_of_statements {found : Matches} (hout : (statementsOf ts limit).outcome = .ok found) :
  (fresh ts limit).run.outcome = (having ts limit found).checkEnd
    ∧ (fresh ts limit).run.parse = having ts limit found
  := by
  rw [← add_reading hout]
  apply run_of_ok
  rw [outcome_attempted, hout]
  rfl

/-- A parse fails as its statements do, for what got furthest. -/
theorem run_of_statements_error {reason : Diagnostic} (hout : (statementsOf ts limit).outcome = .error reason) :
  (fresh ts limit).run.outcome
    = .error ((Memory.fresh.follow (statementsOf ts limit).journal).promote reason)
  := by
  rw [← follow_attempted]
  apply run_of_error
  rw [outcome_attempted, hout]
  rfl

/-- A parse that succeeds has read some statements. -/
theorem exists_statementsOf (h : (fresh ts limit).run.outcome = .ok ()) :
  ∃ found, (statementsOf ts limit).outcome = .ok found
  := by
  cases hout : (statementsOf ts limit).outcome with
  | ok found => use found
  | error reason => simp [run_of_statements_error hout] at h

/-- The statements that are read stop within the tokens. -/
theorem cursor_of_statementsOf {found : Matches} (h : (statementsOf ts limit).outcome = .ok found) :
  found.cursor = .ofIndex ts found.cursor.index
  := by
  have hfinds : (statementsOf ts limit).Finds _ :=
    matchMany_finds_advance (statementAt_finds_advances _) ⟨0, ts⟩
  obtain ⟨count, -, -, hcursor⟩ := hfinds.of_ok found h
  rw [hcursor]
  simp [Cursor.ofIndex, Cursor.advance]

end

/-! ## Two programs -/

section

variable {ts ts' : List Token} {limit : Nat} {found : Matches}

/-- The statements of two programs are those of the first, and then those of the second some tokens later. -/
theorem statementsOf_append (hout : (statementsOf ts limit).outcome = .ok found)
    (hend : found.cursor.index = ts.length) (ts' : List Token) :
  ∃ later, (statementsOf (ts ++ ts') limit).Continues found later
    ∧ (statementsOf ts' limit).Mirrors (.shifted ts.length (ts' ≠ []))
        (Correspondence.shifted ts.length (ts' ≠ [])).Found later
  := by
  have hcursor : found.cursor = ⟨ts.length, []⟩ := by
    rw [cursor_of_statementsOf hout, hend]
    simp [Cursor.ofIndex]
  have hplace : found.cursor.append ts' = Cursor.shift ts.length ⟨0, ts'⟩ := by
    simp [hcursor, Cursor.append, Cursor.shift]
  use statementsFrom (settingOf (ts ++ ts') limit) (Cursor.shift ts.length ⟨0, ts'⟩)
  constructor
  · rw [← hplace]
    apply statementsFrom_append (s := settingOf ts limit) (t := settingOf (ts ++ ts') limit) rfl rfl rfl hout
  · apply statementsFrom_shift (s := settingOf ts' limit) (t := settingOf (ts ++ ts') limit) rfl rfl
    apply Position.ofEnd_append

/-- What is left after two programs is what is left after the second. -/
theorem checkEnd_having_append (ts : List Token) (first : Matches) {second other : Matches}
    (h : (Correspondence.shifted ts.length (ts' ≠ [])).Found second other) :
  (having (ts ++ ts') limit (first.append other)).checkEnd
    = (having ts' limit second).checkEnd.mapError (Diagnostic.shift ts.length)
  := by
  have hindex : other.cursor.index = second.cursor.index + ts.length := congrArg Cursor.index h.cursor
  have hdrop : (ts ++ ts').drop (second.cursor.index + ts.length) = ts'.drop second.cursor.index := by
    rw [Nat.add_comm, List.drop_length_add_append]
  simp only [Parse.checkEnd, having, Matches.append, hindex, hdrop]
  split
  · split <;> rfl
  · rfl

/-- Two programs come out as the second does when the statements of both are found. -/
theorem run_append_of_found {others others' : Matches} (hfound : (statementsOf ts limit).outcome = .ok found)
    (hothers : (statementsOf ts' limit).outcome = .ok others)
    (hwhole : (statementsOf (ts ++ ts') limit).outcome = .ok (found.append others'))
    (hsame : (Correspondence.shifted ts.length (ts' ≠ [])).Found others others') :
  (fresh (ts ++ ts') limit).run.outcome
      = (fresh ts' limit).run.outcome.mapError (Diagnostic.shift ts.length)
    ∧ (fresh (ts ++ ts') limit).run.parse.tree
      = ⟨.root, (fresh ts limit).run.parse.tree.children ++ (fresh ts' limit).run.parse.tree.children⟩
    ∧ (fresh (ts ++ ts') limit).run.parse.position = ts.length + (fresh ts' limit).run.parse.position
  := by
  obtain ⟨houtcome, hparse⟩ := run_of_statements hwhole
  obtain ⟨houtcome', hparse'⟩ := run_of_statements hothers
  have hindex : others'.cursor.index = others.cursor.index + ts.length := congrArg Cursor.index hsame.cursor
  have htrees : others'.trees = others.trees := hsame.trees.symm
  refine ⟨?_, ?_, ?_⟩
  · rw [houtcome, houtcome', checkEnd_having_append ts found hsame]
  · rw [hparse, hparse', (run_of_statements hfound).2]
    simp only [having, Matches.append, htrees]
  · rw [hparse, hparse']
    simp only [having, Matches.append, hindex, Nat.add_comm]

/-- Two programs fail as the second does, which comes after the first, when its statements are not found. -/
theorem run_append_of_failed {later : Attempt Matches} {d e : Diagnostic}
    (hend : found.cursor.index = ts.length) (hcontinues : (statementsOf (ts ++ ts') limit).Continues found later)
    (hothers : (statementsOf ts' limit).outcome = .error d) (hlater : later.outcome = .error e)
    (htold : (Correspondence.shifted ts.length (ts' ≠ [])).told d e)
    (hevents : List.Forall₂ (Correspondence.shifted ts.length (ts' ≠ [])).Events
      (statementsOf ts' limit).journal.events later.journal.events) (hne : ts' ≠ []) :
  (fresh (ts ++ ts') limit).run.outcome = (fresh ts' limit).run.outcome.mapError (Diagnostic.shift ts.length)
  := by
  have hwhole : (statementsOf (ts ++ ts') limit).outcome = .error e := by
    rw [hcontinues.outcome_eq, hlater]
    rfl
  have hfurther (he : e.isMismatch = true) : found.cursor.index < e.reach := by
    rw [hend]
    apply Diagnostic.lt_reach_of_told htold he
  have hfollows : (Correspondence.shifted ts.length (ts' ≠ [])).Follows
      (settingOf ts' limit) (settingOf (ts ++ ts') limit) :=
    follows_shifted rfl (Position.ofEnd_append ts)
  rw [run_of_statements_error hwhole, run_of_statements_error hothers, hcontinues.promote_eq hfurther]
  apply congrArg Except.error
  apply Diagnostic.eq_shift _ hne
  apply hfollows.promote (hfollows.follow (Correspondence.memories_fresh _) hevents) htold

/-- After a program that is read up to its end, a parse of further tokens succeeds if and only if a parse of them
alone does.  Then the children of the two trees follow each other, and the positions add up.  What a parse of the
further tokens alone fails for, the parse of all tokens fails for too, with the tokens of the program counted. -/
theorem run_append {ts : List Token} {limit : Nat} (hout : (fresh ts limit).run.outcome = .ok ())
    (hposition : (fresh ts limit).run.parse.position = ts.length) (ts' : List Token) :
  let first := (fresh ts limit).run
  let second := (fresh ts' limit).run
  let whole := (fresh (ts ++ ts') limit).run
  (whole.outcome = .ok () ↔ second.outcome = .ok ())
    ∧ (whole.outcome = .ok () →
      whole.parse.tree = ⟨.root, first.parse.tree.children ++ second.parse.tree.children⟩
        ∧ whole.parse.position = ts.length + second.parse.position)
    ∧ ∀ d, second.outcome = .error d → whole.outcome = .error (d.shift ts.length)
  := by
  intro first second whole
  obtain ⟨found, hfound⟩ := exists_statementsOf hout
  have hend : found.cursor.index = ts.length := by
    rw [← hposition, (run_of_statements hfound).2]
    rfl
  obtain ⟨later, hcontinues, houtcome, hevents⟩ := statementsOf_append hfound hend ts'
  have hiff (h : whole.outcome = second.outcome.mapError (Diagnostic.shift ts.length)) :
      (whole.outcome = .ok () ↔ second.outcome = .ok ())
        ∧ ∀ d, second.outcome = .error d → whole.outcome = .error (d.shift ts.length) := by
    rw [h]
    cases second.outcome <;> simp [Except.mapError]
  obtain ⟨others, others', hothers, hlater, hsame⟩ | ⟨d, e, hothers, hlater, htold⟩ := houtcome.ok_or_error
  · have hwhole : (statementsOf (ts ++ ts') limit).outcome = .ok (found.append others') := by
      rw [hcontinues.outcome_eq, hlater]
      rfl
    obtain ⟨hsecond, hparse⟩ := run_append_of_found hfound hothers hwhole hsame
    obtain ⟨hok, herror⟩ := hiff hsecond
    exact ⟨hok, fun _ => hparse, herror⟩
  · -- Without a second program the statements of both would be those of the first, which are found.
    have hne : ts' ≠ [] := by
      rintro rfl
      have herror := hcontinues.outcome_eq
      simp [hlater, hfound, Except.map] at herror
    have hsecond := run_append_of_failed hend hcontinues hothers hlater htold hevents hne
    obtain ⟨hok, herror⟩ := hiff hsecond
    refine ⟨hok, fun hwhole => ?_, herror⟩
    rw [hok, run_of_statements_error hothers] at hwhole
    cases hwhole

/-- The rules of the nodes around the token of an expression without operators, from the outside in. -/
def loneRules : List Nonterminal := .expression :: Level.all.map .level ++ [.unary, .primary]

/-- The tree of an expression that is only a token. -/
def loneExpression (token : Token) : Tree :=
  loneRules.foldr (fun rule tree => .node rule [tree]) (.leaf token)

/-- The tree of the assignment on a line of its own. -/
def assignmentTree : Tree :=
  .node .assignment [.leaf (.unplaced .identifier "x"), loneExpression (.unplaced .number "1")]

/-- After the four tokens of an assignment another assignment is read too, and a parenthesis that is not closed
is told four tokens later. -/
theorem run_append_assignment :
  let line := assignmentLine.take 4
  (fresh line 200).run.outcome = .ok () ∧ (fresh line 200).run.parse.position = line.length
    ∧ (fresh (line ++ assignmentLine) 200).run.outcome = .ok ()
    ∧ (fresh (line ++ assignmentLine) 200).run.parse.tree = ⟨.root, [assignmentTree, assignmentTree]⟩
    ∧ (fresh (line ++ assignmentLine) 200).run.parse.position = 8
    ∧ (fresh (line ++ unclosed) 200).run.outcome
      = .error ⟨.tooFew ⟨.group, "`CloseParen`", 8, "`EndOfLine`"⟩, .null⟩
  := by
  intro line
  have hline : (fresh line 200).run.outcome = .ok () ∧ (fresh line 200).run.parse.position = line.length := by
    decide +kernel
  have hsecond : (fresh assignmentLine 200).run.outcome = .ok ()
      ∧ (fresh assignmentLine 200).run.parse.position = 4 := by
    decide +kernel
  have htrees : (fresh line 200).run.parse.tree = ⟨.root, [assignmentTree]⟩
      ∧ (fresh assignmentLine 200).run.parse.tree = ⟨.root, [assignmentTree]⟩ := by
    decide +kernel
  have hunclosed : (fresh unclosed 200).run.outcome
      = .error ⟨.tooFew ⟨.group, "`CloseParen`", 4, "`EndOfLine`"⟩, .null⟩ := by
    decide +kernel
  obtain ⟨hok, hparse, -⟩ := run_append hline.1 hline.2 assignmentLine
  obtain ⟨-, -, herror⟩ := run_append hline.1 hline.2 unclosed
  have hwhole := hok.mpr hsecond.1
  refine ⟨hline.1, hline.2, hwhole, ?_, ?_, herror _ hunclosed⟩
  · rw [(hparse hwhole).1, htrees.1, htrees.2]
    rfl
  · rw [(hparse hwhole).2, hsecond.2]
    rfl

end

end Program
end LayoutGrammar
