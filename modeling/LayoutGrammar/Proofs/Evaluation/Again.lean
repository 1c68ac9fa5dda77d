import LayoutGrammar.Proofs.Evaluation.Nesting
import LayoutGrammar.Proofs.Evaluation.Parts
import LayoutGrammar.Proofs.Evaluation.Runs

/-!
# Running a parse again

A production of one repeated item reads all there is for it: the matches of the item end where nothing matches
(`matchMany_finds_end`), so the production reads nothing from where it has stopped (`evaluateTop_again`).  When
it is the only production of the root, a parse that is run a second time comes out as it did the first time and
stays as it is (`Parse.run_twice`).
-/

namespace LayoutGrammar

/-! ## Where matches end -/

/-- Matches that follow each other end where nothing matches. -/
theorem matchMany_finds_end {once : Cursor → Attempt (Option Piece)}
    (honce : ∀ c, (once c).Finds fun found => ∀ piece ∈ found, piece.Advances c) (c : Cursor) :
  (matchMany once c).Finds fun found => (once found.cursor).outcome = .ok none
  := by
  induction hc : c.rest.length using Nat.strong_induction_on generalizing c with
  | _ n ih =>
    have hself : (once c).Finds fun found =>
        (once c).outcome = .ok found ∧ ∀ piece ∈ found, piece.Advances c :=
      ⟨fun found hout => ⟨hout, (honce c).of_ok found hout⟩⟩
    rw [matchMany]
    apply hself.bind
    rintro (_ | piece) ⟨hout, hpiece⟩
    · apply Attempt.finds_pure
      apply hout
    · simp only [if_pos (hpiece piece rfl).length_lt]
      apply (ih _ (hc ▸ (hpiece piece rfl).length_lt) piece.cursor rfl).bind
      intro others hothers
      apply Attempt.finds_pure
      apply hothers

/-! ## Productions of one item -/

section

variable {s : Setting} {rule : Nonterminal} {item : Item} {c : Cursor}

/-- From where a production of one repeated item has stopped after a match, it reads nothing. -/
theorem evaluateTop_again (hrepeated : item.repetition.isRepeated = true) {reading : Reading}
    (hout : (evaluateTop s ⟨rule, item, []⟩ c).outcome = .ok reading) (hmatch : reading.isMatch = true) :
  (evaluateTop s ⟨rule, item, []⟩ (c.advance reading.consumed)).outcome = .ok (.nothing rule)
  := by
  let once : Cursor → Attempt (Option Piece) := matchOnce s (evaluate s s.limit 1) rule item.target
  have hitem (c : Cursor) : matchItem s (evaluate s s.limit 1) rule item c = matchMany once c := by
    simp [matchItem, hrepeated, once]
  have htop (c : Cursor) : (evaluateTop s ⟨rule, item, []⟩ c).outcome
      = (matchMany once c).outcome.map (Matches.reading rule c) := by
    rw [← hitem, ← matchProduction_outcome_of_single]
    rfl
  rw [htop] at hout ⊢
  cases hmany : (matchMany once c).outcome with
  | error reason => simp [hmany, Except.map] at hout
  | ok found =>
    obtain rfl : found.reading rule c = reading := by simpa [hmany, Except.map] using hout
    have honce := matchOnce_finds_advances s s.limit 1 rule item.target
    have hend := (matchMany_finds_end honce c).of_ok found hmany
    obtain ⟨count, -, -, hcursor⟩ := (matchMany_finds_advance honce c).of_ok found hmany
    have hconsumed : (found.reading rule c).consumed = count := by
      rw [Matches.reading_of_isMatch hmatch, hcursor]
      apply Nat.add_sub_cancel_left
    rw [hconsumed, ← hcursor, matchMany_outcome_of_none hend]
    rfl

end

/-! ## Parses -/

namespace Parse

section

variable {parse : Parse} {p : Production} (hroot : parse.grammar.alternatives .root = [p])
include hroot

/-- A run of one production that does not fail takes in what the production reads. -/
theorem run_of_ok {reading : Reading}
    (h : (evaluateTop (Session.start parse.grammar parse.tokens parse.limit).setting p
      (.ofIndex parse.tokens parse.position)).outcome = .ok reading) :
  parse.run.outcome = (parse.add reading).checkEnd ∧ parse.run.parse = parse.add reading
  := by
  rw [run, hroot]
  apply runEach_of_ok h []

/-- A run of one production that fails leaves the parse as it is. -/
theorem run_parse_of_error {reason : Diagnostic}
    (h : (evaluateTop (Session.start parse.grammar parse.tokens parse.limit).setting p
      (.ofIndex parse.tokens parse.position)).outcome = .error reason) :
  parse.run.parse = parse
  := by
  rw [run, hroot]
  apply (runEach_of_error h []).2

end

/-- When the root has one production, of one repeated item, a parse that is run again comes out as before and
stays as it is. -/
theorem run_twice {parse : Parse} {item : Item}
    (hroot : parse.grammar.alternatives .root = [⟨.root, item, []⟩])
    (hrepeated : item.repetition.isRepeated = true) :
  parse.run.parse.run.outcome = parse.run.outcome ∧ parse.run.parse.run.parse = parse.run.parse
  := by
  by_cases hparse : parse.run.parse = parse
  · simp [hparse]
  cases hout : (evaluateTop (Session.start parse.grammar parse.tokens parse.limit).setting
      ⟨.root, item, []⟩ (.ofIndex parse.tokens parse.position)).outcome with
  | error reason => apply absurd (run_parse_of_error hroot hout) hparse
  | ok reading =>
    obtain ⟨houtcome, hadd⟩ := run_of_ok hroot hout
    cases hmatch : reading.isMatch with
    | false =>
      rw [add_of_not_isMatch hmatch] at hadd
      contradiction
    | true =>
      let next := parse.add reading
      have hnext : next = { parse with tree := next.tree, position := parse.position + reading.consumed } := by
        simp only [next, add_of_isMatch hmatch]
      have hroot : next.grammar.alternatives .root = [⟨.root, item, []⟩] := by
        rw [hnext, hroot]
      -- The second run evaluates the production from where the first has stopped.
      have hagain : (evaluateTop (Session.start next.grammar next.tokens next.limit).setting
          ⟨.root, item, []⟩ (.ofIndex next.tokens next.position)).outcome = .ok (.nothing .root) := by
        rw [hnext, ← Cursor.advance_ofIndex]
        apply evaluateTop_again hrepeated hout hmatch
      rw [houtcome, hadd]
      apply run_of_ok hroot hagain

end Parse

/-- A parse of programs that is run again under the same limit comes out as it did the first time, and keeps
its tree and its place, wherever it was before. -/
theorem Program.run_again (ts : List Token) (limit position : Nat) (tree : Node) :
  let parse : Parse := ⟨grammar, ts, limit, position, tree⟩
  parse.run.parse.run.outcome = parse.run.outcome ∧ parse.run.parse.run.parse = parse.run.parse
  := by
  have hroot : grammar.alternatives .root = [⟨.root, .hoist .statement .atLeastOnce, []⟩] := by
    decide +kernel
  apply Parse.run_twice hroot rfl

end LayoutGrammar
