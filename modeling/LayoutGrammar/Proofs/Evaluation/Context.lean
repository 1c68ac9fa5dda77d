import LayoutGrammar.Proofs.Evaluation.Parts
import LayoutGrammar.Proofs.Evaluation.Reuse
import LayoutGrammar.Proofs.Evaluation.Simulation

/-!
# Evaluations in a context

What comes before and after the tokens that an evaluation reads has little to do with it.  Tokens before them
only move the indices (`relates_shifted`), so that an evaluation depends on the tokens from its start on
(`outcome_append_before`).  Tokens after them make no difference to a production that ends with a token
(`evaluate_of_agree`), as long as it keeps something, does not look ahead, and nothing was discarded that got
further.  Matches of such productions that follow each other are therefore the same when there are more tokens, and
go on from there (`matchMany_continues`).
-/

namespace LayoutGrammar

/-! ## Tokens before -/

/-- A cause that arose some tokens later. -/
def Cause.shift (count : Nat) : Cause → Cause
  | .unexpected token index => .unexpected token (index + count)
  | .tooFew m => .tooFew { m with index := m.index + count }
  | .tooMany m => .tooMany { m with index := m.index + count }
  | cause => cause

/-- A diagnostic that arose some tokens later, at the same place in the source. -/
def Diagnostic.shift (count : Nat) (d : Diagnostic) : Diagnostic := { d with cause := d.cause.shift count }

/-- A place before which there are more tokens. -/
def Cursor.shift (count : Nat) (c : Cursor) : Cursor := ⟨c.index + count, c.rest⟩

section

variable {count : Nat}

@[simp]
theorem Cursor.rest_shift (c : Cursor) : (c.shift count).rest = c.rest := rfl

@[simp]
theorem Cursor.position_shift (c : Cursor) (ending : Position) :
  (c.shift count).position ending = c.position ending
  := rfl

theorem Cursor.advance_shift (c : Cursor) (more : Nat) :
  (c.shift count).advance more = (c.advance more).shift count
  := by
  simp only [shift, advance, Nat.add_right_comm]

@[simp]
theorem Cause.index?_shift (cause : Cause) :
  (cause.shift count).index? = cause.index?.map (· + count)
  := by
  cases cause <;> rfl

@[simp]
theorem Cause.isMismatch_shift (cause : Cause) :
  (cause.shift count).isMismatch = cause.isMismatch
  := by
  cases cause <;> rfl

/-- The further of two diagnostics is still further when both arose as many tokens later. -/
theorem Diagnostic.isFurther_of_shift {d e d' e' : Diagnostic} (hd : e.cause = d.cause.shift count)
    (hd' : e'.cause = d'.cause.shift count) :
  e.isFurther e' = d.isFurther d'
  := by
  unfold isFurther
  rw [hd, hd', Cause.index?_shift, Cause.index?_shift]
  cases d.cause.index? <;> cases d'.cause.index? <;> simp

/-- Tokens before others leave the end where it is. -/
theorem Position.ofEnd_append (before : List Token) {tokens : List Token} (h : tokens ≠ []) :
  Position.ofEnd (before ++ tokens) = Position.ofEnd tokens
  := by
  unfold ofEnd
  rw [List.getLast?_append_of_ne_nil _ h]

/-- Evaluations with some tokens more before the places, which may leave the end of the tokens where it is in
the source. -/
def Correspondence.shifted (count : Nat) (sameEnding : Prop) : Correspondence where
  allows _ := True
  target := Eq
  place c d := d = c.shift count
  trees := Eq
  told d e := e.cause = d.cause.shift count ∧ (sameEnding → e.position = d.position)
  shift := count
  edge := none

/-- What is told some tokens later, and at the same place in the source, is told the same. -/
theorem Diagnostic.eq_shift {sameEnding : Prop} {d e : Diagnostic}
    (h : (Correspondence.shifted count sameEnding).told d e) (hsame : sameEnding) :
  e = d.shift count
  := by
  obtain ⟨hcause, hposition⟩ := h
  obtain ⟨cause, position⟩ := e
  obtain rfl : cause = d.cause.shift count := hcause
  obtain rfl : position = d.position := hposition hsame
  rfl

/-- A mismatch that arose some tokens later got beyond those tokens. -/
theorem Diagnostic.lt_reach_of_told {sameEnding : Prop} {d e : Diagnostic}
    (h : (Correspondence.shifted count sameEnding).told d e) (he : e.isMismatch = true) :
  count < e.reach
  := by
  have hd : d.isMismatch = true := by
    rwa [isMismatch, h.1, Cause.isMismatch_shift] at he
  obtain ⟨index, hindex⟩ := index?_of_isMismatch hd
  rw [reach, h.1, Cause.index?_shift, hindex]
  exact Nat.lt_succ_of_le (Nat.le_add_left count index)

theorem follows_shifted {s t : Setting} {sameEnding : Prop} (hlimit : t.limit = s.limit)
    (hending : sameEnding → t.ending = s.ending) :
  (Correspondence.shifted count sameEnding).Follows s t
  where
  inside _ := Correspondence.not_isBeyond_of_edge rfl _
  index_eq := by
    rintro c _ rfl
    rfl
  head := by
    rintro c _ rfl
    apply Correspondence.head_of_rest_eq (fun _ => rfl) c.rest_shift
  advance := by
    rintro c _ more rfl - -
    apply Cursor.advance_shift
  mismatch := by
    rintro c _ ⟨_, _⟩ ⟨_, _⟩ cause rule rfl ⟨⟨⟩, -⟩ hcause
    constructor
    · rcases hcause with rfl | rfl <;> rfl
    · intro hsame
      rw [mismatchAt, mismatchAt, hending hsame, Cursor.position_shift]
  tooDeep := by
    rintro c _ rule rfl
    constructor
    · rw [hlimit]
      rfl
    · intro hsame
      rw [hending hsame, Cursor.position_shift]
  isMismatch_eq := by
    rintro d e ⟨hcause, -⟩
    simp [Diagnostic.isMismatch, hcause]
  isFurther_eq := by
    rintro d e d' e' ⟨hcause, -⟩ ⟨hcause', -⟩
    apply Diagnostic.isFurther_of_shift hcause hcause'
  edge := by simp [Correspondence.shifted]

theorem relates_shifted {s t : Setting} {sameEnding : Prop} (hgrammar : t.grammar = s.grammar)
    (hlimit : t.limit = s.limit) (hending : sameEnding → t.ending = s.ending) :
  (Correspondence.shifted count sameEnding).Relates s t
  := by
  apply (follows_shifted hlimit hending).relates rfl rfl hgrammar
  · intro _ _
    trivial
  · intro rule
    exact ⟨rfl, fun _ => rfl⟩

theorem Cursor.ofIndex_append (before tokens : List Token) (start : Nat) :
  ofIndex (before ++ tokens) (before.length + start) = (ofIndex tokens start).shift before.length
  := by
  rw [ofIndex, ofIndex, shift, List.drop_length_add_append, Nat.add_comm]

end

/-- The tokens before its start have no bearing on what a production reads, for any grammar and limit: whatever is
put before the tokens, the reading is the same, or the evaluation fails for the same cause, by as many tokens later
as were put before, and if there are tokens at all also at the same place in the source. -/
theorem outcome_append_before (g : Grammar) (p : Production) (limit : Nat) (before tokens : List Token)
    (start : Nat) :
  let alone := ((Session.start g tokens limit).evaluate p start).1.outcome
  let whole := ((Session.start g (before ++ tokens) limit).evaluate p (before.length + start)).1.outcome
  whole.mapError Diagnostic.cause = alone.mapError (fun d => d.cause.shift before.length)
    ∧ (tokens ≠ [] → whole = alone.mapError (Diagnostic.shift before.length))
  := by
  intro alone whole
  let r := Correspondence.shifted before.length (tokens ≠ [])
  have hrelates : r.Relates (Session.start g tokens limit).setting
      (Session.start g (before ++ tokens) limit).setting :=
    relates_shifted rfl rfl (Position.ofEnd_append before)
  have hpp : r.Productions p p := Correspondence.productions_refl trivial fun _ _ => ⟨rfl, rfl⟩
  obtain ⟨⟨houtcome, -⟩, -⟩ := hrelates.session r.memories_fresh rfl rfl hpp
    (Cursor.ofIndex_append before tokens start)
  obtain ⟨reading, reading', hout, hout', hread⟩ | ⟨d, e, hout, hout', htold⟩ := houtcome.ok_or_error
  · obtain rfl := hread.eq rfl
    rw [show alone = _ from hout, show whole = _ from hout']
    exact ⟨rfl, fun _ => rfl⟩
  · rw [show alone = _ from hout, show whole = _ from hout']
    constructor
    · exact congrArg Except.error htold.1
    · intro hne
      exact congrArg Except.error (Diagnostic.eq_shift htold hne)

/-- The value that an assignment lacks is told one token later when there is an end of a line before it. -/
theorem outcome_append_before_withoutValue :
  let p : Production := ⟨.statement, .oneOf (.of .assignment [.primary]), [.skip .endOfLine]⟩
  let before : List Token := [.unplaced .endOfLine ""]
  withoutValue ≠ []
    ∧ ((Session.start smallGrammar withoutValue 10).evaluate p 0).1.outcome
      = .error ⟨.tooFew ⟨.assignment, "`Number`", 2, "`CloseParen`"⟩, .null⟩
    ∧ ((Session.start smallGrammar (before ++ withoutValue) 10).evaluate p 1).1.outcome
      = .error ⟨.tooFew ⟨.assignment, "`Number`", 3, "`CloseParen`"⟩, .null⟩
  := by
  intro p before
  have hne : withoutValue ≠ [] := by decide
  have halone : ((Session.start smallGrammar withoutValue 10).evaluate p 0).1.outcome
      = .error ⟨.tooFew ⟨.assignment, "`Number`", 2, "`CloseParen`"⟩, .null⟩ := by
    decide +kernel
  obtain ⟨-, hwhole⟩ := outcome_append_before smallGrammar p 10 before withoutValue 0
  use hne, halone
  rw [halone] at hwhole
  apply hwhole hne

/-! ## Tokens after -/

/-- The productions that keep something and do not look ahead. -/
def Production.IsPlain (p : Production) : Prop :=
  p.looksAhead = false ∧ ∃ item ∈ p.items, item.keeps = true

/-- Evaluations of plain productions at the places of an index at which the tokens agree up to an edge. -/
def Correspondence.upTo (edge : Nat) : Correspondence where
  allows := Production.IsPlain
  target := Eq
  place c d := d.index = c.index ∧ ∃ shared rest rest', shared ≠ [] ∧ c.rest = shared ++ rest
    ∧ d.rest = shared ++ rest' ∧ c.index + shared.length = edge
  trees := Eq
  told := Eq
  shift := 0
  edge := some edge

theorem Correspondence.isBeyond_upTo_iff {edge index : Nat} :
  (upTo edge).IsBeyond index ↔ edge ≤ index
  := by
  simp [IsBeyond, upTo]

/-- Places of an index at which some tokens agree are the same up to the end of those tokens. -/
theorem place_of_take_eq {c d : Cursor} {count : Nat} (hindex : d.index = c.index) (hpos : 0 < count)
    (hle : count ≤ c.rest.length) (hagree : d.rest.take count = c.rest.take count) :
  (Correspondence.upTo (c.index + count)).place c d
  := by
  refine ⟨hindex, c.rest.take count, c.rest.drop count, d.rest.drop count, ?_, ?_, ?_, ?_⟩
  · apply List.ne_nil_of_length_pos
    rw [List.length_take_of_le hle]
    apply hpos
  · rw [List.take_append_drop]
  · rw [← hagree, List.take_append_drop]
  · rw [List.length_take_of_le hle]

/-- At the same place the next token is the same. -/
theorem exists_cons_of_place {edge : Nat} {c d : Cursor} (h : (Correspondence.upTo edge).place c d) :
  ∃ token rest rest', c.rest = token :: rest ∧ d.rest = token :: rest'
  := by
  obtain ⟨-, shared, rest, rest', hne, hc, hd, -⟩ := h
  obtain ⟨token, more, rfl⟩ := List.exists_cons_of_ne_nil hne
  exact ⟨token, more ++ rest, more ++ rest', hc, hd⟩

theorem follows_upTo {s t : Setting} {edge : Nat} (hlimit : t.limit = s.limit) :
  (Correspondence.upTo edge).Follows s t
  where
  inside := by
    rintro c d ⟨-, shared, -, -, hne, -, -, hlength⟩
    rw [Correspondence.isBeyond_upTo_iff]
    have hpos := List.length_pos_of_ne_nil hne
    omega
  index_eq h := h.1
  head := by
    intro c d h
    obtain ⟨token, rest, rest', hc, hd⟩ := exists_cons_of_place h
    rw [hc, hd]
    exact .some ⟨rfl, rfl⟩
  advance := by
    rintro c d count ⟨hindex, shared, rest, rest', -, hc, hd, hlength⟩ - hinside
    rw [Correspondence.isBeyond_upTo_iff] at hinside
    have hlt : count < shared.length := by omega
    refine ⟨by simp [hindex], shared.drop count, rest, rest', ?_, ?_, ?_, ?_⟩
    · simpa using hlt
    · rw [Cursor.rest_advance, hc, List.drop_append_of_le_length hlt.le]
    · rw [Cursor.rest_advance, hd, List.drop_append_of_le_length hlt.le]
    · rw [Cursor.index_advance, List.length_drop]
      omega
  mismatch := by
    rintro c d ⟨_, _⟩ ⟨_, _⟩ cause rule h ⟨⟨⟩, -⟩ -
    obtain ⟨token, rest, rest', hc, hd⟩ := exists_cons_of_place h
    simp only [mismatchAt, Cursor.found, Cursor.position, hc, hd, h.1]
    rfl
  tooDeep := by
    intro c d rule h
    obtain ⟨token, rest, rest', hc, hd⟩ := exists_cons_of_place h
    simp only [Cursor.position, hc, hd, hlimit]
    rfl
  isMismatch_eq := by
    rintro d _ rfl
    rfl
  isFurther_eq := by
    rintro d _ d' _ rfl rfl
    rfl
  edge _ _ hp := hp

theorem relates_upTo {s t : Setting} {edge : Nat} (hgrammar : t.grammar = s.grammar)
    (hlimit : t.limit = s.limit) (hplain : ∀ p ∈ s.grammar.productions, p.IsPlain) :
  (Correspondence.upTo edge).Relates s t
  := (follows_upTo hlimit).relates rfl rfl hgrammar hplain fun _ => rfl

section

variable {s t : Setting} (hgrammar : t.grammar = s.grammar) (hlimit : t.limit = s.limit)
  (hplain : ∀ p ∈ s.grammar.productions, p.IsPlain) {room depth : Nat} {c d : Cursor}
include hgrammar hlimit hplain

/-- Matches that stop before an edge, and of which nothing was discarded that got beyond it, are the same
wherever the tokens agree up to the edge. -/
theorem matchItem_of_place {edge : Nat} (hplace : (Correspondence.upTo edge).place c d) (rule : Nonterminal)
    (item : Item) {found : Matches}
    (hout : (matchItem s (evaluate s room depth) rule item c).outcome = .ok found)
    (hstop : found.cursor.index < edge)
    (hreach : ∀ m, .discarded m ∈ (matchItem s (evaluate s room depth) rule item c).journal.events →
      m.reach ≤ edge) :
  ∃ same, (matchItem t (evaluate t room depth) rule item d).outcome = .ok same
    ∧ (Correspondence.upTo edge).Found found same
    ∧ (matchItem t (evaluate t room depth) rule item d).journal.events
      = (matchItem s (evaluate s room depth) rule item c).journal.events
  := by
  have hrelates : (Correspondence.upTo edge).Relates s t := relates_upTo hgrammar hlimit hplain
  have hinner {p q : Production} {c d : Cursor} (hpq : (Correspondence.upTo edge).Productions p q)
      (hplace : (Correspondence.upTo edge).place c d) :=
    hrelates.evaluate room depth hpq hplace
  rcases hrelates.matchItem hinner rule ⟨rfl, rfl⟩ hplace with hescapes | ⟨houtcome, hevents⟩
  · cases hescapes with
    | @discarded m mem isPast =>
      obtain ⟨index, hindex, hbeyond⟩ := isPast
      have hle := hreach m mem
      rw [Correspondence.isBeyond_upTo_iff] at hbeyond
      simp only [Diagnostic.reach, hindex] at hle
      omega
    | found outcome isBeyond =>
      obtain rfl := Except.ok.inj (hout.symm.trans outcome)
      rw [Correspondence.isBeyond_upTo_iff] at isBeyond
      omega
    | failed outcome => cases hout.symm.trans outcome
  · rw [hout] at houtcome
    cases hsame : (matchItem t (evaluate t room depth) rule item d).outcome with
    | ok same =>
      rw [hsame] at houtcome
      cases houtcome with
      | ok hfound => exact ⟨same, rfl, hfound, Correspondence.events_eq Eq.symm rfl hevents⟩
    | error reason =>
      rw [hsame] at houtcome
      cases houtcome

/-- What a production reads that ends with a token is the same wherever the tokens that it reads are. -/
theorem evaluate_of_agree {p : Production} {kinds : Choice Terminal} {excluded : Bool}
    (hlast : p.continuations = [⟨.tokens kinds excluded, .once⟩]) (hindex : d.index = c.index)
    {reading : Reading} (hout : (evaluate s room depth p c).outcome = .ok reading)
    (hmatch : reading.isMatch = true)
    (hreach : ∀ m, .discarded m ∈ (evaluate s room depth p c).journal.events →
      m.reach ≤ c.index + reading.consumed)
    (hagree : d.rest.take reading.consumed = c.rest.take reading.consumed) :
  (evaluate t room depth p d).outcome = .ok reading
    ∧ (evaluate t room depth p d).journal.events = (evaluate s room depth p c).journal.events
  := by
  have hprogress := (evaluate_finds_progresses s room depth p c).of_ok reading hout
  cases room with
  | zero => cases hout
  | succ room =>
    obtain ⟨opening, token, rest, hopening, hcount, hrest, hkind⟩ :=
      exists_of_matchProduction_token hlast hout hmatch
    obtain ⟨houtcome, hevents⟩ := matchProduction_of_token hlast depth hopening hcount hrest hkind
    obtain rfl := Except.ok.inj (houtcome.symm.trans hout)
    obtain ⟨hne, hreading⟩ := Piece.reading_of_isMatch hmatch
    obtain ⟨count, -, -, hcursor⟩ := (matchItem_finds_advance p.rule p.opening c).of_ok opening hopening
    have hconsumed : (opening.cursor.advance 1).index - c.index = count + 1 := by
      rw [hcursor, Cursor.index_advance, Cursor.index_advance]
      omega
    have hlength := hprogress.le_length
    simp only [hreading, hconsumed] at hreach hagree hlength
    have hplace := place_of_take_eq hindex (Nat.succ_pos count) hlength hagree
    have hstop : opening.cursor.index < c.index + (count + 1) := by
      rw [hcursor, Cursor.index_advance]
      omega
    obtain ⟨same, hsame, hfound, hquiet⟩ := matchItem_of_place hgrammar hlimit hplain hplace p.rule p.opening
      hopening hstop fun m hm => hreach m (by rw [evaluate, hevents]; simp [hm])
    -- The token that comes next is still before the edge.
    obtain ⟨token', _, rest', hrest'', hrest'⟩ := exists_cons_of_place hfound.cursor
    obtain ⟨rfl, -⟩ := List.cons.inj (hrest.symm.trans hrest'')
    have hcount' : same.count ≠ 0 := by
      rw [hfound.count_eq]
      apply hcount
    obtain ⟨houtcome', hevents'⟩ := matchProduction_of_token hlast depth hsame hcount' hrest' hkind
    have htrees : same.trees = opening.trees := hfound.trees.symm
    have hend : (same.cursor.advance 1).index = (opening.cursor.advance 1).index := by
      rw [Cursor.index_advance, Cursor.index_advance, hfound.cursor.1]
    simp only [evaluate, houtcome', hevents', hevents, hquiet, Piece.reading, htrees, hend, hindex, and_self]

end

/-! ## Matches and what comes after them -/

/-- A place after which there are more tokens. -/
def Cursor.append (c : Cursor) (more : List Token) : Cursor := ⟨c.index, c.rest ++ more⟩

theorem Cursor.advance_append {c : Cursor} {count : Nat} (h : count ≤ c.rest.length) (more : List Token) :
  (c.append more).advance count = (c.advance count).append more
  := by
  simp [append, advance, List.drop_append_of_le_length h]

/-- Matches and then others. -/
def Matches.append (first second : Matches) : Matches :=
  ⟨⟨first.trees ++ second.trees, second.cursor⟩, first.count + second.count⟩

theorem Matches.nothing_append (c : Cursor) (found : Matches) :
  Matches.append ⟨⟨[], c⟩, 0⟩ found = found
  := by
  simp [append]

/-- A match and those that follow it, and then others. -/
theorem Matches.cons_append (piece : Piece) (first second : Matches) :
  Matches.append ⟨⟨piece.trees ++ first.trees, first.cursor⟩, first.count + 1⟩ second
    = ⟨⟨piece.trees ++ (first.append second).trees, (first.append second).cursor⟩,
        (first.append second).count + 1⟩
  := by
  simp [append, Nat.add_right_comm]

/-- Whether a journal leaves no look-ahead open and has discarded nothing that got beyond an index. -/
structure Journal.StopsBy (j : Journal) (index : Nat) : Prop where
  /-- Look-aheads that start also end. -/
  balanced : j.Balanced
  /-- What was discarded got no further. -/
  reach_le : ∀ m ∈ j.discarded, m.reach ≤ index

theorem Journal.StopsBy.append {first second : Journal} {index later : Nat} (hfirst : first.StopsBy index)
    (hsecond : second.StopsBy later) (hle : index ≤ later) :
  (first ++ second).StopsBy later
  where
  balanced := hfirst.balanced.append hsecond.balanced
  reach_le := by
    rw [hfirst.balanced.discarded_append]
    intro m hm
    rcases List.mem_append.mp hm with hm | hm
    · apply le_trans (hfirst.reach_le m hm) hle
    · apply hsecond.reach_le m hm

/-- What is done with a value that was found changes the value only. -/
theorem Attempt.bind_pure {α β : Type} (attempt : Attempt α) (f : α → β) :
  (do let value ← attempt; pure (f value) : Attempt β).outcome = attempt.outcome.map f
    ∧ (do let value ← attempt; pure (f value) : Attempt β).journal.events = attempt.journal.events
  := by
  cases hout : attempt.outcome with
  | ok value =>
    rw [bind_of_ok hout]
    simp [Attempt.after, Except.map]
  | error reason =>
    rw [bind_of_error hout]
    simp [Except.map]

/-- Whether an attempt finds some matches and then goes on as another one does, after nothing was discarded that
got beyond those matches. -/
structure Attempt.Continues (whole : Attempt Matches) (found : Matches) (later : Attempt Matches) : Prop where
  /-- The outcome is that of the other attempt, but for the matches before. -/
  outcome_eq : whole.outcome = later.outcome.map found.append
  /-- The events are those of the other attempt, but for those before. -/
  events : ∃ earlier : Journal, earlier.StopsBy found.cursor.index
    ∧ whole.journal.events = earlier.events ++ later.journal.events

theorem Attempt.continues_nothing (attempt : Attempt Matches) (c : Cursor) :
  attempt.Continues ⟨⟨[], c⟩, 0⟩ attempt
  where
  outcome_eq := by
    cases attempt.outcome with
    | ok found => exact congrArg Except.ok (Matches.nothing_append c found).symm
    | error reason => rfl
  events := ⟨.empty, ⟨.empty, by simp⟩, rfl⟩

/-- A match comes before what goes on after others. -/
theorem Attempt.Continues.cons {whole later : Attempt Matches} {found : Matches} (h : whole.Continues found later)
    (piece : Piece) {j : Journal} {index : Nat} (hj : j.StopsBy index) (hle : index ≤ found.cursor.index) :
  (Attempt.after (do
    let others ← whole
    pure ⟨⟨piece.trees ++ others.trees, others.cursor⟩, others.count + 1⟩) j).Continues
      ⟨⟨piece.trees ++ found.trees, found.cursor⟩, found.count + 1⟩ later
  := by
  obtain ⟨houtcome, earlier, hearlier, hevents⟩ := h
  obtain ⟨houtcome', hevents'⟩ := whole.bind_pure fun others : Matches =>
    (⟨⟨piece.trees ++ others.trees, others.cursor⟩, others.count + 1⟩ : Matches)
  constructor
  · rw [after, houtcome', houtcome]
    cases later.outcome with
    | ok found' => exact congrArg Except.ok (Matches.cons_append piece found found').symm
    | error reason => rfl
  · use j ++ earlier, hj.append hearlier hle
    rw [after, Journal.events_append, Journal.events_append, hevents', hevents, List.append_assoc]

/-- What was discarded before what goes on makes no difference to a diagnostic that got further. -/
theorem Attempt.Continues.promote_eq {whole later : Attempt Matches} {found : Matches}
    (h : whole.Continues found later) {d : Diagnostic}
    (hlt : d.isMismatch = true → found.cursor.index < d.reach) :
  (Memory.fresh.follow whole.journal).promote d = (Memory.fresh.follow later.journal).promote d
  := by
  obtain ⟨-, earlier, hearlier, hevents⟩ := h
  have hfollow : Memory.fresh.follow whole.journal = (Memory.fresh.follow earlier).follow later.journal := by
    simp only [Memory.follow, hevents, List.foldl_append]
  rw [hfollow]
  apply Memory.promote_follow_of_lt (Memory.lookAheads_follow _ hearlier.balanced)
  intro hd kept hkept
  rw [Memory.furthest_follow_fresh] at hkept
  have hmem := (Diagnostic.mem_of_furthestOf hkept).resolve_left (by simp)
  apply lt_of_le_of_lt (hearlier.reach_le kept hmem) (hlt hd)

section

variable {once other : Cursor → Attempt (Option Piece)} {more : List Token}
  (honce : ∀ c, (once c).Finds fun found => ∀ piece ∈ found, piece.Advances c)
  (hother : ∀ c, (other c).Finds fun found => ∀ piece ∈ found, piece.Advances c)
include honce hother

/-- When every match is the same if there are more tokens, matches one after the other are, and then go on. -/
theorem matchMany_continues
    (hsame : ∀ c piece, (once c).outcome = .ok (some piece) →
      (other (c.append more)).outcome = .ok (some ⟨piece.trees, piece.cursor.append more⟩)
        ∧ (other (c.append more)).journal.StopsBy piece.cursor.index)
    {c : Cursor} {found : Matches} (hout : (matchMany once c).outcome = .ok found) :
  (matchMany other (c.append more)).Continues found (matchMany other (found.cursor.append more))
  := by
  have hunfold := (eq_matchMany_iff honce _).mpr rfl
  have hunfold' := (eq_matchMany_iff hother _).mpr rfl
  induction hc : c.rest.length using Nat.strong_induction_on generalizing c found with
  | _ n ih =>
    rw [hunfold c, matchThen, Attempt.outcome_bind] at hout
    cases hfirst : (once c).outcome with
    | error reason => simp [hfirst, Except.bind] at hout
    | ok first =>
      simp only [hfirst, Except.bind] at hout
      cases first with
      | none =>
        obtain rfl := Except.ok.inj hout
        apply Attempt.continues_nothing
      | some piece =>
        have hadvances := (honce c).of_ok _ hfirst piece rfl
        obtain ⟨hpiece, hstops⟩ := hsame c piece hfirst
        simp only [(Attempt.bind_pure _ _).1] at hout
        cases hothers : (matchMany once piece.cursor).outcome with
        | error reason => simp [hothers, Except.map] at hout
        | ok others =>
          rw [hothers] at hout
          obtain rfl := Except.ok.inj hout
          obtain ⟨count, -, -, hcursor⟩ := (matchMany_finds_advance honce piece.cursor).of_ok others hothers
          rw [hunfold' (c.append more), matchThen, Attempt.bind_of_ok hpiece]
          apply (ih _ (hc ▸ hadvances.length_lt) hothers rfl).cons piece hstops
          rw [hcursor, Cursor.index_advance]
          apply Nat.le_add_right

end

end LayoutGrammar
