import LayoutGrammar.Proofs.Evaluation.Limit

/-!
# Look-ahead

A look-ahead finds out whether a target matches at a place, and does nothing else.  It comes to the answer
that a match comes to (`outcome_lookAhead`), and whatever is tried in it, further look-aheads included, leaves
every memory as it was (`Memory.follow_lookAhead`): what is discarded while a look-ahead is open is not kept,
and a look-ahead is closed on every way out of it.
-/

namespace LayoutGrammar

/-- Whether a target in a production of a rule matches at a place. -/
def Target.MatchesAt (s : Setting) (inner : Evaluator) (rule : Nonterminal) (target : Target) (c : Cursor) :
    Prop :=
  ∃ piece, (matchOnce s inner rule target c).outcome = .ok (some piece)

/-! ## Answers -/

section

variable (s : Setting) (inner : Evaluator) (rule : Nonterminal) (target : Target) (c : Cursor)

/-- A look-ahead never fails, and finds out whether its target matches. -/
theorem outcome_lookAhead :
  ∃ answer, (lookAhead s inner target c).outcome = .ok answer
    ∧ (answer = true ↔ target.MatchesAt s inner rule c)
  := by
  unfold Target.MatchesAt
  cases target with
  | tokens kinds excluded =>
    simp only [lookAhead, matchOnce]
    cases c.rest with
    | nil => exact ⟨false, rfl, by simp⟩
    | cons token rest =>
      by_cases hkind : token.kind ∈ kinds.members
      · exact ⟨true, by simp [hkind], by simp [hkind]⟩
      · exact ⟨false, by simp [hkind], by simp [hkind]⟩
  | rules heads hoisted =>
    simp only [lookAhead, matchOnce, Attempt.outcome_bind]
    refine ⟨_, rfl, ?_⟩
    cases (tryRules s inner heads.members c).outcome with
    | error reason => simp [Except.bind]
    | ok found => cases found <;> simp [Except.bind]

end

/-! ## Effects -/

namespace Memory

/-- What happens while a look-ahead is open makes no difference to what is kept. -/
theorem furthest_follow_of_pos {m : Memory} (h : 0 < m.lookAheads) {j : Journal} (hj : j.Balanced) :
  (m.follow j).furthest = m.furthest
  := by
  have houtside := hj.outside_events m.lookAheads []
  rw [List.append_nil, if_neg (by omega)] at houtside
  rw [follow, furthest_foldl_note, houtside]
  simp [Event.outside]

/-- A look-ahead leaves a memory as it was, whether or not others are open. -/
theorem follow_opened_closed (m : Memory) {j : Journal} (hj : j.Balanced) :
  m.follow (.event .lookAheadOpened ++ j ++ .event .lookAheadClosed) = m
  := by
  have hopened : m.follow (.event .lookAheadOpened) = { m with lookAheads := m.lookAheads + 1 } := rfl
  have hclosed (m : Memory) :
      m.follow (.event .lookAheadClosed) = { m with lookAheads := m.lookAheads - 1 } := rfl
  have hpos : 0 < (m.follow (.event .lookAheadOpened)).lookAheads := Nat.succ_pos _
  rw [follow_append, follow_append, hclosed, furthest_follow_of_pos hpos hj, lookAheads_follow _ hj, hopened]
  rfl

/-- Whatever a look-ahead tries, it leaves every memory as it was. -/
theorem follow_lookAhead (m : Memory) (s : Setting) (room depth : Nat) (target : Target) (c : Cursor) :
  m.follow (lookAhead s (evaluate s room depth) target c).journal = m
  := by
  cases target with
  | tokens kinds excluded =>
    simp only [lookAhead]
    split <;> rfl
  | rules heads hoisted =>
    apply m.follow_opened_closed
    apply conduct_stands.balanced (conduct_stands.tryRules (conduct_stands.evaluate room depth) heads.members c)

end Memory

/-! ## Continuations -/

section

variable {s : Setting} {room depth : Nat} {rule : Nonterminal} {target : Target} {before piece : Piece}
  (hfirst : (matchOnce s (evaluate s room depth) rule target before.cursor).outcome = .ok (some piece))
include hfirst

/-- A continuation that may match at most once, and does, is matched and then looked ahead for. -/
theorem matchAll_of_atMostOnce (items : List Item) :
  matchAll s (evaluate s room depth) rule (⟨target, .atMostOnce⟩ :: items) before
    = (do
        if ← lookAhead s (evaluate s room depth) target piece.cursor then
          .raise (mismatchAt s rule ⟨target, .atMostOnce⟩ piece.cursor .tooMany)
        else
          matchAll s (evaluate s room depth) rule items ⟨before.trees ++ piece.trees, piece.cursor⟩).after
      ((matchOnce s (evaluate s room depth) rule target before.cursor).journal ++ Journal.empty)
  := by
  have hitem : matchItem s (evaluate s room depth) rule ⟨target, .atMostOnce⟩ before.cursor
      = (pure ⟨piece, 1⟩ : Attempt Matches).after
        (matchOnce s (evaluate s room depth) rule target before.cursor).journal := by
    rw [matchItem, if_neg (by simp [Repetition.isRepeated]), Attempt.bind_of_ok hfirst]
  have hout : (matchItem s (evaluate s room depth) rule ⟨target, .atMostOnce⟩ before.cursor).outcome
      = .ok ⟨piece, 1⟩ := by
    rw [hitem]
    rfl
  rw [matchAll, Attempt.bind_of_ok hout, hitem]
  rfl

/-- When a second match is possible, it is told where the first one ended, and the look-ahead has left no
trace. -/
theorem matchAll_of_again (items : List Item)
    (hagain : target.MatchesAt s (evaluate s room depth) rule piece.cursor) :
  (matchAll s (evaluate s room depth) rule (⟨target, .atMostOnce⟩ :: items) before).outcome
    = .error (mismatchAt s rule ⟨target, .atMostOnce⟩ piece.cursor .tooMany)
  ∧ ∀ m : Memory,
    m.follow (matchAll s (evaluate s room depth) rule (⟨target, .atMostOnce⟩ :: items) before).journal
      = m.follow (matchOnce s (evaluate s room depth) rule target before.cursor).journal
  := by
  obtain ⟨answer, hanswer, hiff⟩ := outcome_lookAhead s (evaluate s room depth) rule target piece.cursor
  obtain rfl := hiff.mpr hagain
  rw [matchAll_of_atMostOnce hfirst, Attempt.bind_of_ok hanswer]
  use rfl
  intro m
  simp only [Attempt.after, Memory.follow_append, Memory.follow_empty, Memory.follow_lookAhead]
  rfl

/-- When a second match is not possible, what follows goes on from where the first one ended, with what was
read and kept by then. -/
theorem matchAll_of_not_again (items : List Item)
    (hagain : ¬ target.MatchesAt s (evaluate s room depth) rule piece.cursor) :
  (matchAll s (evaluate s room depth) rule (⟨target, .atMostOnce⟩ :: items) before).outcome
    = (matchAll s (evaluate s room depth) rule items
        ⟨before.trees ++ piece.trees, piece.cursor⟩).outcome
  ∧ ∀ m : Memory,
    m.follow (matchAll s (evaluate s room depth) rule (⟨target, .atMostOnce⟩ :: items) before).journal
      = (m.follow (matchOnce s (evaluate s room depth) rule target before.cursor).journal).follow
        (matchAll s (evaluate s room depth) rule items
          ⟨before.trees ++ piece.trees, piece.cursor⟩).journal
  := by
  obtain ⟨answer, hanswer, hiff⟩ := outcome_lookAhead s (evaluate s room depth) rule target piece.cursor
  obtain rfl : answer = false := by
    rw [← Bool.not_eq_true]
    exact mt hiff.mp hagain
  rw [matchAll_of_atMostOnce hfirst, Attempt.bind_of_ok hanswer]
  use rfl
  intro m
  simp only [Attempt.after, Memory.follow_append, Memory.follow_empty, Memory.follow_lookAhead,
    Bool.false_eq_true, if_false]

end

/-- At any place and depth, whatever is kept of the events before and whether or not look-aheads are open, a
look-ahead for a target answers that it matches just when a match of it would be found, and leaves what is kept
as it was.  Where a continuation may match at most once, and has matched, a second match is a mismatch at the
place that the first one led to; without one, what follows goes on from that place, with the trees that were
built and with what was kept by then. -/
theorem lookAhead_agrees (s : Setting) (room depth : Nat) (rule : Nonterminal) (target : Target) :
  let inner := evaluate s room depth
  (∀ c, ∃ answer, (lookAhead s inner target c).outcome = .ok answer
    ∧ (answer = true ↔ ∃ piece, (matchOnce s inner rule target c).outcome = .ok (some piece))
    ∧ ∀ m : Memory, m.follow (lookAhead s inner target c).journal = m)
  ∧ ∀ items before piece, (matchOnce s inner rule target before.cursor).outcome = .ok (some piece) →
    let first := matchOnce s inner rule target before.cursor
    let whole := matchAll s inner rule (⟨target, .atMostOnce⟩ :: items) before
    let others := matchAll s inner rule items ⟨before.trees ++ piece.trees, piece.cursor⟩
    ((∃ again, (matchOnce s inner rule target piece.cursor).outcome = .ok (some again)) →
      whole.outcome = .error (mismatchAt s rule ⟨target, .atMostOnce⟩ piece.cursor .tooMany)
        ∧ ∀ m : Memory, m.follow whole.journal = m.follow first.journal)
    ∧ ((¬ ∃ again, (matchOnce s inner rule target piece.cursor).outcome = .ok (some again)) →
      whole.outcome = others.outcome
        ∧ ∀ m : Memory, m.follow whole.journal = (m.follow first.journal).follow others.journal)
  := by
  intro inner
  constructor
  · intro c
    obtain ⟨answer, hanswer, hiff⟩ := outcome_lookAhead s inner rule target c
    use answer, hanswer, hiff
    intro m
    apply m.follow_lookAhead
  · intro items before piece hfirst
    exact ⟨matchAll_of_again hfirst items, matchAll_of_not_again hfirst items⟩

/-- A second primary to print, in parentheses that are not closed, is looked ahead for in vain: the mismatch
that is raised for it is not kept, and the first primary is what is read. -/
theorem lookAhead_unclosedPrimary :
  let ts := twoPrimaries.take 4
  let s := (Session.start printedOnce ts 10).setting
  let inner := evaluate s 10 1
  let target : Target := .rules (.one .primary) false
  let ahead := lookAhead s inner target (.ofIndex ts 2)
  let first := matchOnce s inner .print target (.ofIndex ts 1)
  let whole := matchAll s inner .print [⟨target, .atMostOnce⟩] ⟨[], .ofIndex ts 1⟩
  ahead.outcome = .ok false ∧ ahead.journal.events.any (fun e => e.raised?.isSome) = true
    ∧ first.outcome = .ok (some ⟨[.node .primary [.leaf (.unplaced .number "1")]], .ofIndex ts 2⟩)
    ∧ whole.outcome = .ok ⟨[.node .primary [.leaf (.unplaced .number "1")]], .ofIndex ts 2⟩
    ∧ ∀ m : Memory, m.follow whole.journal = m.follow first.journal
  := by
  intro ts s inner target ahead first whole
  obtain ⟨hlook, hmatch⟩ := lookAhead_agrees s 10 1 .print target
  obtain ⟨answer, hanswer, hagain, -⟩ := hlook (.ofIndex ts 2)
  have hfalse : ahead.outcome = .ok false := by decide +kernel
  have hfirst : first.outcome
      = .ok (some ⟨[.node .primary [.leaf (.unplaced .number "1")]], .ofIndex ts 2⟩) := rfl
  obtain rfl : answer = false := Except.ok.inj (hanswer.symm.trans hfalse)
  obtain ⟨hout, hmemory⟩ := (hmatch [] ⟨[], .ofIndex ts 1⟩ _ hfirst).2 (by simpa using mt hagain.mpr)
  exact ⟨hfalse, by decide +kernel, hfirst, hout, hmemory⟩

end LayoutGrammar
