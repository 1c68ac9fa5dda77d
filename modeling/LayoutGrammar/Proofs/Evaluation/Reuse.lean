import LayoutGrammar.Proofs.Evaluation.Furthest

/-!
# Reuse of a session

A session that was called before answers as a fresh one does, except that for a mismatch it may tell one of
an earlier call that got at least as far (`Repeats`).  All that a session keeps of its calls is its memory:
no look-ahead is open there, and the furthest mismatch was raised in one of them (`Memory.Remembers`).
-/

namespace LayoutGrammar

namespace Diagnostic

/-- The furthest diagnostic is the kept one or among the others. -/
theorem mem_of_furthestOf {kept : Option Diagnostic} {others : List Diagnostic} {d : Diagnostic}
    (h : furthestOf kept others = some d) :
  kept = some d ∨ d ∈ others
  := by
  rcases find?_of_furthestOf h with hkept | ⟨-, hfirst⟩
  · apply Or.inl hkept
  · apply Or.inr (List.mem_of_find?_eq_some hfirst)

/-- A kept diagnostic is the furthest, or it does not matter. -/
theorem furthestOf_some (kept : Diagnostic) (others : List Diagnostic) :
  furthestOf (some kept) others = furthestOf none others
  ∨ furthestOf (some kept) others = some kept ∧ ∀ d ∈ others, d.reach ≤ kept.reach
  := by
  cases hnone : furthestOf none others with
  | none =>
    right
    cases others with
    | nil => simp
    | cons d others =>
      obtain ⟨furthest, hsome⟩ := furthestOf_isSome none (List.cons_ne_nil d others)
      simp [hnone] at hsome
  | some furthest =>
    have hfirst := ((find?_of_furthestOf hnone).resolve_left (by simp)).2
    have hmem := List.mem_of_find?_eq_some hfirst
    obtain ⟨d, hd⟩ := furthestOf_isSome (some kept) (List.ne_nil_of_mem hmem)
    have hle := (reach_le_of_furthestOf hd).2
    rcases find?_of_furthestOf hd with hkept | ⟨-, hother⟩
    · obtain rfl := Option.some.inj hkept
      apply Or.inr ⟨hd, hle⟩
    · left
      have hreach : d.reach = furthest.reach := by
        apply Nat.le_antisymm
        · apply (reach_le_of_furthestOf hnone).2 d (List.mem_of_find?_eq_some hother)
        · apply hle furthest hmem
      rw [hreach, hfirst] at hother
      rw [hd, hother]

end Diagnostic

namespace Memory

/-- What is kept when no look-ahead is open. -/
theorem furthest_follow {m : Memory} (h : m.lookAheads = 0) (j : Journal) :
  (m.follow j).furthest = Diagnostic.furthestOf m.furthest j.discarded
  := by
  rw [follow, furthest_foldl_note, h, Journal.discarded]

/-- Look-aheads that start and end leave no trace. -/
theorem lookAheads_follow (m : Memory) {j : Journal} (h : j.Balanced) :
  (m.follow j).lookAheads = m.lookAheads
  := by
  induction h generalizing m with
  | empty => rfl
  | @event e plain =>
    cases e <;> simp_all [Event.isPlain, follow, note, apply_ite Memory.lookAheads]
  | append _ _ ih₁ ih₂ => rw [follow_append, ih₂, ih₁]
  | lookAhead _ ih =>
    have hopened : (m.follow (.event .lookAheadOpened)).lookAheads = m.lookAheads + 1 := rfl
    have hclosed (m : Memory) :
        (m.follow (.event .lookAheadClosed)).lookAheads = m.lookAheads - 1 := rfl
    rw [follow_append, follow_append, hclosed, ih, hopened, Nat.add_sub_cancel]

/-- What a memory holds after some journals: no look-ahead is open, and the furthest mismatch was raised in
one of them. -/
structure Remembers (m : Memory) (journals : List Journal) : Prop where
  /-- No look-ahead is open. -/
  lookAheads_eq : m.lookAheads = 0
  /-- What is kept was raised outside of any look-ahead. -/
  raised : ∀ d ∈ m.furthest, ∃ j ∈ journals, d ∈ j.raised
  /-- What is kept is a mismatch. -/
  isMismatch : ∀ d ∈ m.furthest, d.isMismatch = true

theorem remembers_fresh :
  fresh.Remembers []
  := by
  constructor <;> simp [fresh]

theorem Remembers.follow {m : Memory} {journals : List Journal} (h : m.Remembers journals) {j : Journal}
    {failure : Option Diagnostic} (hj : j.Stands failure) :
  (m.follow j).Remembers (journals ++ [j])
  := by
  have hfurthest := furthest_follow h.lookAheads_eq j
  constructor
  · rw [lookAheads_follow m hj.balanced, h.lookAheads_eq]
  · intro d hd
    rw [hfurthest] at hd
    rcases Diagnostic.mem_of_furthestOf hd with hkept | hnew
    · obtain ⟨i, hi, hraised⟩ := h.raised d hkept
      use i, List.mem_append_left _ hi
    · use j, by simp, hj.raised_of_discarded d hnew
  · intro d hd
    rw [hfurthest] at hd
    rcases Diagnostic.mem_of_furthestOf hd with hkept | hnew
    · apply h.isMismatch d hkept
    · apply hj.isMismatch d (hj.raised_of_discarded d hnew)

/-- A diagnostic gives way to one that got further, and to no other. -/
theorem promote_eq (m : Memory) (d : Diagnostic) :
  m.promote d = d ∨ m.furthest = some (m.promote d) ∧ d.reach < (m.promote d).reach
  := by
  unfold promote
  cases hm : m.furthest with
  | none => apply Or.inl rfl
  | some furthest =>
    by_cases hfurther : d.isMismatch && furthest.isFurther d
    · right
      simp_all [Diagnostic.isFurther_iff]
    · simp [hfurther]

/-- What is told that did not arise among tokens was not promoted. -/
theorem promote_eq_of_index?_eq_none {m : Memory} {d : Diagnostic} (h : (m.promote d).cause.index? = none) :
  m.promote d = d
  := by
  apply (m.promote_eq d).resolve_right
  rintro ⟨-, hlt⟩
  simp [Diagnostic.reach, h] at hlt

/-- What a memory of mismatches promotes a diagnostic to is a mismatch just when the diagnostic is one. -/
theorem isMismatch_promote {m : Memory} (hm : ∀ d ∈ m.furthest, d.isMismatch = true) (d : Diagnostic) :
  (m.promote d).isMismatch = d.isMismatch
  := by
  cases hd : d.isMismatch with
  | false => rw [promote_of_not_isMismatch hd, hd]
  | true =>
    rcases m.promote_eq d with heq | ⟨hkept, -⟩
    · rw [heq, hd]
    · apply hm _ hkept

/-- What a memory promotes a mismatch to after some events is what a fresh memory promotes it to, or it was
kept before and got at least as far. -/
theorem promote_follow {m : Memory} (h : m.lookAheads = 0) (j : Journal) {d : Diagnostic}
    (hd : d.isMismatch = true) :
  (m.follow j).promote d = (fresh.follow j).promote d
  ∨ m.furthest = some ((m.follow j).promote d)
    ∧ ((fresh.follow j).promote d).reach ≤ ((m.follow j).promote d).reach
  := by
  have hfresh := furthest_follow_fresh j
  have hused := furthest_follow h j
  have hsame (heq : (m.follow j).furthest = (fresh.follow j).furthest) :
      (m.follow j).promote d = (fresh.follow j).promote d := by
    rw [promote, promote, heq]
  cases hm : m.furthest with
  | none =>
    left
    apply hsame
    rw [hused, hm, hfresh]
  | some kept =>
    rw [hm] at hused
    rcases Diagnostic.furthestOf_some kept j.discarded with heq | ⟨hkept, hle⟩
    · left
      apply hsame
      rw [hused, heq, hfresh]
    · have hpromoted : (fresh.follow j).promote d = d ∨
          d.reach < ((fresh.follow j).promote d).reach ∧
            ((fresh.follow j).promote d).reach ≤ kept.reach := by
        rcases (fresh.follow j).promote_eq d with heq | ⟨hsome, hlt⟩
        · apply Or.inl heq
        · rw [hfresh] at hsome
          apply Or.inr ⟨hlt, hle _ ((Diagnostic.mem_of_furthestOf hsome).resolve_left (by simp))⟩
      by_cases hfurther : kept.isFurther d
      · right
        have hlt := Diagnostic.isFurther_iff.mp hfurther
        have heq : (m.follow j).promote d = kept := by
          simp [promote, hused, hkept, hd, hfurther]
        rw [heq]
        use rfl
        rcases hpromoted with hpromoted | ⟨-, hpromoted⟩
        · rw [hpromoted]
          omega
        · apply hpromoted
      · left
        have hnot := mt Diagnostic.isFurther_iff.mpr hfurther
        have heq : (m.follow j).promote d = d := by
          simp [promote, hused, hkept, hfurther]
        rw [heq]
        rcases hpromoted with hpromoted | ⟨hlt, hpromoted⟩
        · apply hpromoted.symm
        · omega

/-- What was kept before some events makes no difference to a diagnostic that got further. -/
theorem promote_follow_of_lt {m : Memory} (h : m.lookAheads = 0) (j : Journal) {d : Diagnostic}
    (hlt : d.isMismatch = true → ∀ kept ∈ m.furthest, kept.reach < d.reach) :
  (m.follow j).promote d = (fresh.follow j).promote d
  := by
  cases hd : d.isMismatch with
  | false => rw [promote_of_not_isMismatch hd, promote_of_not_isMismatch hd]
  | true =>
    apply (promote_follow h j hd).resolve_right
    rintro ⟨hkept, hle⟩
    have hnew := hlt hd _ hkept
    rcases (fresh.follow j).promote_eq d with heq | ⟨-, hfurther⟩
    · rw [heq] at hle
      omega
    · omega

end Memory

/-! ## Calls -/

/-- What can be asked of a session. -/
inductive Call where
  /-- To evaluate a production at the token of an index. -/
  | evaluate (p : Production) (start : Nat)
  /-- To choose between the alternatives of some nonterminals at the token of an index. -/
  | tryRules (rules : List Nonterminal) (start : Nat)

namespace Session

/-- What does not end in a mismatch is told as it is. -/
theorem outcome_conclude_eq_self {α : Type} {s : Session} {attempt : Attempt α}
    (h : ∀ reason, attempt.outcome = .error reason → reason.isMismatch = false) :
  (s.conclude attempt).1.outcome = attempt.outcome
  := by
  cases hout : attempt.outcome with
  | ok value => simp [conclude, hout, Except.mapError]
  | error reason => simp [conclude, hout, Except.mapError, Memory.promote_of_not_isMismatch (h reason hout)]

/-- What a session tells that did not arise among tokens is what the attempt failed for. -/
theorem outcome_eq_error_of_conclude {α : Type} {s : Session} {attempt : Attempt α} {d : Diagnostic}
    (h : (s.conclude attempt).1.outcome = .error d) (hd : d.cause.index? = none) :
  attempt.outcome = .error d
  := by
  cases hout : attempt.outcome with
  | ok value => simp [conclude, hout, Except.mapError] at h
  | error reason =>
    simp only [conclude, hout, Except.mapError, Except.error.injEq] at h
    rw [← h] at hd ⊢
    rw [Memory.promote_eq_of_index?_eq_none hd]

/-- What a session answers to an attempt and keeps of it depends on nothing but the memory, the outcome and the
events. -/
theorem conclude_congr {α : Type} {s t : Session} (hmemory : t.memory = s.memory) {attempt other : Attempt α}
    (houtcome : other.outcome = attempt.outcome) (hevents : other.journal.events = attempt.journal.events) :
  (t.conclude other).1.outcome = (s.conclude attempt).1.outcome
    ∧ (t.conclude other).1.journal.events = (s.conclude attempt).1.journal.events
    ∧ (t.conclude other).2.memory = (s.conclude attempt).2.memory
  := by
  have hfollow : t.memory.follow other.journal = s.memory.follow attempt.journal := by
    rw [Memory.follow, Memory.follow, hmemory, hevents]
  simp only [conclude, houtcome, hevents, hfollow, and_self]

/-- What happens when a session is called, and the session after it. -/
def call (s : Session) : Call → Journal × Session
  | .evaluate p start => ((s.evaluate p start).1.journal, (s.evaluate p start).2)
  | .tryRules rules start => ((s.tryRules rules start).1.journal, (s.tryRules rules start).2)

/-- What happens when a session is called several times, and the session after that. -/
def calls (s : Session) : List Call → List Journal × Session
  | [] => ([], s)
  | first :: others =>
    let (journal, after) := s.call first
    let (journals, last) := after.calls others
    (journal :: journals, last)

theorem call_stands (s : Session) (call : Call) :
  ∃ failure, (s.call call).1.Stands failure
  := by
  have hinner := conduct_stands.evaluate (s := s.setting) (s.limit + 1) 0
  cases call with
  | evaluate p start => exact ⟨_, hinner p (s.cursor start)⟩
  | tryRules rules start => exact ⟨_, conduct_stands.tryRules hinner rules (s.cursor start)⟩

/-- A call changes nothing but the memory, which follows what happens. -/
theorem call_eq (s : Session) (call : Call) :
  (s.call call).2 = { s with memory := s.memory.follow (s.call call).1 }
  := by
  cases call <;> rfl

/-- After calls, a session is as it was but for its memory, which remembers them. -/
theorem calls_remembers {s : Session} {before : List Journal} (h : s.memory.Remembers before)
    (calls : List Call) :
  ∃ memory : Memory, (s.calls calls).2 = { s with memory := memory }
    ∧ memory.Remembers (before ++ (s.calls calls).1)
  := by
  induction calls generalizing s before with
  | nil =>
    use s.memory, rfl
    simpa [Session.calls] using h
  | cons first others ih =>
    obtain ⟨failure, hfirst⟩ := s.call_stands first
    have hafter : (s.call first).2.memory.Remembers (before ++ [(s.call first).1]) := by
      rw [call_eq]
      apply h.follow hfirst
    obtain ⟨memory, hlast, hmemory⟩ := ih hafter
    use memory
    constructor
    · change ((s.call first).2.calls others).2 = _
      rw [hlast, call_eq]
    · simpa [Session.calls] using hmemory

end Session

/-! ## What a session answers again -/

/-- A session that was called before answers as a fresh one does.  Only instead of a mismatch it may tell
one that was raised in an earlier call, outside of any look-ahead, at the same token or later. -/
structure Repeats {α : Type} (earlier : List Journal) (fresh used : Except Diagnostic α) : Prop where
  /-- The same values are found. -/
  ok_iff : ∀ value, used = .ok value ↔ fresh = .ok value
  /-- What is no mismatch is told just the same. -/
  error_iff : ∀ reason, reason.isMismatch = false → (used = .error reason ↔ fresh = .error reason)
  /-- A mismatch that is told is the same or an earlier one that got at least as far. -/
  mismatch : ∀ d, used = .error d → d.isMismatch = true →
    ∃ e, fresh = .error e ∧ e.isMismatch = true ∧
      (d = e ∨ (∃ j ∈ earlier, d ∈ j.raised) ∧
        ∃ i k, e.cause.index? = some i ∧ d.cause.index? = some k ∧ i ≤ k)

theorem Diagnostic.index_le_of_reach_le {d e : Diagnostic} (hd : d.isMismatch = true)
    (he : e.isMismatch = true) (h : e.reach ≤ d.reach) :
  ∃ i k, e.cause.index? = some i ∧ d.cause.index? = some k ∧ i ≤ k
  := by
  obtain ⟨i, hi⟩ := index?_of_isMismatch he
  obtain ⟨k, hk⟩ := index?_of_isMismatch hd
  use i, k, hi, hk
  simpa [reach, hi, hk] using h

namespace Session

/-- What a session answers to an attempt, whether it was called before or not. -/
theorem repeats_of_conclude {α : Type} {fresh used : Session} {earlier : List Journal}
    (hfresh : fresh.memory = .fresh) (hused : used.memory.Remembers earlier) {attempt : Attempt α}
    (h : attempt.IsConducted Journal.Stands) :
  Repeats earlier (fresh.conclude attempt).1.outcome (used.conclude attempt).1.outcome
  := by
  cases hout : attempt.outcome with
  | ok value => constructor <;> simp [conclude, hout, Except.mapError]
  | error thrown =>
    have hanswer (s : Session) : (s.conclude attempt).1.outcome
        = .error ((s.memory.follow attempt.journal).promote thrown) := by
      simp [conclude, hout, Except.mapError]
    rw [hanswer, hanswer, hfresh]
    cases hthrown : thrown.isMismatch with
    | false =>
      rw [Memory.promote_of_not_isMismatch hthrown, Memory.promote_of_not_isMismatch hthrown]
      constructor
      · simp
      · simp
      · rintro _ ⟨⟩ hmismatch
        simp [hthrown] at hmismatch
    | true =>
      have hmismatch {m : Memory} {journals : List Journal} (hm : m.Remembers journals) :
          (m.promote thrown).isMismatch = true := by
        rw [Memory.isMismatch_promote hm.isMismatch, hthrown]
      have hstands := h.of_error hout
      have hfirst := hmismatch (Memory.remembers_fresh.follow hstands)
      have hagain := hmismatch (hused.follow hstands)
      constructor
      · simp
      · intro reason hreason
        constructor
        · rintro ⟨⟩
          simp [hagain] at hreason
        · rintro ⟨⟩
          simp [hfirst] at hreason
      · rintro _ ⟨⟩ -
        refine ⟨_, rfl, hfirst, ?_⟩
        rcases Memory.promote_follow hused.lookAheads_eq attempt.journal hthrown with heq | ⟨hkept, hle⟩
        · apply Or.inl heq
        · apply Or.inr ⟨hused.raised _ hkept, Diagnostic.index_le_of_reach_le hagain hfirst hle⟩

/-- A session keeps nothing of its calls that has a bearing on what it finds, for any grammar, tokens and
limit and whatever was asked before, how ever that ended: no look-ahead is left open, and what is asked next
is answered as by a fresh session but for the choice of the mismatch that is told. -/
theorem repeats_of_calls (g : Grammar) (tokens : List Token) (limit : Nat) (earlier : List Call) :
  let fresh := Session.start g tokens limit
  let journals := (fresh.calls earlier).1
  let used := (fresh.calls earlier).2
  used.memory.lookAheads = 0
  ∧ (∀ p start, Repeats journals (fresh.evaluate p start).1.outcome (used.evaluate p start).1.outcome)
  ∧ ∀ rules start,
    Repeats journals (fresh.tryRules rules start).1.outcome (used.tryRules rules start).1.outcome
  := by
  intro fresh journals used
  obtain ⟨memory, heq, hmemory⟩ := calls_remembers (s := fresh) Memory.remembers_fresh earlier
  have hused : used.memory.Remembers journals := by
    rw [show used = _ from heq]
    simpa using hmemory
  have hinner := conduct_stands.evaluate (s := fresh.setting) (fresh.limit + 1) 0
  refine ⟨hused.lookAheads_eq, fun p start => ?_, fun rules start => ?_⟩
  · have hevaluate : used.evaluate p start
        = used.conclude (evaluateTop fresh.setting p (fresh.cursor start)) := by
      rw [show used = _ from heq]
      rfl
    rw [hevaluate]
    apply repeats_of_conclude rfl hused (hinner p _)
  · have htry : used.tryRules rules start
        = used.conclude (tryRulesTop fresh.setting rules (fresh.cursor start)) := by
      rw [show used = _ from heq]
      rfl
    rw [htry]
    apply repeats_of_conclude rfl hused (conduct_stands.tryRules hinner rules _)

end Session

/-- An identifier at the end of a line. -/
def identifierLine : Production := ⟨.statement, .token .identifier, [.skip .endOfLine]⟩

/-- A session that has seen how an assignment lacks its value tells that again. -/
example :
  let fresh := Session.start smallGrammar withoutValue 10
  let used := (fresh.calls [.tryRules [.assignment, .primary] 0]).2
  let early : Diagnostic := ⟨.tooFew ⟨.statement, "`EndOfLine`", 1, "`Assign`"⟩, .null⟩
  let late : Diagnostic := ⟨.tooFew ⟨.assignment, "`Number`", 2, "`CloseParen`"⟩, .null⟩
  (fresh.evaluate identifierLine 0).1.outcome = .error early
    ∧ (used.evaluate identifierLine 0).1.outcome = .error late
  := by
  decide +kernel

end LayoutGrammar
