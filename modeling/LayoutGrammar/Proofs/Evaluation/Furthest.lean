import LayoutGrammar.Proofs.Evaluation.Conduct
import Mathlib.Data.List.Find

/-!
# The furthest mismatch

When an evaluation ends in a mismatch, the diagnostic that a fresh session tells for it is the furthest of
all mismatches that were raised outside of any look-ahead (`Attempt.Tells`).  What carries this is
`Attempt.Records`: the mismatches that an attempt discarded, with the one that it failed for, are as far
as those that were raised in it.  Evaluations are conducted so (`conduct_stands`).
-/

namespace LayoutGrammar

namespace Attempt

variable {α : Type}

/-- The attempts whose discarded mismatches, with the one that the attempt failed for, stand for all that
were raised in it when it comes to the furthest. -/
structure Records (attempt : Attempt α) : Prop where
  /-- Look-aheads that start also end. -/
  balanced : attempt.journal.Balanced
  /-- What is raised is a mismatch. -/
  isMismatch : ∀ d ∈ attempt.journal.raised, d.isMismatch = true
  /-- An attempt that finds something has discarded a mismatch as far as any that was raised. -/
  found : ∀ value, attempt.outcome = .ok value → ∀ kept,
    Diagnostic.furthestOf kept attempt.journal.discarded
      = Diagnostic.furthestOf kept attempt.journal.raised
  /-- A mismatch that an attempt fails for was raised in it, and is the last one. -/
  failed : ∀ d, attempt.outcome = .error d → d.isMismatch = true →
    d ∈ attempt.journal.raised ∧ ∀ kept,
      Diagnostic.furthestOf kept (attempt.journal.discarded ++ [d])
        = Diagnostic.furthestOf kept attempt.journal.raised

end Attempt

/-- The journals whose discarded mismatches, with the one that an attempt failed for, stand for all that
were raised in them when it comes to the furthest. -/
structure Journal.Stands (j : Journal) (failure : Option Diagnostic) : Prop where
  /-- Look-aheads that start also end. -/
  balanced : j.Balanced
  /-- What is raised is a mismatch. -/
  isMismatch : ∀ d ∈ j.raised, d.isMismatch = true
  /-- What is discarded was raised. -/
  raised_of_discarded : ∀ d ∈ j.discarded, d ∈ j.raised
  /-- A mismatch that an attempt fails for was raised in it. -/
  raised_of_failure : ∀ d ∈ failure, d.isMismatch = true → d ∈ j.raised
  /-- As long as an attempt fails for no other reason, nothing that was raised is further. -/
  furthest : (∀ d ∈ failure, d.isMismatch = true) → ∀ kept,
    Diagnostic.furthestOf kept (j.discarded ++ failure.toList) = Diagnostic.furthestOf kept j.raised

/-- Between raising a mismatch and discarding it nothing else happens. -/
theorem conduct_stands :
  Conduct Journal.Stands
  where
  balanced h := h.balanced
  quiet := by constructor <;> simp [Journal.Balanced.empty]
  refuse hreason := by constructor <;> simp [Journal.Balanced.empty, hreason]
  raise {mismatch} h := by
    have hbalanced : (Journal.event (.raised mismatch)).Balanced := .event rfl
    have hraised : (Journal.event (.raised mismatch)).raised = [mismatch] := Journal.raised_event rfl
    have hdiscarded : (Journal.event (.raised mismatch)).discarded = [] := Journal.discarded_event rfl
    constructor <;> simp [hbalanced, hraised, hdiscarded, h]
  note {e} plain hraised hdiscarded := by
    constructor <;>
      simp [Journal.Balanced.event plain, Journal.raised_event plain, Journal.discarded_event plain, hraised,
        hdiscarded]
  append {first second failure} hfirst hsecond := by
    have hraised := hfirst.balanced.raised_append second
    have hdiscarded := hfirst.balanced.discarded_append second
    constructor
    · apply hfirst.balanced.append hsecond.balanced
    · rw [hraised]
      apply List.forall_mem_append.mpr ⟨hfirst.isMismatch, hsecond.isMismatch⟩
    · rw [hraised, hdiscarded]
      intro d hd
      rw [List.mem_append] at *
      apply hd.imp (hfirst.raised_of_discarded d) (hsecond.raised_of_discarded d)
    · intro d hd hmismatch
      rw [hraised]
      apply List.mem_append_right _ (hsecond.raised_of_failure d hd hmismatch)
    · intro hmismatch kept
      have hbefore := hfirst.furthest (by simp) kept
      rw [Option.toList_none, List.append_nil] at hbefore
      rw [hraised, hdiscarded, List.append_assoc, Diagnostic.furthestOf_append, hbefore,
        hsecond.furthest hmismatch, Diagnostic.furthestOf_append]
  discard {j reason} h hreason := by
    have hraised : (j ++ .event (.discarded reason)).raised = j.raised := by
      rw [h.balanced.raised_append, Journal.raised_event rfl]
      simp [Event.raised?]
    have hdiscarded : (j ++ .event (.discarded reason)).discarded = j.discarded ++ [reason] := by
      rw [h.balanced.discarded_append, Journal.discarded_event rfl]
      simp [Event.discarded?]
    constructor
    · apply h.balanced.append (.event rfl)
    · rw [hraised]
      apply h.isMismatch
    · rw [hraised, hdiscarded, List.forall_mem_append, List.forall_mem_singleton]
      use h.raised_of_discarded, h.raised_of_failure reason rfl hreason
    · simp
    · intro _ kept
      rw [hraised, hdiscarded, ← h.furthest (by simpa using hreason)]
      simp
  giveUp {j reason} h hreason := by
    have hraised := h.raised_of_discarded reason hreason
    constructor
    · apply h.balanced
    · apply h.isMismatch
    · apply h.raised_of_discarded
    · rintro _ ⟨⟩ -
      apply hraised
    · intro _ kept
      have hfurthest := h.furthest (by simp) kept
      rw [Option.toList_none, List.append_nil] at hfurthest
      rw [Option.toList_some, Diagnostic.furthestOf_concat_of_mem kept hreason, hfurthest]
  ahead h := by
    constructor <;>
      simp [Journal.Balanced.lookAhead h.balanced, h.balanced.raised_lookAhead, h.balanced.discarded_lookAhead]

theorem Attempt.IsConducted.records {α : Type} {attempt : Attempt α}
    (h : attempt.IsConducted Journal.Stands) :
  attempt.Records
  where
  balanced := Journal.Stands.balanced h
  isMismatch := Journal.Stands.isMismatch h
  found value hout kept := by simpa using (h.of_ok hout).furthest (by simp) kept
  failed d hout hd := by
    have hfails := h.of_error hout
    use hfails.raised_of_failure d rfl hd
    simpa using hfails.furthest (by simpa using hd)

section Evaluation

variable (s : Setting)

theorem evaluate_records (room depth : Nat) (p : Production) (c : Cursor) :
  (evaluate s room depth p c).Records
  := (conduct_stands.evaluate room depth p c).records

theorem tryRulesTop_records (rules : List Nonterminal) (c : Cursor) :
  (tryRulesTop s rules c).Records
  := (conduct_stands.tryRules (conduct_stands.evaluate _ 0) rules c).records

end Evaluation

/-! ## What is told -/

/-- A diagnostic that is told for an attempt that failed: of the mismatches that were raised outside of any
look-ahead it is the furthest; if the one that the attempt failed for got as far, it is that one, otherwise
it is the first that got as far. -/
structure Attempt.Tells {α : Type} (attempt : Attempt α) (d : Diagnostic) : Prop where
  /-- What is told was raised outside of any look-ahead. -/
  raised : d ∈ attempt.journal.raised
  /-- It arose at a token, and all that were raised outside of any look-ahead arose there or before. -/
  furthest : ∃ index, d.cause.index? = some index ∧
    ∀ e ∈ attempt.journal.raised, ∃ i ≤ index, e.cause.index? = some i
  /-- The mismatch that the attempt failed for is preferred, after it the first. -/
  preferred : ∃ thrown, attempt.outcome = .error thrown ∧
    if thrown.cause.index? = d.cause.index? then
      d = thrown
    else
      attempt.journal.raised.find? (fun e => e.cause.index? = d.cause.index?) = some d

/-- What is told for an attempt got as far as anything that was raised in it. -/
theorem Attempt.Tells.reach_eq {α : Type} {attempt : Attempt α} {d : Diagnostic}
    (h : attempt.Tells d) :
  d.reach = attempt.journal.reach
  := by
  obtain ⟨index, hindex, hle⟩ := h.furthest
  apply Nat.le_antisymm
  · apply Journal.reach_le_iff.mp (le_refl _) d h.raised
  · apply Journal.reach_le_iff.mpr
    intro e he
    obtain ⟨i, hi, hother⟩ := hle e he
    simp only [Diagnostic.reach, hindex, hother]
    omega

namespace Diagnostic

theorem index?_of_isMismatch {d : Diagnostic} (h : d.isMismatch = true) :
  ∃ index, d.cause.index? = some index
  := by
  obtain ⟨cause, position⟩ := d
  cases cause <;> simp_all [isMismatch, Cause.isMismatch, Cause.index?]

/-- Mismatches got equally far when they arose at the same token. -/
theorem reach_eq_iff {d e : Diagnostic} (hd : d.isMismatch = true) (he : e.isMismatch = true) :
  d.reach = e.reach ↔ d.cause.index? = e.cause.index?
  := by
  obtain ⟨i, hi⟩ := index?_of_isMismatch hd
  obtain ⟨j, hj⟩ := index?_of_isMismatch he
  simp [reach, hi, hj]

end Diagnostic

/-- A mismatch that no raised one is further than arose at the greatest index. -/
theorem Attempt.Records.exists_index {α : Type} {attempt : Attempt α} (h : attempt.Records)
    {d : Diagnostic} (hd : d ∈ attempt.journal.raised)
    (hle : ∀ e ∈ attempt.journal.raised, e.reach ≤ d.reach) :
  ∃ index, d.cause.index? = some index ∧
    ∀ e ∈ attempt.journal.raised, ∃ i ≤ index, e.cause.index? = some i
  := by
  obtain ⟨index, hindex⟩ := Diagnostic.index?_of_isMismatch (h.isMismatch d hd)
  use index, hindex
  intro e he
  obtain ⟨i, hi⟩ := Diagnostic.index?_of_isMismatch (h.isMismatch e he)
  have hreach := hle e he
  simp only [Diagnostic.reach, hindex, hi] at hreach
  use i, by omega

/-- The mismatch that an attempt failed for is told when no raised one is further. -/
theorem Attempt.Records.tells_thrown {α : Type} {attempt : Attempt α} (h : attempt.Records)
    {thrown : Diagnostic} (hout : attempt.outcome = .error thrown) (hthrown : thrown.isMismatch = true)
    (hle : ∀ e ∈ attempt.journal.raised, e.reach ≤ thrown.reach) :
  attempt.Tells thrown
  where
  raised := (h.failed thrown hout hthrown).1
  furthest := h.exists_index (h.failed thrown hout hthrown).1 hle
  preferred := ⟨thrown, hout, by simp⟩

/-- Another mismatch is told when it is the first that is as far as any, and the one that the attempt failed
for is not. -/
theorem Attempt.Records.tells_first {α : Type} {attempt : Attempt α} (h : attempt.Records)
    {thrown d : Diagnostic} (hout : attempt.outcome = .error thrown) (hthrown : thrown.isMismatch = true)
    (hlt : thrown.reach < d.reach)
    (hfirst : attempt.journal.raised.find? (fun e => e.reach = d.reach) = some d)
    (hle : ∀ e ∈ attempt.journal.raised, e.reach ≤ d.reach) :
  attempt.Tells d
  := by
  have hd := List.mem_of_find?_eq_some hfirst
  have hmismatch := h.isMismatch d hd
  refine ⟨hd, h.exists_index hd hle, thrown, hout, ?_⟩
  rw [if_neg (by rw [← Diagnostic.reach_eq_iff hthrown hmismatch]; omega), ← hfirst]
  apply List.find?_congr
  intro e he
  rw [decide_eq_decide]
  symm
  apply Diagnostic.reach_eq_iff (h.isMismatch e he) hmismatch

/-- What is no mismatch is told as it is. -/
theorem Memory.promote_of_not_isMismatch {d : Diagnostic} (h : d.isMismatch = false) (m : Memory) :
  m.promote d = d
  := by
  unfold promote
  split <;> simp [h]

/-- What a memory that was fresh before an attempt promotes a mismatch to is what is told for the attempt. -/
theorem Attempt.Records.tells {α : Type} {attempt : Attempt α} (h : attempt.Records) {thrown : Diagnostic}
    (hout : attempt.outcome = .error thrown) (hthrown : thrown.isMismatch = true) :
  attempt.Tells ((Memory.fresh.follow attempt.journal).promote thrown)
  := by
  have hfold := (h.failed thrown hout hthrown).2 none
  rw [Diagnostic.furthestOf_append, ← Memory.furthest_follow_fresh] at hfold
  unfold Memory.promote
  cases hkept : (Memory.fresh.follow attempt.journal).furthest with
  | none =>
    rw [hkept] at hfold
    apply h.tells_thrown hout hthrown (Diagnostic.reach_le_of_furthestOf hfold.symm).2
  | some kept =>
    rw [hkept] at hfold
    have hle := (Diagnostic.reach_le_of_furthestOf hfold.symm).2
    by_cases hfurther : kept.isFurther thrown
    · have hlt := Diagnostic.isFurther_iff.mp hfurther
      have hnot : thrown.isFurther kept = false := by
        rw [← Bool.not_eq_true, Diagnostic.isFurther_iff]
        omega
      have hkeep : thrown.keepFurther (some kept) = kept := by
        simp [Diagnostic.keepFurther, hnot]
      rw [hkeep] at hle
      rw [Diagnostic.furthestOf_cons, hkeep] at hfold
      have hfirst := (Diagnostic.find?_of_furthestOf hfold.symm).resolve_left (by simp)
      simp only [hthrown, hfurther, Bool.and_self, if_true]
      apply h.tells_first hout hthrown hlt hfirst.2 hle
    · have hnot := mt Diagnostic.isFurther_iff.mpr hfurther
      simp only [hthrown, hfurther, Bool.and_false, Bool.false_eq_true, if_false]
      apply h.tells_thrown hout hthrown
      intro e he
      have hkeep := hle e he
      rw [Diagnostic.keepFurther] at hkeep
      split at hkeep <;> omega

/-- What a session that has seen nothing yet answers to an attempt that failed for a mismatch. -/
theorem Session.tells_of_conclude {α : Type} {s : Session} (hs : s.memory = .fresh)
    {attempt : Attempt α} (h : attempt.Records) {d : Diagnostic}
    (hout : (s.conclude attempt).1.outcome = .error d) (hd : d.isMismatch = true) :
  attempt.Tells d
  := by
  simp only [conclude, hs] at hout
  cases hthrown : attempt.outcome with
  | ok value => simp [hthrown, Except.mapError] at hout
  | error thrown =>
    rw [hthrown] at hout
    obtain rfl := Except.error.inj hout
    apply h.tells hthrown
    by_contra hnot
    apply hnot
    rw [Bool.not_eq_true] at hnot
    unfold Memory.promote at hd
    split at hd <;> simp_all

/-- A mismatch that a fresh session answers with, for any grammar, tokens and limit, when it evaluates a
production or a choice at any place, is the furthest that was raised outside of any look-ahead. -/
theorem tells_of_outcome_eq_mismatch (g : Grammar) (tokens : List Token) (limit start : Nat)
    (d : Diagnostic) (hd : d.isMismatch = true) :
  (∀ p, ((Session.start g tokens limit).evaluate p start).1.outcome = .error d →
    (evaluateTop (Session.start g tokens limit).setting p (.ofIndex tokens start)).Tells d)
  ∧ ∀ rules, ((Session.start g tokens limit).tryRules rules start).1.outcome = .error d →
    (tryRulesTop (Session.start g tokens limit).setting rules (.ofIndex tokens start)).Tells d
  := by
  have hinner := evaluate_records (Session.start g tokens limit).setting (limit + 1) 0
  constructor
  · intro p hout
    apply Session.tells_of_conclude rfl (hinner p _) hout hd
  · intro rules hout
    apply Session.tells_of_conclude rfl (tryRulesTop_records _ rules _) hout hd

/-- A grammar where an assignment that fails may still be taken for a primary. -/
def smallGrammar : Grammar := ⟨[
  ⟨.statement, .oneOf (.of .assignment [.primary]), [.skip .endOfLine]⟩,
  ⟨.assignment, .token .identifier, [.skip .assign, .token .number]⟩,
  ⟨.primary, .token .identifier, []⟩]⟩

/-- An assignment without a value. -/
def withoutValue : List Token :=
  [.unplaced .identifier "x", .unplaced .assign "", .unplaced .closeParen ""]

/-- The mismatch of the value is told, not that of the end of the line after the primary. -/
theorem tells_withoutValue :
  let session := Session.start smallGrammar withoutValue 10
  let p : Production := ⟨.statement, .oneOf (.of .assignment [.primary]), [.skip .endOfLine]⟩
  let d : Diagnostic := ⟨.tooFew ⟨.assignment, "`Number`", 2, "`CloseParen`"⟩, .null⟩
  (evaluateTop session.setting p (.ofIndex withoutValue 0)).Tells d
    ∧ (tryRulesTop session.setting [.statement] (.ofIndex withoutValue 0)).Tells d
    ∧ (evaluateTop session.setting p (.ofIndex withoutValue 0)).outcome ≠ .error d
  := by
  intro session p d
  obtain ⟨hevaluate, hchoice⟩ := tells_of_outcome_eq_mismatch smallGrammar withoutValue 10 0 d rfl
  refine ⟨hevaluate p ?_, hchoice [.statement] ?_, ?_⟩ <;> decide +kernel

end LayoutGrammar
