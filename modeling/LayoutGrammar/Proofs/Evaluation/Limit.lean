import LayoutGrammar.Program.Grammar
import LayoutGrammar.Proofs.Evaluation.Nesting
import LayoutGrammar.Proofs.Evaluation.Reuse
import Mathlib.Order.UpperLower.Basic

/-!
# Limit

How the limit on nested evaluations bears on what is read.  The evaluations of a production under two limits
run alike until the lower one is reached (`Attempt.Relaxes`).  An attempt fails when it reaches its limit,
unless that happens in a look-ahead, which takes the failure for an answer: then a higher limit can turn a
match into a mismatch (`not_outcome_eq_ok_of_le`).  Where no look-ahead goes beyond the lower limit, what is
read under it is what is read under the higher one (`outcome_eq_ok_of_le`).  Where nothing is looked ahead
for, all limits that are not reached give the same answer (`answer_eq_of_not_isTooDeep`).
-/

namespace LayoutGrammar

/-! ## Events in look-aheads -/

namespace Event

/-- The events among some that happen in look-aheads, with a number of look-aheads open before them. -/
def inside : (opened : Nat) → List Event → List Event
  | _, [] => []
  | opened, lookAheadOpened :: events => inside (opened + 1) events
  | opened, lookAheadClosed :: events => inside (opened - 1) events
  | 0, _ :: events => inside 0 events
  | opened + 1, e :: events => e :: inside (opened + 1) events

/-- Whether an event is the start of an evaluation nested deeper than a limit. -/
def isBeyond (limit : Nat) : Event → Bool
  | entered _ _ depth => decide (limit < depth)
  | _ => false

theorem inside_cons_of_isPlain {e : Event} (h : e.isPlain) (opened : Nat) (events : List Event) :
  inside opened (e :: events) = (if opened = 0 then [] else [e]) ++ inside opened events
  := by
  cases opened <;> cases e <;> simp_all [isPlain, inside]

/-- Events that come later do not change which of the events before are in look-aheads. -/
theorem prefix_inside_append (opened : Nat) (events others : List Event) :
  inside opened events <+: inside opened (events ++ others)
  := by
  induction events generalizing opened with
  | nil => apply List.nil_prefix
  | cons e events ih => cases opened <;> cases e <;> simp [inside, ih]

theorem inside_sublist (opened : Nat) (events : List Event) :
  (inside opened events).Sublist events
  := by
  induction events generalizing opened with
  | nil => apply List.Sublist.refl
  | cons e events ih =>
    cases opened <;> cases e <;>
      first | apply (ih _).cons_cons | apply (ih _).cons

theorem inside_of_isPlain {events : List Event} (h : ∀ e ∈ events, e.isPlain = true) :
  inside 0 events = []
  := by
  induction events with
  | nil => rfl
  | cons e events ih =>
    obtain ⟨he, hevents⟩ := List.forall_mem_cons.mp h
    simp [inside_cons_of_isPlain he, ih hevents]

end Event

namespace Journal

/-- Whether evaluations are nested deeper than a limit. -/
def goesBeyond (limit : Nat) (j : Journal) : Bool := j.events.any (Event.isBeyond limit)

/-- Whether evaluations are nested deeper than a limit in a look-ahead. -/
def looksBeyond (limit : Nat) (j : Journal) : Bool := (Event.inside 0 j.events).any (Event.isBeyond limit)

variable {limit : Nat}

/-- The events of a balanced journal that are in look-aheads, when none is open before, and when some are. -/
theorem Balanced.inside_events {j : Journal} (h : j.Balanced) (opened : Nat) (others : List Event) :
  Event.inside opened (j.events ++ others)
    = (if opened = 0 then Event.inside 0 j.events else j.events.filter Event.isPlain)
      ++ Event.inside opened others
  := by
  induction h generalizing opened others with
  | empty => simp [Event.inside]
  | event plain => simp [Event.inside_cons_of_isPlain plain, Event.inside, plain]
  | append _ _ ih₁ ih₂ =>
    rw [events_append, List.append_assoc, ih₁, ih₂, ih₁ 0]
    split <;> simp_all
  | lookAhead _ ih =>
    simp only [events_append, events_event, List.append_assoc, List.cons_append, List.nil_append,
      Event.inside]
    rw [ih, ih]
    simp [Event.inside, Event.isPlain]

theorem goesBeyond_append (first second : Journal) :
  (first ++ second).goesBeyond limit = (first.goesBeyond limit || second.goesBeyond limit)
  := by
  simp [goesBeyond]

theorem goesBeyond_of_initial {first whole : Journal} (h : first.goesBeyond limit = true)
    (hle : first.events <+: whole.events) :
  whole.goesBeyond limit = true
  := by
  obtain ⟨e, he, hbeyond⟩ := List.any_eq_true.mp h
  apply List.any_eq_true.mpr ⟨e, hle.subset he, hbeyond⟩

theorem looksBeyond_of_initial {first whole : Journal} (h : first.looksBeyond limit = true)
    (hle : first.events <+: whole.events) :
  whole.looksBeyond limit = true
  := by
  obtain ⟨e, he, hbeyond⟩ := List.any_eq_true.mp h
  obtain ⟨others, hothers⟩ := hle
  apply List.any_eq_true.mpr ⟨e, _, hbeyond⟩
  rw [← hothers]
  apply (Event.prefix_inside_append 0 first.events others).subset he

theorem goesBeyond_of_looksBeyond {j : Journal} (h : j.looksBeyond limit = true) :
  j.goesBeyond limit = true
  := by
  obtain ⟨e, he, hbeyond⟩ := List.any_eq_true.mp h
  apply List.any_eq_true.mpr ⟨e, (Event.inside_sublist 0 j.events).subset he, hbeyond⟩

theorem Balanced.looksBeyond_append_right {first second : Journal} (h : first.Balanced)
    (hsecond : second.looksBeyond limit = true) :
  (first ++ second).looksBeyond limit = true
  := by
  rw [looksBeyond, events_append, h.inside_events, List.any_append, Bool.or_eq_true]
  apply Or.inr hsecond

/-- What goes beyond a limit in a look-ahead looks beyond it. -/
theorem Balanced.looksBeyond_lookAhead {found : Journal} (h : found.Balanced)
    (hbeyond : found.goesBeyond limit = true) :
  (Journal.event .lookAheadOpened ++ found ++ Journal.event .lookAheadClosed).looksBeyond limit = true
  := by
  obtain ⟨e, he, hlimit⟩ := List.any_eq_true.mp hbeyond
  have hplain : e.isPlain = true := by cases e <;> simp_all [Event.isBeyond, Event.isPlain]
  apply List.any_eq_true.mpr ⟨e, _, hlimit⟩
  simp only [events_append, events_event, List.cons_append, List.nil_append, Event.inside]
  rw [h.inside_events]
  simp [he, hplain]

end Journal

/-! ## Attempts under two limits -/

/-- That evaluations are nested too deeply is no mismatch. -/
theorem Diagnostic.isMismatch_of_tooDeep {d : Diagnostic} {rule : Nonterminal} {bound : Nat}
    (h : d.cause = .tooDeep rule bound) :
  d.isMismatch = false
  := by
  simp [isMismatch, h, Cause.isMismatch]

namespace Attempt

variable {α β : Type} {limit : Nat}

/-- Whether an attempt fails because evaluations are nested too deeply. -/
def IsTooDeep (attempt : Attempt α) : Prop :=
  ∃ reason, attempt.outcome = .error reason ∧ ∃ rule bound, reason.cause = .tooDeep rule bound

/-- How an attempt under a limit compares with the same attempt under a higher one. -/
inductive Comparison (limit : Nat) (attempt other : Attempt α) : Prop where
  /-- The lower limit is not reached, and both run alike. -/
  | same (eq : other = attempt) (within : attempt.journal.goesBeyond limit = false)
  /-- The lower limit is reached, and the attempt under it fails for that. -/
  | deep (isTooDeep : attempt.IsTooDeep) (beyond : other.journal.goesBeyond limit = true)
  /-- The lower limit is reached in a look-ahead. -/
  | ahead (beyond : other.journal.looksBeyond limit = true)

/-- The attempts that come of the attempts under a limit when it is raised. -/
structure Relaxes (limit : Nat) (attempt other : Attempt α) : Prop where
  /-- Look-aheads that start also end. -/
  balanced : other.journal.Balanced
  /-- The attempts compare. -/
  comparison : Comparison limit attempt other

/-- The comparison of attempts that are not over: a failure of the first is one of the whole. -/
theorem Comparison.extend {first other : Attempt α} {whole all : Attempt β}
    (h : Comparison limit first other)
    (hsame : other = first → first.journal.goesBeyond limit = false → Comparison limit whole all)
    (hfail : ∀ reason, first.outcome = .error reason → reason.isMismatch = false →
      whole.outcome = .error reason)
    (hinitial : other.journal.events <+: all.journal.events) :
  Comparison limit whole all
  := by
  cases h with
  | same eq within => apply hsame eq within
  | deep isTooDeep beyond =>
    obtain ⟨reason, hout, rule, bound, hcause⟩ := isTooDeep
    have hreason := Diagnostic.isMismatch_of_tooDeep hcause
    apply Comparison.deep _ (Journal.goesBeyond_of_initial beyond hinitial)
    use reason, hfail reason hout hreason, rule, bound
  | ahead beyond => apply Comparison.ahead (Journal.looksBeyond_of_initial beyond hinitial)

theorem Relaxes.refl {attempt : Attempt α} (hbalanced : attempt.journal.Balanced)
    (hwithin : attempt.journal.goesBeyond limit = false) :
  attempt.Relaxes limit attempt
  := ⟨hbalanced, .same rfl hwithin⟩

theorem relaxes_pure (value : α) :
  (pure value : Attempt α).Relaxes limit (pure value)
  := .refl .empty rfl

theorem relaxes_raise (mismatch : Diagnostic) :
  (raise mismatch : Attempt α).Relaxes limit (raise mismatch)
  := .refl (.event rfl) rfl

/-- What happened before attempts that compare, within the limit. -/
theorem Relaxes.after {attempt other : Attempt α} (h : attempt.Relaxes limit other) {j : Journal}
    (hj : j.Balanced) (hwithin : j.goesBeyond limit = false) :
  (attempt.after j).Relaxes limit (other.after j)
  := by
  constructor
  · apply hj.append h.balanced
  · cases h.comparison with
    | same eq within =>
      apply Comparison.same
      · rw [eq]
      · simp [Attempt.after, Journal.goesBeyond_append, hwithin, within]
    | deep isTooDeep beyond =>
      refine Comparison.deep isTooDeep ?_
      simp [Attempt.after, Journal.goesBeyond_append, beyond]
    | ahead beyond => apply Comparison.ahead (hj.looksBeyond_append_right beyond)

theorem Relaxes.bind {attempt other : Attempt α} {next further : α → Attempt β}
    (h : attempt.Relaxes limit other) (hnext : ∀ value, (next value).Relaxes limit (further value)) :
  (attempt >>= next).Relaxes limit (other >>= further)
  := by
  have hbalanced : (other >>= further).journal.Balanced
      ∧ other.journal.events <+: (other >>= further).journal.events := by
    cases hout : other.outcome with
    | ok value =>
      rw [bind_of_ok hout]
      use h.balanced.append (hnext value).balanced
      simp [Attempt.after]
    | error reason =>
      rw [bind_of_error hout]
      exact ⟨h.balanced, List.prefix_rfl⟩
  use hbalanced.1
  apply h.comparison.extend _ _ hbalanced.2
  · rintro rfl hwithin
    cases hout : other.outcome with
    | ok value =>
      rw [bind_of_ok hout, bind_of_ok hout]
      apply ((hnext value).after h.balanced hwithin).comparison
    | error reason =>
      rw [bind_of_error hout, bind_of_error hout]
      exact Comparison.same rfl hwithin
  · intro reason hout _
    rw [bind_of_error hout]

end Attempt

/-! ## Evaluations under two limits -/

/-- The journal of an attempt for some productions starts with what the first of them has. -/
theorem tryEach_cons_journal {inner : Evaluator} {p : Production} {others : List Production} {c : Cursor}
    (hp : (inner p c).journal.Balanced)
    (hothers : ∀ failure, (tryEach inner others failure c).journal.Balanced) (failure : Option Diagnostic) :
  (tryEach inner (p :: others) failure c).journal.Balanced
    ∧ (inner p c).journal.events <+: (tryEach inner (p :: others) failure c).journal.events
  := by
  simp only [tryEach]
  split
  · split
    · exact ⟨hp, List.prefix_rfl⟩
    · use hp.append (hothers failure)
      simp [Attempt.after]
  · split
    · use (hp.append (.event rfl)).append (hothers _)
      simp [Attempt.after]
    · exact ⟨hp, List.prefix_rfl⟩

section

variable {s t : Setting} {inner deeper : Evaluator} {limit : Nat} (hgrammar : t.grammar = s.grammar)
  (hinner : ∀ p c, (inner p c).Relaxes limit (deeper p c))
include hinner

theorem tryEach_relaxes (ps : List Production) (failure : Option Diagnostic) (c : Cursor) :
  (tryEach inner ps failure c).Relaxes limit (tryEach deeper ps failure c)
  := by
  induction ps generalizing failure with
  | nil => cases failure <;> apply Attempt.Relaxes.refl .empty rfl
  | cons p others ih =>
    have hp := hinner p c
    obtain ⟨hbalanced, hinitial⟩ :=
      tryEach_cons_journal hp.balanced (fun failure => (ih failure).balanced) failure
    use hbalanced
    apply hp.comparison.extend _ _ hinitial
    · intro heq hwithin
      have hfirst := hp.balanced
      rw [heq] at hfirst
      simp only [tryEach, heq]
      split
      · split
        · exact .same rfl hwithin
        · apply ((ih failure).after hfirst hwithin).comparison
      · split
        · apply ((ih _).after (hfirst.append (.event rfl)) _).comparison
          rw [Journal.goesBeyond_append, hwithin]
          rfl
        · exact .same rfl hwithin
    · intro reason hout hmismatch
      simp [tryEach, hout, hmismatch]

include hgrammar

theorem tryRules_relaxes (rules : List Nonterminal) (c : Cursor) :
  (tryRules s inner rules c).Relaxes limit (tryRules t deeper rules c)
  := by
  unfold tryRules
  rw [hgrammar]
  split
  · apply tryEach_relaxes hinner
  · exact .refl .empty rfl

theorem matchOnce_relaxes (rule : Nonterminal) (target : Target) (c : Cursor) :
  (matchOnce s inner rule target c).Relaxes limit (matchOnce t deeper rule target c)
  := by
  cases target with
  | tokens kinds excluded =>
    simp only [matchOnce]
    split
    · split <;> apply Attempt.relaxes_pure
    · apply Attempt.relaxes_pure
  | rules heads hoisted =>
    simp only [matchOnce]
    apply (tryRules_relaxes hgrammar hinner heads.members c).bind
    rintro (_ | reading) <;> apply Attempt.relaxes_pure

omit hgrammar hinner in
theorem matchMany_relaxes {once again : Cursor → Attempt (Option Piece)}
    (honce : ∀ c, (once c).Relaxes limit (again c)) (c : Cursor) :
  (matchMany once c).Relaxes limit (matchMany again c)
  := by
  induction hc : c.rest.length using Nat.strong_induction_on generalizing c with
  | _ n ih =>
    rw [matchMany, matchMany]
    apply (honce c).bind
    rintro (_ | piece)
    · apply Attempt.relaxes_pure
    · simp only
      split
      next hlt =>
        apply (ih _ (hc ▸ hlt) piece.cursor rfl).bind
        intro others
        apply Attempt.relaxes_pure
      next => apply Attempt.relaxes_pure

theorem matchItem_relaxes (rule : Nonterminal) (item : Item) (c : Cursor) :
  (matchItem s inner rule item c).Relaxes limit (matchItem t deeper rule item c)
  := by
  unfold matchItem
  split
  · apply matchMany_relaxes
    apply matchOnce_relaxes hgrammar hinner
  · apply (matchOnce_relaxes hgrammar hinner rule item.target c).bind
    rintro (_ | piece) <;> apply Attempt.relaxes_pure

/-- A look-ahead is the one place where the failure for a limit that is reached is lost. -/
theorem lookAhead_relaxes (target : Target) (c : Cursor) :
  (lookAhead s inner target c).Relaxes limit (lookAhead t deeper target c)
  := by
  cases target with
  | tokens kinds excluded =>
    simp only [lookAhead]
    split <;> apply Attempt.relaxes_pure
  | rules heads hoisted =>
    have hfound := tryRules_relaxes hgrammar hinner heads.members c
    have hbeyond (h : (tryRules t deeper heads.members c).journal.goesBeyond limit = true) :
        Attempt.Comparison limit (lookAhead s inner (.rules heads hoisted) c)
          (lookAhead t deeper (.rules heads hoisted) c) :=
      .ahead (hfound.balanced.looksBeyond_lookAhead h)
    constructor
    · apply Journal.Balanced.lookAhead hfound.balanced
    · cases hfound.comparison with
      | same eq within =>
        apply Attempt.Comparison.same
        · simp [lookAhead, eq]
        · simp only [lookAhead, Journal.goesBeyond_append, within]
          rfl
      | deep _ beyond => apply hbeyond beyond
      | ahead beyond => apply hbeyond (Journal.goesBeyond_of_looksBeyond beyond)

variable (hending : t.ending = s.ending)
include hending

theorem matchAll_relaxes (rule : Nonterminal) (items : List Item) (before : Piece) :
  (matchAll s inner rule items before).Relaxes limit (matchAll t deeper rule items before)
  := by
  have hmismatch : mismatchAt t = mismatchAt s := by
    unfold mismatchAt
    rw [hending]
  induction items generalizing before with
  | nil => apply Attempt.relaxes_pure
  | cons item items ih =>
    rw [matchAll, matchAll, hmismatch]
    apply (matchItem_relaxes hgrammar hinner rule item before.cursor).bind
    intro found
    split
    · apply Attempt.relaxes_raise
    · split
      · apply (lookAhead_relaxes hgrammar hinner item.target found.cursor).bind
        rintro (_ | _)
        · apply ih
        · apply Attempt.relaxes_raise
      · apply ih

theorem matchProduction_relaxes {depth : Nat} (hdepth : depth ≤ limit) (p : Production) (c : Cursor) :
  (matchProduction s inner depth p c).Relaxes limit (matchProduction t deeper depth p c)
  := by
  have hnote {e : Event} (hplain : e.isPlain = true) (hwithin : e.isBeyond limit = false) :
      (Attempt.note e).Relaxes limit (Attempt.note e) := by
    apply Attempt.Relaxes.refl (.event hplain)
    simp [Attempt.note, Journal.goesBeyond, hwithin]
  apply (hnote rfl (by simpa [Event.isBeyond] using hdepth)).bind
  intro _
  apply (matchItem_relaxes hgrammar hinner p.rule p.opening c).bind
  intro opening
  split
  · apply Attempt.relaxes_pure
  · apply (matchAll_relaxes hgrammar hinner hending p.rule p.continuations opening.toPiece).bind
    intro whole
    split
    · apply Attempt.relaxes_pure
    · apply (hnote rfl rfl).bind
      intro _
      apply Attempt.relaxes_pure

end

/-- An evaluation deeper than a limit goes beyond it. -/
theorem goesBeyond_matchProduction {s : Setting} {inner : Evaluator} {limit depth : Nat}
    (h : limit < depth) (p : Production) (c : Cursor) :
  (matchProduction s inner depth p c).journal.goesBeyond limit = true
  := by
  have hnote : (Attempt.note (.entered p.rule c.index depth)).outcome = .ok () := rfl
  rw [matchProduction, Attempt.bind_of_ok hnote, Attempt.after, Journal.goesBeyond_append]
  simp [Attempt.note, Journal.goesBeyond, Event.isBeyond, h]

/-- The evaluations under two limits, at a depth from which there is room up to each of them. -/
theorem evaluate_relaxes {s t : Setting} (hgrammar : t.grammar = s.grammar) (hending : t.ending = s.ending)
    (hle : s.limit ≤ t.limit) {room more depth : Nat} (hroom : room + depth = s.limit + 1)
    (hmore : more + depth = t.limit + 1) (p : Production) (c : Cursor) :
  (evaluate s room depth p c).Relaxes s.limit (evaluate t more depth p c)
  := by
  induction room generalizing more depth p c with
  | zero =>
    cases more with
    | zero =>
      have hlimit : t.limit = s.limit := by omega
      rw [evaluate, evaluate, hlimit, hending]
      apply Attempt.Relaxes.refl .empty rfl
    | succ more =>
      constructor
      · apply (evaluate_records _ _ _ _ _).balanced
      · apply Attempt.Comparison.deep
        · use ⟨.tooDeep p.rule s.limit, c.position s.ending⟩, rfl, p.rule, s.limit
        · apply goesBeyond_matchProduction
          omega
  | succ room ih =>
    obtain ⟨more, rfl⟩ : ∃ n, more = n + 1 := ⟨more - 1, by omega⟩
    rw [evaluate, evaluate]
    apply matchProduction_relaxes hgrammar _ hending (by omega)
    intro q d
    apply ih (by omega) (by omega)

/-! ## Sessions under two limits -/

/-- What a session tells for an attempt is that it is nested too deeply just when it is. -/
theorem Session.isTooDeep_conclude_iff {α : Type} {s : Session} {attempt : Attempt α} :
  (s.conclude attempt).1.IsTooDeep ↔ attempt.IsTooDeep
  := by
  constructor
  · rintro ⟨d, hout, rule, bound, hcause⟩
    have hindex : d.cause.index? = none := by
      rw [hcause]
      rfl
    use d, outcome_eq_error_of_conclude hout hindex, rule, bound
  · rintro ⟨d, hout, rule, bound, hcause⟩
    refine ⟨d, ?_, rule, bound, hcause⟩
    rw [outcome_conclude_eq_self, hout]
    intro reason hreason
    obtain rfl := Except.error.inj (hout.symm.trans hreason)
    apply Diagnostic.isMismatch_of_tooDeep hcause

/-- What sessions with the same memory tell for attempts that compare. -/
theorem Attempt.Relaxes.conclude {α : Type} {limit : Nat} {attempt other : Attempt α}
    (h : attempt.Relaxes limit other) {s t : Session} (hmemory : t.memory = s.memory) :
  (s.conclude attempt).1.Relaxes limit (t.conclude other).1
  := by
  use h.balanced
  cases h.comparison with
  | same eq within =>
    apply Comparison.same
    · simp [Session.conclude, eq, hmemory]
    · apply within
  | deep isTooDeep beyond => exact .deep (Session.isTooDeep_conclude_iff.mpr isTooDeep) beyond
  | ahead beyond => exact .ahead beyond

/-- The answer of a fresh session with a limit to the question what a production reads at a token. -/
def Production.answer (p : Production) (g : Grammar) (ts : List Token) (start limit : Nat) :
    Attempt Reading :=
  ((Session.start g ts limit).evaluate p start).1

section

variable (p : Production) (g : Grammar) (ts : List Token) (start : Nat) {limit higher : Nat}

/-- The answers of fresh sessions under two limits compare. -/
theorem Production.answer_relaxes (hle : limit ≤ higher) :
  (p.answer g ts start limit).Relaxes limit (p.answer g ts start higher)
  := by
  let s := Session.start g ts limit
  let t := Session.start g ts higher
  have hrelaxes : (evaluateTop s.setting p (.ofIndex ts start)).Relaxes limit
      (evaluateTop t.setting p (.ofIndex ts start)) :=
    evaluate_relaxes (s := s.setting) (t := t.setting) rfl rfl hle (Nat.add_zero _) (Nat.add_zero _) p _
  apply hrelaxes.conclude (s := s) (t := t) rfl

/-- When no look-ahead of an evaluation goes beyond a lower limit, what is read under the lower limit is what
is read under the higher one.  If the evaluation goes beyond the lower limit anywhere, it fails for that
under the lower limit; if it does not, both limits give the same answer. -/
theorem outcome_eq_ok_of_le (hle : limit ≤ higher)
    (hahead : (p.answer g ts start higher).journal.looksBeyond limit = false) :
  (∀ reading, (p.answer g ts start limit).outcome = .ok reading →
    (p.answer g ts start higher).outcome = .ok reading)
  ∧ ((p.answer g ts start higher).journal.goesBeyond limit = true → (p.answer g ts start limit).IsTooDeep)
  ∧ ((p.answer g ts start higher).journal.goesBeyond limit = false →
    p.answer g ts start higher = p.answer g ts start limit)
  := by
  cases (p.answer_relaxes g ts start hle).comparison with
  | same eq within =>
    rw [eq]
    refine ⟨fun _ => id, ?_, fun _ => rfl⟩
    simp [within]
  | deep isTooDeep beyond =>
    refine ⟨?_, fun _ => isTooDeep, ?_⟩
    · obtain ⟨reason, hout, -⟩ := isTooDeep
      simp [hout]
    · simp [beyond]
  | ahead beyond => simp [hahead] at beyond

end

/-- A grammar of primaries, which may be numbers in parentheses, and of a word to print at most one of them. -/
def printedOnce : Grammar := ⟨[
  ⟨.print, .skip .printWord, [.nest .primary .atMostOnce]⟩,
  ⟨.primary, .token .number, []⟩,
  ⟨.primary, .nest .group .once, []⟩,
  ⟨.group, .token .openParen, [.token .number, .token .closeParen]⟩]⟩

/-- Two primaries to print, the second one in parentheses. -/
def twoPrimaries : List Token :=
  [.unplaced .printWord "", .unplaced .number "1", .unplaced .openParen "", .unplaced .number "2",
    .unplaced .closeParen ""]

/-- One primary to print is read alike under the limits that its look-ahead does not go beyond. -/
theorem outcome_onePrimary :
  let p : Production := ⟨.print, .skip .printWord, [.nest .primary .atMostOnce]⟩
  let ts := twoPrimaries.take 2
  (p.answer printedOnce ts 0 3).journal.looksBeyond 2 = false
    ∧ ∃ reading, (p.answer printedOnce ts 0 2).outcome = .ok reading ∧ reading.consumed = 2
      ∧ (p.answer printedOnce ts 0 3).outcome = .ok reading
  := by
  intro p ts
  have hahead : (p.answer printedOnce ts 0 3).journal.looksBeyond 2 = false := by
    decide +kernel
  have hlow : (p.answer printedOnce ts 0 2).outcome
      = .ok ⟨⟨.print, [.node .primary [.leaf (.unplaced .number "1")]]⟩, 2⟩ := by
    decide +kernel
  refine ⟨hahead, _, hlow, rfl, ?_⟩
  apply (outcome_eq_ok_of_le p printedOnce ts 0 (by decide) hahead).1 _ hlow

/-- The limit does not only refuse: that two primaries are printed is a match under a limit at which the
second one is looked ahead for in vain, and a mismatch under a higher limit. -/
theorem not_outcome_eq_ok_of_le :
  ¬ ∀ (p : Production) (g : Grammar) (ts : List Token) (start limit higher : Nat) (reading : Reading),
    limit ≤ higher → (p.answer g ts start limit).outcome = .ok reading →
      (p.answer g ts start higher).outcome = .ok reading
  := by
  intro h
  let p : Production := ⟨.print, .skip .printWord, [.nest .primary .atMostOnce]⟩
  have hlow : (p.answer printedOnce twoPrimaries 0 1).outcome
      = .ok ⟨⟨.print, [.node .primary [.leaf (.unplaced .number "1")]]⟩, 2⟩ := by
    decide +kernel
  have hhigh := h p printedOnce twoPrimaries 0 1 2 _ (by decide) hlow
  have hmany : (p.answer printedOnce twoPrimaries 0 2).outcome.toOption = none := by
    decide +kernel
  simp [hhigh, Except.toOption] at hmany

/-! ## Productions without look-aheads -/

/-- Where nothing is looked ahead for, no event is part of a look-ahead. -/
theorem nesting_of_looksAhead {g : Grammar} (hg : ∀ p ∈ g.productions, p.looksAhead = false) :
  Nesting g (fun _ p _ => p.looksAhead = false) (fun e => e.isPlain = true)
  where
  entered _ := rfl
  opening _ q hq _ _ _ := hg q hq
  continuation _ _ _ q hq _ _ _ := hg q hq
  ahead hp htrue := by simp [hp] at htrue
  other hplain _ := hplain

/-- Nothing is looked ahead for in programs. -/
theorem Program.looksAhead_eq_false :
  ∀ p ∈ Program.grammar.productions, p.looksAhead = false
  := by
  decide +kernel

/-- In the grammar of programs, and in any other where nothing is looked ahead for, an answer other than that
evaluations are nested too deeply is the answer under all higher limits.  So the limits with such an answer
are upward closed, and all of them give the same one. -/
theorem answer_eq_of_not_isTooDeep :
  (∀ q ∈ Program.grammar.productions, q.looksAhead = false)
  ∧ ∀ (g : Grammar) (p : Production), (∀ q ∈ g.productions, q.looksAhead = false) → p.looksAhead = false →
    ∀ (ts : List Token) (start : Nat),
      (∀ limit higher, limit ≤ higher → ¬ (p.answer g ts start limit).IsTooDeep →
        p.answer g ts start higher = p.answer g ts start limit)
      ∧ IsUpperSet {limit | ¬ (p.answer g ts start limit).IsTooDeep}
      ∧ ∀ limit other, ¬ (p.answer g ts start limit).IsTooDeep → ¬ (p.answer g ts start other).IsTooDeep →
        p.answer g ts start limit = p.answer g ts start other
  := by
  use Program.looksAhead_eq_false
  intro g p hg hp ts start
  have hahead (limit higher : Nat) : (p.answer g ts start higher).journal.looksBeyond limit = false := by
    have hlogs : (evaluateTop (Session.start g ts higher).setting p (.ofIndex ts start)).Logs
        fun e => e.isPlain = true :=
      (nesting_of_looksAhead hg).evaluate_logs (s := (Session.start g ts higher).setting) _ hp
    have hplain : ∀ e ∈ (p.answer g ts start higher).journal.events, e.isPlain = true := hlogs.of_mem
    simp [Journal.looksBeyond, Event.inside_of_isPlain hplain]
  have heq {limit higher : Nat} (hle : limit ≤ higher)
      (hdeep : ¬ (p.answer g ts start limit).IsTooDeep) :
      p.answer g ts start higher = p.answer g ts start limit := by
    cases (p.answer_relaxes g ts start hle).comparison with
    | same eq => apply eq
    | deep isTooDeep => contradiction
    | ahead beyond => simp [hahead] at beyond
  refine ⟨fun limit higher hle => heq hle, ?_, ?_⟩
  · intro limit higher hle hdeep
    simpa only [Set.mem_ofPred_eq, heq hle hdeep] using hdeep
  · intro limit other hlimit hother
    rcases le_total limit other with hle | hle
    · rw [heq hle hlimit]
    · rw [heq hle hother]

/-- An assignment of a number is read alike under a limit that just allows for it and under any other. -/
theorem answer_assignedNumber :
  let p : Production := ⟨.assignment, .token .identifier, [.skip .assign, .nest .expression .once]⟩
  let ts : List Token := [.unplaced .identifier "x", .unplaced .assign "", .unplaced .number "1"]
  ∃ reading, (p.answer Program.grammar ts 0 23).outcome = .ok reading ∧ reading.consumed = 3
    ∧ ∀ limit ≥ 23, (p.answer Program.grammar ts 0 limit).outcome = .ok reading
  := by
  intro p ts
  have hthree : (p.answer Program.grammar ts 0 23).outcome.toOption.map Reading.consumed = some 3 := by
    decide +kernel
  obtain ⟨reading, hreading, hconsumed⟩ := Option.map_eq_some_iff.mp hthree
  have hout : (p.answer Program.grammar ts 0 23).outcome = .ok reading := by
    cases h : (p.answer Program.grammar ts 0 23).outcome <;> simp_all [Except.toOption]
  have hdeep : ¬ (p.answer Program.grammar ts 0 23).IsTooDeep := by
    simp [Attempt.IsTooDeep, hout]
  obtain ⟨hclosed, -⟩ := answer_eq_of_not_isTooDeep.2 Program.grammar p Program.looksAhead_eq_false rfl ts 0
  use reading, hout, hconsumed
  intro limit hle
  rw [hclosed 23 limit hle hdeep, hout]

end LayoutGrammar
