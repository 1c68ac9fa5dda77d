import LayoutGrammar.Proofs.Evaluation.Places
import LayoutGrammar.Proofs.Prediction.Outlook
import Mathlib.Data.List.Forall2

/-!
# Attempts that correspond

Two attempts correspond when they come out alike and log alike, up to what a `Correspondence` lets differ:
the places, the trees that are built, and the diagnostics (`Attempt.Mirrors`).

A correspondence may have an edge, an index from which on nothing is asked of the places.  Then attempts are
compared as long as the first does not escape beyond the edge (`Attempt.Compares`).  Attempts in a row compare
when their parts do (`Attempt.Compares.bind`).  One that escapes gives itself away: it stops beyond the edge,
fails for a mismatch that arose beyond it or for a reason that is no mismatch, or has discarded a mismatch that
arose beyond it.
-/

namespace LayoutGrammar

/-! ## Correspondences -/

/-- What is taken for the same in two evaluations. -/
structure Correspondence where
  /-- The productions that are evaluated first. -/
  allows : Production → Prop
  /-- The targets that are. -/
  target : Target → Target → Prop
  /-- The places that are. -/
  place : Cursor → Cursor → Prop
  /-- The lists of trees that are. -/
  trees : List Tree → List Tree → Prop
  /-- The diagnostics that are. -/
  told : Diagnostic → Diagnostic → Prop
  /-- How many tokens more there are before a place of the second evaluation. -/
  shift : Nat
  /-- The first index of which nothing is asked, if there is one. -/
  edge : Option Nat

namespace Correspondence

variable (r : Correspondence)

/-- Whether nothing is asked of an index. -/
def IsBeyond (index : Nat) : Prop := ∃ e ∈ r.edge, e ≤ index

/-- Whether a diagnostic arose at an index of which nothing is asked. -/
def IsPast (d : Diagnostic) : Prop := ∃ index, d.cause.index? = some index ∧ r.IsBeyond index

/-- The items that are the same. -/
structure Items (a b : Item) : Prop where
  /-- So are their targets. -/
  target : r.target a.target b.target
  /-- They repeat alike. -/
  repetition_eq : b.repetition = a.repetition

/-- The productions that are the same. -/
structure Productions (p q : Production) : Prop where
  /-- The first is one of those that are evaluated. -/
  isAllowed : r.allows p
  /-- They are of the same rule. -/
  rule_eq : q.rule = p.rule
  /-- Their opening items are the same. -/
  opening : r.Items p.opening q.opening
  /-- Their continuations are the same, one by one. -/
  continuations : List.Forall₂ r.Items p.continuations q.continuations

/-- The events that are the same. -/
inductive Events : Event → Event → Prop where
  | entered (rule : Nonterminal) (index depth : Nat) :
    Events (.entered rule index depth) (.entered rule (index + r.shift) depth)
  | matched (rule : Nonterminal) (tokens depth : Nat) :
    Events (.matched rule tokens depth) (.matched rule tokens depth)
  | raised {d e : Diagnostic} (told : r.told d e) : Events (.raised d) (.raised e)
  | discarded {d e : Diagnostic} (told : r.told d e) : Events (.discarded d) (.discarded e)
  | lookAheadOpened : Events .lookAheadOpened .lookAheadOpened
  | lookAheadClosed : Events .lookAheadClosed .lookAheadClosed

/-- The outcomes that are the same, when it is known which values are. -/
inductive Outcomes {α β : Type} (R : α → β → Prop) :
    Except Diagnostic α → Except Diagnostic β → Prop where
  | ok {value : α} {other : β} (same : R value other) : Outcomes R (.ok value) (.ok other)
  | error {d e : Diagnostic} (told : r.told d e) : Outcomes R (.error d) (.error e)

variable {r}

theorem Outcomes.ok_or_error {α β : Type} {R : α → β → Prop} {o : Except Diagnostic α}
    {o' : Except Diagnostic β} (h : r.Outcomes R o o') :
  (∃ value other, o = .ok value ∧ o' = .ok other ∧ R value other)
    ∨ ∃ d e, o = .error d ∧ o' = .error e ∧ r.told d e
  := by
  cases h with
  | ok same => exact Or.inl ⟨_, _, rfl, rfl, same⟩
  | error told => exact Or.inr ⟨_, _, rfl, rfl, told⟩

/-- Outcomes that are the same are equal when what is told the same is, and values that are the same are. -/
theorem Outcomes.eq {α : Type} {R : α → α → Prop} {o o' : Except Diagnostic α} (h : r.Outcomes R o o')
    (htold : ∀ {d e}, r.told d e → e = d) (hvalue : ∀ {value other}, R value other → other = value) :
  o' = o
  := by
  cases h with
  | ok same => rw [hvalue same]
  | error told => rw [htold told]

/-- Events that are the same are equal when what is told the same is, and no tokens are put before. -/
theorem events_eq (htold : ∀ {d e}, r.told d e → e = d) (hshift : r.shift = 0) {events events' : List Event}
    (h : List.Forall₂ r.Events events events') :
  events' = events
  := by
  have heq : List.Forall₂ Eq events events' := by
    apply h.imp
    rintro e e' (⟨rule, index, depth⟩ | _ | h | h | _ | _)
    · rw [hshift, Nat.add_zero]
    · rfl
    · rw [htold h]
    · rw [htold h]
    · rfl
    · rfl
  rw [List.forall₂_eq_eq_eq] at heq
  apply heq.symm

theorem IsBeyond.mono {index other : Nat} (h : r.IsBeyond index) (hle : index ≤ other) :
  r.IsBeyond other
  := by
  obtain ⟨e, he, hindex⟩ := h
  use e, he
  omega

theorem IsBeyond.isSome {index : Nat} (h : r.IsBeyond index) :
  r.edge.isSome = true
  := by
  obtain ⟨e, he, -⟩ := h
  rw [Option.mem_def.mp he, Option.isSome_some]

theorem not_isBeyond_of_edge (h : r.edge = none) (index : Nat) :
  ¬ r.IsBeyond index
  := by
  simp [IsBeyond, h]

end Correspondence

namespace Attempt

variable {α β α' β' : Type} {r : Correspondence}

/-! ## Attempts that mirror each other -/

/-- Whether two attempts have the same outcome and the same events. -/
structure Mirrors (r : Correspondence) (R : α → β → Prop) (attempt : Attempt α) (other : Attempt β) :
    Prop where
  /-- The outcomes are the same. -/
  outcome : r.Outcomes R attempt.outcome other.outcome
  /-- The events are the same, one by one. -/
  events : List.Forall₂ r.Events attempt.journal.events other.journal.events

variable {R : α → β → Prop} {attempt : Attempt α} {other : Attempt β}

theorem mirrors_pure {value : α} {value' : β} (h : R value value') :
  (pure value : Attempt α).Mirrors r R (pure value' : Attempt β)
  := ⟨.ok h, .nil⟩

theorem mirrors_fail {d e : Diagnostic} (h : r.told d e) (R : α → β → Prop) :
  (fail d).Mirrors r R (fail e)
  := ⟨.error h, .nil⟩

theorem mirrors_raise {d e : Diagnostic} (h : r.told d e) (R : α → β → Prop) :
  (raise d).Mirrors r R (raise e)
  := ⟨.error h, .cons (.raised h) .nil⟩

theorem mirrors_note {e e' : Event} (h : r.Events e e') :
  (note e).Mirrors r Eq (note e')
  := ⟨.ok rfl, .cons h .nil⟩

theorem Mirrors.after {j j' : Journal} (h : attempt.Mirrors r R other)
    (hj : List.Forall₂ r.Events j.events j'.events) :
  (attempt.after j).Mirrors r R (other.after j')
  := by
  refine ⟨h.outcome, ?_⟩
  rw [Attempt.after, Attempt.after, Journal.events_append, Journal.events_append]
  apply List.rel_append hj h.events

/-! ## Attempts that escape -/

/-- Whether it shows of an attempt that it went beyond the edge, when it is known where a value that is found
stops. -/
inductive Escapes (r : Correspondence) (stop : α → Nat) (attempt : Attempt α) : Prop where
  /-- A mismatch was discarded that arose there. -/
  | discarded {d : Diagnostic} (mem : .discarded d ∈ attempt.journal.events) (isPast : r.IsPast d)
  /-- What was found stops there. -/
  | found {value : α} (outcome : attempt.outcome = .ok value) (isBeyond : r.IsBeyond (stop value))
  /-- The attempt failed, and if for a mismatch, it arose there. -/
  | failed {d : Diagnostic} (outcome : attempt.outcome = .error d) (edge : r.edge.isSome = true)
    (isPast : d.isMismatch = true → r.IsPast d)

variable {stop : α → Nat} {stop' : α' → Nat}

theorem Escapes.after (h : attempt.Escapes r stop) (j : Journal) :
  (attempt.after j).Escapes r stop
  := by
  cases h with
  | discarded mem isPast =>
    apply Escapes.discarded _ isPast
    rw [Attempt.after, Journal.events_append]
    apply List.mem_append_right _ mem
  | found outcome isBeyond => exact .found outcome isBeyond
  | failed outcome edge isPast => exact .failed outcome edge isPast

/-- An attempt escapes when its first part does, if from beyond the edge there is no way back. -/
theorem Escapes.bind {next : α → Attempt α'} (h : attempt.Escapes r stop)
    (hbeyond : ∀ value, attempt.outcome = .ok value → r.IsBeyond (stop value) →
      (next value).Escapes r stop') :
  (attempt >>= next).Escapes r stop'
  := by
  cases hout : attempt.outcome with
  | ok value =>
    rw [bind_of_ok hout]
    cases h with
    | discarded mem isPast =>
      apply Escapes.discarded _ isPast
      rw [Attempt.after, Journal.events_append]
      apply List.mem_append_left _ mem
    | found outcome isBeyond =>
      obtain rfl := Except.ok.inj (hout.symm.trans outcome)
      apply (hbeyond value hout isBeyond).after
    | failed outcome => cases hout.symm.trans outcome
  | error d =>
    rw [bind_of_error hout]
    cases h with
    | discarded mem isPast => exact .discarded mem isPast
    | found outcome => cases hout.symm.trans outcome
    | failed outcome edge isPast =>
      obtain rfl := Except.error.inj (hout.symm.trans outcome)
      apply Escapes.failed rfl edge isPast

/-- An attempt that starts beyond the edge escapes. -/
theorem escapes_of_isBeyond {s : Setting} {c : Cursor} (hc : r.IsBeyond c.index)
    (hlogs : attempt.Logs (Event.RaisesWithin s c 0)) (hconduct : attempt.IsConducted Journal.Stands)
    (hfinds : attempt.Finds fun value => c.index ≤ stop value) :
  attempt.Escapes r stop
  := by
  cases hout : attempt.outcome with
  | ok value => apply Escapes.found hout (hc.mono (hfinds.of_ok value hout))
  | error d =>
    apply Escapes.failed hout hc.isSome
    intro hd
    obtain ⟨count, -, -, hat⟩ := hlogs.failure_within hconduct hout hd
    exact ⟨_, hat.index?_eq, hc.mono (Nat.le_add_right ..)⟩

/-! ## Attempts that are compared up to the edge -/

/-- Whether an attempt escapes beyond the edge or is mirrored by another one. -/
def Compares (r : Correspondence) (stop : α → Nat) (R : α → β → Prop) (attempt : Attempt α)
    (other : Attempt β) : Prop :=
  attempt.Escapes r stop ∨ attempt.Mirrors r R other

theorem Mirrors.compares (h : attempt.Mirrors r R other) (stop : α → Nat) :
  attempt.Compares r stop R other
  := Or.inr h

theorem Compares.after {j j' : Journal} (h : attempt.Compares r stop R other)
    (hj : List.Forall₂ r.Events j.events j'.events) :
  (attempt.after j).Compares r stop R (other.after j')
  := by
  rcases h with hescapes | hmirrors
  · apply Or.inl (hescapes.after j)
  · apply Or.inr (hmirrors.after hj)

/-- Without an edge there is nowhere to escape. -/
theorem Compares.mirrors (h : attempt.Compares r stop R other) (hedge : r.edge = none) :
  attempt.Mirrors r R other
  := by
  have hnot := Correspondence.not_isBeyond_of_edge hedge
  apply h.resolve_left
  intro hescapes
  cases hescapes with
  | discarded _ isPast =>
    obtain ⟨index, -, hbeyond⟩ := isPast
    apply hnot index hbeyond
  | found _ isBeyond => apply hnot _ isBeyond
  | failed _ edge => simp [hedge] at edge

/-- Attempts in a row compare when their parts do, if from beyond the edge there is no way back. -/
theorem Compares.bind {R' : α' → β' → Prop} {next : α → Attempt α'} {next' : β → Attempt β'}
    (h : attempt.Compares r stop R other)
    (hbeyond : ∀ value, attempt.outcome = .ok value → r.IsBeyond (stop value) →
      (next value).Escapes r stop')
    (hnext : ∀ value value', attempt.outcome = .ok value → R value value' →
      (next value).Compares r stop' R' (next' value')) :
  (attempt >>= next).Compares r stop' R' (other >>= next')
  := by
  rcases h with hescapes | ⟨houtcome, hevents⟩
  · apply Or.inl (hescapes.bind hbeyond)
  · obtain ⟨value, value', hout, hout', hsame⟩ | ⟨d, e, hout, hout', htold⟩ := houtcome.ok_or_error
    · rw [bind_of_ok hout, bind_of_ok hout']
      apply (hnext value value' hout hsame).after hevents
    · rw [bind_of_error hout, bind_of_error hout']
      exact Or.inr ⟨.error htold, hevents⟩

end Attempt
end LayoutGrammar
