import LayoutGrammar.Evaluation.Attempt
import Mathlib.Order.Lattice
import Mathlib.Tactic.Use

/-!
# Mismatches of a journal

The mismatches that were raised in a journal outside of any look-ahead (`Journal.raised`), those that were
discarded there (`Journal.discarded`), and how far the raised ones got (`Journal.reach`).  A journal is
`Balanced` when every look-ahead that starts in it also ends in it; the events of balanced journals outside
of look-aheads can be told apart journal by journal.  What a memory keeps of a journal is the furthest of
the discarded mismatches (`Memory.furthest_foldl_note`).
-/

namespace LayoutGrammar

/-! ## The furthest diagnostic -/

namespace Diagnostic

/-- The number of tokens up to the one where a diagnostic arose, or none if it did not arise among tokens. -/
def reach (d : Diagnostic) : Nat :=
  match d.cause.index? with
  | some index => index + 1
  | none => 0

theorem isFurther_iff {d other : Diagnostic} :
  d.isFurther other = true ↔ other.reach < d.reach
  := by
  unfold isFurther reach
  cases d.cause.index? <;> cases other.cause.index? <;> simp

/-- The furthest of a diagnostic that is kept and some others, the first of several at the same token. -/
def furthestOf (kept : Option Diagnostic) (others : List Diagnostic) : Option Diagnostic :=
  others.foldl (fun kept d => some (d.keepFurther kept)) kept

@[simp]
theorem furthestOf_nil (kept : Option Diagnostic) :
  furthestOf kept [] = kept
  := rfl

@[simp]
theorem furthestOf_cons (kept : Option Diagnostic) (d : Diagnostic) (others : List Diagnostic) :
  furthestOf kept (d :: others) = furthestOf (some (d.keepFurther kept)) others
  := rfl

theorem furthestOf_append (kept : Option Diagnostic) (first second : List Diagnostic) :
  furthestOf kept (first ++ second) = furthestOf (furthestOf kept first) second
  := List.foldl_append

/-- Of a kept diagnostic and a new one, neither is further than the one that is kept then. -/
theorem reach_le_keepFurther (d : Diagnostic) (kept : Option Diagnostic) :
  d.reach ≤ (d.keepFurther kept).reach ∧ ∀ k ∈ kept, k.reach ≤ (d.keepFurther kept).reach
  := by
  unfold keepFurther
  cases kept with
  | none => simp
  | some k =>
    by_cases h : d.isFurther k
    · have := isFurther_iff.mp h
      simp [h]
      omega
    · have := mt isFurther_iff.mpr h
      simp [h]
      omega

/-- No diagnostic among some is further than the furthest of them. -/
theorem reach_le_of_furthestOf {kept : Option Diagnostic} {others : List Diagnostic} {d : Diagnostic}
    (h : furthestOf kept others = some d) :
  (∀ k ∈ kept, k.reach ≤ d.reach) ∧ ∀ e ∈ others, e.reach ≤ d.reach
  := by
  induction others generalizing kept with
  | nil => simp_all
  | cons e others ih =>
    obtain ⟨hkept, hothers⟩ := ih h
    have hnew := hkept _ rfl
    obtain ⟨he, hk⟩ := reach_le_keepFurther e kept
    constructor
    · intro k hk'
      apply le_trans (hk k hk') hnew
    · intro f hf
      obtain rfl | hf := List.mem_cons.mp hf
      · apply le_trans he hnew
      · apply hothers f hf

theorem furthestOf_isSome (kept : Option Diagnostic) {others : List Diagnostic} (h : others ≠ []) :
  ∃ d, furthestOf kept others = some d
  := by
  induction others generalizing kept with
  | nil => contradiction
  | cons e others ih =>
    cases others with
    | nil => use e.keepFurther kept; rfl
    | cons f others => apply ih _ (List.cons_ne_nil f others)

/-- A diagnostic that is among some already does not change which is the furthest. -/
theorem furthestOf_concat_of_mem (kept : Option Diagnostic) {others : List Diagnostic} {d : Diagnostic}
    (h : d ∈ others) :
  furthestOf kept (others ++ [d]) = furthestOf kept others
  := by
  obtain ⟨furthest, hf⟩ := furthestOf_isSome kept (List.ne_nil_of_mem h)
  have hd := (reach_le_of_furthestOf hf).2 d h
  have hnot : d.isFurther furthest = false := by
    rw [← Bool.not_eq_true, isFurther_iff]
    omega
  rw [furthestOf_append, hf]
  simp [keepFurther, hnot]

/-- The furthest diagnostic is the kept one or the first among the others that got as far as it did. -/
theorem find?_of_furthestOf {kept : Option Diagnostic} {others : List Diagnostic} {d : Diagnostic}
    (h : furthestOf kept others = some d) :
  kept = some d ∨
    (∀ k ∈ kept, k.reach < d.reach) ∧ others.find? (fun e => e.reach = d.reach) = some d
  := by
  induction others generalizing kept with
  | nil => apply Or.inl h
  | cons e others ih =>
    have hle := (reach_le_of_furthestOf h).1
    rw [furthestOf_cons] at h
    rcases ih h with hd | ⟨hlt, hfind⟩
    · obtain rfl := Option.some.inj hd
      cases kept with
      | none =>
        right
        simp [keepFurther]
      | some k =>
        by_cases hk : e.isFurther k
        · right
          have := isFurther_iff.mp hk
          simpa [keepFurther, hk] using this
        · left
          simp [keepFurther, hk]
    · right
      have hnew := hlt _ rfl
      obtain ⟨he, hk⟩ := reach_le_keepFurther e kept
      constructor
      · intro k hk'
        apply lt_of_le_of_lt (hk k hk') hnew
      · have hne : e.reach ≠ d.reach := by omega
        simp [hne, hfind]

end Diagnostic

/-! ## Events outside of look-aheads -/

namespace Event

/-- The events among some that happen outside of any look-ahead, with a number of look-aheads open before
them. -/
def outside : (opened : Nat) → List Event → List Event
  | _, [] => []
  | opened, lookAheadOpened :: events => outside (opened + 1) events
  | opened, lookAheadClosed :: events => outside (opened - 1) events
  | 0, e :: events => e :: outside 0 events
  | opened + 1, _ :: events => outside (opened + 1) events

/-- Whether an event is neither the start nor the end of a look-ahead. -/
def isPlain : Event → Bool
  | lookAheadOpened | lookAheadClosed => false
  | _ => true

/-- The mismatch that is raised by an event. -/
def raised? : Event → Option Diagnostic
  | raised mismatch => some mismatch
  | _ => none

/-- The mismatch that is discarded by an event. -/
def discarded? : Event → Option Diagnostic
  | discarded mismatch => some mismatch
  | _ => none

theorem outside_cons_of_isPlain {e : Event} (h : e.isPlain) (opened : Nat) (events : List Event) :
  outside opened (e :: events) = (if opened = 0 then [e] else []) ++ outside opened events
  := by
  cases opened <;> cases e <;> simp_all [isPlain, outside]

/-- When there are no look-aheads, all events are outside of them. -/
theorem outside_of_isPlain {events : List Event} (h : ∀ e ∈ events, e.isPlain = true) :
  outside 0 events = events
  := by
  induction events with
  | nil => rfl
  | cons e events ih =>
    obtain ⟨he, hevents⟩ := List.forall_mem_cons.mp h
    simp [outside_cons_of_isPlain he, ih hevents]

theorem outside_sublist (opened : Nat) (events : List Event) :
  (outside opened events).Sublist events
  := by
  fun_induction outside opened events with
  | case1 => apply List.Sublist.slnil
  | case2 _ _ ih => apply ih.cons
  | case3 _ _ ih => apply ih.cons
  | case4 _ _ _ _ ih => apply ih.cons_cons
  | case5 _ _ _ _ _ ih => apply ih.cons

end Event

namespace Journal

/-- The journals in which every look-ahead that starts also ends. -/
inductive Balanced : Journal → Prop where
  | empty : Balanced empty
  | event {e : Event} (plain : e.isPlain) : Balanced (event e)
  | append {first second : Journal} (left : Balanced first) (right : Balanced second) :
      Balanced (first ++ second)
  | lookAhead {found : Journal} (inside : Balanced found) :
      Balanced (event .lookAheadOpened ++ found ++ event .lookAheadClosed)

/-- The mismatches raised in a journal outside of any look-ahead, in order. -/
def raised (j : Journal) : List Diagnostic := (Event.outside 0 j.events).filterMap Event.raised?

/-- The mismatches discarded in a journal outside of any look-ahead, in order. -/
def discarded (j : Journal) : List Diagnostic := (Event.outside 0 j.events).filterMap Event.discarded?

/-- The number of tokens up to the furthest one where a mismatch was raised outside of any look-ahead. -/
def reach (j : Journal) : Nat := (j.raised.map Diagnostic.reach).foldr max 0

/-- A balanced journal leaves the number of open look-aheads as it is, and when there are any, none of its
events is outside of them. -/
theorem Balanced.outside_events {j : Journal} (h : j.Balanced) (opened : Nat) (others : List Event) :
  Event.outside opened (j.events ++ others)
    = (if opened = 0 then Event.outside 0 j.events else []) ++ Event.outside opened others
  := by
  induction h generalizing opened others with
  | empty => simp [Event.outside]
  | event plain => simp [Event.outside_cons_of_isPlain plain, Event.outside]
  | append _ _ ih₁ ih₂ =>
    rw [events_append, List.append_assoc, ih₁, ih₂, ih₁ 0]
    split <;> simp_all
  | lookAhead _ ih =>
    simp only [events_append, events_event, List.append_assoc, List.cons_append, List.nil_append,
      Event.outside]
    rw [ih, ih]
    simp [Event.outside]

theorem Balanced.outside_append {first : Journal} (h : first.Balanced) (second : Journal) :
  Event.outside 0 (first ++ second).events
    = Event.outside 0 first.events ++ Event.outside 0 second.events
  := by
  rw [events_append, h.outside_events]
  rfl

@[simp]
theorem raised_empty : raised empty = [] := rfl

@[simp]
theorem discarded_empty : discarded empty = [] := rfl

@[simp]
theorem reach_empty : reach empty = 0 := rfl

theorem raised_event {e : Event} (h : e.isPlain) :
  raised (event e) = e.raised?.toList
  := by
  cases e <;> simp_all [raised, Event.outside, Event.raised?, Event.isPlain]

theorem discarded_event {e : Event} (h : e.isPlain) :
  discarded (event e) = e.discarded?.toList
  := by
  cases e <;> simp_all [discarded, Event.outside, Event.discarded?, Event.isPlain]

theorem Balanced.raised_append {first : Journal} (h : first.Balanced) (second : Journal) :
  (first ++ second).raised = first.raised ++ second.raised
  := by
  rw [raised, h.outside_append, List.filterMap_append]
  rfl

theorem Balanced.discarded_append {first : Journal} (h : first.Balanced) (second : Journal) :
  (first ++ second).discarded = first.discarded ++ second.discarded
  := by
  rw [discarded, h.outside_append, List.filterMap_append]
  rfl

theorem Balanced.reach_append {first : Journal} (h : first.Balanced) (second : Journal) :
  (first ++ second).reach = max first.reach second.reach
  := by
  have hfold (l : List Nat) (n : Nat) : l.foldr max n = max (l.foldr max 0) n := by
    induction l with
    | nil => simp
    | cons m l ih => simp [ih, Nat.max_assoc]
  rw [reach, h.raised_append, List.map_append, List.foldr_append, hfold]
  rfl

/-- Nothing that happens in a look-ahead is outside of it. -/
theorem Balanced.raised_lookAhead {found : Journal} (h : found.Balanced) :
  (Journal.event .lookAheadOpened ++ found ++ Journal.event .lookAheadClosed).raised = []
  := by
  rw [raised, events_append, events_append, List.append_assoc]
  simp [Event.outside, h.outside_events]

theorem Balanced.discarded_lookAhead {found : Journal} (h : found.Balanced) :
  (Journal.event .lookAheadOpened ++ found ++ Journal.event .lookAheadClosed).discarded = []
  := by
  rw [discarded, events_append, events_append, List.append_assoc]
  simp [Event.outside, h.outside_events]

theorem reach_le_iff {j : Journal} {bound : Nat} :
  j.reach ≤ bound ↔ ∀ d ∈ j.raised, d.reach ≤ bound
  := by
  unfold reach
  induction j.raised with
  | nil => simp
  | cons d others ih => simp [ih]

end Journal

/-- What a memory keeps of the events after it: the furthest mismatch that was discarded outside of any
look-ahead. -/
theorem Memory.furthest_foldl_note (m : Memory) (events : List Event) :
  (events.foldl note m).furthest
    = Diagnostic.furthestOf m.furthest
        ((Event.outside m.lookAheads events).filterMap Event.discarded?)
  := by
  induction events generalizing m with
  | nil => rfl
  | cons e events ih =>
    rw [List.foldl_cons, ih]
    obtain ⟨furthest, lookAheads⟩ := m
    cases lookAheads <;> cases e <;>
      simp [note, Event.outside, Event.discarded?, List.filterMap_cons]

theorem Memory.furthest_follow_fresh (j : Journal) :
  (fresh.follow j).furthest = Diagnostic.furthestOf none j.discarded
  := furthest_foldl_note fresh j.events

end LayoutGrammar
