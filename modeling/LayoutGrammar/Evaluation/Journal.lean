import LayoutGrammar.Diagnostic.Basic

/-!
# Journal

What happens while productions are evaluated, in order.  A journal is put together from the journals of
the parts of an evaluation, at no cost; `Journal.events` is the list of its events, and all that a journal
means.

A `Memory` is what a sequence of evaluations keeps of the events before: the furthest mismatch that was
discarded outside of any look-ahead.
-/

namespace LayoutGrammar

/-- Something that happens in an evaluation. -/
inductive Event where
  /-- The evaluation of a production of a rule starts, at a token and at a depth of nesting. -/
  | entered (rule : Nonterminal) (index depth : Nat)
  /-- A production of a rule matched a number of tokens. -/
  | matched (rule : Nonterminal) (tokens depth : Nat)
  /-- An item of a production did not match as it should. -/
  | raised (mismatch : Diagnostic)
  /-- An alternative failed, and a choice went on to the next one. -/
  | discarded (mismatch : Diagnostic)
  /-- A look-ahead starts. -/
  | lookAheadOpened
  /-- The last look-ahead that started ends. -/
  | lookAheadClosed
deriving DecidableEq

/-- A sequence of events. -/
inductive Journal where
  | empty
  | event (event : Event)
  | append (first second : Journal)

namespace Journal

instance : Append Journal := ⟨append⟩

/-- The events of a journal, in order, before other events. -/
def eventsBefore : Journal → List Event → List Event
  | empty, others => others
  | event e, others => e :: others
  | append first second, others => first.eventsBefore (second.eventsBefore others)

/-- The events of a journal, in order. -/
def events (j : Journal) : List Event := j.eventsBefore []

theorem eventsBefore_eq (j : Journal) (others : List Event) :
  j.eventsBefore others = j.events ++ others
  := by
  induction j generalizing others with
  | empty => rfl
  | event e => rfl
  | append first second ih₁ ih₂ =>
    simp only [events, eventsBefore]
    rw [ih₁, ih₂, ih₁ (second.eventsBefore []), ih₂ []]
    simp

@[simp]
theorem events_empty : events empty = [] := rfl

@[simp]
theorem events_event (e : Event) : events (event e) = [e] := rfl

@[simp]
theorem events_append (first second : Journal) :
  events (first ++ second) = first.events ++ second.events
  := eventsBefore_eq first (second.eventsBefore [])

end Journal

/-- What is kept of the events of earlier evaluations. -/
structure Memory where
  /-- The furthest discarded mismatch; of several at the same token, the first. -/
  furthest : Option Diagnostic
  /-- The number of look-aheads that have started and not ended. -/
  lookAheads : Nat
deriving DecidableEq

namespace Memory

/-- The memory before any event. -/
def fresh : Memory := ⟨none, 0⟩

/-- The memory after an event. -/
def note (m : Memory) : Event → Memory
  | .discarded mismatch =>
    if m.lookAheads = 0 then { m with furthest := mismatch.keepFurther m.furthest } else m
  | .lookAheadOpened => { m with lookAheads := m.lookAheads + 1 }
  | .lookAheadClosed => { m with lookAheads := m.lookAheads - 1 }
  | _ => m

/-- The memory after the events of a journal. -/
def follow (m : Memory) (j : Journal) : Memory := j.events.foldl note m

/-- The diagnostic that is told for an evaluation that ended in `d`: a mismatch gives way to a mismatch
that got further. -/
def promote (m : Memory) (d : Diagnostic) : Diagnostic :=
  match m.furthest with
  | some furthest => if d.isMismatch && furthest.isFurther d then furthest else d
  | none => d

@[simp]
theorem follow_empty (m : Memory) : m.follow .empty = m := rfl

@[simp]
theorem follow_append (m : Memory) (first second : Journal) :
  m.follow (first ++ second) = (m.follow first).follow second
  := by
  simp [follow]

end Memory
end LayoutGrammar
