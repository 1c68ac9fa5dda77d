import LayoutGrammar.Evaluation.Journal

/-!
# Attempt

An attempt to match something has an outcome, which is a value or a diagnostic, and a journal.  Attempts
are made one after the other until one fails; the journal goes on over them.  An outcome never depends on
a journal (`outcome_bind`).
-/

namespace LayoutGrammar

/-- The outcome of trying something, with what happened. -/
structure Attempt (α : Type) where
  /-- The value found, or the reason why none is. -/
  outcome : Except Diagnostic α
  /-- What happened. -/
  journal : Journal

namespace Attempt

variable {α β : Type}

/-- An attempt with something that happened before. -/
def after (attempt : Attempt α) (journal : Journal) : Attempt α :=
  ⟨attempt.outcome, journal ++ attempt.journal⟩

/-- The attempt that finds a value. -/
def succeed (value : α) : Attempt α := ⟨.ok value, .empty⟩

/-- The attempt that fails for a reason. -/
def fail (reason : Diagnostic) : Attempt α := ⟨.error reason, .empty⟩

/-- An attempt and, when it finds a value, another one with that value. -/
def bind (attempt : Attempt α) (next : α → Attempt β) : Attempt β :=
  match attempt.outcome with
  | .ok value => (next value).after attempt.journal
  | .error reason => ⟨.error reason, attempt.journal⟩

instance : Monad Attempt where
  pure := succeed
  bind := bind

/-- The attempt in which an event happens. -/
def note (event : Event) : Attempt Unit := ⟨.ok (), .event event⟩

/-- The attempt that fails for a mismatch that arises in it. -/
def raise (mismatch : Diagnostic) : Attempt α := ⟨.error mismatch, .event (.raised mismatch)⟩

@[simp]
theorem outcome_pure (value : α) : (pure value : Attempt α).outcome = .ok value := rfl

@[simp]
theorem journal_pure (value : α) : (pure value : Attempt α).journal = .empty := rfl

/-- The outcome of two attempts in a row depends on their outcomes only. -/
theorem outcome_bind (attempt : Attempt α) (next : α → Attempt β) :
  (attempt >>= next).outcome = attempt.outcome.bind fun value => (next value).outcome
  := by
  change (attempt.bind next).outcome = _
  unfold bind Except.bind
  split <;> simp_all [after]

theorem bind_of_ok {attempt : Attempt α} {value : α} (h : attempt.outcome = .ok value)
    (next : α → Attempt β) :
  attempt >>= next = (next value).after attempt.journal
  := by
  change attempt.bind next = _
  simp [bind, h]

theorem bind_of_error {attempt : Attempt α} {reason : Diagnostic}
    (h : attempt.outcome = .error reason) (next : α → Attempt β) :
  attempt >>= next = ⟨.error reason, attempt.journal⟩
  := by
  change attempt.bind next = _
  simp [bind, h]

end Attempt
end LayoutGrammar
