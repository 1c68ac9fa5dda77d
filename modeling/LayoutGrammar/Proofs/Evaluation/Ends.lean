import LayoutGrammar.Proofs.Evaluation.Mismatches

/-!
# How attempts end

`Attempt.Ends` says of an attempt what holds when it finds something, when it fails for a mismatch and when
it runs into the limit of depth, in terms of how far the mismatches raised in it got.  Attempts made one
after the other end as the rules for `bind` and `after` tell.
-/

namespace LayoutGrammar
namespace Attempt

variable {α β : Type}

/-- An attempt either finds something, or fails for a mismatch, or is nested too deeply; in each case what
is said of it holds. -/
structure Ends (attempt : Attempt α) (found : α → Nat → Prop) (stuck : Nat → Prop) (deep : Prop) :
    Prop where
  /-- Look-aheads that start also end. -/
  balanced : attempt.journal.Balanced
  /-- What holds of a value that is found, and of how far the raised mismatches got. -/
  ok : ∀ value, attempt.outcome = .ok value → found value attempt.journal.reach
  /-- What holds of how far the raised mismatches got when the attempt fails for one. -/
  mismatch : ∀ reason, attempt.outcome = .error reason → reason.isMismatch = true →
    stuck attempt.journal.reach
  /-- An attempt that fails for another reason is nested too deeply. -/
  other : ∀ reason, attempt.outcome = .error reason → reason.isMismatch = false →
    (∃ rule limit, reason.cause = .tooDeep rule limit) ∧ deep

variable {found found' : α → Nat → Prop} {ends : β → Nat → Prop} {stuck stuck' : Nat → Prop}
  {deep deep' : Prop}

theorem Ends.mono {attempt : Attempt α} (h : attempt.Ends found stuck deep)
    (hfound : ∀ value reach, found value reach → found' value reach)
    (hstuck : ∀ reach, stuck reach → stuck' reach) (hdeep : deep → deep') :
  attempt.Ends found' stuck' deep'
  where
  balanced := h.balanced
  ok value hvalue := hfound _ _ (h.ok value hvalue)
  mismatch reason hreason hm := hstuck _ (h.mismatch reason hreason hm)
  other reason hreason hm := ⟨(h.other reason hreason hm).1, hdeep (h.other reason hreason hm).2⟩

theorem ends_pure {value : α} (h : found value 0) :
  (pure value : Attempt α).Ends found stuck deep
  where
  balanced := .empty
  ok := by
    rintro _ ⟨⟩
    apply h
  mismatch := by simp
  other := by simp

/-- A mismatch that is raised gets as far as it says. -/
theorem ends_raise {mismatch : Diagnostic} (hm : mismatch.isMismatch = true) (h : stuck mismatch.reach) :
  (raise mismatch : Attempt α).Ends found stuck deep
  where
  balanced := .event rfl
  ok := by simp [raise]
  mismatch := by
    rintro _ ⟨⟩ -
    simpa [raise, Journal.reach, Journal.raised_event (e := .raised mismatch) rfl, Event.raised?] using h
  other := by
    rintro _ ⟨⟩ hnot
    simp [hm] at hnot

theorem ends_fail_tooDeep {reason : Diagnostic} {rule : Nonterminal} {limit : Nat}
    (hcause : reason.cause = .tooDeep rule limit) (h : deep) :
  (fail reason : Attempt α).Ends found stuck deep
  where
  balanced := .empty
  ok := by simp [fail]
  mismatch := by
    rintro _ ⟨⟩ hm
    simp [Diagnostic.isMismatch, hcause, Cause.isMismatch] at hm
  other := by
    rintro _ ⟨⟩ -
    use ⟨rule, limit, hcause⟩

/-- An attempt after something that happened. -/
theorem Ends.after {attempt : Attempt α} {j : Journal} (hj : j.Balanced)
    (h : attempt.Ends (fun value reach => found value (max j.reach reach))
      (fun reach => stuck (max j.reach reach)) deep) :
  (attempt.after j).Ends found stuck deep
  where
  balanced := .append hj h.balanced
  ok value hvalue := by
    rw [Attempt.after, hj.reach_append]
    apply h.ok value hvalue
  mismatch reason hreason hm := by
    rw [Attempt.after, hj.reach_append]
    apply h.mismatch reason hreason hm
  other := h.other

/-- An attempt and then one with what it found. -/
theorem Ends.bind {attempt : Attempt α} {next : α → Attempt β} (h : attempt.Ends found stuck deep)
    (hnext : ∀ value reach, found value reach →
      (next value).Ends (fun value further => ends value (max reach further))
        (fun further => stuck' (max reach further)) deep')
    (hstuck : ∀ reach, stuck reach → stuck' reach) (hdeep : deep → deep') :
  (attempt >>= next).Ends ends stuck' deep'
  := by
  cases hout : attempt.outcome with
  | ok value =>
    rw [bind_of_ok hout]
    apply Ends.after h.balanced
    apply hnext value _ (h.ok value hout)
  | error reason =>
    rw [bind_of_error hout]
    constructor
    · apply h.balanced
    · simp
    · rintro _ ⟨⟩ hm
      apply hstuck _ (h.mismatch reason hout hm)
    · rintro _ ⟨⟩ hm
      use (h.other reason hout hm).1, hdeep (h.other reason hout hm).2

/-- An event that raises no mismatch gets nowhere. -/
theorem ends_note {e : Event} (plain : e.isPlain = true) (hraised : e.raised? = none) :
  (note e).Ends (fun _ reach => reach = 0) stuck deep
  where
  balanced := .event plain
  ok := by simp [note, Journal.reach, Journal.raised_event plain, hraised]
  mismatch := by simp [note]
  other := by simp [note]

/-- An attempt ends as it does when an event that raises no mismatch happens before it. -/
theorem Ends.after_note {e : Event} {next : Attempt α} (h : next.Ends found stuck deep)
    (plain : e.isPlain = true) (hraised : e.raised? = none) :
  (do note e; next).Ends found stuck deep
  := by
  have hnote : (note e).Ends (fun _ reach => reach = 0) (fun _ => False) False :=
    ends_note plain hraised
  apply hnote.bind _ (by simp) (by simp)
  rintro - _ rfl
  simpa using h

end Attempt
end LayoutGrammar
