import LayoutGrammar.Evaluation.Session
import LayoutGrammar.Proofs.Evaluation.Mismatches

/-!
# The conduct of evaluations

What holds of the events of an evaluation and of the diagnostic that it fails for, whatever it finds.  A
relation between journals and failures is a `Conduct` when it holds of the least attempts and goes over to
attempts in a row, to choices and to look-aheads.  Evaluations are conducted so (`Conduct.evaluate`).
-/

namespace LayoutGrammar

/-- A relation that holds between the journal of an attempt and what the attempt fails for, if it does. -/
structure Conduct (P : Journal → Option Diagnostic → Prop) : Prop where
  /-- Look-aheads that start also end. -/
  balanced : ∀ {j failure}, P j failure → j.Balanced
  /-- Nothing happens. -/
  quiet : P .empty none
  /-- An attempt is refused for a reason that is no mismatch. -/
  refuse : ∀ {reason}, reason.isMismatch = false → P .empty (some reason)
  /-- An attempt fails for a mismatch that arises in it. -/
  raise : ∀ {mismatch}, mismatch.isMismatch = true → P (.event (.raised mismatch)) (some mismatch)
  /-- Something happens that tells nothing of mismatches. -/
  note : ∀ {e : Event}, e.isPlain = true → e.raised? = none → e.discarded? = none → P (.event e) none
  /-- One attempt is made after another that found something. -/
  append : ∀ {first second failure}, P first none → P second failure → P (first ++ second) failure
  /-- A choice goes on after an alternative that failed for a mismatch. -/
  discard : ∀ {j reason}, P j (some reason) → reason.isMismatch = true →
    P (j ++ .event (.discarded reason)) none
  /-- A choice fails for a mismatch of one of its alternatives, when no alternative is left. -/
  giveUp : ∀ {j reason}, P j none → reason ∈ j.discarded → P j (some reason)
  /-- Whatever is tried ahead, the look-ahead itself does not fail. -/
  ahead : ∀ {j failure}, P j failure → P (.event .lookAheadOpened ++ j ++ .event .lookAheadClosed) none

namespace Attempt

variable {α β : Type}

/-- What an attempt fails for, if it does. -/
def failure? (attempt : Attempt α) : Option Diagnostic :=
  match attempt.outcome with
  | .ok _ => none
  | .error reason => some reason

/-- Whether a relation holds between the journal of an attempt and what it fails for. -/
def IsConducted (attempt : Attempt α) (P : Journal → Option Diagnostic → Prop) : Prop :=
  P attempt.journal attempt.failure?

variable {P : Journal → Option Diagnostic → Prop}

theorem IsConducted.of_ok {attempt : Attempt α} (h : attempt.IsConducted P) {value : α}
    (hout : attempt.outcome = .ok value) :
  P attempt.journal none
  := by
  simpa [IsConducted, failure?, hout] using h

theorem IsConducted.of_error {attempt : Attempt α} (h : attempt.IsConducted P) {reason : Diagnostic}
    (hout : attempt.outcome = .error reason) :
  P attempt.journal (some reason)
  := by
  simpa [IsConducted, failure?, hout] using h

/-- The choices between alternatives for which a relation holds, after others of which a mismatch may have
been kept. -/
structure IsChosen (attempt : Attempt α) (P : Journal → Option Diagnostic → Prop)
    (kept : Option Diagnostic) : Prop where
  /-- A mismatch that a choice fails for was kept, or one of its alternatives failed for it. -/
  mismatch : ∀ reason, attempt.outcome = .error reason → reason.isMismatch = true →
    P attempt.journal none ∧ (kept = some reason ∨ reason ∈ attempt.journal.discarded)
  /-- A choice that fails for no mismatch is conducted. -/
  other : (∀ reason, attempt.outcome = .error reason → reason.isMismatch = false) →
    attempt.IsConducted P

end Attempt

/-- Of a diagnostic that is kept and a new one, one is kept then. -/
theorem Diagnostic.keepFurther_eq (d : Diagnostic) (kept : Option Diagnostic) :
  d.keepFurther kept = d ∨ kept = some (d.keepFurther kept)
  := by
  unfold keepFurther
  cases kept with
  | none => apply Or.inl rfl
  | some old => by_cases hfurther : d.isFurther old <;> simp [hfurther]

/-- A choice is refused for a rule without productions. -/
theorem Grammar.eq_unknown_of_candidates {g : Grammar} {rules : List Nonterminal} {reason : Diagnostic}
    (h : g.candidates rules = .error reason) :
  ∃ rule ∈ rules, g.contains rule = false ∧ reason = unknown rule
  := by
  induction rules with
  | nil => simp [candidates] at h
  | cons rule others ih =>
    rw [candidates] at h
    split at h
    · cases hothers : g.candidates others with
      | ok ps => simp [hothers, Except.map] at h
      | error e =>
        rw [hothers] at h
        obtain rfl : e = reason := by simpa [Except.map] using h
        obtain ⟨unknown, hmem, hunknown⟩ := ih hothers
        use unknown, List.mem_cons_of_mem rule hmem
    next hrule =>
      cases h
      use rule, List.mem_cons_self, by simpa using hrule

theorem Grammar.isMismatch_of_candidates {g : Grammar} {rules : List Nonterminal} {reason : Diagnostic}
    (h : g.candidates rules = .error reason) :
  reason.isMismatch = false
  := by
  obtain ⟨rule, -, -, rfl⟩ := eq_unknown_of_candidates h
  rfl

namespace Conduct

open Attempt

variable {α β : Type} {P : Journal → Option Diagnostic → Prop} (h : Conduct P)
include h

theorem pure (value : α) : (Pure.pure value : Attempt α).IsConducted P := h.quiet

theorem bind {attempt : Attempt α} {next : α → Attempt β} (hfirst : attempt.IsConducted P)
    (hnext : ∀ value, (next value).IsConducted P) :
  (attempt >>= next).IsConducted P
  := by
  cases hout : attempt.outcome with
  | ok value =>
    rw [bind_of_ok hout]
    apply h.append (hfirst.of_ok hout) (hnext value)
  | error reason =>
    rw [bind_of_error hout]
    apply hfirst.of_error hout

/-- What happens before an attempt, and tells nothing of mismatches. -/
theorem after_note {e : Event} {next : Attempt α} (hnext : next.IsConducted P) (plain : e.isPlain = true)
    (hraised : e.raised? = none) (hdiscarded : e.discarded? = none) :
  (do Attempt.note e; next).IsConducted P
  := by
  have hnote : (Attempt.note e).IsConducted P := h.note plain hraised hdiscarded
  apply h.bind hnote
  intro _
  apply hnext

/-! ## Choice -/

/-- A choice after something that happened.  What was kept then is what was kept before, or it was discarded
in between. -/
theorem chosen_after {next : Attempt α} {j : Journal} {kept kept' : Option Diagnostic}
    (hnext : next.IsChosen P kept') (hj : P j none)
    (hkept : ∀ reason, kept' = some reason → kept = some reason ∨ reason ∈ j.discarded) :
  (next.after j).IsChosen P kept
  where
  mismatch reason hout hreason := by
    obtain ⟨hjournal, hmem⟩ := hnext.mismatch reason hout hreason
    use h.append hj hjournal
    rw [after, (h.balanced hj).discarded_append, List.mem_append]
    rcases hmem with hmem | hmem
    · rcases hkept reason hmem with hmem | hmem
      · apply Or.inl hmem
      · apply Or.inr (Or.inl hmem)
    · apply Or.inr (Or.inr hmem)
  other hout := h.append hj (hnext.other hout)

variable {s : Setting} {inner : Evaluator} (hinner : ∀ p c, (inner p c).IsConducted P)
include hinner

theorem tryEach (ps : List Production) (kept : Option Diagnostic) (c : Cursor) :
  (tryEach inner ps kept c).IsChosen P kept
  := by
  induction ps generalizing kept with
  | nil =>
    cases kept with
    | none => exact ⟨by simp [LayoutGrammar.tryEach, succeed], fun _ => h.quiet⟩
    | some d =>
      constructor
      · rintro _ ⟨⟩ -
        use h.quiet, Or.inl rfl
      · intro hout
        apply h.refuse (hout d rfl)
  | cons p others ih =>
    have hp := hinner p c
    simp only [LayoutGrammar.tryEach]
    split
    next reading hout =>
      split
      next => exact ⟨by simp, fun _ => hp.of_ok hout⟩
      next => apply h.chosen_after (ih kept) (hp.of_ok hout) fun reason => Or.inl
    next d hout =>
      split
      next hd =>
        apply h.chosen_after (ih _) (h.discard (hp.of_error hout) hd)
        rintro _ ⟨⟩
        rw [(h.balanced (hp.of_error hout)).discarded_append, Journal.discarded_event rfl]
        -- The one that is kept is the new one or the old one.
        rcases d.keepFurther_eq kept with hnew | hold
        · right
          simp [Event.discarded?, hnew]
        · apply Or.inl hold
      next hd =>
        constructor
        · rintro _ ⟨⟩ hmismatch
          apply absurd hmismatch hd
        · intro _
          apply hp.of_error hout

theorem tryRules (rules : List Nonterminal) (c : Cursor) :
  (tryRules s inner rules c).IsConducted P
  := by
  unfold LayoutGrammar.tryRules
  split
  next ps _ =>
    have hchosen := h.tryEach hinner ps none c
    by_cases hout : ∃ d, (LayoutGrammar.tryEach inner ps none c).outcome = .error d ∧ d.isMismatch = true
    · obtain ⟨d, hout, hd⟩ := hout
      obtain ⟨hjournal, hmem⟩ := hchosen.mismatch d hout hd
      simpa [IsConducted, failure?, hout] using h.giveUp hjournal (hmem.resolve_left (by simp))
    · apply hchosen.other
      intro d hd
      rw [← Bool.not_eq_true]
      intro hmismatch
      apply hout ⟨d, hd, hmismatch⟩
  next reason hreason => apply h.refuse (Grammar.isMismatch_of_candidates hreason)

/-! ## Items -/

theorem matchOnce (rule : Nonterminal) (target : Target) (c : Cursor) :
  (matchOnce s inner rule target c).IsConducted P
  := by
  cases target with
  | tokens kinds excluded =>
    simp only [LayoutGrammar.matchOnce]
    split
    · split <;> apply h.pure
    · apply h.pure
  | rules heads hoisted =>
    simp only [LayoutGrammar.matchOnce]
    apply h.bind (h.tryRules hinner heads.members c)
    rintro (_ | reading) <;> apply h.pure

omit hinner in
theorem matchMany {once : Cursor → Attempt (Option Piece)} (honce : ∀ c, (once c).IsConducted P)
    (c : Cursor) :
  (matchMany once c).IsConducted P
  := by
  induction hc : c.rest.length using Nat.strong_induction_on generalizing c with
  | _ n ih =>
    rw [LayoutGrammar.matchMany]
    apply h.bind (honce c)
    rintro (_ | piece)
    · apply h.pure
    · simp only
      split
      next hlt =>
        apply h.bind (ih _ (hc ▸ hlt) piece.cursor rfl)
        intro others
        apply h.pure
      next => apply h.pure

theorem matchItem (rule : Nonterminal) (item : Item) (c : Cursor) :
  (matchItem s inner rule item c).IsConducted P
  := by
  unfold LayoutGrammar.matchItem
  split
  · apply h.matchMany
    apply h.matchOnce hinner
  · apply h.bind (h.matchOnce hinner rule item.target c)
    rintro (_ | piece) <;> apply h.pure

theorem lookAhead (target : Target) (c : Cursor) :
  (lookAhead s inner target c).IsConducted P
  := by
  cases target with
  | tokens kinds excluded =>
    simp only [LayoutGrammar.lookAhead]
    split <;> apply h.pure
  | rules heads hoisted => apply h.ahead (h.tryRules hinner heads.members c)

/-! ## Productions -/

theorem matchAll (rule : Nonterminal) (items : List Item) (before : Piece) :
  (matchAll s inner rule items before).IsConducted P
  := by
  induction items generalizing before with
  | nil => apply h.pure
  | cons item items ih =>
    rw [LayoutGrammar.matchAll]
    apply h.bind (h.matchItem hinner rule item before.cursor)
    intro found
    split
    · apply h.raise rfl
    · split
      · apply h.bind (h.lookAhead hinner item.target found.cursor)
        rintro (_ | _)
        · apply ih
        · apply h.raise rfl
      · apply ih

theorem matchProduction (depth : Nat) (p : Production) (c : Cursor) :
  (matchProduction s inner depth p c).IsConducted P
  := by
  refine h.after_note ?_ rfl rfl rfl
  apply h.bind (h.matchItem hinner p.rule p.opening c)
  intro opening
  split
  · apply h.pure
  · apply h.bind (h.matchAll hinner p.rule p.continuations opening.toPiece)
    intro whole
    split
    · apply h.pure
    · refine h.after_note ?_ rfl rfl rfl
      apply h.pure

omit hinner in
/-- Evaluations are conducted as their parts are. -/
theorem evaluate (room depth : Nat) (p : Production) (c : Cursor) :
  (evaluate s room depth p c).IsConducted P
  := by
  induction room generalizing depth p c with
  | zero => apply h.refuse rfl
  | succ room ih => apply h.matchProduction (ih (depth + 1))

end Conduct
end LayoutGrammar
