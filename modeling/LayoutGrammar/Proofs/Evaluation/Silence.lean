import LayoutGrammar.Proofs.Evaluation.Furthest
import LayoutGrammar.Proofs.Evaluation.Growth

/-!
# What comes to nothing

A production that does not match has raised no mismatch outside of a look-ahead (`evaluate_isSilent`), whether
its opening item matched nothing or whatever it matched was not kept.  What carries this is `Attempt.IsSilent`,
which is shown backwards: if what an attempt finds in the end keeps nothing, no part of it has kept anything,
so that no choice in it has gone on after a mismatch.
-/

namespace LayoutGrammar

namespace Attempt

variable {α β : Type} {P : α → Prop} {before : Prop}

/-- The attempts that find something of some sort only when something was so before, and then raise no
mismatch outside of a look-ahead. -/
structure IsSilent (attempt : Attempt α) (P : α → Prop) (before : Prop) : Prop where
  /-- Look-aheads that start also end. -/
  balanced : attempt.journal.Balanced
  /-- Nothing is raised, and what had to be so before was. -/
  of_ok : ∀ value, attempt.outcome = .ok value → P value → before ∧ attempt.journal.raised = []

theorem isSilent_pure {value : α} (h : P value → before) :
  (pure value : Attempt α).IsSilent P before
  where
  balanced := .empty
  of_ok := by
    rintro _ ⟨⟩ hvalue
    use h hvalue
    rfl

theorem isSilent_fail (reason : Diagnostic) :
  (fail reason : Attempt α).IsSilent P before
  where
  balanced := .empty
  of_ok := by simp [fail]

theorem isSilent_raise (mismatch : Diagnostic) :
  (raise mismatch : Attempt α).IsSilent P before
  where
  balanced := .event rfl
  of_ok := by simp [raise]

theorem IsSilent.imp {attempt : Attempt α} {earlier : Prop} (h : attempt.IsSilent P before)
    (hbefore : before → earlier) :
  attempt.IsSilent P earlier
  where
  balanced := h.balanced
  of_ok value hout hvalue := (h.of_ok value hout hvalue).imp hbefore id

/-- What has nothing to do with an attempt was so before it if it is after it. -/
theorem IsSilent.and {attempt : Attempt α} (h : attempt.IsSilent P True) (fact : Prop) :
  attempt.IsSilent (fun value => P value ∧ fact) fact
  where
  balanced := h.balanced
  of_ok value hout hvalue := ⟨hvalue.2, (h.of_ok value hout hvalue.1).2⟩

theorem IsSilent.after {attempt : Attempt α} {j : Journal} {earlier : Prop} (h : attempt.IsSilent P before)
    (hj : j.Balanced) (hraised : before → earlier ∧ j.raised = []) :
  (attempt.after j).IsSilent P earlier
  where
  balanced := hj.append h.balanced
  of_ok value hout hvalue := by
    obtain ⟨hbefore, hattempt⟩ := h.of_ok value hout hvalue
    obtain ⟨hearlier, hquiet⟩ := hraised hbefore
    use hearlier
    rw [Attempt.after, hj.raised_append, hquiet, hattempt, List.append_nil]

/-- An attempt and then one with what it found, which tells back what that was. -/
theorem IsSilent.bind {attempt : Attempt α} {next : α → Attempt β} {Q : α → Prop} {R : β → Prop}
    {F : α → Prop} (h : attempt.IsSilent Q before) (hfinds : attempt.Finds F)
    (hnext : ∀ value, F value → (next value).IsSilent R (Q value)) :
  (attempt >>= next).IsSilent R before
  := by
  cases hout : attempt.outcome with
  | ok value =>
    rw [bind_of_ok hout]
    apply (hnext value (hfinds.of_ok value hout)).after h.balanced
    apply h.of_ok value hout
  | error reason =>
    rw [bind_of_error hout]
    exact ⟨h.balanced, by simp⟩

/-- What happens before an attempt, and raises nothing. -/
theorem IsSilent.after_note {next : Attempt α} {e : Event} (h : next.IsSilent P before)
    (plain : e.isPlain = true) (hraised : e.raised? = none) :
  (do note e; next).IsSilent P before
  := by
  have hnote : (note e).IsSilent (fun _ => before) before := by
    refine ⟨.event plain, fun _ _ hbefore => ⟨hbefore, ?_⟩⟩
    rw [note, Journal.raised_event plain, hraised]
    rfl
  apply hnote.bind (finds_true _)
  intro _ _
  apply h

end Attempt

open Attempt

/-- A node that has children adds trees to a node of any rule. -/
theorem graft_ne_nil {node : Node} (h : node.isEmpty = false) (rule : Nonterminal) (hoisted : Bool) :
  graft rule hoisted node ≠ []
  := by
  unfold graft
  split
  · simpa [Node.isEmpty] using h
  · simp

section

variable {s : Setting} {inner : Evaluator}
  (hinner : ∀ p c, (inner p c).IsSilent (fun reading => reading.isMatch = false) True)
include hinner

/-! ## Choice -/

/-- A choice finds nothing only when no alternative has failed. -/
theorem tryEach_isSilent (ps : List Production) (failure : Option Diagnostic) (c : Cursor) :
  (tryEach inner ps failure c).IsSilent (fun found => found = none) (failure = none)
  := by
  induction ps generalizing failure with
  | nil =>
    cases failure with
    | none => apply isSilent_pure fun _ => rfl
    | some mismatch => apply isSilent_fail
  | cons p others ih =>
    have hp := hinner p c
    simp only [tryEach]
    split
    next reading hout =>
      split
      next => exact ⟨hp.balanced, by simp⟩
      next hmatch =>
        apply (ih failure).after hp.balanced
        intro hfailure
        use hfailure, (hp.of_ok reading hout (by simpa using hmatch)).2
    next reason hout =>
      split
      next =>
        apply (ih _).after (hp.balanced.append (.event rfl))
        simp
      next => exact ⟨hp.balanced, by simp⟩

theorem tryRules_isSilent (rules : List Nonterminal) (c : Cursor) :
  (tryRules s inner rules c).IsSilent (fun found => found = none) True
  := by
  unfold tryRules
  split
  next ps _ =>
    have heach := tryEach_isSilent hinner ps none c
    refine ⟨heach.balanced, fun found hout hnone => ⟨trivial, (heach.of_ok found hout hnone).2⟩⟩
  next => apply isSilent_fail

/-! ## Items -/

theorem matchOnce_isSilent (rule : Nonterminal) (target : Target) (c : Cursor) :
  (matchOnce s inner rule target c).IsSilent (fun found => ∀ piece ∈ found, piece.trees = []) True
  := by
  cases target with
  | tokens kinds excluded =>
    simp only [matchOnce]
    split
    · split <;> apply isSilent_pure fun _ => trivial
    · apply isSilent_pure fun _ => trivial
  | rules heads hoisted =>
    simp only [matchOnce]
    apply (tryRules_isSilent hinner heads.members c).bind (tryRules_finds fun p _ => finds_true _)
    rintro (_ | reading) hfound
    · apply isSilent_pure fun _ => rfl
    · apply isSilent_pure
      intro hnil
      have hmatch := (hfound reading rfl).1
      apply absurd (hnil _ rfl) (graft_ne_nil (by simpa [Reading.isMatch] using hmatch) rule hoisted)

omit hinner in
theorem matchMany_isSilent {once : Cursor → Attempt (Option Piece)}
    (honce : ∀ c, (once c).IsSilent (fun found => ∀ piece ∈ found, piece.trees = []) True) (c : Cursor) :
  (matchMany once c).IsSilent (fun found => found.count = 0 ∨ found.trees = []) True
  := by
  induction hc : c.rest.length using Nat.strong_induction_on generalizing c with
  | _ n ih =>
    rw [matchMany]
    apply (honce c).bind (finds_true _)
    rintro (_ | piece) _
    · apply isSilent_pure
      simp
    · simp only
      split
      next hlt =>
        apply ((ih _ (hc ▸ hlt) piece.cursor rfl).and (∀ p ∈ some piece, p.trees = [])).bind (finds_true _)
        intro others _
        apply isSilent_pure
        simp +contextual
      next =>
        apply isSilent_pure
        simp

theorem matchItem_isSilent (rule : Nonterminal) (item : Item) (c : Cursor) :
  (matchItem s inner rule item c).IsSilent (fun found => found.count = 0 ∨ found.trees = []) True
  := by
  unfold matchItem
  split
  · apply matchMany_isSilent
    apply matchOnce_isSilent hinner
  · apply (matchOnce_isSilent hinner rule item.target c).bind (finds_true _)
    rintro (_ | piece) _
    · apply isSilent_pure
      simp
    · apply isSilent_pure
      simp

theorem lookAhead_isSilent (target : Target) (c : Cursor) :
  (lookAhead s inner target c).IsSilent (fun _ => True) True
  := by
  cases target with
  | tokens kinds excluded =>
    simp only [lookAhead]
    split <;> apply isSilent_pure fun _ => trivial
  | rules heads hoisted =>
    have hfound := (tryRules_isSilent (s := s) hinner heads.members c).balanced
    exact ⟨.lookAhead hfound, fun _ _ _ => ⟨trivial, hfound.raised_lookAhead⟩⟩

/-! ## Productions -/

/-- Continuations keep nothing only when nothing was kept before them. -/
theorem matchAll_isSilent (rule : Nonterminal) (items : List Item) (before : Piece) :
  (matchAll s inner rule items before).IsSilent (fun whole => whole.trees = []) (before.trees = [])
  := by
  induction items generalizing before with
  | nil => apply isSilent_pure id
  | cons item items ih =>
    rw [matchAll]
    apply ((matchItem_isSilent hinner rule item before.cursor).and (before.trees = [])).bind (finds_true _)
    intro found _
    have hothers : (matchAll s inner rule items ⟨before.trees ++ found.trees, found.cursor⟩).IsSilent
        (fun whole => whole.trees = []) ((found.count = 0 ∨ found.trees = []) ∧ before.trees = []) := by
      apply (ih ⟨before.trees ++ found.trees, found.cursor⟩).imp
      intro hnil
      obtain ⟨hbefore, hfound⟩ := List.append_eq_nil_iff.mp hnil
      use Or.inr hfound
    split
    · apply isSilent_raise
    · split
      · apply ((lookAhead_isSilent hinner item.target found.cursor).and _).bind (finds_true _)
        rintro (_ | _) _
        · apply hothers.imp fun hfound => ⟨trivial, hfound⟩
        · apply isSilent_raise
      · apply hothers

theorem matchProduction_isSilent (depth : Nat) (p : Production) (c : Cursor) :
  (matchProduction s inner depth p c).IsSilent (fun reading => reading.isMatch = false) True
  := by
  refine IsSilent.after_note ?_ rfl rfl
  apply (matchItem_isSilent hinner p.rule p.opening c).bind (finds_true _)
  intro opening _
  split
  next hcount => apply isSilent_pure fun _ => Or.inl hcount
  next =>
    apply ((matchAll_isSilent hinner p.rule p.continuations opening.toPiece).imp Or.inr).bind (finds_true _)
    intro whole _
    split
    next hempty => apply isSilent_pure fun _ => List.isEmpty_iff.mp hempty
    next hempty =>
      refine IsSilent.after_note ?_ rfl rfl
      apply isSilent_pure
      simp [Reading.isMatch, Node.isEmpty, hempty]

end

/-- A production that does not match has raised no mismatch outside of a look-ahead. -/
theorem evaluate_isSilent (s : Setting) (room depth : Nat) (p : Production) (c : Cursor) :
  (evaluate s room depth p c).IsSilent (fun reading => reading.isMatch = false) True
  := by
  induction room generalizing depth p c with
  | zero => apply isSilent_fail
  | succ room ih => apply matchProduction_isSilent (ih (depth + 1))

end LayoutGrammar
