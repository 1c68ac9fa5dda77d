import LayoutGrammar.Evaluation.Session
import Mathlib.Order.Lattice
import Mathlib.Tactic.Use

/-!
# What productions build

Whatever a production builds is put together from leaves and from the nodes of other productions.  A
relation between trees and the places before and after the tokens they were built from is a `Growth` when
it holds of what a single match adds and goes over from two stretches of tokens to both in a row.  A growth
holds of everything that evaluations find (`Growth.evaluate_finds`).
-/

namespace LayoutGrammar

/-! ## What attempts find -/

namespace Attempt

variable {α β : Type} {P Q : α → Prop}

/-- Whether something holds of any value that an attempt finds. -/
structure Finds (attempt : Attempt α) (P : α → Prop) : Prop where
  /-- It holds of the outcome, if that is a value. -/
  of_ok : ∀ value, attempt.outcome = .ok value → P value

theorem finds_true (attempt : Attempt α) :
  attempt.Finds fun _ => True
  := ⟨fun _ _ => trivial⟩

theorem finds_pure {value : α} (h : P value) :
  (pure value : Attempt α).Finds P
  := by
  constructor
  rintro _ ⟨⟩
  apply h

theorem finds_of_error {attempt : Attempt α} {reason : Diagnostic}
    (h : attempt.outcome = .error reason) (P : α → Prop) :
  attempt.Finds P
  := by
  constructor
  simp [h]

theorem finds_raise (mismatch : Diagnostic) (P : α → Prop) :
  (raise mismatch).Finds P
  := finds_of_error rfl P

theorem Finds.mono {attempt : Attempt α} (h : attempt.Finds P) (himp : ∀ value, P value → Q value) :
  attempt.Finds Q
  := ⟨fun value hvalue => himp value (h.of_ok value hvalue)⟩

theorem Finds.after {attempt : Attempt α} (h : attempt.Finds P) (journal : Journal) :
  (attempt.after journal).Finds P
  := ⟨h.of_ok⟩

/-- What is found by an attempt and then one with what it found. -/
theorem Finds.bind {attempt : Attempt α} {next : α → Attempt β} {Q : β → Prop} (h : attempt.Finds P)
    (hnext : ∀ value, P value → (next value).Finds Q) :
  (attempt >>= next).Finds Q
  := by
  constructor
  intro value hvalue
  rw [outcome_bind] at hvalue
  cases hout : attempt.outcome with
  | ok first =>
    rw [hout] at hvalue
    apply (hnext first (h.of_ok first hout)).of_ok value hvalue
  | error reason =>
    rw [hout] at hvalue
    cases hvalue

/-- An event that happens before an attempt has no bearing on what is found. -/
theorem Finds.after_note {next : Attempt α} (h : next.Finds P) (e : Event) :
  (do note e; next).Finds P
  := by
  apply (note e).finds_true.bind
  intro _ _
  apply h

end Attempt

/-! ## Growths -/

/-- The productions whose items all have targets of some sort. -/
def Production.Allows (p : Production) (allowed : Target → Prop) : Prop :=
  ∀ item ∈ p.items, allowed item.target

/-- The grammars whose productions all have targets of some sort. -/
def Grammar.Allows (g : Grammar) (allowed : Target → Prop) : Prop :=
  ∀ p ∈ g.productions, p.Allows allowed

/-- A relation that holds, for a rule, of the trees that are built for it from one place to another, as long
as the targets that are matched are of some sort. -/
structure Growth (allowed : Target → Prop) (P : Nonterminal → Cursor → List Tree → Cursor → Prop) :
    Prop where
  /-- No trees are built from no tokens. -/
  nothing : ∀ rule c, P rule c [] c
  /-- What is built from one stretch of tokens, and from the one after it. -/
  append : ∀ {rule c d e trees others}, P rule c trees d → P rule d others e →
    P rule c (trees ++ others) e
  /-- A token that is matched is a leaf, unless it is excluded. -/
  token : ∀ {rule kinds excluded c token rest}, allowed (.tokens kinds excluded) →
    c.rest = token :: rest → token.kind ∈ kinds.members →
    P rule c (if excluded then [] else [.leaf token]) (c.advance 1)
  /-- A node that is matched is nested, or its children are taken in its place. -/
  graft : ∀ {rule heads hoisted c d} {node : Node}, allowed (.rules heads hoisted) →
    node.rule ∈ heads.members → node.isEmpty = false → P node.rule c node.children d →
    P rule c (graft rule hoisted node) d

/-- What a production read at a place, when a relation holds of the children of its node. -/
structure Reading.Grows (P : Nonterminal → Cursor → List Tree → Cursor → Prop) (p : Production)
    (c : Cursor) (reading : Reading) : Prop where
  /-- The node is tagged by the rule of the production. -/
  rule_eq : reading.node.rule = p.rule
  /-- The children were built from the tokens that were read. -/
  children : P p.rule c reading.node.children (c.advance reading.consumed)

/-- What part of a production of a rule read from a place on, when a relation holds of its trees. -/
structure Piece.Grows (P : Nonterminal → Cursor → List Tree → Cursor → Prop) (rule : Nonterminal)
    (c : Cursor) (piece : Piece) : Prop where
  /-- A number of tokens was read. -/
  advance : ∃ count, piece.cursor = c.advance count
  /-- The trees were built from them. -/
  trees : P rule c piece.trees piece.cursor

theorem Grammar.mem_of_candidates {g : Grammar} {rules : List Nonterminal} {ps : List Production}
    (h : g.candidates rules = .ok ps) {p : Production} (hp : p ∈ ps) :
  p ∈ g.productions ∧ p.rule ∈ rules
  := by
  induction rules generalizing ps with
  | nil =>
    cases h
    cases hp
  | cons rule others ih =>
    rw [candidates] at h
    split at h
    · cases hothers : g.candidates others with
      | error reason => simp [hothers, Except.map] at h
      | ok qs =>
        obtain rfl : g.alternatives rule ++ qs = ps := by simpa [hothers, Except.map] using h
        rcases List.mem_append.mp hp with hp | hp
        · obtain ⟨hmem, hrule⟩ := by simpa [alternatives] using hp
          simp [hmem, hrule]
        · obtain ⟨hmem, hrule⟩ := ih hothers hp
          simp [hmem, hrule]
    · cases h

section

variable {s : Setting} {inner : Evaluator}

/-- What a choice finds is a match of one of its alternatives. -/
theorem tryEach_finds {Q : Production → Reading → Prop} {ps : List Production} {c : Cursor}
    (hinner : ∀ p ∈ ps, (inner p c).Finds (Q p)) (failure : Option Diagnostic) :
  (tryEach inner ps failure c).Finds fun found =>
    ∀ reading ∈ found, reading.isMatch = true ∧ ∃ p ∈ ps, Q p reading
  := by
  induction ps generalizing failure with
  | nil =>
    cases failure with
    | none =>
      apply Attempt.finds_pure
      simp
    | some mismatch => apply Attempt.finds_of_error rfl
  | cons p others ih =>
    have hothers (failure : Option Diagnostic) :
        (tryEach inner others failure c).Finds fun found =>
          ∀ reading ∈ found, reading.isMatch = true ∧ ∃ q ∈ p :: others, Q q reading := by
      apply (ih (fun q hq => hinner q (List.mem_cons_of_mem p hq)) failure).mono
      intro found hfound reading hreading
      obtain ⟨hmatch, q, hq, hread⟩ := hfound reading hreading
      use hmatch, q, List.mem_cons_of_mem p hq
    simp only [tryEach]
    split
    next reading hout =>
      split
      next hmatch =>
        constructor
        rintro _ ⟨⟩ _ ⟨⟩
        use hmatch, p, List.mem_cons_self
        apply (hinner p List.mem_cons_self).of_ok reading hout
      next => apply (hothers failure).after
    next reason hout =>
      split
      next => apply (hothers _).after
      next => apply Attempt.finds_of_error rfl

/-- What a choice between nonterminals finds is a match of an alternative of one of them. -/
theorem tryRules_finds {Q : Production → Reading → Prop} {rules : List Nonterminal} {c : Cursor}
    (hinner : ∀ p ∈ s.grammar.productions, (inner p c).Finds (Q p)) :
  (tryRules s inner rules c).Finds fun found =>
    ∀ reading ∈ found, reading.isMatch = true ∧ ∃ p, p.rule ∈ rules ∧ Q p reading
  := by
  unfold tryRules
  split
  next ps hps =>
    have hmem {p : Production} (hp : p ∈ ps) := Grammar.mem_of_candidates hps hp
    apply (tryEach_finds (fun p hp => hinner p (hmem hp).1) none).mono
    intro found hfound reading hreading
    obtain ⟨hmatch, p, hp, hread⟩ := hfound reading hreading
    use hmatch, p, (hmem hp).2
  next => apply Attempt.finds_of_error rfl

variable {allowed : Target → Prop} {P : Nonterminal → Cursor → List Tree → Cursor → Prop}

theorem Growth.piece_nothing (h : Growth allowed P) (rule : Nonterminal) (c : Cursor) :
  Piece.Grows P rule c ⟨[], c⟩
  := ⟨⟨0, rfl⟩, h.nothing rule c⟩

theorem Growth.piece_append (h : Growth allowed P) {rule : Nonterminal} {c : Cursor}
    {first second : Piece} (hfirst : Piece.Grows P rule c first)
    (hsecond : Piece.Grows P rule first.cursor second) :
  Piece.Grows P rule c ⟨first.trees ++ second.trees, second.cursor⟩
  := by
  obtain ⟨count, hcount⟩ := hfirst.advance
  obtain ⟨more, hmore⟩ := hsecond.advance
  constructor
  · use count + more
    simp [hmore, hcount]
  · apply h.append hfirst.trees hsecond.trees

variable (h : Growth allowed P)
  (hinner : ∀ p ∈ s.grammar.productions, ∀ c, (inner p c).Finds (Reading.Grows P p c))
include h hinner

theorem Growth.matchOnce_finds (rule : Nonterminal) {target : Target} (htarget : allowed target)
    (c : Cursor) :
  (matchOnce s inner rule target c).Finds fun found => ∀ piece ∈ found, Piece.Grows P rule c piece
  := by
  cases target with
  | tokens kinds excluded =>
    simp only [matchOnce]
    split
    next token rest hrest =>
      split
      next hkind =>
        apply Attempt.finds_pure
        rintro _ ⟨⟩
        use ⟨1, rfl⟩
        apply h.token htarget hrest hkind
      next => apply Attempt.finds_pure (by simp)
    next => apply Attempt.finds_pure (by simp)
  | rules heads hoisted =>
    simp only [matchOnce]
    apply (tryRules_finds fun p hp => hinner p hp c).bind
    rintro (_ | reading) hfound
    · apply Attempt.finds_pure (by simp)
    · obtain ⟨hmatch, p, hp, hread⟩ := hfound reading rfl
      have hchildren := hread.children
      rw [← hread.rule_eq] at hp hchildren
      apply Attempt.finds_pure
      rintro _ ⟨⟩
      use ⟨reading.consumed, rfl⟩
      apply h.graft htarget hp (by simpa [Reading.isMatch] using hmatch) hchildren

omit hinner in
theorem Growth.matchMany_finds {rule : Nonterminal} {once : Cursor → Attempt (Option Piece)}
    (honce : ∀ c, (once c).Finds fun found => ∀ piece ∈ found, Piece.Grows P rule c piece) (c : Cursor) :
  (matchMany once c).Finds fun found => Piece.Grows P rule c found.toPiece
  := by
  induction hc : c.rest.length using Nat.strong_induction_on generalizing c with
  | _ n ih =>
    rw [matchMany]
    apply (honce c).bind
    rintro (_ | piece) hpiece
    · apply Attempt.finds_pure
      apply h.piece_nothing rule c
    · simp only
      split
      next hlt =>
        apply (ih _ (hc ▸ hlt) piece.cursor rfl).bind
        intro others hothers
        apply Attempt.finds_pure
        apply h.piece_append (hpiece piece rfl) hothers
      next =>
        apply Attempt.finds_pure
        apply hpiece piece rfl

theorem Growth.matchItem_finds (rule : Nonterminal) {item : Item} (hitem : allowed item.target)
    (c : Cursor) :
  (matchItem s inner rule item c).Finds fun found => Piece.Grows P rule c found.toPiece
  := by
  unfold matchItem
  split
  · apply h.matchMany_finds
    apply h.matchOnce_finds hinner rule hitem
  · apply (h.matchOnce_finds hinner rule hitem c).bind
    rintro (_ | piece) hpiece
    · apply Attempt.finds_pure
      apply h.piece_nothing rule c
    · apply Attempt.finds_pure
      apply hpiece piece rfl

theorem Growth.matchAll_finds (rule : Nonterminal) {c : Cursor} {items : List Item}
    (hitems : ∀ item ∈ items, allowed item.target) {before : Piece}
    (hbefore : Piece.Grows P rule c before) :
  (matchAll s inner rule items before).Finds (Piece.Grows P rule c)
  := by
  induction items generalizing before with
  | nil => apply Attempt.finds_pure hbefore
  | cons item items ih =>
    obtain ⟨hitem, hothers⟩ := List.forall_mem_cons.mp hitems
    rw [matchAll]
    apply (h.matchItem_finds hinner rule hitem before.cursor).bind
    intro found hfound
    have hboth := h.piece_append hbefore hfound
    split
    · apply Attempt.finds_raise
    · split
      · have hlook : (lookAhead s inner item.target found.cursor).Finds fun _ => True :=
          ⟨fun _ _ => trivial⟩
        apply hlook.bind
        rintro (_ | _) -
        · apply ih hothers hboth
        · apply Attempt.finds_raise
      · apply ih hothers hboth

theorem Growth.matchProduction_finds (depth : Nat) {p : Production} (hp : p.Allows allowed)
    (c : Cursor) :
  (matchProduction s inner depth p c).Finds (Reading.Grows P p c)
  := by
  have hnothing : Reading.Grows P p c (.nothing p.rule) := ⟨rfl, h.nothing p.rule c⟩
  obtain ⟨hopening, hothers⟩ := List.forall_mem_cons.mp hp
  apply Attempt.Finds.after_note
  apply (h.matchItem_finds hinner p.rule hopening c).bind
  intro opening hfound
  split
  · apply Attempt.finds_pure hnothing
  · apply (h.matchAll_finds hinner p.rule hothers hfound).bind
    intro whole hwhole
    split
    · apply Attempt.finds_pure hnothing
    · apply Attempt.Finds.after_note
      apply Attempt.finds_pure
      obtain ⟨count, hcount⟩ := hwhole.advance
      use rfl
      simpa [hcount, Cursor.advance] using hwhole.trees

omit hinner in
/-- A growth holds of whatever a production reads. -/
theorem Growth.evaluate_finds (hgrammar : s.grammar.Allows allowed) (room depth : Nat) {p : Production}
    (hp : p.Allows allowed) (c : Cursor) :
  (evaluate s room depth p c).Finds (Reading.Grows P p c)
  := by
  induction room generalizing depth p c with
  | zero => apply Attempt.finds_of_error rfl
  | succ room ih =>
    apply h.matchProduction_finds _ depth hp
    intro q hq c
    apply ih (depth + 1) (hgrammar q hq) c

end

/-- A session finds what an attempt finds. -/
theorem Session.outcome_conclude_eq_ok_iff {α : Type} {s : Session} {attempt : Attempt α} {value : α} :
  (s.conclude attempt).1.outcome = .ok value ↔ attempt.outcome = .ok value
  := by
  simp only [conclude]
  cases attempt.outcome <;> simp [Except.mapError]

/-- Whatever a session has seen before, a growth holds of what it reads. -/
theorem Growth.of_evaluate {allowed : Target → Prop}
    {P : Nonterminal → Cursor → List Tree → Cursor → Prop} (h : Growth allowed P) {s : Session}
    (hgrammar : s.grammar.Allows allowed) {p : Production} (hp : p.Allows allowed) {start : Nat}
    {reading : Reading} (hout : (s.evaluate p start).1.outcome = .ok reading) :
  Reading.Grows P p (s.cursor start) reading
  := by
  have hfinds := h.evaluate_finds (s := s.setting) hgrammar (s.limit + 1) 0 hp (s.cursor start)
  apply hfinds.of_ok
  apply Session.outcome_conclude_eq_ok_iff.mp hout

end LayoutGrammar
