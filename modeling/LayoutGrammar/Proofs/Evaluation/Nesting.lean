import LayoutGrammar.Proofs.Evaluation.Mismatches
import LayoutGrammar.Proofs.Evaluation.Progress

/-!
# Nesting

Which events there are in the journal of an evaluation.  The evaluation of a production calls for others, one
level deeper: at the place where it started for its opening item, and further on for its continuations, since
every match of an item reads a token.  A `Nesting` tells which calls and which events there may be, if one
call leads to others of the sort only; evaluations then have no other events (`Nesting.evaluate_logs`).
-/

namespace LayoutGrammar

/-! ## What attempts log -/

namespace Attempt

variable {α β : Type} {E : Event → Prop}

/-- Whether all events of an attempt are of some sort. -/
structure Logs (attempt : Attempt α) (E : Event → Prop) : Prop where
  /-- They are the events of its journal. -/
  of_mem : ∀ e ∈ attempt.journal.events, E e

theorem logs_of_empty {attempt : Attempt α} (h : attempt.journal = .empty) :
  attempt.Logs E
  := by
  constructor
  simp [h]

theorem logs_pure (value : α) :
  (pure value : Attempt α).Logs E
  := logs_of_empty rfl

theorem logs_raise {mismatch : Diagnostic} (h : E (.raised mismatch)) :
  (raise mismatch : Attempt α).Logs E
  := by
  constructor
  simpa [raise] using h

theorem Logs.after {attempt : Attempt α} (h : attempt.Logs E) {j : Journal} (hj : ∀ e ∈ j.events, E e) :
  (attempt.after j).Logs E
  := by
  constructor
  rw [Attempt.after, Journal.events_append]
  apply List.forall_mem_append.mpr ⟨hj, h.of_mem⟩

/-- What is logged by an attempt and then one with what it found. -/
theorem Logs.bind {attempt : Attempt α} {next : α → Attempt β} {P : α → Prop} (h : attempt.Logs E)
    (hfinds : attempt.Finds P) (hnext : ∀ value, P value → (next value).Logs E) :
  (attempt >>= next).Logs E
  := by
  cases hout : attempt.outcome with
  | ok value =>
    rw [bind_of_ok hout]
    apply (hnext value (hfinds.of_ok value hout)).after h.of_mem
  | error reason =>
    rw [bind_of_error hout]
    exact ⟨h.of_mem⟩

theorem Logs.after_note {next : Attempt α} {e : Event} (h : next.Logs E) (he : E e) :
  (do note e; next).Logs E
  := by
  have hnote : (note e).Logs E := ⟨by simpa [note] using he⟩
  apply hnote.bind (finds_true _)
  intro _ _
  apply h

end Attempt

/-! ## Nestings -/

/-- Whether an item is looked ahead for where it continues a production. -/
def Item.looksAhead : Item → Bool
  | ⟨.rules .., .atMostOnce⟩ => true
  | _ => false

/-- Whether a production looks ahead for one of its continuations. -/
def Production.looksAhead (p : Production) : Bool := p.continuations.any Item.looksAhead

/-- The calls for productions of a grammar at depths and places, and the events, that there are when
there are no others to begin with. -/
structure Nesting (g : Grammar) (Calls : Nat → Production → Cursor → Prop) (E : Event → Prop) : Prop where
  /-- A call is an event. -/
  entered : ∀ {depth p c}, Calls depth p c → E (.entered p.rule c.index depth)
  /-- The opening item of a production calls for others from its place on. -/
  opening : ∀ {depth p c}, Calls depth p c → ∀ q ∈ g.productions,
    q.rule ∈ p.opening.target.references → ∀ d : Cursor, c.index ≤ d.index → Calls (depth + 1) q d
  /-- The continuations of a production call for others beyond its place. -/
  continuation : ∀ {depth p c}, Calls depth p c → ∀ item ∈ p.continuations, ∀ q ∈ g.productions,
    q.rule ∈ item.target.references → ∀ d : Cursor, c.index < d.index → Calls (depth + 1) q d
  /-- A look-ahead is for a continuation. -/
  ahead : ∀ {depth p c}, Calls depth p c → p.looksAhead = true → E .lookAheadOpened ∧ E .lookAheadClosed
  /-- All other events may be. -/
  other : ∀ {e : Event}, e.isPlain = true → (∀ rule index depth, e ≠ .entered rule index depth) → E e

section

variable {s : Setting} {inner : Evaluator} {E : Event → Prop}

theorem tryEach_logs {ps : List Production} {c : Cursor} (hdiscarded : ∀ d, E (.discarded d))
    (hinner : ∀ p ∈ ps, (inner p c).Logs E) (failure : Option Diagnostic) :
  (tryEach inner ps failure c).Logs E
  := by
  induction ps generalizing failure with
  | nil => cases failure <;> apply Attempt.logs_of_empty rfl
  | cons p others ih =>
    have hp := hinner p List.mem_cons_self
    have hothers := ih fun q hq => hinner q (List.mem_cons_of_mem p hq)
    simp only [tryEach]
    split
    · split
      · exact ⟨hp.of_mem⟩
      · apply (hothers failure).after hp.of_mem
    · split
      next reason _ _ =>
        apply (hothers _).after
        rw [Journal.events_append]
        apply List.forall_mem_append.mpr ⟨hp.of_mem, by simpa using hdiscarded reason⟩
      next => exact ⟨hp.of_mem⟩

theorem tryRules_logs {rules : List Nonterminal} {c : Cursor} (hdiscarded : ∀ d, E (.discarded d))
    (hinner : ∀ q ∈ s.grammar.productions, q.rule ∈ rules → (inner q c).Logs E) :
  (tryRules s inner rules c).Logs E
  := by
  unfold tryRules
  split
  next ps hps =>
    apply tryEach_logs hdiscarded
    intro q hq
    obtain ⟨hmem, hrule⟩ := Grammar.mem_of_candidates hps hq
    apply hinner q hmem hrule
  next => apply Attempt.logs_of_empty rfl

theorem matchOnce_logs {rule : Nonterminal} {target : Target} {c : Cursor}
    (hdiscarded : ∀ d, E (.discarded d))
    (hinner : ∀ q ∈ s.grammar.productions, q.rule ∈ target.references → (inner q c).Logs E) :
  (matchOnce s inner rule target c).Logs E
  := by
  cases target with
  | tokens kinds excluded =>
    simp only [matchOnce]
    split
    · split <;> apply Attempt.logs_pure
    · apply Attempt.logs_pure
  | rules heads hoisted =>
    simp only [matchOnce]
    apply (tryRules_logs hdiscarded hinner).bind (Attempt.finds_true _)
    rintro (_ | reading) _ <;> apply Attempt.logs_pure

/-- Matches one after the other are all at the first place or beyond, among the tokens that are left. -/
theorem matchMany_logs {once : Cursor → Attempt (Option Piece)} {c : Cursor}
    (honce : ∀ count ≤ c.rest.length, (once (c.advance count)).Logs E)
    (hfinds : ∀ d, (once d).Finds fun found => ∀ piece ∈ found, piece.Advances d) :
  (matchMany once c).Logs E
  := by
  induction hc : c.rest.length using Nat.strong_induction_on generalizing c with
  | _ n ih =>
    rw [matchMany]
    apply (honce 0 (Nat.zero_le _)).bind (hfinds c)
    rintro (_ | piece) hpiece
    · apply Attempt.logs_pure
    · simp only
      split
      next hlt =>
        obtain ⟨count, -, hle, hcursor⟩ := (hpiece piece rfl).cursor
        have hlater (more : Nat) (hmore : more ≤ piece.cursor.rest.length) :
            (once (piece.cursor.advance more)).Logs E := by
          rw [hcursor, Cursor.rest_advance, List.length_drop] at hmore
          rw [hcursor, Cursor.advance_advance]
          apply honce
          omega
        apply (ih _ (hc ▸ hlt) hlater rfl).bind (Attempt.finds_true _)
        intro others _
        apply Attempt.logs_pure
      next => apply Attempt.logs_pure

/-- Every match of an item goes on by a token at least, among the tokens that are left. -/
theorem matchMany_finds_advance {once : Cursor → Attempt (Option Piece)}
    (hfinds : ∀ d, (once d).Finds fun found => ∀ piece ∈ found, piece.Advances d) (c : Cursor) :
  (matchMany once c).Finds fun found =>
    ∃ count, found.count ≤ count ∧ count ≤ c.rest.length ∧ found.cursor = c.advance count
  := by
  induction hc : c.rest.length using Nat.strong_induction_on generalizing c with
  | _ n ih =>
    rw [matchMany]
    apply (hfinds c).bind
    rintro (_ | piece) hpiece
    · apply Attempt.finds_pure
      use 0
      simp
    · obtain ⟨count, hpos, hle, hcursor⟩ := (hpiece piece rfl).cursor
      simp only
      split
      next hlt =>
        apply (ih _ (hc ▸ hlt) piece.cursor rfl).bind
        rintro others ⟨more, hothers, hmore, hend⟩
        rw [hcursor, Cursor.rest_advance, List.length_drop] at hmore
        apply Attempt.finds_pure
        refine ⟨count + more, ?_, by omega, ?_⟩
        · simp only
          omega
        · simp only [hend, hcursor, Cursor.advance_advance]
      next =>
        apply Attempt.finds_pure
        refine ⟨count, hpos, by omega, hcursor⟩

end

section

variable {s : Setting} {room depth : Nat} {E : Event → Prop}

theorem matchItem_finds_advance (rule : Nonterminal) (item : Item) (c : Cursor) :
  (matchItem s (evaluate s room depth) rule item c).Finds fun found =>
    ∃ count, found.count ≤ count ∧ count ≤ c.rest.length ∧ found.cursor = c.advance count
  := by
  unfold matchItem
  split
  · apply matchMany_finds_advance
    apply matchOnce_finds_advances
  · apply (matchOnce_finds_advances s room depth rule item.target c).bind
    rintro (_ | piece) hpiece
    · apply Attempt.finds_pure
      use 0
      simp
    · obtain ⟨count, hpos, hle, hcursor⟩ := (hpiece piece rfl).cursor
      apply Attempt.finds_pure
      use count, hpos, hle, hcursor

theorem matchItem_logs {rule : Nonterminal} {item : Item} {c : Cursor}
    (hdiscarded : ∀ d, E (.discarded d))
    (hinner : ∀ q ∈ s.grammar.productions, q.rule ∈ item.target.references →
      ∀ count ≤ c.rest.length, (evaluate s room depth q (c.advance count)).Logs E) :
  (matchItem s (evaluate s room depth) rule item c).Logs E
  := by
  have honce (count : Nat) (hcount : count ≤ c.rest.length) :
      (matchOnce s (evaluate s room depth) rule item.target (c.advance count)).Logs E :=
    matchOnce_logs hdiscarded fun q hq hrule => hinner q hq hrule count hcount
  unfold matchItem
  split
  · apply matchMany_logs honce
    apply matchOnce_finds_advances
  · apply (honce 0 (Nat.zero_le _)).bind (Attempt.finds_true _)
    rintro (_ | piece) _ <;> apply Attempt.logs_pure

theorem lookAhead_logs {target : Target} {inner : Evaluator} {c : Cursor}
    (hdiscarded : ∀ d, E (.discarded d))
    (hahead : ∀ heads hoisted, target = .rules heads hoisted → E .lookAheadOpened ∧ E .lookAheadClosed)
    (hinner : ∀ q ∈ s.grammar.productions, q.rule ∈ target.references → (inner q c).Logs E) :
  (lookAhead s inner target c).Logs E
  := by
  cases target with
  | tokens kinds excluded =>
    simp only [lookAhead]
    split <;> apply Attempt.logs_pure
  | rules heads hoisted =>
    obtain ⟨hopened, hclosed⟩ := hahead heads hoisted rfl
    have hfound : (tryRules s inner heads.members c).Logs E := tryRules_logs hdiscarded hinner
    constructor
    simp only [lookAhead, Journal.events_append, Journal.events_event, List.mem_append, List.mem_singleton]
    rintro e ((rfl | he) | rfl)
    · apply hopened
    · apply hfound.of_mem e he
    · apply hclosed

/-! ## Productions -/

variable {Calls : Nat → Production → Cursor → Prop} (h : Nesting s.grammar Calls E)
include h

theorem Nesting.discarded (d : Diagnostic) :
  E (.discarded d)
  := h.other rfl (by simp)

variable (ih : ∀ q d, Calls (depth + 1) q d → (evaluate s room (depth + 1) q d).Logs E)
include ih

theorem Nesting.matchAll_logs {p : Production} {c : Cursor} (hcall : Calls depth p c) {items : List Item}
    (hitems : ∀ item ∈ items, item ∈ p.continuations) {before : Piece}
    (hbefore : c.index < before.cursor.index) :
  (matchAll s (evaluate s room (depth + 1)) p.rule items before).Logs E
  := by
  induction items generalizing before with
  | nil => apply Attempt.logs_pure
  | cons item items ih' =>
    have hitem := hitems item List.mem_cons_self
    have hcalls {q : Production} (hq : q ∈ s.grammar.productions)
        (hrule : q.rule ∈ item.target.references) {d : Cursor} (hd : c.index < d.index) :
        (evaluate s room (depth + 1) q d).Logs E :=
      ih q d (h.continuation hcall item hitem q hq hrule d hd)
    rw [matchAll]
    apply Attempt.Logs.bind _ (matchItem_finds_advance p.rule item before.cursor)
    · rintro found ⟨count, -, -, hcursor⟩
      have hbeyond : c.index < found.cursor.index := by
        rw [hcursor, Cursor.index_advance]
        omega
      have hothers : (matchAll s (evaluate s room (depth + 1)) p.rule items
          ⟨before.trees ++ found.trees, found.cursor⟩).Logs E :=
        ih' (fun other hother => hitems other (List.mem_cons_of_mem item hother)) hbeyond
      have hraise (mismatch : Diagnostic) : (Attempt.raise mismatch : Attempt Piece).Logs E :=
        Attempt.logs_raise (h.other rfl (by simp))
      split
      · apply hraise
      · split
        next hmost =>
          apply Attempt.Logs.bind _ (Attempt.finds_true _)
          · rintro (_ | _) _
            · apply hothers
            · apply hraise
          · apply lookAhead_logs h.discarded
            · intro heads hoisted htarget
              apply h.ahead hcall
              apply List.any_eq_true.mpr ⟨item, hitem, _⟩
              obtain ⟨target, repetition⟩ := item
              obtain rfl : repetition = .atMostOnce := hmost.1
              obtain rfl : target = .rules heads hoisted := htarget
              rfl
            · intro q hq hrule
              apply hcalls hq hrule hbeyond
        next => apply hothers
    · apply matchItem_logs h.discarded
      intro q hq hrule count _
      apply hcalls hq hrule
      rw [Cursor.index_advance]
      omega

theorem Nesting.matchProduction_logs {p : Production} {c : Cursor} (hcall : Calls depth p c) :
  (matchProduction s (evaluate s room (depth + 1)) depth p c).Logs E
  := by
  refine Attempt.Logs.after_note ?_ (h.entered hcall)
  apply Attempt.Logs.bind _ (matchItem_finds_advance p.rule p.opening c)
  · rintro opening ⟨count, hopening, -, hcursor⟩
    split
    · apply Attempt.logs_pure
    next hcount =>
      apply Attempt.Logs.bind _ (Attempt.finds_true _)
      · intro whole _
        split
        · apply Attempt.logs_pure
        · refine Attempt.Logs.after_note ?_ (h.other rfl (by simp))
          apply Attempt.logs_pure
      · apply h.matchAll_logs ih hcall fun _ hitem => hitem
        rw [hcursor, Cursor.index_advance]
        omega
  · apply matchItem_logs h.discarded
    intro q hq hrule count _
    apply ih q _ (h.opening hcall q hq hrule _ (Nat.le_add_right ..))

omit ih in
/-- The events of an evaluation are those of the nesting of its call. -/
theorem Nesting.evaluate_logs (room : Nat) {depth : Nat} {p : Production} {c : Cursor}
    (hcall : Calls depth p c) :
  (evaluate s room depth p c).Logs E
  := by
  induction room generalizing depth p c with
  | zero => apply Attempt.logs_of_empty rfl
  | succ room ih => apply h.matchProduction_logs (fun q d => ih) hcall

end

end LayoutGrammar
