import LayoutGrammar.Proofs.Evaluation.Correspondence

/-!
# Beyond the edge

When a correspondence has an edge, there is no way back from beyond it: whatever starts there escapes
(`matchItem_escapes`, `matchAll_escapes`), and so does a production whose matches stop there, as long as it keeps
something of them (`finish_escapes`).
-/

namespace LayoutGrammar

/-! ## What is kept of matches -/

section

variable {s : Setting} {inner : Evaluator}

/-- Something is kept of a match of a target that is not excluded. -/
theorem matchOnce_finds_ne_nil (rule : Nonterminal) {target : Target} (h : target.isExcluded = false)
    (c : Cursor) :
  (matchOnce s inner rule target c).Finds fun found => ∀ piece ∈ found, piece.trees ≠ []
  := by
  cases target with
  | tokens kinds excluded =>
    obtain rfl : excluded = false := h
    simp only [matchOnce]
    split
    · split <;> apply Attempt.finds_pure <;> simp
    · apply Attempt.finds_pure
      simp
  | rules heads hoisted =>
    simp only [matchOnce]
    apply (tryRules_finds fun p _ => Attempt.finds_true (inner p c)).bind
    rintro (_ | reading) hfound
    · apply Attempt.finds_pure
      simp
    · have hne : reading.node.children ≠ [] := by
        simpa [Reading.isMatch, Node.isEmpty] using (hfound reading rfl).1
      apply Attempt.finds_pure
      rintro _ ⟨⟩
      simp only [graft]
      split
      · apply hne
      · apply List.cons_ne_nil

/-- Matches one after the other keep something when each does, and when there are none, nothing is read. -/
theorem matchMany_finds_keeps {once : Cursor → Attempt (Option Piece)} {kept : Prop}
    (honce : ∀ c, (once c).Finds fun found => kept → ∀ piece ∈ found, piece.trees ≠ []) (c : Cursor) :
  (matchMany once c).Finds fun found =>
    (found.count = 0 → found = ⟨⟨[], c⟩, 0⟩) ∧ (kept → found.count ≠ 0 → found.trees ≠ [])
  := by
  rw [matchMany]
  apply (honce c).bind
  rintro (_ | piece) hpiece
  · apply Attempt.finds_pure
    simp
  · simp only
    split
    · apply (Attempt.finds_true _).bind
      intro others _
      apply Attempt.finds_pure
      simpa using fun hkept hne => absurd hne (hpiece hkept piece rfl)
    · apply Attempt.finds_pure
      simpa using fun hkept => hpiece hkept piece rfl

theorem matchItem_finds_keeps (rule : Nonterminal) (item : Item) (c : Cursor) :
  (matchItem s inner rule item c).Finds fun found =>
    (found.count = 0 → found = ⟨⟨[], c⟩, 0⟩)
      ∧ (item.target.isExcluded = false → found.count ≠ 0 → found.trees ≠ [])
  := by
  have honce (c : Cursor) : (matchOnce s inner rule item.target c).Finds fun found =>
      item.target.isExcluded = false → ∀ piece ∈ found, piece.trees ≠ [] :=
    ⟨fun found hout hkept => (matchOnce_finds_ne_nil rule hkept c).of_ok found hout⟩
  unfold matchItem
  split
  · apply matchMany_finds_keeps honce
  · apply (honce c).bind
    rintro (_ | piece) hpiece
    · apply Attempt.finds_pure
      simp
    · apply Attempt.finds_pure
      simpa using fun hkept => hpiece hkept piece rfl

/-- Continuations keep something when one of them does, or when something was kept before. -/
theorem matchAll_finds_ne_nil (rule : Nonterminal) {items : List Item} {before : Piece}
    (h : before.trees ≠ [] ∨ ∃ item ∈ items, item.keeps = true) :
  (matchAll s inner rule items before).Finds fun whole => whole.trees ≠ []
  := by
  induction items generalizing before with
  | nil =>
    apply Attempt.finds_pure
    simpa using h
  | cons item items ih =>
    rw [matchAll]
    apply (matchItem_finds_keeps rule item before.cursor).bind
    rintro found ⟨-, hkeeps⟩
    split
    · apply Attempt.finds_raise
    next hcount =>
      have hnext : before.trees ++ found.trees ≠ [] ∨ ∃ item ∈ items, item.keeps = true := by
        rcases h with hbefore | ⟨other, hmem, hother⟩
        · apply Or.inl (List.append_ne_nil_of_left_ne_nil hbefore _)
        · rcases List.mem_cons.mp hmem with rfl | hmem
          · obtain ⟨hminimum, hkept⟩ := by simpa [Item.keeps] using hother
            apply Or.inl (List.append_ne_nil_of_right_ne_nil _ (hkeeps hkept (by omega)))
          · apply Or.inr ⟨other, hmem, hother⟩
      split
      · apply (Attempt.finds_true _).bind
        rintro (_ | _) _
        · apply ih hnext
        · apply Attempt.finds_raise
      · apply ih hnext

/-- When an item of a production keeps something and its opening item has matched, the continuations find
something that is kept. -/
theorem whole_finds_ne_nil {p : Production} (h : ∃ item ∈ p.items, item.keeps = true) {c : Cursor}
    {opening : Matches} (hopening : (matchItem s inner p.rule p.opening c).outcome = .ok opening)
    (hcount : opening.count ≠ 0) :
  (matchAll s inner p.rule p.continuations opening.toPiece).Finds fun whole => whole.trees ≠ []
  := by
  obtain ⟨item, hitem, hkeeps⟩ := h
  apply matchAll_finds_ne_nil
  rcases List.mem_cons.mp hitem with rfl | hitem
  · obtain ⟨-, hkept⟩ := by simpa [Item.keeps] using hkeeps
    apply Or.inl (((matchItem_finds_keeps p.rule p.opening c).of_ok opening hopening).2 hkept hcount)
  · apply Or.inr ⟨item, hitem, hkeeps⟩

end

/-! ## Beyond the edge -/

section

variable {r : Correspondence} {s : Setting} {room depth : Nat} {c : Cursor}

/-- Matches of an item that start beyond the edge escape. -/
theorem matchItem_escapes (rule : Nonterminal) (item : Item) (hc : r.IsBeyond c.index) :
  (matchItem s (evaluate s room depth) rule item c).Escapes r fun found => found.cursor.index
  := by
  have hlogs : (matchItem s (evaluate s room depth) rule item c).Logs (Event.RaisesWithin s (c.advance 0) 1) :=
    matchItem_logs_within (evaluate_logs_within s room depth) rule item c
  apply Attempt.escapes_of_isBeyond hc (hlogs.within_of_advance (Nat.zero_le _) (Nat.zero_le _))
    (conduct_stands.matchItem (conduct_stands.evaluate room depth) rule item c)
  apply (matchItem_finds_advance rule item c).mono
  rintro found ⟨count, -, -, hcursor⟩
  rw [hcursor, Cursor.index_advance]
  apply Nat.le_add_right

theorem matchMany_escapes (rule : Nonterminal) (target : Target) (hc : r.IsBeyond c.index) :
  (matchMany (matchOnce s (evaluate s room depth) rule target) c).Escapes r fun found => found.cursor.index
  := matchItem_escapes rule ⟨target, .zeroOrMore⟩ hc

/-- Continuations go on from the place that they start from. -/
theorem matchAll_finds_advance (rule : Nonterminal) (items : List Item) (before : Piece) :
  (matchAll s (evaluate s room depth) rule items before).Finds fun whole =>
    ∃ count, whole.cursor = before.cursor.advance count
  := by
  have hgrowth : Growth (fun _ => True) fun _ _ _ _ => True := by constructor <;> simp
  have hinner (p : Production) (c : Cursor) :
      (evaluate s room depth p c).Finds (Reading.Grows (fun _ _ _ _ => True) p c) :=
    hgrowth.evaluate_finds (fun _ _ _ _ => trivial) room depth (fun _ _ => trivial) c
  have hwhole : (matchAll s (evaluate s room depth) rule items before).Finds
      (Piece.Grows (fun _ _ _ _ => True) rule before.cursor) :=
    hgrowth.matchAll_finds (fun p _ => hinner p) rule (fun _ _ => trivial) ⟨⟨0, rfl⟩, trivial⟩
  apply hwhole.mono
  intro whole hgrows
  apply hgrows.advance

/-- Continuations that start beyond the edge escape. -/
theorem matchAll_escapes (rule : Nonterminal) (items : List Item) {before : Piece}
    (hbefore : r.IsBeyond before.cursor.index) :
  (matchAll s (evaluate s room depth) rule items before).Escapes r fun whole => whole.cursor.index
  := by
  apply Attempt.escapes_of_isBeyond hbefore
    (matchAll_logs_within (evaluate_logs_within s room depth) rule items before)
    (conduct_stands.matchAll (conduct_stands.evaluate room depth) rule items before)
  apply (matchAll_finds_advance rule items before).mono
  rintro whole ⟨count, hcursor⟩
  rw [hcursor, Cursor.index_advance]
  apply Nat.le_add_right

/-- What is asked of the look-ahead does not fail. -/
theorem lookAhead_outcome (inner : Evaluator) (target : Target) (c : Cursor) :
  ∃ answer, (lookAhead s inner target c).outcome = .ok answer
  := by
  cases target with
  | tokens kinds excluded =>
    simp only [lookAhead]
    split <;> simp
  | rules heads hoisted => exact ⟨_, rfl⟩

/-- Beyond the edge, what follows the matches of a continuation escapes. -/
theorem continue_escapes (rule : Nonterminal) (item : Item) (items : List Item) (trees : List Tree)
    {found : Matches} (hfound : r.IsBeyond found.cursor.index) :
  (if found.count < item.repetition.minimum then
      .raise (mismatchAt s rule item found.cursor .tooFew)
    else if item.repetition = .atMostOnce ∧ found.count = 1 then do
      if ← lookAhead s (evaluate s room depth) item.target found.cursor then
        .raise (mismatchAt s rule item found.cursor .tooMany)
      else
        matchAll s (evaluate s room depth) rule items ⟨trees, found.cursor⟩
    else
      matchAll s (evaluate s room depth) rule items ⟨trees, found.cursor⟩).Escapes r
    fun whole => whole.cursor.index
  := by
  have hraise (cause : Mismatch → Cause) (hcause : cause = .tooFew ∨ cause = .tooMany) :
      (Attempt.raise (mismatchAt s rule item found.cursor cause) : Attempt Piece).Escapes r
        fun whole => whole.cursor.index := by
    apply Attempt.Escapes.failed rfl hfound.isSome
    intro _
    rcases hcause with rfl | rfl <;> exact ⟨_, rfl, hfound⟩
  have hothers : (matchAll s (evaluate s room depth) rule items ⟨trees, found.cursor⟩).Escapes r
      fun whole => whole.cursor.index :=
    matchAll_escapes rule items hfound
  split
  · apply hraise _ (Or.inl rfl)
  · split
    · obtain ⟨answer, hanswer⟩ := lookAhead_outcome (evaluate s room depth) item.target found.cursor
      rw [Attempt.bind_of_ok hanswer]
      cases answer with
      | false => apply hothers.after
      | true => apply (hraise _ (Or.inr rfl)).after
    · apply hothers

/-- Where a reading at a place stops. -/
def Reading.stop (c : Cursor) (reading : Reading) : Nat := c.index + reading.consumed

/-- A production that has read something beyond the edge, and kept something, escapes. -/
theorem finish_escapes {rule : Nonterminal} {own : Nat} {whole : Piece}
    (hwhole : r.IsBeyond whole.cursor.index) (hne : whole.trees ≠ []) :
  (if whole.trees.isEmpty then
      pure (Reading.nothing rule)
    else do
      Attempt.note (.matched rule (whole.cursor.index - c.index) own)
      pure ⟨⟨rule, whole.trees⟩, whole.cursor.index - c.index⟩).Escapes r (Reading.stop c)
  := by
  simp only [List.isEmpty_iff, if_neg hne]
  apply Attempt.Escapes.found rfl
  apply hwhole.mono
  simp only [Reading.stop]
  omega

end

/-- A choice escapes when its first alternative does. -/
theorem tryEach_escapes {r : Correspondence} {s : Setting} {room depth : Nat} {p : Production} {c : Cursor}
    (hp : (evaluate s room depth p c).Escapes r (Reading.stop c)) (hc : ¬ r.IsBeyond c.index)
    (others : List Production) (kept : Option Diagnostic) :
  (tryEach (evaluate s room depth) (p :: others) kept c).Escapes r
    fun found => found.elim c.index (Reading.stop c)
  := by
  have hprogress := evaluate_finds_progresses s room depth p c
  simp only [tryEach]
  cases hp with
  | @discarded d mem isPast =>
    split
    · split
      · exact .discarded mem isPast
      · apply Attempt.Escapes.discarded _ isPast
        rw [Attempt.after, Journal.events_append]
        apply List.mem_append_left _ mem
    · split
      · apply Attempt.Escapes.discarded _ isPast
        rw [Attempt.after, Journal.events_append, Journal.events_append]
        apply List.mem_append_left _ (List.mem_append_left _ mem)
      · exact .discarded mem isPast
  | @found reading outcome isBeyond =>
    have hmatch : reading.isMatch = true := by
      apply (hprogress.of_ok reading outcome).isMatch_iff.mpr
      apply Nat.pos_of_ne_zero
      intro hzero
      rw [Reading.stop, hzero] at isBeyond
      contradiction
    simp only [outcome, if_pos hmatch]
    exact .found rfl isBeyond
  | @failed d outcome edge isPast =>
    cases hd : d.isMismatch with
    | false =>
      simp only [outcome, hd, Bool.false_eq_true, if_false]
      exact .failed rfl edge isPast
    | true =>
      simp only [outcome, hd, if_true]
      apply Attempt.Escapes.discarded _ (isPast hd)
      rw [Attempt.after, Journal.events_append, Journal.events_append]
      simp

end LayoutGrammar
