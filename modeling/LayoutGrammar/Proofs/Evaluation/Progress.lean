import LayoutGrammar.Proofs.Evaluation.Leaves

/-!
# Progress

A production matches just when it reads a token (`Reading.Progresses`).  What carries this is that no node is
ever built without children (`growth_isFilled`): such a node has a leaf, and the leaves are among the tokens
that were read.  So every match of an item goes on within the tokens (`matchOnce_finds_advances`), and matches
that follow each other come to an end without any check that they read something (`eq_matchMany_iff`).
-/

namespace LayoutGrammar

/-! ## Trees without empty nodes -/

/-- The trees in which every node has children. -/
inductive Tree.IsFilled : Tree → Prop where
  | leaf (token : Token) : IsFilled (.leaf token)
  | node {rule : Nonterminal} {children : List Tree} (nonempty : children ≠ [])
      (each : ∀ child ∈ children, IsFilled child) : IsFilled (.node rule children)

/-- A tree in which every node has children has a leaf. -/
theorem Tree.IsFilled.leaves_ne_nil {tree : Tree} (h : tree.IsFilled) :
  tree.leaves ≠ []
  := by
  induction h with
  | leaf token => simp [leaves]
  | node nonempty _ ih =>
    obtain ⟨child, others, rfl⟩ := List.exists_cons_of_ne_nil nonempty
    simp [leaves, leavesOf, ih child List.mem_cons_self]

theorem growth_isFilled :
  Growth (fun _ => True) (fun _ _ trees _ => ∀ tree ∈ trees, tree.IsFilled)
  where
  nothing := by simp
  append := by
    rintro rule c d e trees others htrees hothers
    apply List.forall_mem_append.mpr ⟨htrees, hothers⟩
  token := by
    rintro rule kinds excluded c token rest - - -
    cases excluded with
    | true => simp
    | false => simpa using Tree.IsFilled.leaf token
  graft := by
    rintro rule heads hoisted c d node - - hne heach
    unfold graft
    split
    · apply heach
    · rw [List.forall_mem_singleton]
      apply Tree.IsFilled.node (by simpa [Node.isEmpty] using hne) heach

/-! ## Readings -/

/-- Whether what is read at a place is a match just when a token was read, with the tokens of a match all
there, and no node nested in it is empty. -/
structure Reading.Progresses (c : Cursor) (reading : Reading) : Prop where
  /-- A match is a reading of some tokens. -/
  isMatch_iff : reading.isMatch = true ↔ 0 < reading.consumed
  /-- The tokens that are read are there. -/
  le_length : reading.consumed ≤ c.rest.length
  /-- No node that is nested in the node that was built is empty. -/
  isFilled : ∀ tree ∈ reading.node.children, tree.IsFilled

/-- What does not match has read no tokens. -/
theorem matchProduction_finds_consumed (s : Setting) (inner : Evaluator) (depth : Nat) (p : Production)
    (c : Cursor) :
  (matchProduction s inner depth p c).Finds fun reading => reading.isMatch = false → reading.consumed = 0
  := by
  apply Attempt.Finds.after_note
  apply (Attempt.finds_true _).bind
  intro opening _
  split
  · apply Attempt.finds_pure
    simp [Reading.nothing]
  · apply (Attempt.finds_true _).bind
    intro whole _
    split
    next =>
      apply Attempt.finds_pure
      simp [Reading.nothing]
    next hne =>
      apply Attempt.Finds.after_note
      apply Attempt.finds_pure
      simp [Reading.isMatch, Node.isEmpty, hne]

section

variable (s : Setting) (room depth : Nat)

/-- The leaves of the node that is read at a place are among the tokens that are read there. -/
theorem evaluate_finds_leaves (p : Production) (c : Cursor) :
  (evaluate s room depth p c).Finds fun reading =>
    ∃ read, read <+: c.rest ∧ read.length = reading.consumed ∧ reading.node.leaves.Sublist read
  := by
  have hany (target : Target) : target.Respects (fun _ => True) (fun _ => True) := by
    cases target with
    | tokens kinds excluded => simp [Target.Respects]
    | rules heads hoisted => trivial
  have hgrows : (evaluate s room depth p c).Finds (Reading.Grows _ p c) :=
    (growth_keeps _ _).evaluate_finds (fun _ _ _ _ => hany _) room depth (fun _ _ => hany _) c
  apply hgrows.mono
  intro reading hreading
  obtain ⟨read, hrest, hindex, hkeeps⟩ := hreading.children
  use read, ⟨_, hrest.symm⟩
  constructor
  · simpa [Cursor.advance] using hindex.symm
  · apply hkeeps.sublist

theorem evaluate_finds_isFilled (p : Production) (c : Cursor) :
  (evaluate s room depth p c).Finds
    (Reading.Grows (fun _ _ trees _ => ∀ tree ∈ trees, tree.IsFilled) p c)
  := growth_isFilled.evaluate_finds (fun _ _ _ _ => trivial) room depth (fun _ _ => trivial) c

/-- Every evaluation progresses, at whatever depth. -/
theorem evaluate_finds_progresses (p : Production) (c : Cursor) :
  (evaluate s room depth p c).Finds (Reading.Progresses c)
  := by
  constructor
  intro reading hout
  have hfilled := ((evaluate_finds_isFilled s room depth p c).of_ok reading hout).children
  have hnothing : reading.isMatch = false → reading.consumed = 0 := by
    cases room with
    | zero => cases hout
    | succ room => apply (matchProduction_finds_consumed s _ depth p c).of_ok reading hout
  obtain ⟨read, hread, hlength, hleaves⟩ := (evaluate_finds_leaves s room depth p c).of_ok reading hout
  constructor
  · constructor
    · intro hmatch
      -- A leaf of the first child is a token that was read.
      obtain ⟨tree, others, hchildren⟩ : ∃ tree others, reading.node.children = tree :: others := by
        apply List.exists_cons_of_ne_nil
        simpa [Reading.isMatch, Node.isEmpty] using hmatch
      have htree := (hfilled tree (by simp [hchildren])).leaves_ne_nil
      rw [← hlength]
      apply lt_of_lt_of_le _ hleaves.length_le
      rw [List.length_pos_iff, Node.leaves, hchildren, Tree.leavesOf]
      simp [htree]
    · intro hpos
      by_contra hnot
      have hzero := hnothing (by simpa using hnot)
      omega
  · rw [← hlength]
    apply hread.length_le
  · apply hfilled

/-- A production that does not match reads nothing. -/
theorem evaluate_finds_nothing (p : Production) (c : Cursor) :
  (evaluate s room depth p c).Finds fun reading => reading.isMatch = false → reading = .nothing p.rule
  := by
  constructor
  intro reading hout hmatch
  have hrule := ((evaluate_finds_isFilled s room depth p c).of_ok reading hout).rule_eq
  have hiff := ((evaluate_finds_progresses s room depth p c).of_ok reading hout).isMatch_iff
  obtain ⟨⟨rule, children⟩, consumed⟩ := reading
  obtain rfl : rule = p.rule := hrule
  obtain rfl : children = [] := by simpa [Reading.isMatch, Node.isEmpty] using hmatch
  obtain rfl : consumed = 0 := by simpa [hmatch] using hiff
  rfl

/-! ## Matches of an item -/

/-- Whether what is matched at a place goes on from there by one token or more, all of which are there, and
adds no empty node. -/
structure Piece.Advances (c : Cursor) (piece : Piece) : Prop where
  /-- Some tokens are read. -/
  cursor : ∃ count, 0 < count ∧ count ≤ c.rest.length ∧ piece.cursor = c.advance count
  /-- No empty node is added. -/
  isFilled : ∀ tree ∈ piece.trees, tree.IsFilled

theorem Piece.Advances.length_lt {c : Cursor} {piece : Piece} (h : piece.Advances c) :
  piece.cursor.rest.length < c.rest.length
  := by
  obtain ⟨count, hpos, hle, hcursor⟩ := h.cursor
  rw [hcursor, Cursor.rest_advance, List.length_drop]
  omega

/-- Every match of an item advances. -/
theorem matchOnce_finds_advances (rule : Nonterminal) (target : Target) (c : Cursor) :
  (matchOnce s (evaluate s room depth) rule target c).Finds fun found =>
    ∀ piece ∈ found, piece.Advances c
  := by
  have hfilled : (matchOnce s (evaluate s room depth) rule target c).Finds fun found => ∀ piece ∈ found,
      Piece.Grows (fun _ _ trees _ => ∀ tree ∈ trees, tree.IsFilled) rule c piece :=
    growth_isFilled.matchOnce_finds (fun p _ c => evaluate_finds_isFilled s room depth p c) rule trivial c
  have hcursor : (matchOnce s (evaluate s room depth) rule target c).Finds fun found => ∀ piece ∈ found,
      ∃ count, 0 < count ∧ count ≤ c.rest.length ∧ piece.cursor = c.advance count := by
    cases target with
    | tokens kinds excluded =>
      simp only [matchOnce]
      split
      next token rest hrest =>
        split
        next =>
          apply Attempt.finds_pure
          rintro _ ⟨⟩
          use 1
          simp [hrest]
        next => apply Attempt.finds_pure (by simp)
      next => apply Attempt.finds_pure (by simp)
    | rules heads hoisted =>
      simp only [matchOnce]
      apply (tryRules_finds fun p _ => evaluate_finds_progresses s room depth p c).bind
      rintro (_ | reading) hfound
      · apply Attempt.finds_pure (by simp)
      · obtain ⟨hmatch, _, -, hprogress⟩ := hfound reading rfl
        apply Attempt.finds_pure
        rintro _ ⟨⟩
        use reading.consumed, hprogress.isMatch_iff.mp hmatch, hprogress.le_length
  constructor
  intro found hout piece hpiece
  constructor
  · apply hcursor.of_ok found hout piece hpiece
  · apply (hfilled.of_ok found hout piece hpiece).trees

end

/-! ## Loops -/

theorem Attempt.bind_congr {α β : Type} {attempt : Attempt α} {first second : α → Attempt β}
    (h : ∀ value, attempt.outcome = .ok value → first value = second value) :
  attempt >>= first = attempt >>= second
  := by
  cases hout : attempt.outcome with
  | ok value => rw [bind_of_ok hout, bind_of_ok hout, h value hout]
  | error reason => rw [bind_of_error hout, bind_of_error hout]

/-- A match and those that follow it, whether or not it read a token. -/
def matchThen (once : Cursor → Attempt (Option Piece)) (again : Cursor → Attempt Matches) (c : Cursor) :
    Attempt Matches := do
  match ← once c with
  | none => pure ⟨⟨[], c⟩, 0⟩
  | some piece =>
    let others ← again piece.cursor
    pure ⟨⟨piece.trees ++ others.trees, others.cursor⟩, others.count + 1⟩

/-- When every match advances, there is one way only to go on matching as long as something matches. -/
theorem eq_matchMany_iff {once : Cursor → Attempt (Option Piece)}
    (honce : ∀ c, (once c).Finds fun found => ∀ piece ∈ found, piece.Advances c)
    (loop : Cursor → Attempt Matches) :
  (∀ c, loop c = matchThen once loop c) ↔ loop = matchMany once
  := by
  have hlt {c : Cursor} {piece : Piece} (hout : (once c).outcome = .ok (some piece)) :
      piece.cursor.rest.length < c.rest.length :=
    ((honce c).of_ok _ hout piece rfl).length_lt
  have hmany (c : Cursor) : matchMany once c = matchThen once (matchMany once) c := by
    rw [matchMany, matchThen]
    apply Attempt.bind_congr
    rintro (_ | piece) hout
    · rfl
    · simp only [if_pos (hlt hout)]
  constructor
  · intro hloop
    funext c
    induction hc : c.rest.length using Nat.strong_induction_on generalizing c with
    | _ n ih =>
      rw [hloop c, hmany c, matchThen, matchThen]
      apply Attempt.bind_congr
      rintro (_ | piece) hout
      · rfl
      · simp only [ih _ (hc ▸ hlt hout) piece.cursor rfl]
  · rintro rfl
    apply hmany

/-! ## Sessions -/

/-- What a session reads is a match just when it is a reading of some tokens, which are all there, and holds
no empty node.  At whatever depth, a match of an item goes on from its place within the tokens and adds no
empty node, so that the matches of a loop come to an end: there is one way only to go on as long as something
matches. -/
theorem progress_of_evaluate (s : Session) :
  (∀ p start reading, (s.evaluate p start).1.outcome = .ok reading →
    (reading.isMatch = true ↔ 0 < reading.consumed)
    ∧ (reading.isMatch = true → start + reading.consumed ≤ s.tokens.length)
    ∧ ∀ tree ∈ reading.node.children, tree.IsFilled)
  ∧ ∀ room depth rule target,
    (∀ start piece,
      (matchOnce s.setting (evaluate s.setting room depth) rule target (s.cursor start)).outcome
        = .ok (some piece) →
      ∃ stop, piece.cursor = s.cursor stop ∧ start < stop ∧ stop ≤ s.tokens.length
        ∧ ∀ tree ∈ piece.trees, tree.IsFilled)
    ∧ ∀ loop, (∀ c, loop c = matchThen (matchOnce s.setting (evaluate s.setting room depth) rule target)
        loop c)
      ↔ loop = matchMany (matchOnce s.setting (evaluate s.setting room depth) rule target)
  := by
  have hlength (start : Nat) : (s.cursor start).rest.length = s.tokens.length - start := List.length_drop
  constructor
  · intro p start reading hout
    have hprogress := (evaluate_finds_progresses s.setting (s.limit + 1) 0 p (s.cursor start)).of_ok
      reading (Session.outcome_conclude_eq_ok_iff.mp hout)
    refine ⟨hprogress.isMatch_iff, ?_, hprogress.isFilled⟩
    intro hmatch
    have hpos := hprogress.isMatch_iff.mp hmatch
    have hle := hprogress.le_length
    rw [hlength] at hle
    omega
  · intro room depth rule target
    have honce (c : Cursor) := matchOnce_finds_advances s.setting room depth rule target c
    constructor
    · intro start piece hout
      have hadvances := (honce _).of_ok _ hout piece rfl
      obtain ⟨count, hpos, hle, hcursor⟩ := hadvances.cursor
      rw [hlength] at hle
      use start + count
      refine ⟨?_, by omega, by omega, hadvances.isFilled⟩
      rw [hcursor]
      apply Cursor.advance_ofIndex
    · apply eq_matchMany_iff honce

/-- A grammar of a number, or a comma that is read but not kept. -/
def numberGrammar : Grammar := ⟨[⟨.primary, .skip .comma, []⟩, ⟨.primary, .token .number, []⟩]⟩

/-- Two numbers and a comma. -/
def numberList : List Token :=
  [.unplaced .number "1", .unplaced .number "2", .unplaced .comma ""]

/-- The two numbers are read, one match after the other, and the comma, of which nothing is kept, is not. -/
theorem progress_numberList :
  let s := Session.start numberGrammar numberList 10
  let p : Production := ⟨.expression, .nest .primary .atLeastOnce, []⟩
  (∃ reading, (s.evaluate p 0).1.outcome = .ok reading ∧ reading.consumed = 2
    ∧ reading.isMatch = true ∧ ∀ tree ∈ reading.node.children, tree.IsFilled)
  ∧ ∃ piece, (matchOnce s.setting (evaluate s.setting 10 1) p.rule p.opening.target (s.cursor 1)).outcome
      = .ok (some piece) ∧ ∃ stop, piece.cursor = s.cursor stop ∧ 1 < stop ∧ stop ≤ 3
  := by
  intro s p
  obtain ⟨hreadings, hmatches⟩ := progress_of_evaluate s
  constructor
  · have htwo : (s.evaluate p 0).1.outcome.toOption.map Reading.consumed = some 2 := by
      decide +kernel
    obtain ⟨reading, hreading, hconsumed⟩ := Option.map_eq_some_iff.mp htwo
    have hout : (s.evaluate p 0).1.outcome = .ok reading := by
      cases h : (s.evaluate p 0).1.outcome <;> simp_all [Except.toOption]
    obtain ⟨hmatch, -, hfilled⟩ := hreadings p 0 reading hout
    use reading, hout, hconsumed, hmatch.mpr (by omega)
  · have hsome : (matchOnce s.setting (evaluate s.setting 10 1) p.rule p.opening.target
        (s.cursor 1)).outcome.toOption.join.isSome = true := by
      decide +kernel
    obtain ⟨piece, hpiece⟩ := Option.isSome_iff_exists.mp hsome
    have hout : (matchOnce s.setting (evaluate s.setting 10 1) p.rule p.opening.target
        (s.cursor 1)).outcome = .ok (some piece) := by
      cases h : (matchOnce s.setting (evaluate s.setting 10 1) p.rule p.opening.target
        (s.cursor 1)).outcome <;> simp_all [Except.toOption]
    obtain ⟨stop, hcursor, hlt, hle, -⟩ := (hmatches 10 1 p.rule p.opening.target).1 1 piece hout
    use piece, hout, stop, hcursor, hlt, hle

end LayoutGrammar
