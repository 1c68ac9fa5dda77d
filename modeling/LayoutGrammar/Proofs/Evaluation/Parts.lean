import LayoutGrammar.Proofs.Evaluation.Progress

/-!
# Productions part by part

What a production reads and logs, by what its opening item and its continuations find (`matchProduction_of_ok`),
and that there is no other way for it to match (`exists_of_matchProduction`).  The continuations may be none, or
come down to a token that must be next.  Rules that have one alternative match as the alternative does
(`matchOnce_of_single`), and an item matches as its target does, once or one time after the other
(`matchItem_once`, `matchMany_outcome_of_some`).
-/

namespace LayoutGrammar

/-! ## One alternative -/

/-- A nonterminal that has one production has one alternative. -/
theorem Grammar.candidates_one {g : Grammar} {p : Production} (h : g.alternatives p.rule = [p]) :
  g.candidates (Choice.one p.rule).members = .ok [p]
  := by
  have hmem : p ∈ g.alternatives p.rule := by simp [h]
  have hcontains : g.contains p.rule = true := by
    apply Grammar.contains_eq_true_iff.mpr
    exact ⟨p, (List.mem_filter.mp hmem).1, rfl⟩
  rw [Grammar.candidates_eq]
  · simp [Choice.one, Choice.of, h]
  · simpa [Choice.one, Choice.of] using hcontains

section

variable {s : Setting} {inner : Evaluator} {heads : Choice Nonterminal} {hoisted : Bool} {p : Production}
  {c : Cursor} (hcandidates : s.grammar.candidates heads.members = .ok [p]) (rule : Nonterminal)
include hcandidates

/-- A match of rules with one alternative is what the alternative reads. -/
theorem matchOnce_of_single {reading : Reading} (hout : (inner p c).outcome = .ok reading)
    (hmatch : reading.isMatch = true) :
  (matchOnce s inner rule (.rules heads hoisted) c).outcome
      = .ok (some ⟨graft rule hoisted reading.node, c.advance reading.consumed⟩)
    ∧ (matchOnce s inner rule (.rules heads hoisted) c).journal.events = (inner p c).journal.events
  := by
  have hfound : tryRules s inner heads.members c = ⟨.ok (some reading), (inner p c).journal⟩ := by
    simp only [tryRules, hcandidates, tryEach, hout, hmatch, if_true]
  rw [matchOnce, Attempt.bind_of_ok (by rw [hfound])]
  constructor
  · rfl
  · simp [hfound, Attempt.after]

/-- Rules with one alternative match only when the alternative does. -/
theorem exists_of_matchOnce_single {piece : Piece}
    (hout : (matchOnce s inner rule (.rules heads hoisted) c).outcome = .ok (some piece)) :
  ∃ reading, (inner p c).outcome = .ok reading ∧ reading.isMatch = true
    ∧ piece = ⟨graft rule hoisted reading.node, c.advance reading.consumed⟩
  := by
  have hfinds : (tryRules s inner heads.members c).Finds fun found =>
      ∀ reading ∈ found, (inner p c).outcome = .ok reading ∧ reading.isMatch = true := by
    rw [tryRules, hcandidates]
    have hself : ∀ q ∈ [p], (inner q c).Finds fun reading => (inner q c).outcome = .ok reading :=
      fun q _ => ⟨fun reading => id⟩
    apply (tryEach_finds hself none).mono
    rintro found hfound reading hreading
    obtain ⟨hmatch, q, hq, hout⟩ := hfound reading hreading
    obtain rfl := List.mem_singleton.mp hq
    use hout
  have honce : (matchOnce s inner rule (.rules heads hoisted) c).Finds fun found =>
      ∀ piece ∈ found, ∃ reading, (inner p c).outcome = .ok reading ∧ reading.isMatch = true
        ∧ piece = ⟨graft rule hoisted reading.node, c.advance reading.consumed⟩ := by
    apply hfinds.bind
    rintro (_ | reading) hreading
    · apply Attempt.finds_pure
      simp
    · obtain ⟨hout, hmatch⟩ := hreading reading rfl
      apply Attempt.finds_pure
      rintro _ ⟨⟩
      use reading
  apply honce.of_ok _ hout piece rfl

/-- Rules with one alternative match nothing when the alternative comes to nothing. -/
theorem matchOnce_of_single_nothing {reading : Reading} (hout : (inner p c).outcome = .ok reading)
    (hmatch : reading.isMatch = false) :
  (matchOnce s inner rule (.rules heads hoisted) c).outcome = .ok none
  := by
  have hfound : (tryRules s inner heads.members c).outcome = .ok none := by
    simp only [tryRules, hcandidates, tryEach, hout, hmatch, Bool.false_eq_true, if_false]
    rfl
  rw [matchOnce, Attempt.bind_of_ok hfound]
  rfl

end

/-! ## Items -/

section

variable {s : Setting} {inner : Evaluator} {rule : Nonterminal} {target : Target} {c : Cursor}

/-- A token of one of some kinds is matched where one is next. -/
theorem matchOnce_token {kinds : Choice Terminal} {excluded : Bool} {token : Token} {rest : List Token}
    (hrest : c.rest = token :: rest) (hkind : token.kind ∈ kinds.members) :
  matchOnce s inner rule (.tokens kinds excluded) c
    = pure (some ⟨if excluded then [] else [.leaf token], c.advance 1⟩)
  := by
  simp only [matchOnce, hrest, if_pos hkind]

/-- A token of one of some kinds is not matched where none is next. -/
theorem matchOnce_token_of_not {kinds : Choice Terminal} {excluded : Bool}
    (h : ∀ token ∈ c.rest.head?, token.kind ∉ kinds.members) :
  matchOnce s inner rule (.tokens kinds excluded) c = pure none
  := by
  simp only [matchOnce]
  split
  next token rest hrest => rw [if_neg (h token (by simp [hrest]))]
  next => rfl

/-- An item that is asked for once has one match where its target matches. -/
theorem matchItem_once {piece : Piece} (h : (matchOnce s inner rule target c).outcome = .ok (some piece)) :
  (matchItem s inner rule ⟨target, .once⟩ c).outcome = .ok ⟨piece, 1⟩
  := by
  simp only [matchItem, Repetition.isRepeated, Bool.false_eq_true, if_false]
  rw [Attempt.bind_of_ok h]
  rfl

/-- An item that is asked for once has no match where its target does not match. -/
theorem matchItem_once_of_none (h : (matchOnce s inner rule target c).outcome = .ok none) :
  (matchItem s inner rule ⟨target, .once⟩ c).outcome = .ok ⟨⟨[], c⟩, 0⟩
  := by
  simp only [matchItem, Repetition.isRepeated, Bool.false_eq_true, if_false]
  rw [Attempt.bind_of_ok h]
  rfl

/-- There are no matches where nothing matches. -/
theorem matchMany_outcome_of_none {once : Cursor → Attempt (Option Piece)}
    (h : (once c).outcome = .ok none) :
  (matchMany once c).outcome = .ok ⟨⟨[], c⟩, 0⟩
  := by
  rw [matchMany, Attempt.bind_of_ok h]
  rfl

/-- After a match that reads something come the matches after it. -/
theorem matchMany_outcome_of_some {once : Cursor → Attempt (Option Piece)} {piece : Piece} {others : Matches}
    (h : (once c).outcome = .ok (some piece)) (hlt : piece.cursor.rest.length < c.rest.length)
    (hothers : (matchMany once piece.cursor).outcome = .ok others) :
  (matchMany once c).outcome = .ok ⟨⟨piece.trees ++ others.trees, others.cursor⟩, others.count + 1⟩
  := by
  rw [matchMany, Attempt.bind_of_ok h]
  simp only [if_pos hlt]
  rw [Attempt.bind_of_ok hothers]
  rfl

/-- A last continuation that matches as often as it must reads its matches, unless it may match at most once. -/
theorem matchAll_single (item : Item) (before : Piece) {found : Matches}
    (h : (matchItem s inner rule item before.cursor).outcome = .ok found)
    (hcount : item.repetition.minimum ≤ found.count) (hrepetition : item.repetition ≠ .atMostOnce) :
  (matchAll s inner rule [item] before).outcome = .ok ⟨before.trees ++ found.trees, found.cursor⟩
  := by
  rw [matchAll, Attempt.bind_of_ok h, if_neg (Nat.not_lt.mpr hcount), if_neg (by simp [hrepetition])]
  rfl

end

/-! ## Productions -/

/-- What a production of a rule reads at a place when the trees of a piece were built from there on. -/
def Piece.reading (rule : Nonterminal) (c : Cursor) (whole : Piece) : Reading :=
  if whole.trees.isEmpty then .nothing rule else ⟨⟨rule, whole.trees⟩, whole.cursor.index - c.index⟩

theorem Piece.reading_of_isMatch {rule : Nonterminal} {c : Cursor} {whole : Piece}
    (h : (whole.reading rule c).isMatch = true) :
  whole.trees ≠ [] ∧ whole.reading rule c = ⟨⟨rule, whole.trees⟩, whole.cursor.index - c.index⟩
  := by
  unfold reading at h ⊢
  split at h
  · cases h
  next hempty => exact ⟨by simpa using hempty, if_neg hempty⟩

section

variable {s : Setting} {inner : Evaluator} {p : Production} {c : Cursor}

/-- A production whose opening item and continuations match reads what they build, and logs what they log. -/
theorem matchProduction_of_ok {opening : Matches} {whole : Piece} (depth : Nat)
    (hopening : (matchItem s inner p.rule p.opening c).outcome = .ok opening) (hcount : opening.count ≠ 0)
    (hwhole : (matchAll s inner p.rule p.continuations opening.toPiece).outcome = .ok whole) :
  (matchProduction s inner depth p c).outcome = .ok (whole.reading p.rule c)
    ∧ (matchProduction s inner depth p c).journal.events
      = .entered p.rule c.index depth :: (matchItem s inner p.rule p.opening c).journal.events
        ++ (matchAll s inner p.rule p.continuations opening.toPiece).journal.events
        ++ if whole.trees.isEmpty then []
          else [.matched p.rule (whole.cursor.index - c.index) depth]
  := by
  have hnote (e : Event) : (Attempt.note e).outcome = .ok () := rfl
  rw [matchProduction, Attempt.bind_of_ok (hnote _), Attempt.bind_of_ok hopening, if_neg hcount,
    Attempt.bind_of_ok hwhole]
  unfold Piece.reading
  split
  · simp [Attempt.after, Attempt.note]
  · rw [Attempt.bind_of_ok (hnote _)]
    simp [Attempt.after, Attempt.note]

/-- A production that matches has an opening item and continuations that do. -/
theorem exists_of_matchProduction {depth : Nat} {reading : Reading}
    (hout : (matchProduction s inner depth p c).outcome = .ok reading) (hmatch : reading.isMatch = true) :
  ∃ opening whole, (matchItem s inner p.rule p.opening c).outcome = .ok opening ∧ opening.count ≠ 0
    ∧ (matchAll s inner p.rule p.continuations opening.toPiece).outcome = .ok whole
    ∧ reading = whole.reading p.rule c
  := by
  have hself := hout
  simp only [matchProduction, Attempt.outcome_bind, Attempt.note, Except.bind] at hout
  cases hopening : (matchItem s inner p.rule p.opening c).outcome with
  | error reason => simp [hopening] at hout
  | ok opening =>
    simp only [hopening] at hout
    split at hout
    · obtain rfl := Except.ok.inj hout
      cases hmatch
    next hcount =>
      rw [Attempt.outcome_bind] at hout
      cases hwhole : (matchAll s inner p.rule p.continuations opening.toPiece).outcome with
      | error reason => simp [hwhole, Except.bind] at hout
      | ok whole =>
        have hreads := (matchProduction_of_ok depth hopening hcount hwhole).1
        refine ⟨opening, whole, rfl, hcount, hwhole, Except.ok.inj (hself.symm.trans hreads)⟩

end

/-! ## Productions of one item -/

/-- What a production of one item reads, by the matches of the item at a place. -/
def Matches.reading (rule : Nonterminal) (c : Cursor) (found : Matches) : Reading :=
  if found.count = 0 then .nothing rule else found.toPiece.reading rule c

theorem Matches.reading_of_isMatch {rule : Nonterminal} {c : Cursor} {found : Matches}
    (h : (found.reading rule c).isMatch = true) :
  found.reading rule c = ⟨⟨rule, found.trees⟩, found.cursor.index - c.index⟩
  := by
  unfold reading at h ⊢
  split at h
  · cases h
  next hcount => rw [if_neg hcount, (Piece.reading_of_isMatch h).2]

section

variable {s : Setting} {inner : Evaluator} {rule : Nonterminal} {item : Item} {c : Cursor}

/-- A production of one item reads what the item matches, or fails as its matches do. -/
theorem matchProduction_outcome_of_single (depth : Nat) :
  (matchProduction s inner depth ⟨rule, item, []⟩ c).outcome
    = (matchItem s inner rule item c).outcome.map (Matches.reading rule c)
  := by
  simp only [matchProduction, matchAll, Attempt.outcome_bind, Attempt.note, Except.bind]
  cases (matchItem s inner rule item c).outcome with
  | error reason => rfl
  | ok found =>
    simp only [Except.map, Matches.reading, Piece.reading, List.isEmpty_iff]
    split
    · rfl
    · by_cases hempty : found.trees = []
      · simp [hempty, Attempt.outcome_bind, Except.bind]
      · simp [hempty, Attempt.outcome_bind, Except.bind]

/-- A production of one item leaves a memory as the matches of the item do. -/
theorem follow_matchProduction_of_single (depth : Nat) (m : Memory) :
  m.follow (matchProduction s inner depth ⟨rule, item, []⟩ c).journal
    = m.follow (matchItem s inner rule item c).journal
  := by
  have hnote (e : Event) : (Attempt.note e).outcome = .ok () := rfl
  have hentered (j : Journal) : m.follow (.event (.entered rule c.index depth) ++ j) = m.follow j := by
    rw [Memory.follow_append]
    rfl
  rw [matchProduction, Attempt.bind_of_ok (hnote _)]
  cases hout : (matchItem s inner rule item c).outcome with
  | error reason =>
    rw [Attempt.bind_of_error hout]
    apply hentered
  | ok found =>
    rw [Attempt.bind_of_ok hout, Attempt.after, Attempt.after, Attempt.note, hentered, Memory.follow_append]
    -- What is left to do leaves no mismatch.
    split
    · rfl
    · have hwhole : (matchAll s inner rule [] found.toPiece).outcome = .ok found.toPiece := rfl
      rw [Attempt.bind_of_ok hwhole]
      split <;> rfl

end

/-! ## Productions that end with a token -/

section

variable {s : Setting} {inner : Evaluator} {kinds : Choice Terminal} {excluded : Bool}

/-- A last continuation that is a token reads the next token when it is of its kinds. -/
theorem matchAll_token (rule : Nonterminal) {before : Piece} {token : Token} {rest : List Token}
    (hrest : before.cursor.rest = token :: rest) (hkind : token.kind ∈ kinds.members) :
  (matchAll s inner rule [⟨.tokens kinds excluded, .once⟩] before).outcome
    = .ok ⟨before.trees ++ if excluded then [] else [.leaf token], before.cursor.advance 1⟩
  ∧ (matchAll s inner rule [⟨.tokens kinds excluded, .once⟩] before).journal.events = []
  := by
  have hitem : matchItem s inner rule ⟨.tokens kinds excluded, .once⟩ before.cursor
      = (pure ⟨⟨if excluded then [] else [.leaf token], before.cursor.advance 1⟩, 1⟩ : Attempt Matches).after
        .empty := by
    rw [matchItem, matchOnce_token hrest hkind]
    rfl
  rw [matchAll, hitem]
  constructor <;> rfl

/-- A last continuation that is a token matches only when one of its kinds is next. -/
theorem exists_of_matchAll_token {rule : Nonterminal} {before whole : Piece}
    (hout : (matchAll s inner rule [⟨.tokens kinds excluded, .once⟩] before).outcome = .ok whole) :
  ∃ token rest, before.cursor.rest = token :: rest ∧ token.kind ∈ kinds.members
  := by
  have honce : (matchOnce s inner rule (.tokens kinds excluded) before.cursor).Finds fun found =>
      found.isSome = true → ∃ token rest, before.cursor.rest = token :: rest ∧ token.kind ∈ kinds.members := by
    simp only [matchOnce]
    split
    next token rest hrest =>
      split
      next hkind =>
        apply Attempt.finds_pure
        intro _
        exact ⟨token, rest, hrest, hkind⟩
      next => apply Attempt.finds_pure (by simp)
    next => apply Attempt.finds_pure (by simp)
  have hitem : (matchItem s inner rule ⟨.tokens kinds excluded, .once⟩ before.cursor).Finds fun found =>
      found.count ≠ 0 → ∃ token rest, before.cursor.rest = token :: rest ∧ token.kind ∈ kinds.members := by
    apply honce.bind
    rintro (_ | piece) hpiece
    · apply Attempt.finds_pure (by simp)
    · apply Attempt.finds_pure
      intro _
      apply hpiece rfl
  have hall : (matchAll s inner rule [⟨.tokens kinds excluded, .once⟩] before).Finds fun _ =>
      ∃ token rest, before.cursor.rest = token :: rest ∧ token.kind ∈ kinds.members := by
    apply hitem.bind
    intro found hfound
    split
    · apply Attempt.finds_raise
    next hcount =>
      simp only [reduceCtorEq, false_and, if_false]
      apply Attempt.finds_pure
      apply hfound
      simpa [Repetition.minimum] using hcount
  apply hall.of_ok whole hout

variable {p : Production} {c : Cursor} (hlast : p.continuations = [⟨.tokens kinds excluded, .once⟩])
include hlast

/-- A production that ends with a token reads what its opening item matches, and the token. -/
theorem matchProduction_of_token (depth : Nat) {opening : Matches} {token : Token} {rest : List Token}
    (hopening : (matchItem s inner p.rule p.opening c).outcome = .ok opening) (hcount : opening.count ≠ 0)
    (hrest : opening.cursor.rest = token :: rest) (hkind : token.kind ∈ kinds.members) :
  let whole : Piece := ⟨opening.trees ++ if excluded then [] else [.leaf token], opening.cursor.advance 1⟩
  (matchProduction s inner depth p c).outcome = .ok (whole.reading p.rule c)
    ∧ (matchProduction s inner depth p c).journal.events
      = .entered p.rule c.index depth :: (matchItem s inner p.rule p.opening c).journal.events
        ++ if whole.trees.isEmpty then [] else [.matched p.rule (whole.cursor.index - c.index) depth]
  := by
  intro whole
  obtain ⟨hwhole, hquiet⟩ :
      (matchAll s inner p.rule p.continuations opening.toPiece).outcome = .ok whole
        ∧ (matchAll s inner p.rule p.continuations opening.toPiece).journal.events = [] := by
    rw [hlast]
    apply matchAll_token p.rule hrest hkind
  obtain ⟨houtcome, hevents⟩ := matchProduction_of_ok depth hopening hcount hwhole
  rw [hquiet, List.append_nil] at hevents
  exact ⟨houtcome, hevents⟩

/-- A production that ends with a token matches only when its opening item does and the token is next. -/
theorem exists_of_matchProduction_token {depth : Nat} {reading : Reading}
    (hout : (matchProduction s inner depth p c).outcome = .ok reading) (hmatch : reading.isMatch = true) :
  ∃ opening token rest, (matchItem s inner p.rule p.opening c).outcome = .ok opening ∧ opening.count ≠ 0
    ∧ opening.cursor.rest = token :: rest ∧ token.kind ∈ kinds.members
  := by
  obtain ⟨opening, whole, hopening, hcount, hwhole, -⟩ := exists_of_matchProduction hout hmatch
  rw [hlast] at hwhole
  obtain ⟨token, rest, hrest, hkind⟩ := exists_of_matchAll_token hwhole
  exact ⟨opening, token, rest, hopening, hcount, hrest, hkind⟩

end

end LayoutGrammar
