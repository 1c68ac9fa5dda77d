import LayoutGrammar.Proofs.Evaluation.Edge

/-!
# Evaluations that correspond

When a correspondence relates two settings (`Correspondence.Relates`), evaluations of the same productions at
the same places compare (`Correspondence.Relates.evaluate`): the second mirrors the first unless the first
escapes beyond the edge.  Memories of what is the same keep and promote the same
(`Correspondence.Follows.follow`, `Correspondence.Follows.promote`), and so sessions whose settings are related
without an edge answer the same (`Correspondence.Relates.session`).
-/

namespace LayoutGrammar

/-! ## Settings that correspond -/

namespace Correspondence

/-- The readings that are the same. -/
structure Readings (r : Correspondence) (a b : Reading) : Prop where
  /-- Their nodes are of the same rule. -/
  rule_eq : b.node.rule = a.node.rule
  /-- The children of their nodes are the same. -/
  children : r.trees a.node.children b.node.children
  /-- As many tokens were read. -/
  consumed_eq : b.consumed = a.consumed

/-- Readings that are the same are equal when trees are the same only if they are equal. -/
theorem Readings.eq {r : Correspondence} {a b : Reading} (h : r.Readings a b) (htrees : r.trees = Eq) :
  b = a
  := by
  obtain ⟨⟨rule, children⟩, consumed⟩ := a
  obtain ⟨⟨_, _⟩, _⟩ := b
  obtain ⟨⟨⟩, hchildren, ⟨⟩⟩ := h
  rw [htrees] at hchildren
  obtain ⟨⟩ := hchildren
  rfl

/-- The pieces that are the same. -/
structure Pieces (r : Correspondence) (a b : Piece) : Prop where
  /-- Their trees are. -/
  trees : r.trees a.trees b.trees
  /-- The places after them are. -/
  cursor : r.place a.cursor b.cursor

/-- The matches of an item that are the same. -/
structure Found (r : Correspondence) (a b : Matches) : Prop extends r.Pieces a.toPiece b.toPiece where
  /-- There are as many. -/
  count_eq : b.count = a.count

/-- The memories that are the same. -/
structure Memories (r : Correspondence) (m m' : Memory) : Prop where
  /-- The furthest mismatches that they keep are, if they keep any. -/
  furthest : Option.Rel r.told m.furthest m'.furthest
  /-- As many look-aheads are open. -/
  lookAheads_eq : m'.lookAheads = m.lookAheads

theorem memories_fresh (r : Correspondence) :
  r.Memories .fresh .fresh
  := ⟨.none, rfl⟩

/-- A memory is the same as itself when what it keeps is told the same as itself. -/
theorem memories_refl {r : Correspondence} {m : Memory} (h : ∀ d ∈ m.furthest, r.told d d) :
  r.Memories m m
  := by
  refine ⟨?_, rfl⟩
  cases hkept : m.furthest with
  | none => exact .none
  | some d => exact .some (h d hkept)

/-- Where the tokens are the same, the next ones are of the same kind, with the same leaves. -/
theorem head_of_rest_eq {r : Correspondence} (hleaf : ∀ token, r.trees [.leaf token] [.leaf token]) {c d : Cursor}
    (h : d.rest = c.rest) :
  Option.Rel (fun token other => other.kind = token.kind ∧ r.trees [.leaf token] [.leaf other])
    c.rest.head? d.rest.head?
  := by
  rw [h]
  cases c.rest.head? with
  | none => exact .none
  | some token => exact .some ⟨rfl, hleaf token⟩

/-- Whether a correspondence goes along with two settings in what it says of places and diagnostics. -/
structure Follows (r : Correspondence) (s t : Setting) : Prop where
  /-- The places of which something is asked are not beyond the edge. -/
  inside : ∀ {c d}, r.place c d → ¬ r.IsBeyond c.index
  /-- The indices differ by the shift. -/
  index_eq : ∀ {c d}, r.place c d → d.index = c.index + r.shift
  /-- At the same place there are tokens of the same kind, with the same leaves. -/
  head : ∀ {c d}, r.place c d →
    Option.Rel (fun token other => other.kind = token.kind ∧ r.trees [.leaf token] [.leaf other])
      c.rest.head? d.rest.head?
  /-- The places some tokens on from the same place are the same, unless they are beyond the edge. -/
  advance : ∀ {c d count}, r.place c d → count ≤ c.rest.length → ¬ r.IsBeyond (c.index + count) →
    r.place (c.advance count) (d.advance count)
  /-- The mismatches of the same item at the same place are the same. -/
  mismatch : ∀ {c d a b cause} (rule : Nonterminal), r.place c d → r.Items a b →
    (cause = .tooFew ∨ cause = .tooMany) → r.told (mismatchAt s rule a c cause) (mismatchAt t rule b d cause)
  /-- The limit is reached alike at the same place. -/
  tooDeep : ∀ {c d} (rule : Nonterminal), r.place c d →
    r.told ⟨.tooDeep rule s.limit, c.position s.ending⟩ ⟨.tooDeep rule t.limit, d.position t.ending⟩
  /-- Mismatches are the same as mismatches. -/
  isMismatch_eq : ∀ {d e}, r.told d e → e.isMismatch = d.isMismatch
  /-- The furthest of some diagnostics is the same as the furthest of the same ones. -/
  isFurther_eq : ∀ {d e d' e'}, r.told d e → r.told d' e' → e.isFurther e' = d.isFurther d'
  /-- If there is an edge, productions keep something and do not look ahead. -/
  edge : r.edge.isSome = true → ∀ p, r.allows p →
    p.looksAhead = false ∧ ∃ item ∈ p.items, item.keeps = true

/-- Whether a correspondence relates two settings, so that evaluations of what it takes for the same compare. -/
structure Relates (r : Correspondence) (s t : Setting) : Prop extends r.Follows s t where
  /-- Targets of tokens are the same only when they are equal. -/
  tokens : ∀ {kinds excluded b}, r.target (.tokens kinds excluded) b → b = .tokens kinds excluded
  /-- Targets of rules ask for the same rules. -/
  rules : ∀ {heads hoisted b}, r.target (.rules heads hoisted) b → ∃ hoisted', b = .rules heads hoisted'
  /-- The alternatives of the rules are the same. -/
  candidates : ∀ {heads hoisted hoisted'}, r.target (.rules heads hoisted) (.rules heads hoisted') →
    r.Outcomes (List.Forall₂ r.Productions) (s.grammar.candidates heads.members)
      (t.grammar.candidates heads.members)
  /-- What a match of the rules adds is the same. -/
  graft : ∀ {heads hoisted hoisted' a b} (rule : Nonterminal),
    r.target (.rules heads hoisted) (.rules heads hoisted') → b.rule = a.rule → a.isEmpty = false →
      r.trees a.children b.children → r.trees (graft rule hoisted a) (graft rule hoisted' b)
  /-- No trees are the same as no trees. -/
  nil : r.trees [] []
  /-- Trees in a row are the same when they are the same part by part. -/
  append : ∀ {a b a' b'}, r.trees a b → r.trees a' b' → r.trees (a ++ a') (b ++ b')
  /-- No trees are the same as some trees. -/
  isEmpty_eq : ∀ {a b}, r.trees a b → b.isEmpty = a.isEmpty

/-- A correspondence in which places are the same just when they are equal, and so are diagnostics unless they tell of
an unknown rule, goes along with any change of the grammar, as long as items that are the same are shown the same. -/
theorem follows_of_eq {r : Correspondence} (s : Setting) (g : Grammar) (hplace : r.place = Eq) (hshift : r.shift = 0)
    (hedge : r.edge = none) (hleaf : ∀ token, r.trees [.leaf token] [.leaf token])
    (hshown : ∀ {a b}, r.Items a b → b.target.shown = a.target.shown) (htold : ∀ {d e}, r.told d e → e = d)
    (hself : ∀ d : Diagnostic, (∀ rule, d.cause ≠ .unknownRule rule) → r.told d d) :
  r.Follows s { s with grammar := g }
  where
  inside _ := not_isBeyond_of_edge hedge _
  index_eq := by
    rw [hplace]
    rintro c _ rfl
    rw [hshift, Nat.add_zero]
  head := by
    rw [hplace]
    rintro c _ rfl
    apply head_of_rest_eq hleaf rfl
  advance := by
    rw [hplace]
    rintro c _ count rfl - -
    rfl
  mismatch := by
    rw [hplace]
    rintro c _ a b cause rule rfl hitem hcause
    have hsame : mismatchAt { s with grammar := g } rule b c cause = mismatchAt s rule a c cause := by
      simp only [mismatchAt, hshown hitem]
    rw [hsame]
    apply hself
    rcases hcause with rfl | rfl <;> nofun
  tooDeep := by
    rw [hplace]
    rintro c _ rule rfl
    apply hself
    nofun
  isMismatch_eq h := by rw [htold h]
  isFurther_eq h h' := by rw [htold h, htold h']
  edge := by simp [hedge]

/-- A production that is evaluated is the same as itself when its items are. -/
theorem productions_refl {r : Correspondence} {p : Production} (hallows : r.allows p)
    (hitem : ∀ item ∈ p.items, r.Items item item) :
  r.Productions p p
  := by
  use hallows, rfl, hitem p.opening List.mem_cons_self
  apply List.forall₂_same.mpr
  intro item hmem
  apply hitem item (List.mem_cons_of_mem p.opening hmem)

/-- The alternatives of rules are the same as themselves when each of their productions is, and so is what is told of
rules that have none. -/
theorem candidates_refl {r : Correspondence} {g : Grammar} {rules : List Nonterminal}
    (hps : ∀ p ∈ g.productions, p.rule ∈ rules → r.Productions p p)
    (hunknown : ∀ rule ∈ rules, g.contains rule = false → r.told (Grammar.unknown rule) (Grammar.unknown rule)) :
  r.Outcomes (List.Forall₂ r.Productions) (g.candidates rules) (g.candidates rules)
  := by
  cases h : g.candidates rules with
  | error reason =>
    obtain ⟨rule, hrule, hmissing, rfl⟩ := Grammar.eq_unknown_of_candidates h
    apply Outcomes.error (hunknown rule hrule hmissing)
  | ok ps =>
    apply Outcomes.ok
    apply List.forall₂_same.mpr
    intro p hp
    obtain ⟨hmem, hrule⟩ := Grammar.mem_of_candidates h hp
    apply hps p hmem hrule

/-- When targets and trees are the same only if they are equal, all that is left to ask is of places, diagnostics
and the alternatives of rules. -/
theorem Follows.relates_of_candidates {r : Correspondence} {s t : Setting} (h : r.Follows s t)
    (htarget : ∀ {a b}, r.target a b → b = a) (htrees : r.trees = Eq)
    (hcandidates : ∀ {heads hoisted}, r.target (.rules heads hoisted) (.rules heads hoisted) →
      r.Outcomes (List.Forall₂ r.Productions) (s.grammar.candidates heads.members)
        (t.grammar.candidates heads.members)) :
  r.Relates s t
  where
  toFollows := h
  tokens := by
    intro kinds excluded b hb
    rw [htarget hb]
  rules := by
    intro heads hoisted b hb
    use hoisted, htarget hb
  candidates := by
    intro heads hoisted hoisted' hsame
    obtain ⟨⟩ := htarget hsame
    apply hcandidates hsame
  graft := by
    rw [htrees]
    intro heads hoisted hoisted' a b rule hsame hrule _ hchildren
    obtain ⟨⟩ := htarget hsame
    simp only [LayoutGrammar.graft, Node.tree, hrule, hchildren]
  nil := htrees ▸ rfl
  append := by
    rw [htrees]
    rintro a _ a' _ rfl rfl
    rfl
  isEmpty_eq := by
    rw [htrees]
    rintro a _ rfl
    rfl

/-- When targets and trees are the same just if they are equal, and the grammar is one, all that is left to ask
is of places and diagnostics. -/
theorem Follows.relates {r : Correspondence} {s t : Setting} (h : r.Follows s t) (htarget : r.target = Eq)
    (htrees : r.trees = Eq) (hgrammar : t.grammar = s.grammar) (hallows : ∀ p ∈ s.grammar.productions, r.allows p)
    (hunknown : ∀ rule, r.told (Grammar.unknown rule) (Grammar.unknown rule)) :
  r.Relates s t
  := by
  apply h.relates_of_candidates _ htrees
  · intro heads _ _
    rw [hgrammar]
    apply candidates_refl
    · intro p hp _
      apply productions_refl (hallows p hp)
      intro item _
      exact ⟨htarget ▸ rfl, rfl⟩
    · intro rule _ _
      apply hunknown
  · rw [htarget]
    rintro a _ rfl
    rfl

namespace Follows

variable {r : Correspondence} {s t : Setting} (h : r.Follows s t)
include h

/-- At the same place no token is left, or the next ones are of the same kind, with the same leaves. -/
theorem rest_cases {c d : Cursor} (hplace : r.place c d) :
  (c.rest = [] ∧ d.rest = [])
    ∨ ∃ token rest other rest', c.rest = token :: rest ∧ d.rest = other :: rest' ∧ other.kind = token.kind
      ∧ r.trees [.leaf token] [.leaf other]
  := by
  have hhead := h.head hplace
  cases hc : c.rest with
  | nil =>
    cases hd : d.rest with
    | nil => exact Or.inl ⟨rfl, rfl⟩
    | cons => simp [hc, hd] at hhead
  | cons token rest =>
    cases hd : d.rest with
    | nil => simp [hc, hd] at hhead
    | cons other rest' =>
      obtain ⟨hkind, hleaf⟩ : other.kind = token.kind ∧ r.trees [.leaf token] [.leaf other] := by
        simpa [hc, hd] using hhead
      exact Or.inr ⟨token, rest, other, rest', rfl, rfl, hkind, hleaf⟩

theorem keepFurther {d e : Diagnostic} {kept kept' : Option Diagnostic} (htold : r.told d e)
    (hkept : Option.Rel r.told kept kept') :
  r.told (d.keepFurther kept) (e.keepFurther kept')
  := by
  cases hkept with
  | none => apply htold
  | @some old old' hold =>
    simp only [Diagnostic.keepFurther, h.isFurther_eq htold hold]
    split
    · apply htold
    · apply hold

/-- Events that are the same leave the same of memories that are the same. -/
theorem note {m m' : Memory} (hm : r.Memories m m') {e e' : Event} (he : r.Events e e') :
  r.Memories (m.note e) (m'.note e')
  := by
  obtain ⟨hfurthest, hopened⟩ := hm
  cases he with
  | entered | matched | raised => exact ⟨hfurthest, hopened⟩
  | discarded htold =>
    simp only [Memory.note, hopened]
    split
    · exact ⟨.some (h.keepFurther htold hfurthest), rfl⟩
    · exact ⟨hfurthest, hopened⟩
  | lookAheadOpened | lookAheadClosed =>
    refine ⟨hfurthest, ?_⟩
    simp only [Memory.note, hopened]

/-- What a memory keeps of the same journals is the same. -/
theorem follow {m m' : Memory} (hm : r.Memories m m') {j j' : Journal}
    (hj : List.Forall₂ r.Events j.events j'.events) :
  r.Memories (m.follow j) (m'.follow j')
  := by
  unfold Memory.follow
  generalize j.events = events, j'.events = events' at hj
  induction hj generalizing m m' with
  | nil => apply hm
  | cons he _ ih => apply ih (h.note hm he)

/-- What is told for the same diagnostic by memories that are the same is the same. -/
theorem promote {m m' : Memory} (hm : r.Memories m m') {d e : Diagnostic} (htold : r.told d e) :
  r.told (m.promote d) (m'.promote e)
  := by
  obtain ⟨hfurthest, -⟩ := hm
  unfold Memory.promote
  generalize m.furthest = kept, m'.furthest = kept' at hfurthest
  cases hfurthest with
  | none => apply htold
  | some hkept =>
    simp only [h.isMismatch_eq htold, h.isFurther_eq hkept htold]
    split
    · apply hkept
    · apply htold

end Follows

namespace Relates

variable {r : Correspondence} {s t : Setting} (h : r.Relates s t)
include h

theorem isMatch_eq {a b : Reading} (hab : r.Readings a b) :
  b.isMatch = a.isMatch
  := by
  simp [Reading.isMatch, Node.isEmpty, h.isEmpty_eq hab.children]

/-- The place some tokens on from the same place is the same, or beyond the edge. -/
theorem piece {a b : List Tree} (htrees : r.trees a b) {c d : Cursor} (hplace : r.place c d) {count : Nat}
    (hcount : count ≤ c.rest.length) :
  r.IsBeyond (c.advance count).index ∨ r.Pieces ⟨a, c.advance count⟩ ⟨b, d.advance count⟩
  := by
  by_cases hbeyond : r.IsBeyond (c.index + count)
  · apply Or.inl hbeyond
  · apply Or.inr ⟨htrees, h.advance hplace hcount hbeyond⟩

end Relates
end Correspondence

/-! ## Choice -/

namespace Correspondence.Relates

section

variable {r : Correspondence} {s t : Setting} (h : r.Relates s t) {room depth : Nat}
  (ih : ∀ {p q c d}, r.Productions p q → r.place c d →
    (evaluate s room depth p c).Compares r (Reading.stop c) r.Readings (evaluate t room depth q d))
include h ih

theorem tryEach {ps qs : List Production} (hps : List.Forall₂ r.Productions ps qs)
    {kept kept' : Option Diagnostic} (hkept : Option.Rel r.told kept kept') {c d : Cursor}
    (hplace : r.place c d) :
  (LayoutGrammar.tryEach (evaluate s room depth) ps kept c).Compares r
    (fun found => found.elim c.index (Reading.stop c)) (Option.Rel r.Readings)
    (LayoutGrammar.tryEach (evaluate t room depth) qs kept' d)
  := by
  induction hps generalizing kept kept' with
  | nil =>
    cases hkept with
    | none => exact .inr (Attempt.mirrors_pure .none)
    | some htold => exact .inr (Attempt.mirrors_fail htold _)
  | @cons p q ps qs hpq hothers ih' =>
    rcases ih hpq hplace with hescapes | ⟨houtcome, hevents⟩
    · apply Or.inl (tryEach_escapes hescapes (h.inside hplace) ps kept)
    · obtain ⟨a, b, hout, hout', hab⟩ | ⟨e, e', hout, hout', htold⟩ := houtcome.ok_or_error
      · simp only [LayoutGrammar.tryEach, hout, hout', h.isMatch_eq hab]
        split
        · exact .inr ⟨.ok (.some hab), hevents⟩
        · apply (ih' hkept).after hevents
      · simp only [LayoutGrammar.tryEach, hout, hout', h.isMismatch_eq htold]
        split
        · apply (ih' (.some (h.keepFurther htold hkept))).after
          rw [Journal.events_append, Journal.events_append]
          apply List.rel_append hevents
          exact .cons (.discarded htold) .nil
        · exact .inr ⟨.error htold, hevents⟩

theorem tryRules {heads : Choice Nonterminal} {hoisted hoisted' : Bool}
    (htarget : r.target (.rules heads hoisted) (.rules heads hoisted')) {c d : Cursor}
    (hplace : r.place c d) :
  (LayoutGrammar.tryRules s (evaluate s room depth) heads.members c).Compares r
    (fun found => found.elim c.index (Reading.stop c)) (Option.Rel r.Readings)
    (LayoutGrammar.tryRules t (evaluate t room depth) heads.members d)
  := by
  unfold LayoutGrammar.tryRules
  obtain ⟨ps, qs, hps, hqs, hall⟩ | ⟨e, e', hps, hqs, htold⟩ := (h.candidates htarget).ok_or_error
  · simp only [hps, hqs]
    apply h.tryEach ih hall .none hplace
  · simp only [hps, hqs]
    exact .inr (Attempt.mirrors_fail htold _)

/-! ## Items -/

omit ih in
/-- Matches of the same trees compare when they go on as far. -/
theorem pure_some {x y : List Tree} (htrees : r.trees x y) {c d : Cursor} (hplace : r.place c d) {count : Nat}
    (hcount : count ≤ c.rest.length) :
  (pure (some ⟨x, c.advance count⟩) : Attempt (Option Piece)).Compares r
    (fun found => found.elim c.index fun piece => piece.cursor.index) (Option.Rel r.Pieces)
    (pure (some ⟨y, d.advance count⟩))
  := by
  rcases h.piece htrees hplace hcount with hbeyond | hpieces
  · exact .inl (.found rfl hbeyond)
  · exact .inr (Attempt.mirrors_pure (.some hpieces))

theorem matchOnce (rule : Nonterminal) {a b : Target} (htarget : r.target a b) {c d : Cursor}
    (hplace : r.place c d) :
  (LayoutGrammar.matchOnce s (evaluate s room depth) rule a c).Compares r
    (fun found => found.elim c.index fun piece => piece.cursor.index) (Option.Rel r.Pieces)
    (LayoutGrammar.matchOnce t (evaluate t room depth) rule b d)
  := by
  have hnone : (pure none : Attempt (Option Piece)).Compares r
      (fun found => found.elim c.index fun piece => piece.cursor.index) (Option.Rel r.Pieces) (pure none) :=
    .inr (Attempt.mirrors_pure .none)
  cases a with
  | tokens kinds excluded =>
    obtain rfl := h.tokens htarget
    simp only [LayoutGrammar.matchOnce]
    obtain ⟨hc, hd⟩ | ⟨token, rest, other, rest', hc, hd, hkind, hleaf⟩ := h.rest_cases hplace
    · simp only [hc, hd]
      apply hnone
    · simp only [hc, hd, hkind]
      split
      · apply h.pure_some _ hplace
        · simp [hc]
        · split
          · apply h.nil
          · apply hleaf
      · apply hnone
  | rules heads hoisted =>
    obtain ⟨hoisted', rfl⟩ := h.rules htarget
    simp only [LayoutGrammar.matchOnce]
    apply (h.tryRules ih htarget hplace).bind
    · rintro (_ | reading) _ hbeyond
      · apply absurd hbeyond (h.inside hplace)
      · exact .found rfl hbeyond
    · intro found found' hout hfound
      have hprogress : (LayoutGrammar.tryRules s (evaluate s room depth) heads.members c).Finds _ :=
        tryRules_finds fun p _ => evaluate_finds_progresses s room depth p c
      cases hfound with
      | none => apply hnone
      | @some reading reading' hreading =>
        obtain ⟨hmatch, _, -, hreads⟩ := hprogress.of_ok _ hout reading rfl
        simp only [hreading.consumed_eq]
        apply h.pure_some _ hplace hreads.le_length
        apply h.graft rule htarget hreading.rule_eq _ hreading.children
        simpa [Reading.isMatch] using hmatch

theorem matchMany (rule : Nonterminal) {a b : Target} (htarget : r.target a b) {c d : Cursor}
    (hplace : r.place c d) :
  (LayoutGrammar.matchMany (LayoutGrammar.matchOnce s (evaluate s room depth) rule a) c).Compares r
    (fun found => found.cursor.index) r.Found
    (LayoutGrammar.matchMany (LayoutGrammar.matchOnce t (evaluate t room depth) rule b) d)
  := by
  -- Every match advances, so that none of them is taken for the last.
  have hunfold (s : Setting) (target : Target) (c : Cursor) :=
    (eq_matchMany_iff (matchOnce_finds_advances s room depth rule target) _).mpr rfl c
  induction hc : c.rest.length using Nat.strong_induction_on generalizing c d with
  | _ n ih' =>
    rw [hunfold s a c, hunfold t b d]
    apply (h.matchOnce ih rule htarget hplace).bind
    · rintro (_ | piece) _ hbeyond
      · apply absurd hbeyond (h.inside hplace)
      · apply (matchMany_escapes rule a hbeyond).bind
        intro others _ hothers
        exact .found rfl hothers
    · intro found found' hout hfound
      cases hfound with
      | none => exact .inr (Attempt.mirrors_pure ⟨⟨h.nil, hplace⟩, rfl⟩)
      | @some piece piece' hpiece =>
        have hlt := ((matchOnce_finds_advances s room depth rule a c).of_ok _ hout piece rfl).length_lt
        apply (ih' _ (hc ▸ hlt) hpiece.cursor rfl).bind
        · intro others _ hothers
          exact .found rfl hothers
        · intro others others' _ hothers
          exact .inr (Attempt.mirrors_pure
            ⟨⟨h.append hpiece.trees hothers.trees, hothers.cursor⟩, congrArg (· + 1) hothers.count_eq⟩)

theorem matchItem (rule : Nonterminal) {a b : Item} (hitem : r.Items a b) {c d : Cursor}
    (hplace : r.place c d) :
  (LayoutGrammar.matchItem s (evaluate s room depth) rule a c).Compares r
    (fun found => found.cursor.index) r.Found
    (LayoutGrammar.matchItem t (evaluate t room depth) rule b d)
  := by
  simp only [LayoutGrammar.matchItem, hitem.repetition_eq]
  split
  · apply h.matchMany ih rule hitem.target hplace
  · apply (h.matchOnce ih rule hitem.target hplace).bind
    · rintro (_ | piece) _ hbeyond
      · apply absurd hbeyond (h.inside hplace)
      · exact .found rfl hbeyond
    · intro found found' _ hfound
      cases hfound with
      | none => exact .inr (Attempt.mirrors_pure ⟨⟨h.nil, hplace⟩, rfl⟩)
      | some hpiece => exact .inr (Attempt.mirrors_pure ⟨hpiece, rfl⟩)

/-- What is ahead at the same place is the same. -/
theorem lookAhead {a b : Target} (htarget : r.target a b)
    (hedge : r.edge.isSome = true → Item.looksAhead ⟨a, .atMostOnce⟩ = false) {c d : Cursor}
    (hplace : r.place c d) :
  (LayoutGrammar.lookAhead s (evaluate s room depth) a c).Mirrors r Eq
    (LayoutGrammar.lookAhead t (evaluate t room depth) b d)
  := by
  cases a with
  | tokens kinds excluded =>
    obtain rfl := h.tokens htarget
    simp only [LayoutGrammar.lookAhead]
    obtain ⟨hc, hd⟩ | ⟨token, rest, other, rest', hc, hd, hkind, -⟩ := h.rest_cases hplace
    · simp only [hc, hd]
      exact Attempt.mirrors_pure rfl
    · simp only [hc, hd, hkind]
      exact Attempt.mirrors_pure rfl
  | rules heads hoisted =>
    obtain ⟨hoisted', rfl⟩ := h.rules htarget
    have hnone : r.edge = none := by
      rw [← Option.not_isSome_iff_eq_none]
      intro hsome
      cases hedge hsome
    obtain ⟨houtcome, hevents⟩ := (h.tryRules ih htarget hplace).mirrors hnone
    constructor
    · apply Outcomes.ok
      obtain ⟨found, found', hout, hout', hfound⟩ | ⟨e, e', hout, hout', -⟩ := houtcome.ok_or_error
      · cases hfound <;> simp only [hout, hout']
      · simp only [hout, hout']
    · simp only [LayoutGrammar.lookAhead, Journal.events_append, Journal.events_event]
      apply List.rel_append (List.rel_append _ hevents)
      · exact .cons .lookAheadClosed .nil
      · exact .cons .lookAheadOpened .nil

/-! ## Productions -/

theorem matchAll (rule : Nonterminal) {items items' : List Item} (hitems : List.Forall₂ r.Items items items')
    (hedge : r.edge.isSome = true → items.any Item.looksAhead = false) {before before' : Piece}
    (hbefore : r.Pieces before before') :
  (LayoutGrammar.matchAll s (evaluate s room depth) rule items before).Compares r
    (fun whole => whole.cursor.index) r.Pieces
    (LayoutGrammar.matchAll t (evaluate t room depth) rule items' before')
  := by
  induction hitems generalizing before before' with
  | nil => exact .inr (Attempt.mirrors_pure hbefore)
  | @cons item item' items items' hitem hothers ih' =>
    have hplain (hsome : r.edge.isSome = true) :
        item.looksAhead = false ∧ items.any Item.looksAhead = false := by
      simpa only [List.any_cons, Bool.or_eq_false_iff] using hedge hsome
    rw [LayoutGrammar.matchAll, LayoutGrammar.matchAll]
    apply (h.matchItem ih rule hitem hbefore.cursor).bind
    · intro found _ hbeyond
      apply continue_escapes rule item items (before.trees ++ found.trees) hbeyond
    · intro found found' _ hfound
      have hraise {cause : Mismatch → Cause} (hcause : cause = .tooFew ∨ cause = .tooMany) :
          (Attempt.raise (mismatchAt s rule item found.cursor cause)).Compares r
            (fun whole => whole.cursor.index) r.Pieces
            (Attempt.raise (mismatchAt t rule item' found'.cursor cause)) :=
        .inr (Attempt.mirrors_raise (h.mismatch rule hfound.cursor hitem hcause) _)
      have hlater : (LayoutGrammar.matchAll s (evaluate s room depth) rule items
          ⟨before.trees ++ found.trees, found.cursor⟩).Compares r (fun whole => whole.cursor.index) r.Pieces
          (LayoutGrammar.matchAll t (evaluate t room depth) rule items'
            ⟨before'.trees ++ found'.trees, found'.cursor⟩) := by
        apply ih'
        · intro hsome
          apply (hplain hsome).2
        · exact ⟨h.append hbefore.trees hfound.trees, hfound.cursor⟩
      simp only [hfound.count_eq, hitem.repetition_eq]
      split
      · apply hraise (Or.inl rfl)
      · split
        next hmost =>
          have hahead (hsome : r.edge.isSome = true) : Item.looksAhead ⟨item.target, .atMostOnce⟩ = false := by
            rw [← hmost.1]
            apply (hplain hsome).1
          apply ((h.lookAhead ih hitem.target hahead hfound.cursor).compares fun _ => found.cursor.index).bind
          · intro _ _ hbeyond
            apply absurd hbeyond (h.inside hfound.cursor)
          · rintro answer _ _ rfl
            cases answer with
            | false => apply hlater
            | true => apply hraise (Or.inr rfl)
        next => apply hlater

omit ih in
/-- What is read compares when the pieces are the same. -/
theorem finish (rule : Nonterminal) (own : Nat) {c d : Cursor} (hplace : r.place c d) {whole whole' : Piece}
    (hpieces : r.Pieces whole whole') :
  (if whole.trees.isEmpty then
      pure (Reading.nothing rule)
    else do
      Attempt.note (.matched rule (whole.cursor.index - c.index) own)
      pure ⟨⟨rule, whole.trees⟩, whole.cursor.index - c.index⟩).Mirrors r r.Readings
    (if whole'.trees.isEmpty then
      pure (Reading.nothing rule)
    else do
      Attempt.note (.matched rule (whole'.cursor.index - d.index) own)
      pure ⟨⟨rule, whole'.trees⟩, whole'.cursor.index - d.index⟩)
  := by
  have hconsumed : whole'.cursor.index - d.index = whole.cursor.index - c.index := by
    rw [h.index_eq hpieces.cursor, h.index_eq hplace]
    omega
  simp only [h.isEmpty_eq hpieces.trees, hconsumed]
  split
  · exact Attempt.mirrors_pure ⟨rfl, h.nil, rfl⟩
  · exact ⟨.ok ⟨rfl, hpieces.trees, rfl⟩, .cons (.matched rule (whole.cursor.index - c.index) own) .nil⟩

theorem matchProduction (own : Nat) {p q : Production} (hpq : r.Productions p q) {c d : Cursor}
    (hplace : r.place c d) :
  (LayoutGrammar.matchProduction s (evaluate s room depth) own p c).Compares r (Reading.stop c) r.Readings
    (LayoutGrammar.matchProduction t (evaluate t room depth) own q d)
  := by
  have hentered : (Attempt.note (.entered p.rule c.index own)).Compares r (fun _ => c.index) Eq
      (Attempt.note (.entered q.rule d.index own)) := by
    rw [hpq.rule_eq, h.index_eq hplace]
    exact (Attempt.mirrors_note (.entered p.rule c.index own)).compares _
  have hedge (hsome : r.edge.isSome = true) := h.edge hsome p hpq.isAllowed
  simp only [LayoutGrammar.matchProduction]
  apply hentered.bind fun _ _ hbeyond => absurd hbeyond (h.inside hplace)
  intro _ _ _ _
  obtain ⟨-, hrule, hitem, hitems⟩ := hpq
  rw [hrule]
  apply (h.matchItem ih p.rule hitem hplace).bind
  · intro opening hopening hbeyond
    split
    next hcount =>
      rw [((matchItem_finds_keeps p.rule p.opening c).of_ok opening hopening).1 hcount] at hbeyond
      apply absurd hbeyond (h.inside hplace)
    next hcount =>
      apply (matchAll_escapes p.rule p.continuations hbeyond).bind
      intro whole hout hend
      have hne := whole_finds_ne_nil (hedge hbeyond.isSome).2 hopening hcount
      apply finish_escapes hend (hne.of_ok whole hout)
  · intro opening opening' hopening hfound
    simp only [hfound.count_eq]
    split
    · exact .inr (Attempt.mirrors_pure ⟨rfl, h.nil, rfl⟩)
    next hcount =>
      apply (h.matchAll ih p.rule hitems _ hfound.toPieces).bind
      · intro whole hout hend
        have hne := whole_finds_ne_nil (hedge hend.isSome).2 hopening hcount
        apply finish_escapes hend (hne.of_ok whole hout)
      · intro whole whole' _ hpieces
        apply (h.finish p.rule own hplace hpieces).compares
      · intro hsome
        apply (hedge hsome).1

end

/-- Evaluations of the same production at the same place compare. -/
theorem evaluate {r : Correspondence} {s t : Setting} (h : r.Relates s t) (room depth : Nat)
    {p q : Production} (hpq : r.Productions p q) {c d : Cursor} (hplace : r.place c d) :
  (LayoutGrammar.evaluate s room depth p c).Compares r (Reading.stop c) r.Readings
    (LayoutGrammar.evaluate t room depth q d)
  := by
  induction room generalizing depth p q c d with
  | zero =>
    simp only [LayoutGrammar.evaluate, hpq.rule_eq]
    exact .inr (Attempt.mirrors_fail (h.tooDeep p.rule hplace) _)
  | succ room ih =>
    apply h.matchProduction _ depth hpq hplace
    intro p q c d hpq hplace
    apply ih (depth + 1) hpq hplace

end Correspondence.Relates

/-! ## Sessions -/

namespace Correspondence

variable {r : Correspondence} {first second : Session} (hmemory : r.Memories first.memory second.memory)
include hmemory

/-- Sessions whose memories are the same answer the same to attempts that mirror each other, and keep the
same. -/
theorem Follows.conclude {s t : Setting} (h : r.Follows s t) {α β : Type} {R : α → β → Prop}
    {attempt : Attempt α} {other : Attempt β} (hmirrors : attempt.Mirrors r R other) :
  (first.conclude attempt).1.Mirrors r R (second.conclude other).1
    ∧ r.Memories (first.conclude attempt).2.memory (second.conclude other).2.memory
  := by
  obtain ⟨houtcome, hevents⟩ := hmirrors
  have hafter : r.Memories (first.memory.follow attempt.journal) (second.memory.follow other.journal) :=
    h.follow hmemory hevents
  refine ⟨⟨?_, hevents⟩, hafter⟩
  obtain ⟨value, value', hout, hout', hsame⟩ | ⟨d, e, hout, hout', htold⟩ := houtcome.ok_or_error
  · simp only [Session.conclude, hout, hout']
    apply Outcomes.ok hsame
  · simp only [Session.conclude, hout, hout']
    apply Outcomes.error (h.promote hafter htold)

/-- Sessions of the same limit, over settings that are related without an edge, answer the same when they
evaluate the same production at the same place, and keep the same. -/
theorem Relates.session (h : r.Relates first.setting second.setting) (hedge : r.edge = none)
    (hlimit : second.limit = first.limit) {p q : Production} (hpq : r.Productions p q) {start start' : Nat}
    (hplace : r.place (first.cursor start) (second.cursor start')) :
  (first.evaluate p start).1.Mirrors r r.Readings (second.evaluate q start').1
    ∧ r.Memories (first.evaluate p start).2.memory (second.evaluate q start').2.memory
  := by
  apply h.toFollows.conclude hmemory
  have hroom : second.setting.limit + 1 = first.setting.limit + 1 := congrArg (· + 1) hlimit
  rw [evaluateTop, evaluateTop, hroom]
  apply (h.evaluate _ 0 hpq hplace).mirrors hedge

end Correspondence
end LayoutGrammar
