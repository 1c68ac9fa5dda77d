import LayoutGrammar.Proofs.Program.Statement

/-!
# Evaluating programs

The productions of programs come out as the outlook foretells (`evaluate_foretells`): a token is enough to
tell what is next, or the production is that of statements, which tries an assignment first and goes back
to an expression when it breaks.
-/

namespace LayoutGrammar
namespace Program

/-! ## Opening a statement -/

section

variable {α β : Type} (P : Nonterminal → Phrase α) (c : Cursor)

/-- Whether a statement that starts with an identifier opens with an assignment, or with an expression when
an assignment breaks. -/
def Opens (value : α) (stop : Cursor) (reach : Nat) : Prop :=
  (P .assignment).SettlesAt (nextKinds .assignment) c value stop reach
    ∨ ∃ first further, (P .assignment).BreaksLater (nextKinds .assignment) c first
      ∧ (P .expression).SettlesAt (nextKinds .expression) c value stop further
      ∧ reach = max first further

/-- Whether a statement that starts with an identifier opens neither with an assignment nor with an
expression. -/
def Fails (reach : Nat) : Prop :=
  ∃ first further, (P .assignment).BreaksLater (nextKinds .assignment) c first
    ∧ (P .expression).BreaksLater (nextKinds .expression) c further ∧ reach = max first further

variable {P : Nonterminal → Phrase α} {c stop : Cursor} {value : α} {reach : Nat}

theorem Opens.map (h : Opens P c value stop reach) (f : α → β) :
  Opens (fun head => (P head).map f) c (f value) stop reach
  := by
  rcases h with h | ⟨first, further, hbreaks, hsettles, hreach⟩
  · apply Or.inl (h.map f)
  · apply Or.inr ⟨first, further, hbreaks.map f, hsettles.map f, hreach⟩

theorem Fails.map (h : Fails P c reach) (f : α → β) :
  Fails (fun head => (P head).map f) c reach
  := by
  obtain ⟨first, further, hassignment, hexpression, hreach⟩ := h
  exact ⟨first, further, hassignment.map f, hexpression.map f, hreach⟩

end

section

variable {s : Setting} {inner : Evaluator} {room : Nat} {c : Cursor}

/-- The alternatives of a statement that starts with an identifier. -/
theorem tryRules_statement_ends (hs : s.grammar = grammar)
    (hinner : outlook.Foretells meaning grammar inner room) (hc : ¬ Avoids [.identifier] c.rest) :
  (tryRules s inner statementRules c).Ends
    (fun r reach => ∃ reading, r = some reading
      ∧ Opens meaning c reading.node (c.advance reading.consumed) reach)
    (Fails meaning c) (∃ rule ∈ statementRules, room ≤ outlook.depth rule c)
  := by
  have hmem (rule : Nonterminal) {p : Production} (h : productionsOf rule = [p]) :
      p ∈ grammar.productions := by
    have hp : p ∈ productionsOf rule := by simp [h]
    apply (mem_productionsOf_iff.mp hp).1
  obtain ⟨t, ts, hts, ht⟩ : ∃ t ts, c.rest = t :: ts ∧ t.kind = .identifier := by
    cases hrest : c.rest with
    | nil => simp [hrest, Avoids] at hc
    | cons t ts => exact ⟨t, ts, rfl, by simpa [hrest, avoids_cons_iff] using hc⟩
  unfold tryRules
  rw [hs, candidates_eq]
  simp only [statementRules, List.flatMap_cons, List.flatMap_nil, productionsOf, List.append_nil, List.cons_append,
    List.nil_append]
  have hskip {kind : Terminal} (hkind : kind ≠ .identifier) : Avoids [kind] c.rest := by
    rw [hts, avoids_cons_iff, ht, List.mem_singleton]
    apply hkind.symm
  have hdeep {rule : Nonterminal} (hrule : rule ∈ statementRules) (hroom : room ≤ outlook.depth rule c) :
      ∃ rule ∈ statementRules, room ≤ outlook.depth rule c := ⟨rule, hrule, hroom⟩
  have hassignment := meaning_eq_phrase (show productionsOf .assignment = _ from rfl)
  have hexpression := meaning_eq_phrase (show productionsOf .expression = _ from rfl)
  apply tryEach_cons_of_avoids foresees (hinner _ (hmem .ifStatement rfl) c) (hskip (by decide)) _
    (hdeep (by decide))
  apply tryEach_cons_of_starts (hinner _ (hmem .assignment rfl) c) hc _ _ (hdeep (by decide))
  · intro reading reach hsettles
    rw [← hassignment] at hsettles
    exact ⟨reading, rfl, Or.inl hsettles⟩
  · intro reason first hbreaks hm
    rw [← hassignment] at hbreaks
    have hstarts : ¬ Avoids expressionKinds c.rest := by
      rw [hts, avoids_cons_iff, ht]
      decide
    have hkeep : ∀ d ∈ some (reason.keepFurther none), d.isMismatch = true := by
      rintro _ ⟨⟩
      apply hm
    apply tryEach_cons_of_avoids foresees (hinner _ (hmem .print rfl) c) (hskip (by decide)) _
      (hdeep (by decide))
    apply tryEach_cons_of_starts (hinner _ (hmem .expression rfl) c) hstarts _ _
      (hdeep (by decide))
    · intro reading further hsettles
      rw [← hexpression] at hsettles
      exact ⟨reading, rfl, Or.inr ⟨first, further, hbreaks, hsettles, rfl⟩⟩
    · intro other further hstuck hm'
      rw [← hexpression] at hstuck
      apply tryEach_nil_ends (Diagnostic.isMismatch_keepFurther hm' hkeep)
      rw [Nat.max_zero]
      exact ⟨first, further, hbreaks, hstuck, rfl⟩

/-! ## Closing a line -/

/-- The trees of a statement of a nonterminal, without the end of its line. -/
def opened (head : Nonterminal) : Phrase (List Tree) := (meaning head).map (graft .statement false)

/-- The end of a line. -/
def ending : Phrase (List Tree) := Item.phrases meaning .statement [.skip .endOfLine]

theorem ending_inhabited : ending.Inhabited := foresees.phrases_inhabited .statement [.skip .endOfLine]

theorem ending_clears {kinds : List Terminal} (h : .endOfLine ∉ kinds) : ending.Clears kinds [] := by
  apply foresees.phrases_clears
  simp [Item.clears, Item.skip, Target.first, Choice.one, Choice.of, h, Repetition.minimum]

variable {trees others : List Tree} {mid stop : Cursor} {reach further : Nat}

theorem endOfLine_not_mem {head : Nonterminal} (h : head = .assignment ∨ head = .expression) :
  .endOfLine ∉ nextKinds head
  := by
  rcases h with rfl | rfl <;> decide

/-- A statement that starts with an identifier settles where the line that it opened ends. -/
theorem Opens.settles (h : Opens opened c trees mid reach)
    (hend : ending.SettlesAt [] mid others stop further) :
  (Phrase.any statementRules line).SettlesAt [] c (trees ++ others) stop (max reach further)
  := by
  rcases h with h | ⟨first, second, hbreaks, h, rfl⟩
  · have hline := h.seq hend (ending_clears (endOfLine_not_mem (Or.inl rfl)))
    obtain ⟨count, hstop, hsettles, hreach⟩ := hline
    use count, hstop, settles_of_assignment hsettles
  · have hclears := ending_clears (endOfLine_not_mem (Or.inl rfl))
    obtain ⟨⟨count, hbreaks, rfl⟩, hlt⟩ := hbreaks
    have hfirst := hbreaks.seq ending_inhabited hclears
    have hline := h.seq hend (ending_clears (endOfLine_not_mem (Or.inr rfl)))
    obtain ⟨more, rfl, hsettles, hreach⟩ := hline
    obtain ⟨hmore, hany⟩ := settles_of_expression hfirst (by omega) hsettles
    refine ⟨more, rfl, hany, ?_⟩
    rw [Cursor.index_advance] at hreach ⊢
    omega

/-- When both an assignment and an expression break, a statement breaks at the later place. -/
theorem breaksLater_of_both (hassignment : (opened .assignment).BreaksLater (nextKinds .assignment) c reach)
    (hexpression : (line .expression).BreaksAt [] c further) :
  (Phrase.any statementRules line).BreaksLater [] c (max reach further)
  := by
  obtain ⟨⟨count, hbreaks, rfl⟩, hlt⟩ := hassignment
  obtain ⟨more, hmore, rfl⟩ := hexpression
  have hfirst := hbreaks.seq ending_inhabited (ending_clears (endOfLine_not_mem (Or.inl rfl)))
  refine ⟨⟨max count more, breaks_of_both hfirst (by omega) hmore, ?_⟩, ?_⟩
  · omega
  · omega

/-- A statement that starts with an identifier breaks where the line that it opened does not end. -/
theorem Opens.breaks (h : Opens opened c trees mid reach) (hend : ending.BreaksAt [] mid further) :
  (Phrase.any statementRules line).BreaksLater [] c (max reach further)
  := by
  rcases h with h | ⟨first, second, hbreaks, h, rfl⟩
  · have hstart : (opened .assignment).StartsIn (firstKinds .assignment) :=
      (foresees.startsIn .assignment).map _
    have hline := h.seq_breaksLater hend (ending_clears (endOfLine_not_mem (Or.inl rfl))) hstart
    obtain ⟨⟨count, hbreaks, hreach⟩, hlt⟩ := hline
    obtain ⟨more, -, hsettles, -⟩ := h
    obtain ⟨node, hnode, -⟩ := hsettles.reads
    obtain ⟨t, u, us, htake, hu⟩ := second_of_assignment hnode
    have hsecond : c.rest[1]? = some u := by
      have hlen := congrArg List.length htake
      rw [List.length_take, List.length_cons, List.length_cons] at hlen
      rw [← List.getElem?_take_of_lt (show 1 < more by omega), htake]
      rfl
    refine ⟨⟨count, breaks_of_assignment hbreaks (by omega) hsecond hu, hreach⟩, hlt⟩
  · have hline := h.seq_breaks hend (ending_clears (endOfLine_not_mem (Or.inr rfl)))
    rw [Nat.max_assoc]
    apply breaksLater_of_both hbreaks hline

theorem Fails.breaks (h : Fails opened c reach) :
  (Phrase.any statementRules line).BreaksLater [] c reach
  := by
  obtain ⟨first, second, hassignment, hexpression, rfl⟩ := h
  apply breaksLater_of_both hassignment
  apply hexpression.1.seq ending_inhabited (ending_clears (endOfLine_not_mem (Or.inr rfl)))

/-! ## Statements -/

theorem statementProduction_mem : statementProduction ∈ grammar.productions := by
  decide +kernel

/-- The alternatives of a statement can be told apart where it does not start with an identifier. -/
theorem statement_isDecidedAt (hc : Avoids [.identifier] c.rest) :
  statementProduction.opening.target.IsDecidedAt outlook grammar c
  := by
  have hpairwise : (statementRules.flatMap grammar.alternatives).Pairwise fun p q =>
      ∀ kind ∈ p.first outlook, kind ∈ q.first outlook → kind = .identifier := by
    decide +kernel
  apply hpairwise.imp
  intro p q hpq
  cases hrest : c.rest with
  | nil => simp [Avoids]
  | cons t ts =>
    rw [hrest, avoids_cons_iff, List.mem_singleton] at hc
    rw [avoids_cons_iff, avoids_cons_iff, ← not_and_or]
    rintro ⟨hp, hq⟩
    apply hc (hpq t.kind hp hq)

/-- How the opening item of a statement that starts with an identifier comes out. -/
theorem matchItem_statement_ends (hs : s.grammar = grammar)
    (hinner : outlook.Foretells meaning grammar inner room) (hc : ¬ Avoids [.identifier] c.rest) :
  (matchItem s inner .statement statementProduction.opening c).Ends
    (fun found reach => found.count = 1 ∧ Opens opened c found.trees found.cursor reach)
    (Fails opened c) (statementProduction.opening.target.IsDeep outlook room c)
  := by
  have hchoice := tryRules_statement_ends hs hinner hc
  have honce : (matchOnce s inner .statement statementProduction.opening.target c).Ends
      (fun r reach => ∃ piece, r = some piece ∧ Opens opened c piece.trees piece.cursor reach)
      (Fails opened c) (statementProduction.opening.target.IsDeep outlook room c) := by
    apply hchoice.bind
    · rintro _ reach ⟨reading, rfl, hopens⟩
      apply Attempt.ends_pure
      simp only [Nat.max_zero]
      exact ⟨_, rfl, hopens.map (graft .statement false)⟩
    · intro reach hfails
      apply hfails.map
    · apply id
  apply honce.bind
  · rintro _ reach ⟨piece, rfl, hopens⟩
    apply Attempt.ends_pure
    rw [Nat.max_zero]
    exact ⟨rfl, hopens⟩
  · intro reach
    apply id
  · apply id

/-- A statement that starts with an identifier comes out as foretold. -/
theorem statement_isForetold (hs : s.grammar = grammar)
    (hinner : outlook.Foretells meaning grammar inner room) (hc : ¬ Avoids [.identifier] c.rest)
    (depth : Nat) :
  statementProduction.IsForetold outlook meaning c (matchProduction s inner depth statementProduction c)
    (room + 1 ≤ outlook.depth .statement c)
  := by
  have hp := statementProduction_mem
  have hitems : ∀ item ∈ statementProduction.continuations, ∀ c', item.IsForetold outlook meaning
      .statement c' (matchItem s inner .statement item c') (item.target.IsDeep outlook room c') := by
    intro item hitem c'
    have hmem : item ∈ statementProduction.items := List.mem_cons_of_mem _ hitem
    apply matchItem_of_isDecidedAt foresees hs hinner hp hmem
    · apply Item.disjoint_of_separates (suits _ hp).separates hmem
    · intro c'' _
      apply Target.isDecidedAt (isDecided_of_mem_continuations _ hp item hitem)
  have hseparates : Item.separates outlook [] statementProduction.continuations = true := by
    decide
  unfold Production.IsForetold matchProduction
  rw [foresees.phrase_eq hp, body_statement]
  apply Attempt.Ends.after_note _ rfl rfl
  apply (matchItem_statement_ends hs hinner hc).bind
  · rintro opening reach ⟨hcount, hopens⟩
    rw [if_neg (by omega)]
    apply (matchAll_ends foresees hitems hseparates).bind
    · rintro whole further ⟨trees, htrees, hend⟩
      have hbody := hopens.settles hend
      rw [← htrees, ← body_statement] at hbody
      obtain ⟨hne, hforetells⟩ := Production.foretells_of_settlesAt foresees hp hbody
      rw [if_neg (by simpa using hne), ← body_statement, ← foresees.phrase_eq hp]
      apply Attempt.Ends.after_note _ rfl rfl
      apply Attempt.ends_pure
      simpa using hforetells
    · intro further hend
      apply (hopens.breaks hend).map
    · rintro ⟨item, hitem, head, hhead, -⟩
      obtain rfl := List.mem_singleton.mp hitem
      simp [Item.skip, Target.references] at hhead
  · intro reach hfails
    apply hfails.breaks.map
  · intro hdeep
    apply hdeep.of_opening (suits _ hp)

/-! ## Programs -/

/-- The productions of programs come out as foretold when those that they refer to do. -/
theorem matchProduction_foretells (hs : s.grammar = grammar)
    (hinner : outlook.Foretells meaning grammar inner room) (depth : Nat) :
  outlook.Foretells meaning grammar (matchProduction s inner depth) (room + 1)
  := by
  intro p hp c
  have hitems := isDecided_of_mem_continuations p hp
  by_cases hrule : p.rule = .statement
  · have hmem := mem_productionsOf_iff.mpr ⟨hp, hrule⟩
    obtain rfl : p = statementProduction := List.mem_singleton.mp hmem
    by_cases hc : Avoids [.identifier] c.rest
    · apply matchProduction_of_isDecided foresees hs hinner hp _ hitems
      rintro c' (hrepeated | rfl)
      · cases hrepeated
      · apply statement_isDecidedAt hc
    · apply statement_isForetold hs hinner hc
  · apply matchProduction_of_isDecided foresees hs hinner hp _ hitems
    intro c' _
    apply Target.isDecidedAt (isDecided_opening p hp hrule)

end

/-- The productions of programs come out as foretold, at any depth. -/
theorem evaluate_foretells {s : Setting} (hs : s.grammar = grammar) (room depth : Nat) :
  outlook.Foretells meaning grammar (evaluate s room depth) room
  := by
  induction room generalizing depth with
  | zero =>
    intro p hp c
    apply Attempt.ends_fail_tooDeep rfl (Nat.zero_le _)
  | succ room ih => apply matchProduction_foretells hs (ih (depth + 1))

end Program
end LayoutGrammar
