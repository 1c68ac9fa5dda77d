import LayoutGrammar.Proofs.Evaluation.Growth

/-!
# Trees without a node right below one of its own rule

When a production matches a node of its own rule, it takes the children of the node in its place.  If nothing is
hoisted, this makes all trees flat: no node anywhere is a child of a node of the same rule (`isFlat_of_evaluate`).
What carries this is that the children that are taken have already been apart from the rule, as children of a node
of it (`Node.isFlat_graft`).
-/

namespace LayoutGrammar

/-! ## Flat trees -/

namespace Tree

/-- The trees of which no node has a child of its own rule. -/
inductive IsFlat : Tree → Prop where
  /-- A token is flat. -/
  | leaf (token : Token) : IsFlat (leaf token)
  /-- A node is flat when no child is of its rule and each child is flat. -/
  | node {rule : Nonterminal} {children : List Tree} (apart : ∀ below, node rule below ∉ children)
      (each : ∀ tree ∈ children, IsFlat tree) : IsFlat (node rule children)

variable {rule : Nonterminal} {trees others : List Tree}

theorem isFlat_node_iff :
  (node rule trees).IsFlat ↔ (∀ below, node rule below ∉ trees) ∧ ∀ tree ∈ trees, tree.IsFlat
  := by
  constructor
  · intro h
    cases h with
    | node apart each => exact ⟨apart, each⟩
  · rintro ⟨hapart, heach⟩
    apply IsFlat.node hapart heach

theorem isFlat_nil (rule : Nonterminal) :
  (node rule []).IsFlat
  := .node (fun _ => List.not_mem_nil) nofun

theorem isFlat_leaf (rule : Nonterminal) (token : Token) :
  (node rule [leaf token]).IsFlat
  := by
  rw [isFlat_node_iff, List.forall_mem_singleton]
  exact ⟨by simp, .leaf token⟩

theorem isFlat_append (h : (node rule trees).IsFlat) (hothers : (node rule others).IsFlat) :
  (node rule (trees ++ others)).IsFlat
  := by
  rw [isFlat_node_iff] at h hothers ⊢
  obtain ⟨hapart, heach⟩ := h
  obtain ⟨hapart', heach'⟩ := hothers
  constructor
  · intro below hmem
    rcases List.mem_append.mp hmem with hmem | hmem
    · apply hapart below hmem
    · apply hapart' below hmem
  · apply List.forall_mem_append.mpr ⟨heach, heach'⟩

end Tree

/-- What a flat node adds when it is not hoisted: its children, if it is of the rule of the production, and itself
otherwise. -/
theorem Node.isFlat_graft {node : Node} (h : node.tree.IsFlat) (rule : Nonterminal) :
  (Tree.node rule (graft rule false node)).IsFlat
  := by
  by_cases hrule : node.rule = rule
  · subst hrule
    simpa [graft, Node.tree] using h
  · have hgraft : graft rule false node = [node.tree] := by simp [graft, hrule]
    rw [hgraft, Tree.isFlat_node_iff, List.forall_mem_singleton]
    refine ⟨?_, h⟩
    intro below hmem
    obtain ⟨rfl, -⟩ := Tree.node.inj (List.mem_singleton.mp hmem)
    apply hrule rfl

/-! ## Evaluations without hoisting -/

theorem growth_isFlat :
  Growth (fun target => target.isHoisted = false) fun rule _ trees _ => (Tree.node rule trees).IsFlat
  where
  nothing rule _ := Tree.isFlat_nil rule
  append := Tree.isFlat_append
  token := by
    rintro rule kinds excluded c token rest - - -
    cases excluded with
    | true => apply Tree.isFlat_nil
    | false => apply Tree.isFlat_leaf
  graft := by
    rintro rule heads hoisted c d node hhoisted - - hnode
    obtain rfl : hoisted = false := hhoisted
    apply Node.isFlat_graft hnode rule

/-- If no item is hoisted, neither in a grammar nor in a production, then whatever the tokens, the limit, the place
and what was evaluated before, no node of what the production reads has a child of its own rule. -/
theorem isFlat_of_evaluate (s : Session) (p : Production) (start : Nat) {reading : Reading}
    (hgrammar : ∀ q ∈ s.grammar.productions, ∀ item ∈ q.items, item.target.isHoisted = false)
    (hp : ∀ item ∈ p.items, item.target.isHoisted = false)
    (hout : (s.evaluate p start).1.outcome = .ok reading) :
  reading.node.tree.IsFlat
  := by
  have hread := growth_isFlat.of_evaluate hgrammar hp hout
  rw [Node.tree, hread.rule_eq]
  apply hread.children

/-- An expression is a number before further expressions, in a group or not. -/
def numbersGrammar : Grammar := ⟨[
  ⟨.expression, .token .number, [⟨.rules (.of .expression [.group]) false, .zeroOrMore⟩]⟩,
  ⟨.group, .skip .openParen, [.nest .expression .once, .skip .closeParen]⟩]⟩

/-- Two numbers, and two more in parentheses. -/
def groupedNumbers : List Token := [.unplaced .number "1", .unplaced .number "2", .unplaced .openParen "",
  .unplaced .number "3", .unplaced .number "4", .unplaced .closeParen ""]

/-- The expressions that follow each other are one, in the group as well as before it. -/
theorem isFlat_groupedNumbers :
  let s := Session.start numbersGrammar groupedNumbers 10
  let p : Production := ⟨.expression, .nest .expression .atLeastOnce, []⟩
  let node : Node := ⟨.expression, [.leaf (.unplaced .number "1"), .leaf (.unplaced .number "2"),
    .node .group [.node .expression [.leaf (.unplaced .number "3"), .leaf (.unplaced .number "4")]]]⟩
  (∀ q ∈ s.grammar.productions, ∀ item ∈ q.items, item.target.isHoisted = false)
    ∧ (∀ item ∈ p.items, item.target.isHoisted = false)
    ∧ (s.evaluate p 0).1.outcome = .ok ⟨node, 6⟩ ∧ node.tree.IsFlat
  := by
  intro s p node
  have hgrammar : ∀ q ∈ s.grammar.productions, ∀ item ∈ q.items, item.target.isHoisted = false := by
    decide
  have hp : ∀ item ∈ p.items, item.target.isHoisted = false := by
    decide
  have hout : (s.evaluate p 0).1.outcome = .ok ⟨node, 6⟩ := by
    decide +kernel
  use hgrammar, hp, hout
  apply isFlat_of_evaluate s p 0 hgrammar hp hout

end LayoutGrammar
