import LayoutGrammar.Proofs.Program.Parse

/-!
# The schema of trees

The tree that a parse of programs leaves, however it ends, fits the schema of programs: its root is a root,
every node has the children that its rule allows (`Program.Fits`), and the nonterminals that serve only to
read a part of another one tag no node (`Program.wellFormed_tree_of_run`).
-/

namespace LayoutGrammar

theorem Tree.countIn_eq_zero {rule : Nonterminal} {trees : List Tree}
    (h : ∀ tree ∈ trees, tree.count rule = 0) :
  countIn rule trees = 0
  := by
  induction trees with
  | nil => rfl
  | cons tree trees ih =>
    obtain ⟨htree, htrees⟩ := List.forall_mem_cons.mp h
    rw [countIn, htree, ih htrees]

namespace Program

/-- Whether a nonterminal only serves to read a part of another one: what is read for it is hoisted, or left
to the nonterminal that it is part of. -/
def IsAuxiliary : Nonterminal → Prop
  | .subsequentPrint | .subsequent _ | .group => True
  | _ => False

/-! ## Trees without auxiliary nodes -/

/-- No node has an auxiliary child. -/
theorem Fits.not_isAuxiliary {rule child : Nonterminal} {symbols : List Symbol} (h : Fits rule symbols)
    (hchild : .nonterminal child ∈ symbols) :
  ¬ IsAuxiliary child
  := by
  have hoperand (l : Level) : ¬ IsAuxiliary (operand l) := by
    cases l <;> exact id
  cases rule <;> simp only [Fits] at h
  all_goals grind [statementSymbols, statementRules, unarySymbols, primarySymbols, IsAuxiliary]

/-- In a well-formed tree only the root may be auxiliary. -/
theorem WellFormed.count_eq_zero {tree : Tree} (h : WellFormed tree) {rule : Nonterminal}
    (hrule : IsAuxiliary rule) (hroot : tree.symbol ≠ .nonterminal rule) :
  tree.count rule = 0
  := by
  induction h with
  | leaf token => rfl
  | @node r children fits _ ih =>
    have hne : r ≠ rule := by simpa using hroot
    rw [Tree.count, if_neg hne, Nat.zero_add]
    apply Tree.countIn_eq_zero
    intro child hchild
    apply ih child hchild
    intro hsymbol
    have hmem : .nonterminal rule ∈ children.map Tree.symbol := by
      rw [← hsymbol]
      apply List.mem_map_of_mem hchild
    apply fits.not_isAuxiliary hmem hrule

/-! ## Runs -/

/-- What a run leaves is empty or the tree of a program, whatever its outcome. -/
theorem exists_programs_tree (ts : List Token) (limit : Nat) :
  ∃ w, programs (fresh ts limit).run.parse.tree w
  := by
  cases hout : (attempted ts limit).outcome with
  | ok reading => exact ⟨_, (settles_of_ok hout).reads⟩
  | error reason =>
    rw [parse_of_error hout]
    use []
    apply programs_iff.mpr (Or.inl ⟨rfl, rfl⟩)

/-- The tree after a run of a fresh parse, whether it succeeds or not, fits the schema of programs, for any
tokens and any limit. -/
theorem wellFormed_tree_of_run (ts : List Token) (limit : Nat) :
  let tree := (fresh ts limit).run.parse.tree
  tree.rule = .root ∧ WellFormed tree.tree ∧ ∀ rule, IsAuxiliary rule → tree.count rule = 0
  := by
  intro tree
  obtain ⟨w, hrule, hformed, -⟩ := exists_programs_tree ts limit
  use hrule, hformed
  intro rule hauxiliary
  apply hformed.count_eq_zero hauxiliary
  rw [Node.tree, Tree.symbol_node, hrule]
  rintro ⟨⟩
  apply hauxiliary

end Program
end LayoutGrammar
