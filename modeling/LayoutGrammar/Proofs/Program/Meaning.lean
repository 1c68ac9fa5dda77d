import LayoutGrammar.Proofs.Program.Outlook
import LayoutGrammar.Proofs.Program.Tree

/-!
# The meaning of the grammar of programs

What a nonterminal of programs reads is a well-formed tree, from the tokens that it spells when it is
printed (`meaning`).  This solves the grammar of programs (`meaning_solves`): exclusion, hoisting and the
splicing of groups lose nothing that printing does not put back.
-/

namespace LayoutGrammar
namespace Program

/-- The phrase of the trees that are printed by signs which spell the tokens. -/
def spelled (R : List Tree → List Sign → Prop) : Phrase (List Tree) := fun trees ts =>
  ∃ signs, R trees signs ∧ Spells signs ts

/-- Whether a tree is a well-formed one of a nonterminal. -/
def IsOf (rule : Nonterminal) (tree : Tree) : Prop := tree.symbol = .nonterminal rule ∧ WellFormed tree

/-- What the nonterminals of programs read: a well-formed node that has children, from the tokens that it
spells. -/
def meaning : Meaning := fun rule node ts =>
  node.rule = rule ∧ node.children ≠ [] ∧ WellFormed node.tree ∧ Spells (print node.tree) ts

/-! ## Phrases that are spelled -/

theorem nothing_eq :
  Phrase.nothing = spelled fun trees signs => trees = [] ∧ signs = []
  := by
  funext trees ts
  simp [Phrase.nothing, spelled]

theorem seq_spelled (R S : List Tree → List Sign → Prop) :
  (spelled R).seq (spelled S) = spelled fun trees signs => ∃ left right before after,
    R left before ∧ S right after ∧ trees = left ++ right ∧ signs = before ++ after
  := by
  ext trees ts
  constructor
  · rintro ⟨left, right, us, vs, ⟨before, hR, hus⟩, ⟨after, hS, hvs⟩, rfl, rfl⟩
    refine ⟨before ++ after, ⟨left, right, before, after, hR, hS, rfl, rfl⟩, ?_⟩
    apply spells_append_iff.mpr
    use us, vs
  · rintro ⟨_, ⟨left, right, before, after, hR, hS, rfl, rfl⟩, hspells⟩
    obtain ⟨us, vs, hus, hvs, rfl⟩ := spells_append_iff.mp hspells
    exact ⟨left, right, us, vs, ⟨before, hR, hus⟩, ⟨after, hS, hvs⟩, rfl, rfl⟩

/-- The phrase of one tree that is printed in some way. -/
def one (C : Tree → Prop) (f : Tree → List Sign) : Phrase (List Tree) :=
  spelled fun trees signs => ∃ tree, C tree ∧ trees = [tree] ∧ signs = f tree

theorem one_congr {C D : Tree → Prop} {f g : Tree → List Sign} (hC : ∀ tree, C tree ↔ D tree)
    (hf : ∀ tree, C tree → f tree = g tree) :
  one C f = one D g
  := by
  unfold one
  congr 1
  ext trees signs
  constructor
  · rintro ⟨tree, htree, rfl, rfl⟩
    exact ⟨tree, (hC tree).mp htree, rfl, hf tree htree⟩
  · rintro ⟨tree, htree, rfl, rfl⟩
    exact ⟨tree, (hC tree).mpr htree, rfl, (hf tree ((hC tree).mpr htree)).symm⟩

theorem one_or_iff {C D : Tree → Prop} {f : Tree → List Sign} {trees : List Tree} {ts : List Token} :
  one C f trees ts ∨ one D f trees ts ↔ one (fun tree => C tree ∨ D tree) f trees ts
  := by
  constructor
  · rintro (⟨_, ⟨tree, htree, rfl, rfl⟩, hspells⟩ | ⟨_, ⟨tree, htree, rfl, rfl⟩, hspells⟩)
    · exact ⟨_, ⟨tree, Or.inl htree, rfl, rfl⟩, hspells⟩
    · exact ⟨_, ⟨tree, Or.inr htree, rfl, rfl⟩, hspells⟩
  · rintro ⟨_, ⟨tree, htree | htree, rfl, rfl⟩, hspells⟩
    · apply Or.inl ⟨_, ⟨tree, htree, rfl, rfl⟩, hspells⟩
    · apply Or.inr ⟨_, ⟨tree, htree, rfl, rfl⟩, hspells⟩

theorem many_one (C : Tree → Prop) (f : Tree → List Sign) :
  (one C f).Many = spelled fun trees signs => (∀ tree ∈ trees, C tree) ∧ signs = trees.flatMap f
  := by
  ext trees ts
  constructor
  · intro hmany
    induction hmany with
    | nil => exact ⟨[], by simp, by simp⟩
    | cons first more ih =>
      obtain ⟨_, ⟨tree, htree, rfl, rfl⟩, hus⟩ := first
      obtain ⟨_, ⟨htrees, rfl⟩, hvs⟩ := ih
      refine ⟨_, ⟨?_, rfl⟩, ?_⟩
      · simpa using ⟨htree, htrees⟩
      · rw [List.singleton_append, List.flatMap_cons]
        apply spells_append_iff.mpr ⟨_, _, hus, hvs, rfl⟩
  · rintro ⟨_, ⟨htrees, rfl⟩, hspells⟩
    induction trees generalizing ts with
    | nil =>
      obtain rfl := spells_nil_iff.mp hspells
      apply Phrase.Many.nil
    | cons tree trees ih =>
      rw [List.flatMap_cons] at hspells
      obtain ⟨us, vs, hus, hvs, rfl⟩ := spells_append_iff.mp hspells
      rw [← List.singleton_append]
      apply Phrase.Many.cons ⟨_, ⟨tree, htrees tree List.mem_cons_self, rfl, rfl⟩, hus⟩
      apply ih _ (fun t ht => htrees t (List.mem_cons_of_mem tree ht)) hvs

theorem oneOrMore_one (C : Tree → Prop) (f : Tree → List Sign) :
  (one C f).oneOrMore = spelled fun trees signs =>
    trees ≠ [] ∧ (∀ tree ∈ trees, C tree) ∧ signs = trees.flatMap f
  := by
  rw [Phrase.oneOrMore, many_one, one, seq_spelled]
  congr 1
  ext trees signs
  constructor
  · rintro ⟨_, others, _, _, ⟨tree, htree, rfl, rfl⟩, ⟨hothers, rfl⟩, rfl, rfl⟩
    simpa using ⟨htree, hothers⟩
  · rintro ⟨hne, htrees, rfl⟩
    obtain ⟨tree, others, rfl⟩ := List.exists_cons_of_ne_nil hne
    rw [List.forall_mem_cons] at htrees
    exact ⟨_, _, _, _, ⟨tree, htrees.1, rfl, rfl⟩, ⟨htrees.2, rfl⟩, rfl, rfl⟩

/-! ## Items -/

/-- What the children of a node of a rule may be, and how the node is printed. -/
def script (rule : Nonterminal) (trees : List Tree) (signs : List Sign) : Prop :=
  IsOf rule (.node rule trees) ∧ signs = print (.node rule trees)

@[simp]
theorem mem_one_iff {α : Type} {a b : α} : a ∈ (Choice.one b).members ↔ a = b := List.mem_singleton

/-- A node of a nonterminal other than the root has children. -/
theorem IsOf.children_ne_nil {rule : Nonterminal} {children : List Tree}
    (h : IsOf rule (.node rule children)) (hrule : rule ≠ .root) :
  children ≠ []
  := by
  rintro rfl
  apply (wellFormed_node_iff.mp h.2).1.ne_nil hrule rfl

section

variable {rule : Nonterminal}

theorem phrase_skip (kind : Terminal) :
  (Target.tokens (.one kind) true).phrase meaning rule
    = spelled fun trees signs => trees = [] ∧ signs = [.mark kind]
  := by
  ext trees ts
  constructor
  · rintro ⟨t, ht, rfl, rfl⟩
    refine ⟨_, ⟨rfl, rfl⟩, spells_cons_iff.mpr ⟨t, [], ?_, List.Forall₂.nil, rfl⟩⟩
    apply mem_one_iff.mp ht
  · rintro ⟨_, ⟨rfl, rfl⟩, hspells⟩
    obtain ⟨t, _, ht, hnil, rfl⟩ := spells_cons_iff.mp hspells
    obtain rfl := spells_nil_iff.mp hnil
    exact ⟨t, mem_one_iff.mpr ht, rfl, rfl⟩

theorem phrase_keep (kind : Terminal) :
  (Target.tokens (.one kind) false).phrase meaning rule
    = one (fun tree => tree.symbol = .terminal kind ∧ WellFormed tree) print
  := by
  ext trees ts
  constructor
  · rintro ⟨t, ht, rfl, rfl⟩
    refine ⟨_, ⟨.leaf t, ⟨?_, .leaf t⟩, rfl, rfl⟩, ?_⟩
    · rw [Tree.symbol_leaf, mem_one_iff.mp ht]
    · simp [print, spells_cons_iff, Sign.Stands]
  · rintro ⟨_, ⟨tree, ⟨hsymbol, -⟩, rfl, rfl⟩, hspells⟩
    cases tree with
    | node => cases hsymbol
    | leaf token =>
      obtain ⟨_, _, rfl, hnil, rfl⟩ := spells_cons_iff.mp hspells
      obtain rfl := spells_nil_iff.mp hnil
      exact ⟨_, mem_one_iff.mpr (Symbol.terminal.inj hsymbol), rfl, rfl⟩

/-- Nonterminals that are nested read one tree. -/
theorem phrase_nest_any {heads : Choice Nonterminal}
    (hheads : ∀ head ∈ heads.members, head ≠ rule ∧ head ≠ .root) :
  (Target.rules heads false).phrase meaning rule
    = one (fun tree => tree.symbol ∈ heads.members.map Symbol.nonterminal ∧ WellFormed tree) print
  := by
  ext trees ts
  constructor
  · rintro ⟨node, ⟨head, hhead, rfl, hne, hnode, hspells⟩, rfl⟩
    refine ⟨_, ⟨node.tree, ⟨List.mem_map_of_mem hhead, hnode⟩, ?_, rfl⟩, hspells⟩
    rw [graft, if_neg (by simpa using (hheads node.rule hhead).1)]
  · rintro ⟨_, ⟨tree, ⟨hsymbol, hformed⟩, rfl, rfl⟩, hspells⟩
    obtain ⟨r, hhead, hsymbol⟩ := List.mem_map.mp hsymbol
    cases tree with
    | leaf token => cases hsymbol
    | node q children =>
      obtain rfl : r = q := by simpa using hsymbol
      have hne := IsOf.children_ne_nil ⟨rfl, hformed⟩ (hheads r hhead).2
      refine ⟨⟨r, children⟩, ⟨r, hhead, rfl, hne, hformed, hspells⟩, ?_⟩
      rw [graft, if_neg (by simpa using (hheads r hhead).1)]
      rfl

theorem phrase_nest {head : Nonterminal} (hhead : head ≠ rule ∧ head ≠ .root) :
  (Target.rules (.one head) false).phrase meaning rule = one (IsOf head) print
  := by
  rw [phrase_nest_any (by simpa using hhead)]
  apply one_congr _ fun _ _ => rfl
  simp [Choice.one, Choice.of, IsOf]

/-- A nonterminal that is hoisted reads what its children are. -/
theorem phrase_hoist {head : Nonterminal} (hhead : head ≠ .root) :
  (Target.rules (.one head) true).phrase meaning rule = spelled (script head)
  := by
  ext trees ts
  constructor
  · rintro ⟨node, ⟨_, hmem, rfl, -, hnode, hspells⟩, rfl⟩
    obtain rfl := mem_one_iff.mp hmem
    exact ⟨_, ⟨⟨rfl, hnode⟩, rfl⟩, hspells⟩
  · rintro ⟨_, ⟨htree, rfl⟩, hspells⟩
    have hne := htree.children_ne_nil hhead
    exact ⟨⟨head, trees⟩, ⟨head, mem_one_iff.mpr rfl, rfl, hne, htree.2, hspells⟩, rfl⟩

/-- A node that has one child is printed by that child and what its rule adds. -/
theorem spelled_script_of_single {S : Symbol → Prop}
    (hfits : ∀ symbols, Fits rule symbols ↔ ∃ symbol, S symbol ∧ symbols = [symbol]) :
  spelled (script rule) = one (fun tree => S tree.symbol ∧ WellFormed tree)
    fun tree => layOut rule [tree.symbol] [print tree]
  := by
  unfold one
  congr 1
  ext trees signs
  constructor
  · rintro ⟨⟨-, hformed⟩, rfl⟩
    obtain ⟨hfit, heach⟩ := wellFormed_node_iff.mp hformed
    obtain ⟨_, hS, hsymbols⟩ := (hfits _).mp hfit
    obtain ⟨tree, rfl, rfl⟩ := List.map_eq_singleton_iff.mp hsymbols
    exact ⟨tree, ⟨hS, heach tree List.mem_cons_self⟩, rfl, print_node rule [tree]⟩
  · rintro ⟨tree, ⟨hS, htree⟩, rfl, rfl⟩
    refine ⟨⟨rfl, WellFormed.node ((hfits _).mpr ⟨_, hS, rfl⟩) ?_⟩, (print_node rule [tree]).symm⟩
    simpa using htree

end

end Program
end LayoutGrammar
