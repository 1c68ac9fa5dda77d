import LayoutGrammar.Proofs.Evaluation.Kinds
import LayoutGrammar.Proofs.Scan.Course
import LayoutGrammar.Tree.Display

/-!
# Trees on one line

What is written of a tree on one line tells the tree, up to the places of its tokens and the values that are not
shown (`Node.compact_eq_iff`), as long as the values that are shown hold neither spaces nor parentheses.  The names
of terminals and of rules hold none either, so that a space or a parenthesis ends each of them
(`Text.append_inj_of_delimited`), and after the text of a tree it is known where it ends, whatever comes then
(`Tree.map_bare_eq_of_compact`).
-/

namespace LayoutGrammar

/-! ## Names and values -/

namespace Text

/-- A character that ends a name or a value on the line of a tree. -/
def isDelimiter (c : Char) : Bool := c = ' ' || c = '(' || c = ')'

/-- Whether a text holds no character that ends a name or a value. -/
def IsUndelimited (text : List Char) : Prop := ∀ c ∈ text, isDelimiter c = false

/-- Whether a text starts where a name or a value has ended, if it is not the end of the line. -/
def IsDelimited (text : List Char) : Prop := ∀ c ∈ text.head?, isDelimiter c = true

variable {piece other rest others : List Char}

theorem isUndelimited_iff {text : List Char} :
  IsUndelimited text ↔ text.all (!isDelimiter ·) = true
  := by
  simp [IsUndelimited]

theorem isDelimited_cons {c : Char} (h : isDelimiter c = true) (rest : List Char) :
  IsDelimited (c :: rest)
  := by
  rintro _ ⟨⟩
  apply h

/-- It is known where a name or a value ends. -/
theorem append_inj_of_delimited (hpiece : IsUndelimited piece) (hother : IsUndelimited other)
    (hrest : IsDelimited rest) (hothers : IsDelimited others) (h : piece ++ rest = other ++ others) :
  piece = other ∧ rest = others
  := by
  have hspan {piece rest : List Char} (hpiece : IsUndelimited piece) (hrest : IsDelimited rest) :
      (piece ++ rest).takeWhile (!isDelimiter ·) = piece ∧ (piece ++ rest).dropWhile (!isDelimiter ·) = rest := by
    apply span_append
    · intro c hc
      rw [hpiece c hc, Bool.not_false]
    · intro c hc
      rw [hrest c hc, Bool.not_true]
  obtain ⟨htake, hdrop⟩ := hspan hpiece hrest
  obtain ⟨htake', hdrop'⟩ := hspan hother hothers
  rw [h] at htake hdrop
  exact ⟨htake.symm.trans htake', hdrop.symm.trans hdrop'⟩

end Text

open Text

namespace Terminal

theorem ofName?_name (kind : Terminal) : ofName? kind.name = some kind := by
  cases kind <;> decide +kernel

theorem name_injective : Function.Injective name := by
  intro kind other h
  apply Option.some.inj
  rw [← ofName?_name, ← ofName?_name, h]

theorem isUndelimited_name (kind : Terminal) : IsUndelimited kind.name.toList := by
  rw [isUndelimited_iff]
  cases kind <;> decide +kernel

theorem name_ne_nil (kind : Terminal) : kind.name.toList ≠ [] := by
  cases kind <;> decide +kernel

end Terminal

namespace Nonterminal

theorem ofName?_name (rule : Nonterminal) : ofName? rule.name = some rule := by
  have hall : ∀ rule ∈ all, ofName? rule.name = some rule := by decide +kernel
  apply hall rule (mem_all rule)

theorem name_injective : Function.Injective name := by
  intro rule other h
  apply Option.some.inj
  rw [← ofName?_name, ← ofName?_name, h]

theorem isUndelimited_name (rule : Nonterminal) : IsUndelimited rule.name.toList := by
  have hall : ∀ rule ∈ all, rule.name.toList.all (!isDelimiter ·) = true := by decide +kernel
  apply isUndelimited_iff.mpr (hall rule (mem_all rule))

end Nonterminal

/-! ## Tokens -/

namespace Token

/-- A token without its place, and without its value unless tokens of its kind differ by it. -/
def bare (token : Token) : Token := .unplaced token.kind (if token.kind.isLexical then token.value else "")

/-- Whether the value of a token, if it is shown, holds neither spaces nor parentheses. -/
def IsPlain (token : Token) : Prop := token.kind.isLexical = true → IsUndelimited token.value.toList

@[simp]
theorem shown_bare (token : Token) : token.bare.shown = token.shown := by
  simp only [shown, bare, unplaced]
  split <;> rfl

/-- A token is shown by its name, and what comes then is a value or nothing. -/
theorem shown_toList (token : Token) :
  token.shown.toList = token.kind.name.toList
    ++ if token.kind.isLexical then '(' :: token.value.toList ++ [')'] else []
  := by
  unfold shown
  split <;> simp

/-- A token is known by what is shown of it, and where that ends. -/
theorem bare_eq_of_shown {s t : Token} (hs : s.IsPlain) (ht : t.IsPlain) {rest others : List Char}
    (hrest : IsDelimited rest) (hothers : IsDelimited others) (h : s.shown.toList ++ rest = t.shown.toList ++ others) :
  s.bare = t.bare ∧ rest = others
  := by
  have hdelimited (token : Token) {rest : List Char} (hrest : IsDelimited rest) :
      IsDelimited ((if token.kind.isLexical then '(' :: token.value.toList ++ [')'] else []) ++ rest) := by
    split
    · apply isDelimited_cons rfl
    · apply hrest
  rw [shown_toList, shown_toList, List.append_assoc, List.append_assoc] at h
  obtain ⟨hname, hvalue⟩ := append_inj_of_delimited s.kind.isUndelimited_name t.kind.isUndelimited_name
    (hdelimited s hrest) (hdelimited t hothers) h
  have hkind : s.kind = t.kind := Terminal.name_injective (String.toList_inj.mp hname)
  unfold bare
  rw [hkind] at hvalue ⊢
  by_cases hlexical : t.kind.isLexical = true
  · simp only [hlexical, if_true, List.cons_append, List.append_assoc, List.nil_append] at hvalue ⊢
    obtain ⟨hsame, htail⟩ := append_inj_of_delimited (hs (hkind ▸ hlexical)) (ht hlexical)
      (isDelimited_cons rfl rest) (isDelimited_cons rfl others) (List.cons.inj hvalue).2
    rw [String.toList_inj.mp hsame]
    exact ⟨rfl, (List.cons.inj htail).2⟩
  · simp only [hlexical] at hvalue ⊢
    exact ⟨rfl, hvalue⟩

end Token

/-! ## Trees -/

namespace Tree

theorem compact_leaf (token : Token) : (leaf token).compact = token.shown := by
  rw [compact]

theorem compact_node_toList (rule : Nonterminal) (children : List Tree) :
  (node rule children).compact.toList
    = '(' :: (rule.name.toList ++ ((compactEach children).toList ++ [')']))
  := by
  simp [compact]

theorem compactEach_cons_toList (tree : Tree) (trees : List Tree) :
  (compactEach (tree :: trees)).toList = ' ' :: (tree.compact.toList ++ (compactEach trees).toList)
  := by
  simp [compactEach]

/-- Where the children of a node are to be written, the name of the node has ended. -/
theorem isDelimited_compactEach (trees : List Tree) (rest : List Char) :
  IsDelimited ((compactEach trees).toList ++ ')' :: rest)
  := by
  cases trees with
  | nil => apply isDelimited_cons rfl
  | cons tree trees =>
    rw [compactEach_cons_toList]
    apply isDelimited_cons rfl

/-- No token is shown like a node. -/
theorem shown_ne_compact_node {token : Token} {rule : Nonterminal} {children : List Tree} {rest others : List Char} :
  token.shown.toList ++ rest ≠ (node rule children).compact.toList ++ others
  := by
  intro h
  obtain ⟨c, name, hname⟩ := List.exists_cons_of_ne_nil token.kind.name_ne_nil
  rw [Token.shown_toList, compact_node_toList, hname] at h
  obtain rfl : c = '(' := (List.cons.inj h).1
  have hc := token.kind.isUndelimited_name '(' (by simp [hname])
  cases hc

mutual

/-- A tree is known by its text, and where that ends. -/
theorem map_bare_eq_of_compact :
  (a b : Tree) → (∀ t ∈ a.leaves, t.IsPlain) → (∀ t ∈ b.leaves, t.IsPlain) → {rest others : List Char} →
    IsDelimited rest → IsDelimited others → a.compact.toList ++ rest = b.compact.toList ++ others →
      a.map Token.bare = b.map Token.bare ∧ rest = others
  | leaf s, leaf t, ha, hb, _, _, hrest, hothers, h => by
    rw [compact_leaf, compact_leaf] at h
    obtain ⟨hbare, hend⟩ :=
      Token.bare_eq_of_shown (ha s (by simp [leaves])) (hb t (by simp [leaves])) hrest hothers h
    rw [map, map, hbare]
    exact ⟨rfl, hend⟩
  | leaf _, node .., _, _, _, _, _, _, h => by
    rw [compact_leaf] at h
    cases shown_ne_compact_node h
  | node .., leaf _, _, _, _, _, _, _, h => by
    rw [compact_leaf] at h
    cases shown_ne_compact_node h.symm
  | node rule children, node rule' children', ha, hb, rest, others, _, _, h => by
    simp only [compact_node_toList, List.cons_append, List.append_assoc, List.nil_append] at h
    obtain ⟨hname, heach⟩ := append_inj_of_delimited rule.isUndelimited_name rule'.isUndelimited_name
      (isDelimited_compactEach children rest) (isDelimited_compactEach children' others) (List.cons.inj h).2
    obtain ⟨hchildren, hend⟩ :=
      mapEach_bare_eq_of_compactEach children children' (by simpa [leaves] using ha) (by simpa [leaves] using hb) heach
    rw [map, map, hchildren, Nonterminal.name_injective (String.toList_inj.mp hname)]
    exact ⟨rfl, hend⟩

theorem mapEach_bare_eq_of_compactEach :
  (as bs : List Tree) → (∀ t ∈ leavesOf as, t.IsPlain) → (∀ t ∈ leavesOf bs, t.IsPlain) →
    {rest others : List Char} → (compactEach as).toList ++ ')' :: rest = (compactEach bs).toList ++ ')' :: others →
      mapEach Token.bare as = mapEach Token.bare bs ∧ rest = others
  | [], [], _, _, _, _, h => by simpa [compactEach] using h
  | [], b :: bs, _, _, _, _, h => by
    rw [compactEach_cons_toList] at h
    simp [compactEach] at h
  | a :: as, [], _, _, _, _, h => by
    rw [compactEach_cons_toList] at h
    simp [compactEach] at h
  | a :: as, b :: bs, ha, hb, rest, others, h => by
    rw [leavesOf, List.forall_mem_append] at ha hb
    simp only [compactEach_cons_toList, List.cons_append, List.append_assoc] at h
    obtain ⟨hfirst, hothers⟩ := map_bare_eq_of_compact a b ha.1 hb.1 (isDelimited_compactEach as rest)
      (isDelimited_compactEach bs others) (List.cons.inj h).2
    obtain ⟨heach, hend⟩ := mapEach_bare_eq_of_compactEach as bs ha.2 hb.2 hothers
    rw [mapEach, mapEach, hfirst, heach]
    exact ⟨rfl, hend⟩

end

mutual

/-- Nothing but what is kept of the tokens is written. -/
theorem compact_map_bare : (tree : Tree) → (tree.map Token.bare).compact = tree.compact
  | leaf token => by rw [map, compact_leaf, compact_leaf, Token.shown_bare]
  | node rule children => by rw [map, compact, compact, compactEach_mapEach_bare children]

theorem compactEach_mapEach_bare : (trees : List Tree) → compactEach (mapEach Token.bare trees) = compactEach trees
  | [] => rfl
  | tree :: trees => by
    rw [mapEach, compactEach, compactEach, compact_map_bare tree, compactEach_mapEach_bare trees]

end

end Tree

/-! ## Nodes -/

theorem Node.tree_map (f : Token → Token) (node : Node) :
  (node.map f).tree = node.tree.map f
  := by
  rw [tree, tree, Tree.map]
  rfl

theorem Node.leaves_tree (node : Node) :
  node.tree.leaves = node.leaves
  := by
  rw [tree, Tree.leaves, leaves]

theorem Node.tree_injective : Function.Injective Node.tree := by
  rintro ⟨rule, children⟩ ⟨rule', children'⟩ h
  obtain ⟨rfl, rfl⟩ := Tree.node.inj h
  rfl

/-- Two nodes are the same on one line just when they are equal but for the places of their tokens, and for the
values of those whose kind tells all.  No value that is shown may hold spaces or parentheses. -/
theorem Node.compact_eq_iff (a b : Node) (ha : ∀ t ∈ a.leaves, t.IsPlain) (hb : ∀ t ∈ b.leaves, t.IsPlain) :
  a.compact = b.compact ↔ a.map Token.bare = b.map Token.bare
  := by
  constructor
  · intro h
    have htext : a.tree.compact.toList ++ [] = b.tree.compact.toList ++ [] := by
      rw [← compact, ← compact, h]
    have hnil : IsDelimited [] := by rintro _ ⟨⟩
    rw [← leaves_tree] at ha hb
    obtain ⟨hmap, -⟩ := Tree.map_bare_eq_of_compact a.tree b.tree ha hb hnil hnil htext
    apply tree_injective
    rw [tree_map, tree_map, hmap]
  · intro h
    rw [compact, compact, ← Tree.compact_map_bare, ← Tree.compact_map_bare b.tree, ← tree_map, h, tree_map]

/-- A node with tokens and a rule of one name, and an identifier that is called like a rule. -/
def homonyms : Node :=
  ⟨.level .notEqual, [.leaf ⟨.notEqual, "!=", ⟨⟨0, "text"⟩, ⟨2, "text"⟩⟩⟩, .node (.level .notEqual) [],
    .leaf ⟨.identifier, "NotEqual", ⟨⟨3, "text"⟩, ⟨11, "text"⟩⟩⟩]⟩

/-- The same node with tokens that come from no text. -/
def unplacedHomonyms : Node :=
  ⟨.level .notEqual, [.leaf (.unplaced .notEqual ""), .node (.level .notEqual) [],
    .leaf (.unplaced .identifier "NotEqual")]⟩

/-- They are the same on one line, and the node without its last token is not. -/
theorem Node.compact_homonyms :
  homonyms.compact = "(NotEqual NotEqual (NotEqual) Identifier(NotEqual))"
  ∧ homonyms.compact = unplacedHomonyms.compact
  ∧ homonyms.compact ≠ (⟨.level .notEqual, homonyms.children.dropLast⟩ : Node).compact
  := by
  have hplain : ∀ t ∈ homonyms.leaves, t.IsPlain := by
    simp only [Token.IsPlain, isUndelimited_iff]
    decide +kernel
  have hunplaced : ∀ t ∈ unplacedHomonyms.leaves, t.IsPlain := by
    simp only [Token.IsPlain, isUndelimited_iff]
    decide +kernel
  have hfewer : ∀ t ∈ (⟨.level .notEqual, homonyms.children.dropLast⟩ : Node).leaves, t.IsPlain := by
    simp only [Token.IsPlain, isUndelimited_iff]
    decide +kernel
  refine ⟨by decide +kernel, ?_, ?_⟩
  · rw [compact_eq_iff _ _ hplain hunplaced]
    decide +kernel
  · rw [Ne, compact_eq_iff _ _ hplain hfewer]
    decide +kernel

end LayoutGrammar
