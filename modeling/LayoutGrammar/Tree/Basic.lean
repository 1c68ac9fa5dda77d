import LayoutGrammar.Grammar.Nonterminal
import LayoutGrammar.Token.Basic

/-!
# Tree

The syntax trees that evaluation builds.  A tree is a leaf, which is a token, or a node, which is tagged
by a rule and has a list of children.  `Node` is the type of the trees that are nodes; a node without
children stands for nothing matched.
-/

namespace LayoutGrammar

/-- A syntax tree. -/
inductive Tree where
  /-- A token. -/
  | leaf (token : Token)
  /-- The tag of a rule over the trees of its parts. -/
  | node (rule : Nonterminal) (children : List Tree)

namespace Tree

/-! ## Equality -/

mutual

/-- Whether two trees are equal. -/
def decideEq : (a b : Tree) → Decidable (a = b)
  | leaf s, leaf t => if h : s = t then isTrue (h ▸ rfl) else isFalse (by simpa using h)
  | node r as, node q bs =>
    if h : r = q then
      match decideEqForest as bs with
      | isTrue k => isTrue (h ▸ k ▸ rfl)
      | isFalse k => isFalse (by simp [k])
    else
      isFalse (by simp [h])
  | leaf _, node .. => isFalse nofun
  | node .., leaf _ => isFalse nofun

/-- Whether two lists of trees are equal. -/
def decideEqForest : (as bs : List Tree) → Decidable (as = bs)
  | [], [] => isTrue rfl
  | a :: as, b :: bs =>
    match decideEq a b, decideEqForest as bs with
    | isTrue h, isTrue k => isTrue (h ▸ k ▸ rfl)
    | isFalse h, _ => isFalse (by simp [h])
    | _, isFalse k => isFalse (by simp [k])
  | [], _ :: _ => isFalse nofun
  | _ :: _, [] => isFalse nofun

end

instance : DecidableEq Tree := decideEq

/-! ## Leaves -/

mutual

/-- The tokens of a tree, from left to right. -/
def leaves : Tree → List Token
  | leaf token => [token]
  | node _ children => leavesOf children

/-- The tokens of a list of trees, from left to right. -/
def leavesOf : List Tree → List Token
  | [] => []
  | tree :: trees => leaves tree ++ leavesOf trees

end

theorem leavesOf_eq_flatMap (trees : List Tree) : leavesOf trees = trees.flatMap leaves := by
  induction trees with
  | nil => simp [leavesOf]
  | cons tree trees ih => simp [leavesOf, ih]

end Tree

/-- A tree that is a node. -/
structure Node where
  /-- The rule that tags the node. -/
  rule : Nonterminal
  /-- The trees of the parts of the node, from left to right. -/
  children : List Tree
deriving DecidableEq

namespace Node

/-- The node of a rule for which nothing matched. -/
def empty (rule : Nonterminal) : Node := ⟨rule, []⟩

/-- Whether a node stands for nothing matched. -/
def isEmpty (node : Node) : Bool := node.children.isEmpty

/-- A node as a tree. -/
def tree (node : Node) : Tree := .node node.rule node.children

/-- The tokens of a node, from left to right. -/
def leaves (node : Node) : List Token := Tree.leavesOf node.children

/-- A node with further trees after its children. -/
def append (node : Node) (trees : List Tree) : Node :=
  { node with children := node.children ++ trees }

/-- The children of a node that are tokens. -/
def childTokens (node : Node) : List Token :=
  node.children.filterMap fun
    | .leaf token => some token
    | .node .. => none

/-- The children of a node that are nodes. -/
def childNodes (node : Node) : List Node :=
  node.children.filterMap fun
    | .leaf _ => none
    | .node rule children => some ⟨rule, children⟩

@[simp]
theorem leaves_append (node : Node) (trees : List Tree) :
  (node.append trees).leaves = node.leaves ++ Tree.leavesOf trees
  := by
  simp [leaves, append, Tree.leavesOf_eq_flatMap]

end Node

/-! ## Search -/

namespace Tree

mutual

/-- The first node with a tag in a tree, a node before the nodes below it. -/
def find? (rule : Nonterminal) : Tree → Option Node
  | leaf _ => none
  | node r children => if r = rule then some ⟨r, children⟩ else findIn? rule children

/-- The first node with a tag in a list of trees. -/
def findIn? (rule : Nonterminal) : List Tree → Option Node
  | [] => none
  | tree :: trees =>
    match find? rule tree with
    | some found => some found
    | none => findIn? rule trees

end

mutual

/-- The number of nodes with a tag in a tree. -/
def count (rule : Nonterminal) : Tree → Nat
  | leaf _ => 0
  | node r children => (if r = rule then 1 else 0) + countIn rule children

/-- The number of nodes with a tag in a list of trees. -/
def countIn (rule : Nonterminal) : List Tree → Nat
  | [] => 0
  | tree :: trees => count rule tree + countIn rule trees

end

end Tree

/-- The first node with a tag in the tree of a node. -/
def Node.find? (node : Node) (rule : Nonterminal) : Option Node := node.tree.find? rule

/-- The number of nodes with a tag in the tree of a node. -/
def Node.count (node : Node) (rule : Nonterminal) : Nat := node.tree.count rule

end LayoutGrammar
