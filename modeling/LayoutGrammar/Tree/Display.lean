import LayoutGrammar.Tree.Basic

/-!
# Display of trees

Two ways to write a tree: `Node.compact` writes it on one line, every node in parentheses;
`Node.outline` writes one line for each node and token, indented by its depth.  Neither writes the
places of tokens.
-/

namespace LayoutGrammar
namespace Tree

mutual

/-- A tree on one line. -/
def compact : Tree → String
  | leaf token => token.shown
  | node rule children => "(" ++ rule.name ++ compactEach children ++ ")"

/-- Trees on one line, each after a space. -/
def compactEach : List Tree → String
  | [] => ""
  | tree :: trees => " " ++ compact tree ++ compactEach trees

end

/-- A line that is indented by two spaces for each level of depth. -/
def outlineLine (depth : Nat) (text : String) : String :=
  String.ofList (List.replicate (2 * depth) ' ') ++ text ++ "\n"

mutual

/-- A tree as lines, from a depth on. -/
def outline (depth : Nat) : Tree → String
  | leaf token => outlineLine depth token.shown
  | node rule children => outlineLine depth rule.name ++ outlineEach (depth + 1) children

/-- Trees as lines, from a depth on. -/
def outlineEach (depth : Nat) : List Tree → String
  | [] => ""
  | tree :: trees => outline depth tree ++ outlineEach depth trees

end

end Tree

/-- A node on one line. -/
def Node.compact (node : Node) : String := node.tree.compact

/-- A node as indented lines. -/
def Node.outline (node : Node) : String := node.tree.outline 0

end LayoutGrammar
