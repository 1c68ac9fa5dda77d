import LayoutGrammar.Program.Grammar
import LayoutGrammar.Tree.Basic
import Mathlib.Data.List.Forall2
import Mathlib.Tactic.Use

/-!
# The trees of programs

The syntax trees of programs (`WellFormed`), where what the children of a node may be is told by their
symbols (`Fits`), and how such a tree is printed (`print`): tokens that a tree keeps are printed as they
are, and the tokens that it leaves out are put back as marks, of which only the kind is known.  A printed
tree spells any tokens that have what is printed of them (`Spells`).
-/

namespace LayoutGrammar

/-! ## Symbols and signs -/

/-- A symbol of a grammar. -/
inductive Symbol where
  | terminal (kind : Terminal)
  | nonterminal (rule : Nonterminal)
deriving DecidableEq

/-- The symbol at the root of a tree. -/
def Tree.symbol : Tree → Symbol
  | leaf token => .terminal token.kind
  | node rule _ => .nonterminal rule

@[simp]
theorem Tree.symbol_leaf (token : Token) : (leaf token).symbol = .terminal token.kind := rfl

@[simp]
theorem Tree.symbol_node (rule : Nonterminal) (children : List Tree) :
  (node rule children).symbol = .nonterminal rule
  := rfl

/-- What is printed of a token. -/
inductive Sign where
  /-- A token that is kept. -/
  | kept (token : Token)
  /-- Any token of a kind. -/
  | mark (kind : Terminal)
deriving DecidableEq

/-- Whether a sign is what is printed of a token. -/
def Sign.Stands : Sign → Token → Prop
  | kept token, t => t = token
  | mark kind, t => t.kind = kind

instance (sign : Sign) (t : Token) : Decidable (sign.Stands t) := by
  cases sign <;> unfold Sign.Stands <;> infer_instance

/-- The kind of the tokens that a sign stands for. -/
def Sign.kind : Sign → Terminal
  | kept token => token.kind
  | mark kind => kind

theorem Sign.Stands.kind_eq {sign : Sign} {t : Token} (h : sign.Stands t) :
  t.kind = sign.kind
  := by
  cases sign with
  | kept token =>
    obtain rfl : t = token := h
    rfl
  | mark kind => apply h

/-- Whether some signs are what is printed of some tokens, one by one. -/
def Spells (signs : List Sign) (ts : List Token) : Prop := List.Forall₂ Sign.Stands signs ts

section

variable {signs others : List Sign} {ts : List Token}

@[simp]
theorem spells_nil_iff : Spells [] ts ↔ ts = [] := List.forall₂_nil_left_iff

theorem spells_cons_iff {sign : Sign} :
  Spells (sign :: signs) ts ↔ ∃ t us, sign.Stands t ∧ Spells signs us ∧ ts = t :: us
  := List.forall₂_cons_left_iff

theorem spells_append_iff :
  Spells (signs ++ others) ts ↔ ∃ us vs, Spells signs us ∧ Spells others vs ∧ ts = us ++ vs
  := by
  induction signs generalizing ts with
  | nil => simp
  | cons sign signs ih =>
    simp only [List.cons_append, spells_cons_iff, ih]
    constructor
    · rintro ⟨t, _, ht, ⟨us, vs, hus, hvs, rfl⟩, rfl⟩
      exact ⟨t :: us, vs, ⟨t, us, ht, hus, rfl⟩, hvs, rfl⟩
    · rintro ⟨_, vs, ⟨t, us, ht, hus, rfl⟩, hvs, rfl⟩
      exact ⟨t, us ++ vs, ht, ⟨us, vs, hus, hvs, rfl⟩, rfl⟩

/-- The kinds of tokens are those of the signs that spell them. -/
theorem Spells.map_kind_eq (h : Spells signs ts) :
  ts.map Token.kind = signs.map Sign.kind
  := by
  induction h with
  | nil => rfl
  | cons hfirst _ ih => rw [List.map_cons, List.map_cons, hfirst.kind_eq, ih]

end

namespace Program

/-! ## Well-formed trees -/

/-- The nonterminals of the statements that a line may hold. -/
def statementRules : List Nonterminal := [.ifStatement, .assignment, .print, .expression]

/-- The symbols of the statements that a line may hold. -/
def statementSymbols : List Symbol := statementRules.map Symbol.nonterminal

/-- The symbols of the operands of unary operators, with those operators. -/
def unarySymbols : List Symbol :=
  .nonterminal .primary :: UnaryOp.all.map fun op => .nonterminal (.prefixed op)

/-- The symbols of what a primary may be: a token, an expression in parentheses or one in brackets. -/
def primarySymbols : List Symbol :=
  [.terminal .number, .terminal .string, .terminal .identifier, .nonterminal .expression,
    .nonterminal .floor]

/-- Whether the children of a node of a rule may have some symbols. -/
def Fits : Nonterminal → List Symbol → Prop
  | .root, symbols => ∀ symbol ∈ symbols, symbol ∈ statementSymbols
  | .statement, symbols => ∃ symbol ∈ statementSymbols, symbols = [symbol]
  | .ifStatement, symbols => ∃ block, symbols = .nonterminal .expression :: block ∧ block ≠ []
      ∧ ∀ symbol ∈ block, symbol = .nonterminal .statement
  | .assignment, symbols => symbols = [.terminal .identifier, .nonterminal .expression]
  | .print, symbols => symbols ≠ [] ∧ ∀ symbol ∈ symbols, symbol = .nonterminal .expression
  | .expression, symbols => symbols = [.nonterminal (.level .or)]
  | .level l, symbols => symbols ≠ [] ∧ ∀ symbol ∈ symbols, symbol = .nonterminal (operand l)
  | .subsequent l, symbols => symbols = [.nonterminal (operand l)]
  | .unary, symbols => ∃ symbol ∈ unarySymbols, symbols = [symbol]
  | .prefixed _, symbols => symbols = [.nonterminal .unary]
  | .primary, symbols => ∃ symbol ∈ primarySymbols, symbols = [symbol]
  | .subsequentPrint, symbols | .floor, symbols | .group, symbols =>
    symbols = [.nonterminal .expression]

/-- The trees in which the children of every node fit it. -/
inductive WellFormed : Tree → Prop where
  | leaf (token : Token) : WellFormed (.leaf token)
  | node {rule : Nonterminal} {children : List Tree} (fits : Fits rule (children.map Tree.symbol))
      (each : ∀ child ∈ children, WellFormed child) : WellFormed (.node rule children)

theorem wellFormed_node_iff {rule : Nonterminal} {children : List Tree} :
  WellFormed (.node rule children)
    ↔ Fits rule (children.map Tree.symbol) ∧ ∀ child ∈ children, WellFormed child
  := by
  constructor
  · rintro (_ | ⟨fits, each⟩)
    use fits
  · rintro ⟨fits, each⟩
    apply WellFormed.node fits each

/-- Every node but the root has children. -/
theorem Fits.ne_nil {rule : Nonterminal} {symbols : List Symbol} (h : Fits rule symbols)
    (hrule : rule ≠ .root) :
  symbols ≠ []
  := by
  cases rule <;> simp_all [Fits] <;> grind

/-! ## Printing -/

/-- The signs of some parts with a mark between any two. -/
def between (kind : Terminal) (parts : List (List Sign)) : List Sign := [.mark kind].intercalate parts

/-- The signs of a node of a rule from those of its children, with the symbols of the children. -/
def layOut : Nonterminal → List Symbol → List (List Sign) → List Sign
  | .root, _, parts => parts.flatMap fun part => part ++ [.mark .endOfLine]
  | .statement, _, parts => parts.flatten ++ [.mark .endOfLine]
  | .ifStatement, _, condition :: block =>
    [.mark .ifWord] ++ condition ++ [.mark .thenWord, .mark .endOfLine, .mark .indent]
      ++ block.flatten ++ [.mark .dedent]
  | .assignment, _, name :: value => name ++ [.mark .assign] ++ value.flatten
  | .print, _, parts => .mark .printWord :: between .comma parts
  | .subsequentPrint, _, parts => .mark .comma :: parts.flatten
  | .level l, _, parts => between l.operator parts
  | .subsequent l, _, parts => .mark l.operator :: parts.flatten
  | .prefixed op, _, parts => .mark op.operator :: parts.flatten
  | .floor, _, parts => [.mark .openBracket] ++ parts.flatten ++ [.mark .closeBracket]
  | .group, _, parts | .primary, [.nonterminal .expression], parts =>
    [.mark .openParen] ++ parts.flatten ++ [.mark .closeParen]
  | _, _, parts => parts.flatten

mutual

/-- The signs that a tree is printed by. -/
def print : Tree → List Sign
  | .leaf token => [.kept token]
  | .node rule children => layOut rule (children.map Tree.symbol) (printEach children)

/-- The signs that each of some trees is printed by. -/
def printEach : List Tree → List (List Sign)
  | [] => []
  | tree :: trees => print tree :: printEach trees

end

theorem printEach_eq_map (trees : List Tree) : printEach trees = trees.map print := by
  induction trees with
  | nil => rfl
  | cons tree trees ih => rw [printEach, ih, List.map_cons]

theorem print_node (rule : Nonterminal) (children : List Tree) :
  print (.node rule children) = layOut rule (children.map Tree.symbol) (children.map print)
  := by
  rw [print, printEach_eq_map]

/-- A primary puts parentheses around an expression, and adds nothing to anything else. -/
theorem layOut_primary (symbols : List Symbol) (parts : List (List Sign)) :
  layOut .primary symbols parts
    = if symbols = [.nonterminal .expression] then
        [.mark .openParen] ++ parts.flatten ++ [.mark .closeParen]
      else
        parts.flatten
  := by
  split
  next h =>
    rw [h]
    rfl
  next h => unfold layOut; split <;> simp_all

theorem between_nil (kind : Terminal) : between kind [] = [] := rfl

theorem between_cons (kind : Terminal) (part : List Sign) (parts : List (List Sign)) :
  between kind (part :: parts) = part ++ parts.flatMap fun p => .mark kind :: p
  := by
  induction parts generalizing part with
  | nil => simp [between]
  | cons next parts ih =>
    have hnext := ih next
    simp only [between, List.intercalate, List.intersperse_cons_cons, List.flatten_cons] at hnext ⊢
    rw [hnext]
    simp

end Program
end LayoutGrammar
