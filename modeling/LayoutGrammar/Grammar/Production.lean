import LayoutGrammar.Grammar.Nonterminal

/-!
# Production

A production says how a nonterminal may be made up: an opening item, which decides whether the
production applies at all, and continuations, which are mandatory once the opening item matched.  An item
names the terminals or nonterminals that it matches, a non-empty `Choice`, how often it may match, and what
becomes of the matches: matched tokens may be excluded from the tree, the nodes of matched nonterminals
may be hoisted, which puts their children in their place.
-/

namespace LayoutGrammar

/-- A list that is not empty. -/
structure Choice (α : Type) where
  /-- What may be chosen, in order of preference. -/
  members : List α
  /-- There is something to choose. -/
  nonempty : members ≠ []
deriving DecidableEq

namespace Choice

variable {α : Type}

/-- The choice between a member and others. -/
def of (first : α) (others : List α) : Choice α := ⟨first :: others, by simp⟩

/-- The choice that has one member. -/
def one (only : α) : Choice α := of only []

/-- The choice between the members of a list, unless there are none. -/
def ofList? : List α → Option (Choice α)
  | [] => none
  | first :: others => some (of first others)

end Choice

/-- How often an item may match. -/
inductive Repetition where
  | once
  | atMostOnce
  | atLeastOnce
  | zeroOrMore
deriving DecidableEq, Repr

namespace Repetition

/-- The least number of matches. -/
def minimum : Repetition → Nat
  | once | atLeastOnce => 1
  | atMostOnce | zeroOrMore => 0

/-- Whether there may be several matches. -/
def isRepeated : Repetition → Bool
  | atLeastOnce | zeroOrMore => true
  | once | atMostOnce => false

end Repetition

/-- What an item matches, and what becomes of the matches. -/
inductive Target where
  /-- A token of one of some kinds, kept as a leaf unless it is excluded. -/
  | tokens (kinds : Choice Terminal) (excluded : Bool)
  /-- The first of some nonterminals that matches, nested as a node unless it is hoisted. -/
  | rules (heads : Choice Nonterminal) (hoisted : Bool)
deriving DecidableEq

namespace Target

/-- The names of what a target matches. -/
def names : Target → List String
  | tokens choice _ => choice.members.map Terminal.name
  | rules choice _ => choice.members.map Nonterminal.name

/-- The nonterminals a target refers to. -/
def references : Target → List Nonterminal
  | tokens _ _ => []
  | rules choice _ => choice.members

/-- Whether matched tokens are left out of the tree. -/
def isExcluded : Target → Bool
  | tokens _ excluded => excluded
  | rules _ _ => false

/-- Whether matched nodes are replaced by their children. -/
def isHoisted : Target → Bool
  | tokens _ _ => false
  | rules _ hoisted => hoisted

/-- A target as it is shown. -/
def shown (target : Target) : String :=
  match target.names.map fun name => "`" ++ name ++ "`" with
  | [name] => name
  | names => "one of " ++ ", ".intercalate names

end Target

/-- An item of a production. -/
structure Item where
  /-- What the item matches. -/
  target : Target
  /-- How often it may match. -/
  repetition : Repetition
deriving DecidableEq

namespace Item

/-- One token that is kept. -/
def token (kind : Terminal) : Item := ⟨.tokens (.one kind) false, .once⟩

/-- One token that is excluded. -/
def skip (kind : Terminal) : Item := ⟨.tokens (.one kind) true, .once⟩

/-- A nonterminal that is nested. -/
def nest (rule : Nonterminal) (repetition : Repetition) : Item :=
  ⟨.rules (.one rule) false, repetition⟩

/-- A nonterminal that is hoisted. -/
def hoist (rule : Nonterminal) (repetition : Repetition) : Item :=
  ⟨.rules (.one rule) true, repetition⟩

/-- One of some nonterminals, nested. -/
def oneOf (rules : Choice Nonterminal) : Item := ⟨.rules rules false, .once⟩

end Item

/-- A way to make up a nonterminal. -/
structure Production where
  /-- The nonterminal that is made up. -/
  rule : Nonterminal
  /-- The item that decides whether the production applies. -/
  opening : Item
  /-- The items that must follow. -/
  continuations : List Item
deriving DecidableEq

namespace Production

/-- The items of a production, in order. -/
def items (p : Production) : List Item := p.opening :: p.continuations

/-- The nonterminals a production refers to, in order. -/
def references (p : Production) : List Nonterminal :=
  p.items.flatMap fun item => item.target.references

/-- The operands of a level of binary operators: one operand, then operators with their operands, whose
nodes are hoisted so that a chain of operators is flat. -/
def operands (level continuation next : Nonterminal) : Production :=
  ⟨level, .nest next .once, [.hoist continuation .zeroOrMore]⟩

/-- A binary operator, which is excluded, and the operand after it. -/
def operation (continuation next : Nonterminal) (operator : Terminal) : Production :=
  ⟨continuation, .skip operator, [.nest next .once]⟩

/-- The two productions of a level of binary operators that group to the left. -/
def binary (level continuation next : Nonterminal) (operator : Terminal) : List Production :=
  [operands level continuation next, operation continuation next operator]

end Production
end LayoutGrammar
