import LayoutGrammar.Program.Grammar
import LayoutGrammar.Proofs.Prediction.Outlook

/-!
# The outlook of programs

What one token tells in a program.  It tells which item of a production is next, and which alternative of a
nonterminal, except between an assignment and an expression, which may both start with an identifier.
-/

namespace LayoutGrammar
namespace Program

/-- The kinds that start a primary. -/
def primaryKinds : List Terminal := [.number, .string, .identifier, .openParen, .openBracket]

/-- The kinds that start an expression. -/
def expressionKinds : List Terminal := primaryKinds ++ UnaryOp.all.map UnaryOp.operator

/-- The kinds that start a statement. -/
def statementKinds : List Terminal := [.ifWord, .printWord] ++ expressionKinds

/-- A level and all tighter ones. -/
def levelsFrom (level : Level) : List Level := Level.all.dropWhile fun l => l ≠ level

/-- The kinds of the first token of a nonterminal of programs. -/
def firstKinds : Nonterminal → List Terminal
  | .root | .statement => statementKinds
  | .ifStatement => [.ifWord]
  | .assignment => [.identifier]
  | .print => [.printWord]
  | .subsequentPrint => [.comma]
  | .expression | .level _ | .unary => expressionKinds
  | .subsequent l => [l.operator]
  | .prefixed op => [op.operator]
  | .floor => [.openBracket]
  | .group => [.openParen]
  | .primary => primaryKinds

/-- The operators that would go on with an operand of a level. -/
def operandNext (level : Level) : List Terminal := (levelsFrom level).tail.map Level.operator

/-- The kinds of tokens that would go on with a nonterminal of programs. -/
def nextKinds : Nonterminal → List Terminal
  | .root => statementKinds
  | .print => .comma :: Level.all.map Level.operator
  | .assignment | .subsequentPrint | .expression => Level.all.map Level.operator
  | .level l => (levelsFrom l).map Level.operator
  | .subsequent l => operandNext l
  | _ => []

/-- The ranks of the nonterminals of programs: a chain of nonterminals that open each other goes from the
root over the levels to the primaries. -/
def rank : Nonterminal → Nat
  | .root => 24
  | .statement => 23
  | .expression => 22
  | .level l => (levelsFrom l).length + 2
  | .unary => 2
  | .primary => 1
  | _ => 0

/-- What a token tells in a program. -/
def outlook : Outlook where
  first := firstKinds
  next := nextKinds
  rank := rank
  height := 24

/-- The outlook of programs suits all their productions. -/
theorem suits : ∀ p ∈ grammar.productions, outlook.Suits grammar p := by
  decide +kernel

/-- A token tells the alternatives of all continuations apart. -/
theorem isDecided_of_mem_continuations :
  ∀ p ∈ grammar.productions, ∀ item ∈ p.continuations, item.target.isDecided outlook grammar = true
  := by
  decide +kernel

/-- A token tells the alternatives of the opening items apart, except for those of a statement. -/
theorem isDecided_opening :
  ∀ p ∈ grammar.productions, p.rule ≠ .statement → p.opening.target.isDecided outlook grammar = true
  := by
  decide +kernel

end Program
end LayoutGrammar
