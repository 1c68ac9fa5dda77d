import LayoutGrammar.Token.Terminal

/-!
# Nonterminal

The nonterminals of the grammar of programs.  The binary operators are ordered in levels of precedence,
from the loosest to the tightest; a level has two nonterminals, one for the operands of the level and one
for an operator of the level with the operand after it.
-/

namespace LayoutGrammar

/-- A level of precedence of the binary operators. -/
inductive Level where
  | or
  | and
  | bitOr
  | bitXor
  | bitAnd
  | notEqual
  | equal
  | less
  | lessEqual
  | greater
  | greaterEqual
  | shiftLeft
  | shiftRight
  | sum
  | subtract
  | multiply
  | divide
  | modulus
  | power
deriving DecidableEq, Repr

namespace Level

/-- All levels, from the loosest to the tightest. -/
def all : List Level := [
  or, and, bitOr, bitXor, bitAnd, notEqual, equal, less, lessEqual, greater, greaterEqual, shiftLeft,
  shiftRight, sum, subtract, multiply, divide, modulus, power]

/-- The name of a level. -/
def name : Level → String
  | or => "LogicalOr"
  | and => "LogicalAnd"
  | bitOr => "BitwiseOr"
  | bitXor => "BitwiseXor"
  | bitAnd => "BitwiseAnd"
  | notEqual => "NotEqual"
  | equal => "Equal"
  | less => "LessThan"
  | lessEqual => "LessThanEqual"
  | greater => "GreaterThan"
  | greaterEqual => "GreaterThanEqual"
  | shiftLeft => "BitwiseLeftShift"
  | shiftRight => "BitwiseRightShift"
  | sum => "Sum"
  | subtract => "Subtract"
  | multiply => "Multiply"
  | divide => "Divide"
  | modulus => "Modulus"
  | power => "Power"

/-- The operator of a level. -/
def operator : Level → Terminal
  | or => .or
  | and => .and
  | bitOr => .bitOr
  | bitXor => .bitXor
  | bitAnd => .bitAnd
  | notEqual => .notEqual
  | equal => .equal
  | less => .less
  | lessEqual => .lessEqual
  | greater => .greater
  | greaterEqual => .greaterEqual
  | shiftLeft => .shiftLeft
  | shiftRight => .shiftRight
  | sum => .plus
  | subtract => .minus
  | multiply => .times
  | divide => .divide
  | modulus => .modulus
  | power => .power

/-- The next tighter level, if any. -/
def tighter? : Level → Option Level
  | or => some and
  | and => some bitOr
  | bitOr => some bitXor
  | bitXor => some bitAnd
  | bitAnd => some notEqual
  | notEqual => some equal
  | equal => some less
  | less => some lessEqual
  | lessEqual => some greater
  | greater => some greaterEqual
  | greaterEqual => some shiftLeft
  | shiftLeft => some shiftRight
  | shiftRight => some sum
  | sum => some subtract
  | subtract => some multiply
  | multiply => some divide
  | divide => some modulus
  | modulus => some power
  | power => none

/-- Every level is listed. -/
theorem mem_all (level : Level) : level ∈ all := by
  cases level <;> decide

end Level

/-- An operator that is written before its operand. -/
inductive UnaryOp where
  | minus
  | plus
  | not
  | bitNot
deriving DecidableEq, Repr

namespace UnaryOp

/-- All unary operators. -/
def all : List UnaryOp := [minus, plus, not, bitNot]

/-- The name of a unary operator. -/
def name : UnaryOp → String
  | minus => "Minus"
  | plus => "Plus"
  | not => "Not"
  | bitNot => "BitwiseNot"

/-- The terminal a unary operator is written by. -/
def operator : UnaryOp → Terminal
  | minus => .minus
  | plus => .plus
  | not => .not
  | bitNot => .bitNot

/-- Every unary operator is listed. -/
theorem mem_all (op : UnaryOp) : op ∈ all := by
  cases op <;> decide

end UnaryOp

/-- A nonterminal, the head of productions and the tag of tree nodes. -/
inductive Nonterminal where
  | root
  | statement
  | ifStatement
  | assignment
  | print
  /-- A comma and the expression after it in a print statement. -/
  | subsequentPrint
  | expression
  /-- The operands of a level. -/
  | level (level : Level)
  /-- An operator of a level and the operand after it. -/
  | subsequent (level : Level)
  | unary
  /-- A unary operator and its operand. -/
  | prefixed (op : UnaryOp)
  /-- An expression in brackets. -/
  | floor
  /-- An expression in parentheses. -/
  | group
  | primary
deriving DecidableEq, Repr

namespace Nonterminal

/-- All nonterminals, in the order in which a grammar is checked. -/
def all : List Nonterminal :=
  [root, statement, ifStatement, assignment, print, subsequentPrint, expression]
    ++ Level.all.flatMap (fun l => [level l, subsequent l])
    ++ [unary] ++ UnaryOp.all.map prefixed ++ [floor, group, primary]

/-- The name a nonterminal is shown by. -/
def name : Nonterminal → String
  | root => "Root"
  | statement => "Statement"
  | ifStatement => "IfStatement"
  | assignment => "Assignment"
  | print => "Print"
  | subsequentPrint => "SubsequentPrint"
  | expression => "Expression"
  | level l => l.name
  | subsequent l => "Subsequent" ++ l.name
  | unary => "Unary"
  | prefixed op => "Unary" ++ op.name
  | floor => "Floor"
  | group => "Group"
  | primary => "Primary"

/-- The nonterminal with a given name. -/
def ofName? (text : String) : Option Nonterminal := all.find? fun rule => rule.name = text

/-- Every nonterminal is listed. -/
theorem mem_all (rule : Nonterminal) : rule ∈ all := by
  cases rule with
  | level l | subsequent l => cases l <;> decide
  | prefixed op => cases op <;> decide
  | _ => decide

end Nonterminal
end LayoutGrammar
