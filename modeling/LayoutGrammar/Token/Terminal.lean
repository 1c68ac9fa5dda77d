/-!
# Terminal

The kinds of tokens, which are the terminals of a grammar, with the names they are shown by, and the
words that are reserved for some of them.
-/

namespace LayoutGrammar

/-- The kind of a token. -/
inductive Terminal where
  /-- The end of the text. -/
  | eof
  | number
  | string
  | identifier
  /-- The end of a logical line. -/
  | endOfLine
  /-- The start of a block of deeper lines. -/
  | indent
  /-- The end of a block of deeper lines. -/
  | dedent
  | openBracket
  | closeBracket
  | openParen
  | closeParen
  | comma
  | assign
  | or
  | and
  | not
  | bitOr
  | bitXor
  | bitAnd
  | bitNot
  | shiftLeft
  | shiftRight
  | equal
  | notEqual
  | less
  | lessEqual
  | greater
  | greaterEqual
  | plus
  | minus
  | times
  | divide
  | modulus
  | power
  | ifWord
  | thenWord
  | printWord
deriving DecidableEq, Repr

namespace Terminal

/-- All terminals. -/
def all : List Terminal := [
  eof, number, string, identifier, endOfLine, indent, dedent, openBracket, closeBracket, openParen,
  closeParen, comma, assign, or, and, not, bitOr, bitXor, bitAnd, bitNot, shiftLeft, shiftRight,
  equal, notEqual, less, lessEqual, greater, greaterEqual, plus, minus, times, divide, modulus, power,
  ifWord, thenWord, printWord]

/-- The name a terminal is shown by. -/
def name : Terminal → String
  | eof => "EOF"
  | number => "Number"
  | string => "String"
  | identifier => "Identifier"
  | endOfLine => "EndOfLine"
  | indent => "Indent"
  | dedent => "Dedent"
  | openBracket => "OpenBracket"
  | closeBracket => "CloseBracket"
  | openParen => "OpenParen"
  | closeParen => "CloseParen"
  | comma => "Comma"
  | assign => "Assign"
  | or => "Or"
  | and => "And"
  | not => "Not"
  | bitOr => "BitwiseOr"
  | bitXor => "BitwiseXor"
  | bitAnd => "BitwiseAnd"
  | bitNot => "BitwiseNot"
  | shiftLeft => "BitwiseLeftShift"
  | shiftRight => "BitwiseRightShift"
  | equal => "Equal"
  | notEqual => "NotEqual"
  | less => "LessThan"
  | lessEqual => "LessThanEqual"
  | greater => "GreaterThan"
  | greaterEqual => "GreaterThanEqual"
  | plus => "Plus"
  | minus => "Minus"
  | times => "Multiply"
  | divide => "Divide"
  | modulus => "Modulus"
  | power => "Power"
  | ifWord => "If"
  | thenWord => "Then"
  | printWord => "Print"

/-- The terminal with a given name. -/
def ofName? (text : String) : Option Terminal := all.find? fun kind => kind.name = text

/-- Whether the tokens of a terminal differ from each other by their texts: numbers, literals and
identifiers do, any other token is fully described by its kind. -/
def isLexical : Terminal → Bool
  | number | string | identifier => true
  | _ => false

/-- The reserved words and their terminals. -/
def reservedWords : List (String × Terminal) := [
  ("if", ifWord), ("then", thenWord), ("print", printWord), ("and", and), ("or", or), ("not", not)]

/-- The terminal a word is reserved for. -/
def ofReserved? (word : String) : Option Terminal := reservedWords.lookup word

/-- Every terminal is listed. -/
theorem mem_all (kind : Terminal) : kind ∈ all := by
  cases kind <;> decide

end Terminal
end LayoutGrammar
