import LayoutGrammar.Grammar.Basic

/-!
# The grammar of programs

A program is a sequence of statements, each closed by the end of its line.  A statement is conditional on
an expression, with a block of statements; or it assigns an expression to an identifier; or it prints
expressions; or it is an expression.  An expression combines primaries by the unary operators and by the
binary operators of the levels of precedence, the operands of a level being those of the next tighter one.
-/

namespace LayoutGrammar
namespace Program

/-- The nonterminal of the operands of a level. -/
def operand (level : Level) : Nonterminal :=
  match level.tighter? with
  | some tighter => .level tighter
  | none => .unary

/-- The productions of statements. -/
def statements : List Production := [
  ⟨.root, .hoist .statement .atLeastOnce, []⟩,
  ⟨.statement, .oneOf (.of .ifStatement [.assignment, .print, .expression]), [.skip .endOfLine]⟩,
  ⟨.ifStatement, .skip .ifWord,
    [.nest .expression .once, .skip .thenWord, .skip .endOfLine, .skip .indent,
      .nest .statement .atLeastOnce, .skip .dedent]⟩,
  ⟨.assignment, .token .identifier, [.skip .assign, .nest .expression .once]⟩,
  ⟨.print, .skip .printWord,
    [.nest .expression .once, .hoist .subsequentPrint .zeroOrMore]⟩,
  ⟨.subsequentPrint, .skip .comma, [.nest .expression .once]⟩]

/-- The productions of a level of binary operators. -/
def binaryLevel (level : Level) : List Production :=
  Production.binary (.level level) (.subsequent level) (operand level) level.operator

/-- The production of a unary operator. -/
def unaryOperation (op : UnaryOp) : Production :=
  ⟨.prefixed op, .skip op.operator, [.nest .unary .once]⟩

/-- The productions of expressions. -/
def expressions : List Production :=
  ⟨.expression, .nest (.level .or) .once, []⟩
    :: Level.all.flatMap binaryLevel
    ++ UnaryOp.all.map unaryOperation
    ++ [⟨.unary,
          .oneOf (.of (.prefixed .minus) [.prefixed .plus, .prefixed .bitNot, .prefixed .not]), []⟩,
        ⟨.unary, .nest .primary .once, []⟩]

/-- The productions of primaries. -/
def primaries : List Production := [
  ⟨.floor, .skip .openBracket, [.nest .expression .once, .skip .closeBracket]⟩,
  ⟨.group, .skip .openParen, [.nest .expression .once, .skip .closeParen]⟩,
  ⟨.primary, .token .number, []⟩,
  ⟨.primary, .token .string, []⟩,
  ⟨.primary, .token .identifier, []⟩,
  ⟨.primary, .hoist .group .once, []⟩,
  ⟨.primary, .nest .floor .once, []⟩]

/-- The grammar of programs. -/
def grammar : Grammar := ⟨statements ++ expressions ++ primaries⟩

end Program
end LayoutGrammar
