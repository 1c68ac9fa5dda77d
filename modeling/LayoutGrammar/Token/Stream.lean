import LayoutGrammar.Token.Basic
import LayoutGrammar.Token.Scan

/-!
# Token stream

The tokens of a source text, placed in a file.
-/

namespace LayoutGrammar

/-- A lexeme as a token of a file. -/
def Token.ofLexeme (file : String) (lexeme : Lexeme) : Token :=
  ⟨lexeme.kind, lexeme.value, ⟨.ofOffset file lexeme.start, .ofOffset file lexeme.stop⟩⟩

/-- A fault as a diagnostic of a file. -/
def Diagnostic.ofFault (file : String) (fault : Fault) : Diagnostic :=
  ⟨fault.cause, .ofOffset file fault.offset⟩

/-- The name of the file of a text that has none. -/
def unnamedFile : String := "shell"

/-- The tokens of a source text. -/
def Token.ofSource (source file : String) : Except Diagnostic (List Token) :=
  match Lexeme.ofText source.toList with
  | .ok lexemes => .ok (lexemes.map (Token.ofLexeme file))
  | .error fault => .error (.ofFault file fault)

end LayoutGrammar
