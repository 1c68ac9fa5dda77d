import LayoutGrammar.Token.Position
import LayoutGrammar.Token.Terminal

/-!
# Token

A token is a terminal with the text it stands for and the stretch of the source it was read from.
-/

namespace LayoutGrammar

/-- A token of a source text. -/
structure Token where
  /-- What the token is. -/
  kind : Terminal
  /-- The text the token stands for. -/
  value : String
  /-- Where the token was read. -/
  span : Span
deriving DecidableEq

namespace Token

/-- The token of a kind and value that comes from no text. -/
def unplaced (kind : Terminal) (value : String) : Token := ⟨kind, value, .null⟩

/-- A token as it is shown: its kind, with its value when tokens of the kind differ by it. -/
def shown (token : Token) : String :=
  if token.kind.isLexical then
    token.kind.name ++ "(" ++ token.value ++ ")"
  else
    token.kind.name

end Token
end LayoutGrammar
