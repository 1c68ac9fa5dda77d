import LayoutGrammar.Text.Hidden

/-!
# Quoted text

`quote` writes a text between double quotes on one line.  A double quote and a backslash are written
after a backslash; a null, tab, newline and carriage return have a short form of their own; any other
hidden character is written by its code point.
-/

namespace LayoutGrammar
namespace Text

/-- The digits of a number in base sixteen, in lower case. -/
def hexDigits (n : Nat) : List Char := Nat.toDigits 16 n

/-- A character as it is written in quoted text. -/
def quoteChar (c : Char) : List Char :=
  match c with
  | '\x00' => ['\\', '0']
  | '\t' => ['\\', 't']
  | '\n' => ['\\', 'n']
  | '\r' => ['\\', 'r']
  | '"' => ['\\', '"']
  | '\\' => ['\\', '\\']
  | c => if isHidden c then ['\\', 'u', '\x7b'] ++ hexDigits c.toNat ++ ['\x7d'] else [c]

/-- A text between double quotes. -/
def quote (text : String) : String :=
  String.ofList ('"' :: text.toList.flatMap quoteChar ++ ['"'])

end Text
end LayoutGrammar
