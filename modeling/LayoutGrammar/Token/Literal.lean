/-!
# Literal

What is written between the quotes of a literal, and the text it stands for.  A backslash starts an escape:
`\n`, `\t`, `\r`, `\0`, `\\` and `\"` stand for one character each, and `\x` with one or two digits in base
sixteen for the character with that code.  A backslash before anything else stands for itself.
-/

namespace LayoutGrammar
namespace Literal

/-- The value of a digit in base sixteen, in either case. -/
def hexValue? (c : Char) : Option Nat :=
  if c.isDigit then
    some (c.toNat - '0'.toNat)
  else if 'a' ≤ c ∧ c ≤ 'f' then
    some (c.toNat - 'a'.toNat + 10)
  else if 'A' ≤ c ∧ c ≤ 'F' then
    some (c.toNat - 'A'.toNat + 10)
  else
    none

/-- The text that the inside of a literal stands for. -/
def decode : List Char → List Char
  | [] => []
  | '\\' :: 'n' :: rest => '\n' :: decode rest
  | '\\' :: 't' :: rest => '\t' :: decode rest
  | '\\' :: 'r' :: rest => '\r' :: decode rest
  | '\\' :: '0' :: rest => '\x00' :: decode rest
  | '\\' :: '\\' :: rest => '\\' :: decode rest
  | '\\' :: '"' :: rest => '"' :: decode rest
  | '\\' :: 'x' :: a :: b :: rest =>
    match hexValue? a, hexValue? b with
    | some m, some n => Char.ofNat (16 * m + n) :: decode rest
    | some m, none => Char.ofNat m :: decode (b :: rest)
    | none, _ => '\\' :: 'x' :: decode (a :: b :: rest)
  | ['\\', 'x', a] =>
    match hexValue? a with
    | some m => [Char.ofNat m]
    | none => '\\' :: 'x' :: decode [a]
  | c :: rest => c :: decode rest

/-- A character that starts no escape stands for itself. -/
theorem decode_cons {c : Char} (h : c ≠ '\\') (rest : List Char) :
  decode (c :: rest) = c :: decode rest
  := by
  rw [decode.eq_def]
  split <;> simp_all

end Literal
end LayoutGrammar
