import LayoutGrammar.Proofs.Scan.Concatenation

/-!
# What literals stand for

What is written between the quotes of a literal is a list of pieces (`Literal.Piece`): characters that stand
for themselves, and escapes.  How far a literal goes and what it stands for are found in two different ways,
the one by the pattern of literals, the other by reading its inside (`Literal.decode`).  Both go through the
same pieces (`Literal.isInside_flatMap_text`, `Literal.decode_flatMap_text`), when no piece that more digits
could go on with has a digit after it.  So a literal is one token, and its value is what its pieces mean
(`ofSource_written`).
-/

namespace LayoutGrammar
namespace Literal

open Pattern

/-! ## Pieces -/

/-- The digits in base sixteen, in either case, with their values. -/
def hexDigits : List (Char × Nat) := [
  ('0', 0), ('1', 1), ('2', 2), ('3', 3), ('4', 4), ('5', 5), ('6', 6), ('7', 7), ('8', 8), ('9', 9),
  ('a', 10), ('b', 11), ('c', 12), ('d', 13), ('e', 14), ('f', 15),
  ('A', 10), ('B', 11), ('C', 12), ('D', 13), ('E', 14), ('F', 15)]

/-- The characters that are named after a backslash, by their names. -/
def names : List (Char × Char) := [
  ('n', '\n'), ('t', '\t'), ('r', '\r'), ('\\', '\\'), ('"', '"'), ('0', '\x00')]

/-- A digit in base sixteen. -/
structure HexDigit where
  /-- What is written. -/
  char : Char
  /-- The value of the digit. -/
  value : Nat
  /-- It is the value of what is written. -/
  mem : (char, value) ∈ hexDigits

/-- Whether a character is a digit in base sixteen. -/
def IsHex (c : Char) : Prop := c ∈ hexDigits.map Prod.fst

instance (c : Char) : Decidable (IsHex c) := inferInstanceAs (Decidable (c ∈ _))

/-- A piece of what is written between the quotes of a literal. -/
inductive Piece where
  /-- A character that stands for itself. -/
  | plain (c : Char) (hquote : c ≠ '"') (hslash : c ≠ '\\')
  /-- A backslash and the name of a character. -/
  | named (name c : Char) (mem : (name, c) ∈ names)
  /-- The two digits of the code of a character, after a backslash and an `x`. -/
  | code (high low : HexDigit)
  /-- The only digit of the code of a character, after a backslash and an `x`. -/
  | shortCode (digit : HexDigit)
  /-- A backslash and an `x` without digits. -/
  | noCode
  /-- A backslash and a character that is not a name. -/
  | kept (c : Char) (hname : c ∉ names.map Prod.fst) (hcode : c ≠ 'x') (hnewline : c ≠ '\n')

namespace Piece

/-- What is written. -/
def text : Piece → List Char
  | plain c .. => [c]
  | named name .. => ['\\', name]
  | code high low => ['\\', 'x', high.char, low.char]
  | shortCode digit => ['\\', 'x', digit.char]
  | noCode => ['\\', 'x']
  | kept c .. => ['\\', c]

/-- What it means. -/
def meaning : Piece → List Char
  | plain c .. => [c]
  | named _ c _ => [c]
  | code high low => [Char.ofNat (16 * high.value + low.value)]
  | shortCode digit => [Char.ofNat digit.value]
  | noCode => ['\\', 'x']
  | kept c .. => ['\\', c]

/-- Whether another digit after a piece would belong to it. -/
def isOpen : Piece → Bool
  | shortCode _ | noCode => true
  | plain .. | named .. | code .. | kept .. => false

/-- Whether no digit comes after a piece that it would belong to. -/
def EndsBefore (p : Piece) (rest : List Char) : Prop := p.isOpen = true → ∀ c ∈ rest.head?, ¬ IsHex c

instance (p : Piece) (rest : List Char) : Decidable (p.EndsBefore rest) :=
  decidable_of_iff (p.isOpen = true → rest.head?.all (fun c => ¬ IsHex c) = true) (by
    cases rest <;> simp [EndsBefore])

end Piece

/-- Whether each of some pieces ends before the next one.  The last one ends before the closing quote. -/
def AreApart (pieces : List Piece) : Prop := pieces.IsChain fun p q => p.EndsBefore q.text

instance (pieces : List Piece) : Decidable (AreApart pieces) := inferInstanceAs (Decidable (List.IsChain _ _))

/-- A literal of some pieces. -/
def written (pieces : List Piece) : List Char := '"' :: pieces.flatMap Piece.text ++ ['"']

/-! ## Digits -/

theorem HexDigit.hexValue?_char (d : HexDigit) :
  hexValue? d.char = some d.value
  := by
  have hall : ∀ digit ∈ hexDigits, hexValue? digit.1 = some digit.2 := by decide
  apply hall (d.char, d.value) d.mem

/-- A digit is neither a quote nor a backslash. -/
theorem HexDigit.char_ne (d : HexDigit) :
  d.char ≠ '"' ∧ d.char ≠ '\\'
  := by
  have hall : ∀ digit ∈ hexDigits, digit.1 ≠ '"' ∧ digit.1 ≠ '\\' := by decide
  apply hall (d.char, d.value) d.mem

/-- The characters between two others are digits if their codes are those of digits. -/
theorem isHex_of_between {c low high : Char} (hlow : low ≤ c) (hhigh : c ≤ high)
    (hall : ∀ n ∈ List.range' low.toNat (high.toNat + 1 - low.toNat), IsHex (Char.ofNat n)) :
  IsHex c
  := by
  have hge : low.toNat ≤ c.toNat := hlow
  have hle : c.toNat ≤ high.toNat := hhigh
  rw [← c.ofNat_toNat]
  apply hall
  rw [List.mem_range'_1]
  omega

/-- Only digits have values. -/
theorem hexValue?_of_not_isHex {c : Char} (h : ¬ IsHex c) :
  hexValue? c = none
  := by
  have hdigit : ¬ c.isDigit = true := by
    intro hc
    rw [Char.isDigit, Bool.and_eq_true, decide_eq_true_eq, decide_eq_true_eq] at hc
    have hlow : '0' ≤ c := hc.1
    have hhigh : c ≤ '9' := hc.2
    apply h (isHex_of_between hlow hhigh (by decide))
  have hlower : ¬ ('a' ≤ c ∧ c ≤ 'f') := by
    rintro ⟨hlow, hhigh⟩
    apply h (isHex_of_between hlow hhigh (by decide))
  have hupper : ¬ ('A' ≤ c ∧ c ≤ 'F') := by
    rintro ⟨hlow, hhigh⟩
    apply h (isHex_of_between hlow hhigh (by decide))
  rw [hexValue?, if_neg hdigit, if_neg hlower, if_neg hupper]

/-! ## Reading pieces -/

theorem decode_short {digit : HexDigit} {rest : List Char} (h : ∀ c ∈ rest.head?, ¬ IsHex c) :
  decode ('\\' :: 'x' :: digit.char :: rest) = Char.ofNat digit.value :: decode rest
  := by
  cases rest with
  | nil => simp [decode, digit.hexValue?_char]
  | cons c rest => simp [decode, digit.hexValue?_char, hexValue?_of_not_isHex (h c rfl)]

theorem decode_noCode {rest : List Char} (h : ∀ c ∈ rest.head?, ¬ IsHex c) :
  decode ('\\' :: 'x' :: rest) = '\\' :: 'x' :: decode rest
  := by
  match rest with
  | [] => simp [decode]
  | [c] => simp [decode, hexValue?_of_not_isHex (h c rfl)]
  | c :: d :: rest => simp [decode, hexValue?_of_not_isHex (h c rfl)]

/-- A backslash before a character that is not a name stands for itself. -/
theorem decode_kept {c : Char} (hname : c ∉ names.map Prod.fst) (hcode : c ≠ 'x') (rest : List Char) :
  decode ('\\' :: c :: rest) = '\\' :: c :: decode rest
  := by
  simp only [names, List.map_cons, List.map_nil, List.mem_cons, List.not_mem_nil, not_or] at hname
  simp [decode, hname, hcode]

/-- What is written for a piece is read as what it means, when the piece ends there. -/
theorem decode_text {p : Piece} {rest : List Char} (h : p.EndsBefore rest) :
  decode (p.text ++ rest) = p.meaning ++ decode rest
  := by
  cases p with
  | plain c hquote hslash => apply decode_cons hslash
  | named name c mem =>
    have hall : ∀ entry ∈ names, decode ('\\' :: entry.1 :: rest) = entry.2 :: decode rest := by
      simp [names, decode]
    apply hall (name, c) mem
  | code high low => simp [Piece.text, Piece.meaning, decode, HexDigit.hexValue?_char]
  | shortCode digit => apply decode_short (h rfl)
  | noCode => apply decode_noCode (h rfl)
  | kept c hname hcode => apply decode_kept hname hcode

/-! ## Lists of pieces -/

theorem Piece.text_ne_nil (p : Piece) :
  p.text ≠ []
  := by
  cases p <;> simp [text]

/-- The first piece of a list ends before the others. -/
theorem AreApart.endsBefore {p : Piece} {pieces : List Piece} (h : AreApart (p :: pieces)) :
  p.EndsBefore (pieces.flatMap Piece.text)
  := by
  intro hopen
  cases pieces with
  | nil => simp
  | cons q pieces =>
    have hbefore := (List.isChain_cons_cons.mp h).1
    rw [List.flatMap_cons, List.head?_append_of_ne_nil _ q.text_ne_nil]
    apply hbefore hopen

/-- What is written for some pieces is read as what they mean. -/
theorem decode_flatMap_text {pieces : List Piece} (h : AreApart pieces) :
  decode (pieces.flatMap Piece.text) = pieces.flatMap Piece.meaning
  := by
  induction pieces with
  | nil => rfl
  | cons p pieces ih => rw [List.flatMap_cons, decode_text h.endsBefore, ih h.of_cons, List.flatMap_cons]

/-- A digit goes on with the inside of a literal. -/
theorem HexDigit.isInside (digit : HexDigit) {rest : List Char} (h : IsInside rest) :
  IsInside (digit.char :: rest)
  := IsInside.plain digit.char_ne.1 digit.char_ne.2 h

/-- No piece closes a literal. -/
theorem Piece.isInside (p : Piece) {rest : List Char} (h : IsInside rest) :
  IsInside (p.text ++ rest)
  := by
  have hcode : 'x' ≠ '\n' := by decide
  cases p with
  | plain c hquote hslash => apply IsInside.plain hquote hslash h
  | named name c mem =>
    have hall : ∀ entry ∈ names, entry.1 ≠ '\n' := by decide
    apply IsInside.escape (hall (name, c) mem) h
  | code high low => apply IsInside.escape hcode (high.isInside (low.isInside h))
  | shortCode digit => apply IsInside.escape hcode (digit.isInside h)
  | noCode => apply IsInside.escape hcode h
  | kept c _ _ hnewline => apply IsInside.escape hnewline h

theorem isInside_flatMap_text (pieces : List Piece) :
  IsInside (pieces.flatMap Piece.text)
  := by
  induction pieces with
  | nil => apply IsInside.nil
  | cons p pieces ih => apply p.isInside ih

end Literal

open Literal

/-! ## Sources -/

/-- The lexemes of a literal alone: the literal, and the marks of the ends of the line and of the text. -/
theorem Lexeme.ofText_written {pieces : List Piece} (h : AreApart pieces) :
  Lexeme.ofText (written pieces)
    = .ok [⟨.string, String.ofList (pieces.flatMap Piece.meaning), 0, Text.size (written pieces)⟩,
      ⟨.endOfLine, "", Text.size (written pieces), Text.size (written pieces)⟩,
      ⟨.eof, "EOF", Text.size (written pieces), Text.size (written pieces)⟩]
  := by
  have hat : Scan.IsAtToken (written pieces) := Scan.isAtToken_of_head? (by simp [written])
    (by simp [written]) (by simp [written])
  have hfirst : Pattern.first? (written pieces) = some (.literal, written pieces, []) := by
    rw [written, List.cons_append, Pattern.first?_quote,
      Pattern.closing?_of_isInside (isInside_flatMap_text pieces)]
    rfl
  have htoken : Pattern.literal.token? (written pieces)
      = some (.string, pieces.flatMap Piece.meaning) := by
    rw [← decode_flatMap_text h]
    simp [Pattern.token?, written]
  have hmove : (Scan.ofText (written pieces)).Moves _ _ := Scan.Moves.token hfirst htoken
  rw [ofText_of_isAtToken hat, Scan.lexemes_of_moves hmove, Scan.lexemes_of_nil rfl, Scan.finish,
    Scan.endLogicalLine_of_isMark rfl rfl]
  simp [Scan.ofText, Scan.skip, Scan.mark, Scan.blockEnds, Except.map]

/-- A literal of some pieces is one token that takes all of the source, and its value is what the pieces
mean. -/
theorem ofSource_written (pieces : List Piece) (h : AreApart pieces) (file : String) :
  let stop := Position.ofOffset file (Text.size (written pieces))
  Token.ofSource (String.ofList (written pieces)) file
    = .ok [⟨.string, String.ofList (pieces.flatMap Piece.meaning), ⟨.ofOffset file 0, stop⟩⟩,
      ⟨.endOfLine, "", ⟨stop, stop⟩⟩, ⟨.eof, "EOF", ⟨stop, stop⟩⟩]
  := by
  rw [Token.ofSource, String.toList_ofList, Lexeme.ofText_written h]
  rfl

/-- Pieces of every kind: a newline, a letter of two bytes, a name, codes with two, no and one digit, the last
one before a letter that is no digit, and backslashes up to the closing quote. -/
def variedPieces : List Piece := [
  .plain '\n' (by decide) (by decide), .plain 'é' (by decide) (by decide), .named '"' '"' (by decide),
  .code ⟨'E', 14, by decide⟩ ⟨'9', 9, by decide⟩, .noCode, .shortCode ⟨'a', 10, by decide⟩,
  .plain 'g' (by decide) (by decide), .kept 'q' (by decide) (by decide) (by decide),
  .named '\\' '\\' (by decide), .named '\\' '\\' (by decide)]

/-- The literal is one token of twenty-three bytes. -/
theorem ofSource_variedPieces :
  AreApart variedPieces
  ∧ String.ofList (written variedPieces) = "\"\né\\\"\\xE9\\x\\xag\\q\\\\\\\\\""
  ∧ Token.ofSource (String.ofList (written variedPieces)) "text"
    = .ok [⟨.string, "\né\"é\\x\ng\\q\\\\", ⟨⟨0, "text"⟩, ⟨23, "text"⟩⟩⟩,
      ⟨.endOfLine, "", ⟨⟨23, "text"⟩, ⟨23, "text"⟩⟩⟩, ⟨.eof, "EOF", ⟨⟨23, "text"⟩, ⟨23, "text"⟩⟩⟩]
  := by
  have hapart : AreApart variedPieces := by decide
  use hapart, by decide
  rw [ofSource_written variedPieces hapart "text"]
  decide

end LayoutGrammar
