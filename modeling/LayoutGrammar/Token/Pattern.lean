import LayoutGrammar.Token.Literal
import LayoutGrammar.Token.Terminal

/-!
# Pattern

The patterns of what a text is cut into, and the tokens that the pieces stand for.  A pattern splits a
text into the piece that it matches at the start, as long as possible, and the rest; the
piece is never empty (`append_of_split?`).  The patterns are tried in the order of a table; a symbol
stands there before the symbols that it starts with.  The row of a symbol has the text of its token apart from
the text that is looked for.  The two are the same in every row (`value_eq_of_symbol_mem`), so that a scan
passes over just the piece that was matched (`passed_of_first?`).
-/

namespace LayoutGrammar

/-- A pattern of a piece of a text. -/
inductive Pattern where
  /-- A letter or underscore, and letters, underscores and digits. -/
  | word
  /-- Digits, possibly with a point and further digits. -/
  | number
  /-- A newline. -/
  | newline
  /-- Spaces, tabs and carriage returns. -/
  | blanks
  /-- A literal in double quotes. -/
  | literal
  /-- Two slashes and the rest of the line. -/
  | comment
  /-- A fixed text that is looked for, and the kind and value of the token that it stands for. -/
  | symbol (sought : List Char) (kind : Terminal) (value : List Char)
deriving DecidableEq

namespace Pattern

/-- The symbols, a longer one before those it starts with: what is looked for, and the kind and value of the
token. -/
def symbols : List (String × Terminal × String) := [
  ("[", .openBracket, "["), ("]", .closeBracket, "]"), ("(", .openParen, "("), (")", .closeParen, ")"),
  (",", .comma, ","), ("==", .equal, "=="), ("!=", .notEqual, "!="), ("!", .not, "!"),
  ("=", .assign, "="), ("<<", .shiftLeft, "<<"), ("<=", .lessEqual, "<="), ("<", .less, "<"),
  (">>", .shiftRight, ">>"), (">=", .greaterEqual, ">="), (">", .greater, ">"), ("||", .or, "||"),
  ("&&", .and, "&&"), ("|", .bitOr, "|"), ("^", .bitXor, "^"), ("&", .bitAnd, "&"), ("~", .bitNot, "~"),
  ("**", .power, "**"), ("+", .plus, "+"), ("-", .minus, "-"), ("*", .times, "*"), ("/", .divide, "/"),
  ("%", .modulus, "%")]

/-- The patterns, in the order in which they are tried. -/
def table : List Pattern :=
  [word, number, newline, blanks, literal, comment]
    ++ symbols.map fun (sought, kind, value) => symbol sought.toList kind value.toList

/-! ## Pieces -/

/-- A character that starts a word. -/
def isWordStart (c : Char) : Bool := c.isAlpha || c = '_'

/-- A character that goes on with a word. -/
def isWordRest (c : Char) : Bool := c.isAlphanum || c = '_'

/-- A character between tokens of a line. -/
def isSpacing (c : Char) : Bool := c = ' ' || c = '\t' || c = '\r'

/-- The longest non-empty piece of characters of a class. -/
def run? (isIn : Char → Bool) (text : List Char) : Option (List Char × List Char) :=
  match text.takeWhile isIn with
  | [] => none
  | piece => some (piece, text.dropWhile isIn)

/-- A point and digits, or nothing. -/
def fraction : List Char → List Char × List Char
  | '.' :: text =>
    match run? Char.isDigit text with
    | some (digits, rest) => ('.' :: digits, rest)
    | none => ([], '.' :: text)
  | text => ([], text)

/-- The inside of a literal and its closing quote.  A backslash goes with the character after it, which may
not be a newline. -/
def closing? : List Char → Option (List Char × List Char)
  | [] => none
  | '"' :: rest => some (['"'], rest)
  | '\\' :: c :: text =>
    if c = '\n' then none else (closing? text).map fun (piece, rest) => ('\\' :: c :: piece, rest)
  | ['\\'] => none
  | c :: text => (closing? text).map fun (piece, rest) => (c :: piece, rest)

/-- The piece that a pattern matches at the start of a text, and the rest. -/
def split? : Pattern → List Char → Option (List Char × List Char)
  | word, [] => none
  | word, c :: text =>
    if isWordStart c then some (c :: text.takeWhile isWordRest, text.dropWhile isWordRest) else none
  | number, text =>
    (run? Char.isDigit text).map fun (digits, rest) => (digits ++ (fraction rest).1, (fraction rest).2)
  | newline, '\n' :: rest => some (['\n'], rest)
  | newline, _ => none
  | blanks, text => run? isSpacing text
  | literal, '"' :: text => (closing? text).map fun (piece, rest) => ('"' :: piece, rest)
  | literal, _ => none
  | comment, '/' :: '/' :: text =>
    some ('/' :: '/' :: text.takeWhile (· ≠ '\n'), text.dropWhile (· ≠ '\n'))
  | comment, _ => none
  | symbol sought _ _, text =>
    if sought.isPrefixOf text then some (sought, text.drop sought.length) else none

/-- The first pattern of the table that matches at the start of a text, the piece and the rest. -/
def first? (text : List Char) : Option (Pattern × List Char × List Char) :=
  table.findSome? fun pattern => (pattern.split? text).map fun found => (pattern, found)

/-- The token that a piece stands for, unless it only separates tokens. -/
def token? : Pattern → List Char → Option (Terminal × List Char)
  | word, piece => some ((Terminal.ofReserved? (String.ofList piece)).getD .identifier, piece)
  | number, piece => some (.number, piece)
  | literal, piece => some (.string, Literal.decode (piece.drop 1).dropLast)
  | symbol _ kind value, _ => some (kind, value)
  | newline, _ | blanks, _ | comment, _ => none

/-- What is passed over at a piece: for a symbol the value of its token and for a newline one character,
whatever was matched, and otherwise the piece. -/
def passed : Pattern → List Char → List Char
  | symbol _ _ value, _ => value
  | newline, _ => ['\n']
  | word, piece | number, piece | blanks, piece | literal, piece | comment, piece => piece

/-! ## Symbols -/

/-- A symbol of the table is in the list of symbols. -/
theorem exists_of_symbol_mem {sought value : List Char} {kind : Terminal}
    (h : symbol sought kind value ∈ table) :
  ∃ s v, (s, kind, v) ∈ symbols ∧ s.toList = sought ∧ v.toList = value
  := by
  rcases List.mem_append.1 h with hmem | hmem
  · simp at hmem
  · obtain ⟨⟨s, _, v⟩, hentry, heq⟩ := List.mem_map.1 hmem
    obtain ⟨hs, rfl, hv⟩ := symbol.inj heq
    exact ⟨s, v, hentry, hs, hv⟩

/-- The token of a symbol has the text that is looked for. -/
theorem value_eq_of_symbol_mem {sought value : List Char} {kind : Terminal}
    (h : symbol sought kind value ∈ table) :
  value = sought
  := by
  have hall : ∀ entry ∈ symbols, entry.2.2 = entry.1 := by decide
  obtain ⟨s, v, hmem, rfl, rfl⟩ := exists_of_symbol_mem h
  rw [show v = s from hall _ hmem]

theorem sought_ne_nil_of_symbol_mem {sought value : List Char} {kind : Terminal}
    (h : symbol sought kind value ∈ table) :
  sought ≠ []
  := by
  have hall : ∀ entry ∈ symbols, entry.1.toList ≠ [] := by decide
  obtain ⟨s, v, hmem, rfl, -⟩ := exists_of_symbol_mem h
  apply hall _ hmem

/-! ## Pieces and texts -/

theorem append_of_run? {isIn : Char → Bool} {text piece rest : List Char}
    (h : run? isIn text = some (piece, rest)) :
  piece ++ rest = text ∧ piece ≠ []
  := by
  unfold run? at h
  split at h
  · cases h
  · next found hne =>
    obtain ⟨rfl, rfl⟩ := by simpa using h
    exact ⟨List.takeWhile_append_dropWhile, hne⟩

theorem append_fraction (text : List Char) : (fraction text).1 ++ (fraction text).2 = text := by
  unfold fraction
  split
  · split
    · next hrun => simp [(append_of_run? hrun).1]
    · rfl
  · rfl

theorem append_of_closing? {text piece rest : List Char} (h : closing? text = some (piece, rest)) :
  piece ++ rest = text
  := by
  fun_induction closing? text generalizing piece with
  | case1 => cases h
  | case2 =>
    obtain ⟨rfl, rfl⟩ := by simpa using h
    rfl
  | case3 => cases h
  | case4 c text _ ih | case6 c text _ _ _ ih =>
    obtain ⟨⟨inner, rest⟩, hinner, hpiece⟩ := Option.map_eq_some_iff.1 h
    obtain ⟨rfl, rfl⟩ := by simpa using hpiece
    simp [ih hinner]
  | case5 => cases h

/-- A pattern cuts a text in two, and the first part is not empty. -/
theorem append_of_split? {pattern : Pattern} (hpattern : pattern ∈ table) {text piece rest : List Char}
    (h : pattern.split? text = some (piece, rest)) :
  piece ++ rest = text ∧ piece ≠ []
  := by
  unfold split? at h
  split at h
  · cases h
  · split at h
    · obtain ⟨rfl, rfl⟩ := by simpa using h
      simp
    · cases h
  · next text =>
    obtain ⟨⟨digits, others⟩, hrun, hpiece⟩ := Option.map_eq_some_iff.1 h
    obtain ⟨rfl, rfl⟩ := by simpa using hpiece
    obtain ⟨happend, hne⟩ := append_of_run? hrun
    simp [append_fraction, happend, hne]
  · obtain ⟨rfl, rfl⟩ := by simpa using h
    simp
  · cases h
  · exact append_of_run? h
  · obtain ⟨⟨inner, last⟩, hinner, hpiece⟩ := Option.map_eq_some_iff.1 h
    obtain ⟨rfl, rfl⟩ := by simpa using hpiece
    simp [append_of_closing? hinner]
  · cases h
  · obtain ⟨rfl, rfl⟩ := by simpa using h
    simp
  · cases h
  · split at h
    · next hprefix =>
      obtain ⟨rfl, rfl⟩ := by simpa using h
      obtain ⟨others, rfl⟩ := List.isPrefixOf_iff_prefix.1 hprefix
      exact ⟨by simp, sought_ne_nil_of_symbol_mem hpattern⟩
    · cases h

theorem split?_of_first? {pattern : Pattern} {text piece rest : List Char}
    (h : first? text = some (pattern, piece, rest)) :
  pattern ∈ table ∧ pattern.split? text = some (piece, rest)
  := by
  obtain ⟨p, hp, hfound⟩ := List.exists_of_findSome?_eq_some h
  obtain ⟨_, hsplit, heq⟩ := Option.map_eq_some_iff.1 hfound
  obtain ⟨rfl, rfl⟩ := by simpa using heq
  exact ⟨hp, hsplit⟩

/-- What is cut off by the first pattern that matches is not empty. -/
theorem append_of_first? {pattern : Pattern} {text piece rest : List Char}
    (h : first? text = some (pattern, piece, rest)) :
  piece ++ rest = text ∧ piece ≠ []
  := by
  obtain ⟨hpattern, hsplit⟩ := split?_of_first? h
  exact append_of_split? hpattern hsplit

/-- What is passed over at a piece is the piece. -/
theorem passed_of_first? {pattern : Pattern} {text piece rest : List Char}
    (h : first? text = some (pattern, piece, rest)) :
  pattern.passed piece = piece
  := by
  obtain ⟨hpattern, hsplit⟩ := split?_of_first? h
  cases pattern with
  | word | number | blanks | literal | comment => rfl
  | newline =>
    unfold split? at hsplit
    split at hsplit <;> simp_all [passed]
  | symbol sought kind value =>
    obtain ⟨-, rfl, -⟩ := by simpa [split?] using hsplit
    exact value_eq_of_symbol_mem hpattern

end Pattern
end LayoutGrammar
