import LayoutGrammar.Proofs.Scan.Pieces

/-!
# Spelling

How tokens are written: which texts a kind is spelled as (`Terminal.Spells`), and what a token with such a
text for its value is written as (`Word.text`), a literal in double quotes with its quotes and backslashes
escaped.  Before a blank or a newline, what a word is written as is read back as its kind and value
(`Word.exists_first?_text`).
-/

namespace LayoutGrammar

/-! ## Words -/

/-- The texts that a kind is written as, if they are fixed. -/
def Terminal.spellings : Terminal → List String
  | openBracket => ["["]
  | closeBracket => ["]"]
  | openParen => ["("]
  | closeParen => [")"]
  | comma => [","]
  | assign => ["="]
  | or => ["||", "or"]
  | and => ["&&", "and"]
  | not => ["!", "not"]
  | bitOr => ["|"]
  | bitXor => ["^"]
  | bitAnd => ["&"]
  | bitNot => ["~"]
  | shiftLeft => ["<<"]
  | shiftRight => [">>"]
  | equal => ["=="]
  | notEqual => ["!="]
  | less => ["<"]
  | lessEqual => ["<="]
  | greater => [">"]
  | greaterEqual => [">="]
  | plus => ["+"]
  | minus => ["-"]
  | times => ["*"]
  | divide => ["/"]
  | modulus => ["%"]
  | power => ["**"]
  | ifWord => ["if"]
  | thenWord => ["then"]
  | printWord => ["print"]
  | eof | number | string | identifier | endOfLine | indent | dedent => []

/-- A letter or underscore, and letters, digits and underscores. -/
def isName : List Char → Bool
  | [] => false
  | c :: text => (c.isAlpha || c = '_') && text.all fun d => d.isAlphanum || d = '_'

/-- One or more digits. -/
def IsDigits (text : List Char) : Prop := text ≠ [] ∧ ∀ c ∈ text, c.isDigit = true

/-- Digits, possibly with a point and further digits. -/
inductive IsNumeral : List Char → Prop
  /-- Digits alone. -/
  | whole {digits : List Char} (hdigits : IsDigits digits) : IsNumeral digits
  /-- Digits with a fraction. -/
  | fraction {digits more : List Char} (hdigits : IsDigits digits) (hmore : IsDigits more) :
      IsNumeral (digits ++ '.' :: more)

/-- A numeral starts with a digit. -/
theorem IsNumeral.exists_cons {text : List Char} (h : IsNumeral text) :
  ∃ c others, text = c :: others ∧ c.isDigit = true
  := by
  cases h with
  | whole hdigits =>
    obtain ⟨c, others, rfl⟩ := List.exists_cons_of_ne_nil hdigits.1
    use c, others, rfl, hdigits.2 c List.mem_cons_self
  | @fraction _ more hdigits =>
    obtain ⟨c, others, rfl⟩ := List.exists_cons_of_ne_nil hdigits.1
    use c, others ++ '.' :: more, rfl, hdigits.2 c List.mem_cons_self

/-- Whether a kind of tokens of a line may have a value.  A literal has any value, and an identifier is a name
that is not reserved. -/
def Terminal.Spells (kind : Terminal) (value : String) : Prop :=
  match kind with
  | identifier => isName value.toList = true ∧ ∀ other : Terminal, value ∉ other.spellings
  | number => IsNumeral value.toList
  | string => True
  | _ => value ∈ kind.spellings

/-- A token of a line, with a value that its kind may have. -/
structure Word where
  /-- What the token is. -/
  kind : Terminal
  /-- The text the token stands for. -/
  value : String
  /-- The value is one of the kind. -/
  spells : kind.Spells value

/-- A text with a backslash before each double quote and backslash. -/
def escape (text : List Char) : List Char :=
  text.flatMap fun c => if c = '"' ∨ c = '\\' then ['\\', c] else [c]

/-- What a word is written as. -/
def Word.text (w : Word) : List Char :=
  if w.kind = .string then '"' :: escape w.value.toList ++ ['"'] else w.value.toList

theorem Terminal.spells_of_mem_spellings {kind : Terminal} {value : String} (h : value ∈ kind.spellings) :
  kind.Spells value
  := by
  cases kind <;> first | exact h | cases h

/-- The word of a kind with a fixed text. -/
def Word.fixed (kind : Terminal) (value : String) (h : value ∈ kind.spellings) : Word :=
  ⟨kind, value, Terminal.spells_of_mem_spellings h⟩

/-- The word of a literal. -/
def Word.literal (value : String) : Word := ⟨.string, value, trivial⟩

theorem Word.isMark_kind (w : Word) :
  w.kind.isMark = false
  := by
  obtain ⟨kind, value, hspells⟩ := w
  cases kind with
  | eof | endOfLine | indent | dedent => simp [Terminal.Spells, Terminal.spellings] at hspells
  | _ => rfl

/-! ## Fixed texts -/

/-- The words that are reserved are spellings. -/
theorem Terminal.mem_spellings_of_ofReserved? {kind : Terminal} {word : String}
    (h : ofReserved? word = some kind) :
  word ∈ kind.spellings
  := by
  have hwords : ∀ reserved ∈ reservedWords, reserved.1 ∈ reserved.2.spellings := by decide
  obtain ⟨before, after, hsplit, -⟩ := List.lookup_eq_some_iff.mp h
  apply hwords (word, kind)
  rw [hsplit]
  simp

/-- A spelling is a reserved name or a symbol. -/
theorem Terminal.isName_or_mem_symbols {kind : Terminal} {value : String} (h : value ∈ kind.spellings) :
  (isName value.toList = true ∧ ofReserved? value = some kind) ∨ (value, kind, value) ∈ Pattern.symbols
  := by
  have hall : ∀ kind ∈ all, ∀ value ∈ kind.spellings,
      (isName value.toList = true ∧ ofReserved? value = some kind) ∨ (value, kind, value) ∈ Pattern.symbols := by
    decide +kernel
  apply hall kind (mem_all kind) value h

/-! ## Literals -/

theorem escape_cons_of_eq {c : Char} (h : c = '"' ∨ c = '\\') (text : List Char) :
  escape (c :: text) = '\\' :: c :: escape text
  := by
  simp [escape, h]

theorem escape_cons_of_ne {c : Char} (h : ¬ (c = '"' ∨ c = '\\')) (text : List Char) :
  escape (c :: text) = c :: escape text
  := by
  simp [escape, h]

/-- An escaped text may stand in a literal. -/
theorem Pattern.isInside_escape (text : List Char) :
  IsInside (escape text)
  := by
  induction text with
  | nil => apply IsInside.nil
  | cons c text ih =>
    by_cases hc : c = '"' ∨ c = '\\'
    · have hnewline : c ≠ '\n' := by
        rintro rfl
        simp at hc
      rw [escape_cons_of_eq hc]
      apply IsInside.escape hnewline ih
    · rw [escape_cons_of_ne hc]
      rw [not_or] at hc
      apply IsInside.plain hc.1 hc.2 ih

theorem Literal.decode_escape (text : List Char) :
  decode (escape text) = text
  := by
  induction text with
  | nil => rfl
  | cons c text ih =>
    by_cases hc : c = '"' ∨ c = '\\'
    · rw [escape_cons_of_eq hc]
      rcases hc with rfl | rfl <;> simp [decode, ih]
    · rw [escape_cons_of_ne hc, decode_cons (by simp_all), ih]

/-! ## Words before a separator -/

/-- A blank or a newline. -/
def IsSeparator (c : Char) : Prop := c = ' ' ∨ c = '\n'

namespace Pattern

variable {sep : Char} {text rest : List Char}

theorem run?_append {isIn : Char → Bool} {c : Char} (htext : ∀ d ∈ text, isIn d = true) (hne : text ≠ [])
    (hc : isIn c = false) :
  run? isIn (text ++ c :: rest) = some (text, c :: rest)
  := by
  have hstop : ∀ d ∈ (c :: rest).head?, isIn d = false := by simpa using hc
  obtain ⟨htake, hdrop⟩ := Text.span_append htext hstop
  rw [run?, htake, hdrop]
  cases text with
  | nil => contradiction
  | cons => rfl

theorem first?_of_isName (htext : isName text = true) (hsep : IsSeparator sep) :
  first? (text ++ sep :: rest) = some (.word, text, sep :: rest)
  := by
  cases text with
  | nil => cases htext
  | cons c text =>
    simp only [isName, Bool.and_eq_true, List.all_eq_true] at htext
    have hstart : isWordStart c = true := htext.1
    have hrest : ∀ d ∈ text, isWordRest d = true := htext.2
    have hstop : isWordRest sep = false := by rcases hsep with rfl | rfl <;> rfl
    have hsplit : split? .word (c :: (text ++ sep :: rest)) = some (c :: text, sep :: rest) := by
      simp [split?, hstart, List.takeWhile_append_of_pos hrest, List.dropWhile_append_of_pos hrest, hstop]
    simp [first?, table, hsplit]

/-- Digits come before the characters that start words. -/
theorem isWordStart_of_isDigit {c : Char} (h : c.isDigit = true) :
  isWordStart c = false
  := by
  have hdigit : c.val ≤ '9'.val := of_decide_eq_true (Bool.and_eq_true_iff.mp h).2
  rw [← Bool.not_eq_true]
  intro hstart
  have hletter : 'A'.val ≤ c.val := by
    rcases Bool.or_eq_true_iff.mp hstart with halpha | hunderscore
    · rcases Bool.or_eq_true_iff.mp halpha with hupper | hlower
      · apply (of_decide_eq_true hupper).1
      · have hle : 'a'.val ≤ c.val := of_decide_eq_true (Bool.and_eq_true_iff.mp hlower).1
        apply UInt32.le_trans (by decide) hle
    · obtain rfl : c = '_' := of_decide_eq_true hunderscore
      decide
  exact absurd (UInt32.le_trans hletter hdigit) (by decide)

/-- A numeral before a separator is split off. -/
theorem split?_of_isNumeral (htext : IsNumeral text) (hsep : IsSeparator sep) :
  split? .number (text ++ sep :: rest) = some (text, sep :: rest)
  := by
  have hdigit : sep.isDigit = false := by rcases hsep with rfl | rfl <;> rfl
  cases htext with
  | whole hdigits =>
    have hfraction : fraction (sep :: rest) = ([], sep :: rest) := by
      rcases hsep with rfl | rfl <;> rfl
    simp [split?, run?_append hdigits.2 hdigits.1 hdigit, hfraction]
  | @fraction digits more hdigits hmore =>
    have hfraction : fraction ('.' :: (more ++ sep :: rest)) = ('.' :: more, sep :: rest) := by
      simp [fraction, run?_append hmore.2 hmore.1 hdigit]
    simp [split?, run?_append hdigits.2 hdigits.1 (show '.'.isDigit = false from rfl), hfraction]

theorem first?_of_isNumeral (htext : IsNumeral text) (hsep : IsSeparator sep) :
  first? (text ++ sep :: rest) = some (.number, text, sep :: rest)
  := by
  have hword : split? .word (text ++ sep :: rest) = none := by
    obtain ⟨c, others, rfl, hc⟩ := htext.exists_cons
    simp [split?, isWordStart_of_isDigit hc]
  simp [first?, table, hword, split?_of_isNumeral htext hsep]

theorem first?_of_mem_symbols {sought value : String} {kind : Terminal} (h : (sought, kind, value) ∈ symbols)
    (hsep : IsSeparator sep) :
  first? (sought.toList ++ sep :: rest)
    = some (.symbol sought.toList kind value.toList, sought.toList, sep :: rest)
  := by
  have hall : ∀ entry ∈ symbols, first? (entry.1.toList ++ sep :: rest)
      = some (.symbol entry.1.toList entry.2.1 entry.2.2.toList, entry.1.toList, sep :: rest) := by
    rcases hsep with rfl | rfl
    all_goals
      simp only [symbols, List.forall_mem_cons]
      repeat' apply And.intro
      all_goals first | rfl | simp
  apply hall _ h

theorem first?_literal (text rest : List Char) :
  first? ('"' :: escape text ++ '"' :: rest) = some (.literal, '"' :: escape text ++ ['"'], rest)
  := by
  simp [first?, table, split?, run?, isWordStart, isSpacing, closing?_of_isInside (isInside_escape text)]

end Pattern

/-- Before a separator a word is read back. -/
theorem Word.exists_first?_text (w : Word) {sep : Char} (hsep : IsSeparator sep) (rest : List Char) :
  ∃ pattern, Pattern.first? (w.text ++ sep :: rest) = some (pattern, w.text, sep :: rest)
    ∧ pattern.token? w.text = some (w.kind, w.value.toList)
  := by
  obtain ⟨kind, value, hspells⟩ := w
  by_cases hlexical : kind.isLexical = true
  · cases kind with
    | identifier =>
      obtain ⟨hname, hfree⟩ := hspells
      use .word, Pattern.first?_of_isName hname hsep
      have hreserved : Terminal.ofReserved? value = none := by
        cases hkind : Terminal.ofReserved? value with
        | none => rfl
        | some other => exact absurd (Terminal.mem_spellings_of_ofReserved? hkind) (hfree other)
      simp [Pattern.token?, text, hreserved]
    | number =>
      use .number, Pattern.first?_of_isNumeral hspells hsep
      rfl
    | string =>
      use .literal
      constructor
      · simpa [text] using Pattern.first?_literal value.toList (sep :: rest)
      · simp [Pattern.token?, text, Literal.decode_escape]
    | _ => cases hlexical
  · have hmem : value ∈ kind.spellings := by cases kind <;> first | exact hspells | contradiction
    have htext : text ⟨kind, value, hspells⟩ = value.toList := by cases kind <;> first | rfl | contradiction
    rw [htext]
    rcases Terminal.isName_or_mem_symbols hmem with ⟨hname, hreserved⟩ | hsymbol
    · use .word, Pattern.first?_of_isName hname hsep
      simp [Pattern.token?, hreserved]
    · use .symbol value.toList kind value.toList, Pattern.first?_of_mem_symbols hsymbol hsep
      rfl

end LayoutGrammar
