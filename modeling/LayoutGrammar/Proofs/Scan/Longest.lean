import LayoutGrammar.Proofs.Scan.Lossless
import LayoutGrammar.Proofs.Scan.Seam

/-!
# The longest piece

The patterns are tried in the order of a table, and the first one that matches is taken.  It is the one that
matches most, and no other one matches as much (`Pattern.Prevails`).  What carries this is how pieces start.
Words and numbers start with characters that no other piece starts with, and any other piece starts with one of
a few texts (`Pattern.openings`).  Where two of these go together, the one that is later in the table is the
shorter one, and all that its pattern matches (`Pattern.openings_of_table`).

A step takes just the piece off the text (`Scan.Takes`), unless the piece is a newline: then the indentation of
the next line comes off as well (`Scan.exists_prevails_of_matches`, `not_takes_indentedLine`).  At a symbol the
step passes over the text that the table has for the token, whatever was matched; that this is the piece is a
fact about the rows of the table.
-/

namespace LayoutGrammar

open Text

namespace Pattern

variable {pattern q : Pattern} {text piece other rest : List Char}

/-! ## How pieces start -/

/-- The texts that the pieces of a pattern start with, unless there is a class of characters for that. -/
def openings : Pattern → List (List Char)
  | word | number => []
  | newline => [['\n']]
  | blanks => [[' '], ['\t'], ['\r']]
  | literal => [['"']]
  | comment => [['/', '/']]
  | symbol sought _ _ => [sought]

/-- Whether a pattern is that of a fixed text. -/
def isSymbol : Pattern → Bool
  | symbol .. => true
  | _ => false

/-- An opening that goes together with one of an earlier pattern of the table is that of a symbol, and it is
shorter. -/
theorem openings_of_table :
  table.Pairwise fun p q => ∀ a ∈ p.openings, ∀ b ∈ q.openings, a <+: b ∨ b <+: a →
    b.length < a.length ∧ q.isSymbol = true
  := by
  decide +kernel

/-- No pattern is in the table twice. -/
theorem nodup_table : table.Nodup := by
  decide

/-- No opening starts with a character that may stand in a word. -/
theorem not_isWordRest_openings :
  ∀ p ∈ table, ∀ a ∈ p.openings, ∃ c others, a = c :: others ∧ isWordRest c = false
  := by
  have hall : ∀ p ∈ table, ∀ a ∈ p.openings, a.head?.map isWordRest = some false := by decide +kernel
  intro p hp a ha
  obtain ⟨c, hc, hword⟩ := Option.map_eq_some_iff.mp (hall p hp a ha)
  obtain ⟨others, rfl⟩ := List.head?_eq_some_iff.mp hc
  use c, others

theorem eq_word_or_number (h : pattern.openings = []) :
  pattern = word ∨ pattern = number
  := by
  cases pattern <;> simp_all [openings]

/-- A piece of any other pattern than those of words and numbers starts with an opening. -/
theorem exists_opening (h : pattern.Matches piece) (hopenings : pattern.openings ≠ []) :
  ∃ a ∈ pattern.openings, a <+: piece
  := by
  cases pattern with
  | word | number => contradiction
  | newline =>
    obtain rfl : piece = ['\n'] := h
    use ['\n'], List.mem_cons_self, []
    rfl
  | blanks =>
    obtain ⟨c, others, rfl⟩ := List.exists_cons_of_ne_nil h.1
    use [c]
    constructor
    · simpa [openings] using h.2 c List.mem_cons_self
    · apply List.prefix_append [c] others
  | literal =>
    obtain ⟨inner, -, rfl⟩ := h
    use ['"'], List.mem_cons_self, inner ++ ['"']
    rfl
  | comment =>
    obtain ⟨body, -, rfl⟩ := h
    use ['/', '/'], List.mem_cons_self, body
    rfl
  | symbol sought kind value =>
    obtain rfl : piece = sought := h
    use piece, List.mem_cons_self, []
    apply List.append_nil

/-- A word or a number starts with a character that may stand in a word. -/
theorem exists_isWordRest (h : pattern.Matches piece) (hopenings : pattern.openings = []) :
  ∃ c others, piece = c :: others ∧ isWordRest c = true
  := by
  rcases eq_word_or_number hopenings with rfl | rfl
  · cases piece with
    | nil => cases h
    | cons c others => use c, others, rfl, isWordRest_of_isName h c List.mem_cons_self
  · obtain ⟨c, others, rfl, hc⟩ := IsNumeral.exists_cons h
    use c, others, rfl
    simp [isWordRest, Char.isAlphanum, hc]

/-- Whether a pattern that matches at the start of a text has openings is told by the text alone. -/
theorem openings_eq_nil_iff (hpattern : pattern ∈ table) (h : pattern.Matches piece)
    (hpiece : piece <+: text) :
  pattern.openings = [] ↔ ∃ c ∈ text.head?, isWordRest c = true
  := by
  constructor
  · intro hopenings
    obtain ⟨c, others, rfl, hc⟩ := exists_isWordRest h hopenings
    obtain ⟨more, rfl⟩ := hpiece
    use c, rfl
  · rintro ⟨c, hc, hword⟩
    by_contra hopenings
    obtain ⟨a, ha, haprefix⟩ := exists_opening h hopenings
    obtain ⟨d, others, rfl, hd⟩ := not_isWordRest_openings pattern hpattern a ha
    obtain ⟨more, rfl⟩ := haprefix.trans hpiece
    obtain rfl : d = c := by simpa using hc
    cases hd.symm.trans hword

/-- Words and numbers start with different characters. -/
theorem not_isNumeral_of_isName {name numeral : List Char} (h : isName name = true) (hname : name <+: text)
    (hnumeral : numeral <+: text) :
  ¬ IsNumeral numeral
  := by
  intro hdigits
  obtain ⟨d, others, rfl, hd⟩ := hdigits.exists_cons
  obtain ⟨more, rfl⟩ := hnumeral
  obtain ⟨beyond, hbeyond⟩ := hname
  cases name with
  | nil => cases h
  | cons c name =>
    obtain rfl : c = d := (List.cons.inj hbeyond).1
    simp only [isName, Bool.and_eq_true] at h
    cases (isWordStart_of_isDigit hd).symm.trans h.1

/-! ## Earlier and later patterns -/

/-- What a pattern of the table matches is not empty. -/
theorem ne_nil_of_matches (hpattern : pattern ∈ table) (h : pattern.Matches piece) :
  piece ≠ []
  := by
  obtain ⟨found, rest, hsplit, -⟩ := exists_split?_of_matches List.prefix_rfl h
  obtain ⟨happend, hne⟩ := append_of_split? hpattern hsplit
  rintro rfl
  apply hne (List.append_eq_nil_iff.mp happend).1

/-- What is the case for every two patterns of the table in their order is so for one and a later one. -/
theorem rel_of_table {R : Pattern → Pattern → Prop} (h : table.Pairwise R) {before after : List Pattern}
    (htable : table = before ++ pattern :: after) (hq : q ∈ after) :
  R pattern q
  := by
  rw [htable, List.pairwise_append] at h
  apply List.rel_of_pairwise_cons h.2.1 hq

/-- A later pattern of the table matches less of a text than an earlier one. -/
theorem length_lt_of_matches {before after : List Pattern} (htable : table = before ++ pattern :: after)
    (hq : q ∈ after) (h : pattern.Matches piece) (hpiece : piece <+: text) (hmatch : q.Matches other)
    (hother : other <+: text) :
  other.length < piece.length
  := by
  have hpattern : pattern ∈ table := by simp [htable]
  have hlater : q ∈ table := by simp [htable, hq]
  have hboth : pattern.openings = [] ↔ q.openings = [] := by
    rw [openings_eq_nil_iff hpattern h hpiece, openings_eq_nil_iff hlater hmatch hother]
  by_cases hopenings : pattern.openings = []
  -- Where a word or a number starts, no other pattern matches at all.
  · have hne := rel_of_table nodup_table htable hq
    rcases eq_word_or_number hopenings with rfl | rfl <;>
      rcases eq_word_or_number (hboth.mp hopenings) with rfl | rfl
    · contradiction
    · exact absurd hmatch (not_isNumeral_of_isName h hpiece hother)
    · exact absurd h (not_isNumeral_of_isName hmatch hother hpiece)
    · contradiction
  -- Elsewhere both patterns have an opening there, and the later one of these is all that is matched.
  · obtain ⟨a, ha, hapiece⟩ := exists_opening h hopenings
    obtain ⟨b, hb, hbother⟩ := exists_opening hmatch (mt hboth.mpr hopenings)
    obtain ⟨hlength, hsymbol⟩ := rel_of_table openings_of_table htable hq a ha b hb
      (List.prefix_or_prefix_of_prefix (hapiece.trans hpiece) (hbother.trans hother))
    obtain rfl : other = b := by
      cases q with
      | symbol => simpa [openings, Matches] using hmatch.trans (List.mem_singleton.mp hb).symm
      | _ => cases hsymbol
    apply Nat.lt_of_lt_of_le hlength hapiece.length_le

/-- Whether a pattern is the first one of the table that matches at the start of a text, and the one that
matches most. -/
structure Prevails (pattern : Pattern) (text piece rest : List Char) : Prop where
  /-- The piece is the longest one that the pattern matches. -/
  consumes : pattern.Consumes text piece rest
  /-- No pattern before it in the table matches anything, and all those after it match less. -/
  exists_table : ∃ before after, table = before ++ pattern :: after
    ∧ (∀ q ∈ before, ∀ other, other <+: text → ¬ q.Matches other)
    ∧ ∀ q ∈ after, ∀ other, other <+: text → q.Matches other → other.length < piece.length

/-- What comes first in a text is the longest piece. -/
theorem prevails_of_first? (h : first? text = some (pattern, piece, rest)) :
  pattern.Prevails text piece rest
  := by
  obtain ⟨hconsumes, before, after, htable, hbefore⟩ := first?_eq_some_iff.mp h
  use hconsumes, before, after, htable, hbefore
  intro q hq other hother hmatch
  apply length_lt_of_matches htable hq hconsumes.isMatch ⟨rest, hconsumes.append_eq⟩ hmatch hother

/-- Something comes first in a text where a pattern of the table matches. -/
theorem exists_first?_of_matches (hq : q ∈ table) (hother : other <+: text) (hmatch : q.Matches other) :
  ∃ pattern piece rest, first? text = some (pattern, piece, rest)
  := by
  cases h : first? text with
  | none => exact absurd hmatch (first?_eq_none_iff.mp h q hq other hother)
  | some found => use found.1, found.2.1, found.2.2

end Pattern

/-! ## What a step takes -/

namespace Scan

variable {s : Scan} {pattern : Pattern} {piece rest : List Char}

/-- Whether a step takes a piece off the text that is left, and no more: it leaves what comes after the piece,
and if it fails, it does so at the end of the piece. -/
structure Takes (s : Scan) (piece rest : List Char) : Prop where
  /-- The piece comes first in the text, and the rest after it. -/
  append_eq : piece ++ rest = s.rest
  /-- A step that is made leaves the rest. -/
  leaves : ∀ found next, s.step = .ok (found, next) →
    next.rest = rest ∧ next.offset = s.offset + size piece
  /-- A step that is not made fails before the rest. -/
  fails : ∀ fault, s.step = .error fault → fault.offset = s.offset + size piece

/-- At any piece but a newline there is a step over just the piece. -/
theorem exists_moves_of_first? (hfirst : Pattern.first? s.rest = some (pattern, piece, rest))
    (hnewline : pattern ≠ .newline) :
  ∃ found next, s.Moves found next ∧ next.rest = rest ∧ next.offset = s.offset + size piece
  := by
  cases htoken : pattern.token? piece with
  | some token =>
    obtain ⟨kind, value⟩ := token
    exact ⟨_, _, Moves.token hfirst htoken, rfl, rfl⟩
  | none =>
    refine ⟨_, _, Moves.space hfirst ?_, rfl, rfl⟩
    cases pattern <;> simp_all [Pattern.token?]

theorem takes_of_first? (hfirst : Pattern.first? s.rest = some (pattern, piece, rest))
    (hnewline : pattern ≠ .newline) :
  (∃ found next, s.step = .ok (found, next)) ∧ s.Takes piece rest
  := by
  obtain ⟨found, next, hmove, hrest, hoffset⟩ := exists_moves_of_first? hfirst hnewline
  have hstep := step_eq_ok_iff.mpr hmove
  use ⟨found, next, hstep⟩
  constructor
  · apply (Pattern.append_of_first? hfirst).1
  · intro _ _ h
    cases hstep.symm.trans h
    use hrest
  · intro _ h
    cases hstep.symm.trans h

/-- At a newline the indentation of the next line comes off as well. -/
theorem takes_of_newline (hfirst : Pattern.first? s.rest = some (.newline, piece, rest)) :
  s.Takes (piece ++ rest.takeWhile isIndentation) (rest.dropWhile isIndentation)
  := by
  have hindented : (s.endLogicalLine.2.skip piece rest).indented.offset
      = s.offset + size (piece ++ rest.takeWhile isIndentation) := by
    rw [size_append, ← Nat.add_assoc, ← offset_endLogicalLine s]
    rfl
  constructor
  · rw [List.append_assoc, List.takeWhile_append_dropWhile]
    apply (Pattern.append_of_first? hfirst).1
  · intro found next h
    cases step_eq_ok_iff.mp h with
    | token hother htoken =>
      cases hfirst.symm.trans hother
      cases htoken
    | space hother hspace =>
      cases hfirst.symm.trans hother
      simp at hspace
    | newline hother hmarks =>
      cases hfirst.symm.trans hother
      rw [hmarks.rest_eq, hmarks.offset_eq, hindented]
      use rfl
  · intro fault h
    rcases fault_of_step h with ⟨hnone, -⟩ | ⟨_, _, hother, hindent⟩
    · cases hfirst.symm.trans hnone
    · cases hfirst.symm.trans hother
      rw [(fault_of_indentLine hindent).2, hindented]

/-- At a symbol the lexeme has the text that the table has for it, which is what the pattern matches. -/
theorem step_of_symbol {sought value : List Char} {kind : Terminal}
    (hfirst : Pattern.first? s.rest = some (.symbol sought kind value, piece, rest)) :
  value = piece ∧ String.ofList value ∈ kind.spellings
    ∧ ∃ next, s.step = .ok ([⟨kind, String.ofList value, s.offset, s.offset + size value⟩], next)
  := by
  have hsymbols : ∀ entry ∈ Pattern.symbols, entry.2.2 ∈ entry.2.1.spellings := by decide
  obtain ⟨_, name, hname, -, rfl⟩ := Pattern.exists_of_symbol_mem (Pattern.split?_of_first? hfirst).1
  obtain rfl : name.toList = piece := Pattern.passed_of_first? hfirst
  use rfl
  constructor
  · rw [String.ofList_toList]
    apply hsymbols _ hname
  · exact ⟨_, step_eq_ok_iff.mpr (Moves.token hfirst rfl)⟩

/-- Where a pattern of the table matches, the first one that does is the one that matches most, and no other
one matches as much.  Its step takes just what it matches, and the indentation of the next line after a
newline.  The text that the table has for the lexeme of a symbol is what the symbol matches. -/
theorem exists_prevails_of_matches (s : Scan) (q : Pattern) (other : List Char) (hq : q ∈ Pattern.table)
    (hother : other <+: s.rest) (hmatch : q.Matches other) :
  other ≠ []
  ∧ (∀ sought kind value, q = .symbol sought kind value → value = other)
  ∧ ∃ pattern piece rest, Pattern.first? s.rest = some (pattern, piece, rest)
    ∧ pattern.Prevails s.rest piece rest
    ∧ (pattern ≠ .newline → (∃ found next, s.step = .ok (found, next)) ∧ s.Takes piece rest)
    ∧ (pattern = .newline →
        s.Takes (piece ++ rest.takeWhile isIndentation) (rest.dropWhile isIndentation))
    ∧ ∀ sought kind value, pattern = .symbol sought kind value →
        value = piece ∧ String.ofList value ∈ kind.spellings
        ∧ ∃ next, s.step = .ok ([⟨kind, String.ofList value, s.offset, s.offset + size value⟩], next)
  := by
  have hvalue (sought : List Char) (kind : Terminal) (value : List Char)
      (hsymbol : q = .symbol sought kind value) : value = other := by
    subst hsymbol
    rw [Pattern.value_eq_of_symbol_mem hq]
    apply hmatch.symm
  use Pattern.ne_nil_of_matches hq hmatch, hvalue
  obtain ⟨pattern, piece, rest, hfirst⟩ := Pattern.exists_first?_of_matches hq hother hmatch
  use pattern, piece, rest, hfirst, Pattern.prevails_of_first? hfirst
  refine ⟨takes_of_first? hfirst, ?_, ?_⟩
  · rintro rfl
    apply takes_of_newline hfirst
  · rintro sought kind value rfl
    apply step_of_symbol hfirst

end Scan

/-- A scan at a symbol that starts with a shorter one, before a line that is indented. -/
def splitComparison : Scan := ⟨"<=\n y".toList, 1, some .identifier, []⟩

/-- The longer symbol prevails, and after it the newline comes off with the indentation. -/
theorem exists_prevails_splitComparison :
  Pattern.symbol ['<'] .less ['<'] ∈ Pattern.table
  ∧ ['<'] <+: splitComparison.rest
  ∧ (Pattern.symbol ['<'] .less ['<']).Matches ['<']
  ∧ (Pattern.symbol ['<', '='] .lessEqual ['<', '=']).Prevails splitComparison.rest ['<', '='] ['\n', ' ', 'y']
  ∧ splitComparison.Takes ['<', '='] ['\n', ' ', 'y']
  ∧ ∃ next, splitComparison.step = .ok ([⟨.lessEqual, "<=", 1, 3⟩], next)
    ∧ Pattern.newline.Prevails next.rest ['\n'] [' ', 'y']
    ∧ next.Takes ['\n', ' '] ['y']
  := by
  have hless : Pattern.symbol ['<'] .less ['<'] ∈ Pattern.table := by decide
  have hprefix : ['<'] <+: splitComparison.rest := ⟨_, rfl⟩
  obtain ⟨-, -, pattern, piece, rest, hfirst, hprevails, htakes, -, hsymbol⟩ :=
    Scan.exists_prevails_of_matches splitComparison _ _ hless hprefix rfl
  have hcomparison : Pattern.first? splitComparison.rest
      = some (.symbol ['<', '='] .lessEqual ['<', '='], ['<', '='], ['\n', ' ', 'y']) := by
    decide +kernel
  cases hfirst.symm.trans hcomparison
  use hless, hprefix, rfl, hprevails, (htakes (by simp)).2
  obtain ⟨-, -, next, hstep⟩ := hsymbol _ _ _ rfl
  use next, hstep
  obtain ⟨hrest, -⟩ := (htakes (by simp)).2.leaves _ _ hstep
  have hnewline : ['\n'] <+: next.rest := by
    rw [hrest]
    apply List.prefix_append ['\n']
  obtain ⟨-, -, pattern, piece, rest, hfirst, hprevails, -, hindented, -⟩ :=
    Scan.exists_prevails_of_matches next .newline _ (by decide) hnewline rfl
  rw [hrest, Pattern.first?_newline] at hfirst
  cases hfirst
  exact ⟨hprevails, hindented rfl⟩

/-- A line that is indented, after one that is not. -/
def indentedLine : String := "x\n y"

/-- At the newline the step takes the indentation too: the mark of the block is past it. -/
theorem not_takes_indentedLine :
  ∃ s, Scan.Reached indentedLine.toList s
    ∧ Pattern.first? s.rest = some (.newline, ['\n'], [' ', 'y'])
    ∧ s.step = .ok ([⟨.endOfLine, "", 1, 1⟩, ⟨.indent, "", 3, 3⟩], ⟨['y'], 3, some .indent, [1]⟩)
    ∧ ¬ s.Takes ['\n'] [' ', 'y']
  := by
  have hstart : (Scan.ofText indentedLine.toList).Measures [] (Scan.ofText indentedLine.toList) :=
    Scan.indentLine_eq_ok_iff.mp rfl
  have hword : (Scan.ofText indentedLine.toList).Moves [⟨.identifier, "x", 0, 1⟩]
      ⟨['\n', ' ', 'y'], 1, some .identifier, []⟩ :=
    Scan.step_eq_ok_iff.mp rfl
  have hstep : Scan.step ⟨['\n', ' ', 'y'], 1, some .identifier, []⟩
      = .ok ([⟨.endOfLine, "", 1, 1⟩, ⟨.indent, "", 3, 3⟩], ⟨['y'], 3, some .indent, [1]⟩) :=
    rfl
  refine ⟨_, .move (.indented hstart) hword, Pattern.first?_newline _, hstep, ?_⟩
  intro htakes
  cases (htakes.leaves _ _ hstep).1

end LayoutGrammar
