import LayoutGrammar.Proofs.Scan.Spelling

/-!
# Languages of patterns

Which texts a pattern matches as a whole, apart from how it is looked for in a longer text
(`Pattern.Matches`).  A pattern splits off the longest initial piece that it matches, if there is one
(`Pattern.split?_eq_some_iff`, `Pattern.split?_eq_none_iff`), and what comes first in a text is split off by
the first pattern of the table that matches any initial piece (`Pattern.first?_eq_some_iff`).  So it does not
depend on what is cut off at the end of the text, as long as it is kept itself (`Pattern.first?_of_append`).
-/

namespace LayoutGrammar
namespace Pattern

/-! ## Languages -/

/-- Whether a pattern matches a text as a whole. -/
def Matches : Pattern → List Char → Prop
  | word, text => isName text = true
  | number, text => IsNumeral text
  | newline, text => text = ['\n']
  | blanks, text => text ≠ [] ∧ ∀ c ∈ text, c = ' ' ∨ c = '\t' ∨ c = '\r'
  | literal, text => ∃ inner, IsInside inner ∧ text = '"' :: inner ++ ['"']
  | comment, text => ∃ body, '\n' ∉ body ∧ text = '/' :: '/' :: body
  | symbol sought _ _, text => text = sought

/-- Whether a piece is the longest one at the start of a text that a pattern matches. -/
structure Consumes (pattern : Pattern) (text piece rest : List Char) : Prop where
  /-- The piece and the rest make up the text. -/
  append_eq : piece ++ rest = text
  /-- The pattern matches the piece. -/
  isMatch : pattern.Matches piece
  /-- It matches no longer one. -/
  longest : ∀ other, other <+: text → pattern.Matches other → other.length ≤ piece.length

variable {pattern : Pattern} {text piece rest : List Char}

/-- There is only one longest piece. -/
theorem Consumes.unique {piece' rest' : List Char} (h : pattern.Consumes text piece rest)
    (h' : pattern.Consumes text piece' rest') :
  piece = piece' ∧ rest = rest'
  := by
  have hpiece : piece <+: text := ⟨rest, h.append_eq⟩
  have hpiece' : piece' <+: text := ⟨rest', h'.append_eq⟩
  have hle := h.longest piece' hpiece' h'.isMatch
  have hle' := h'.longest piece hpiece h.isMatch
  obtain rfl := (List.prefix_of_prefix_length_le hpiece hpiece' hle').eq_of_length (by omega)
  use rfl
  apply List.append_cancel_left (h.append_eq.trans h'.append_eq.symm)

/-! ## Longest pieces -/

section

variable {isIn : Char → Bool} {other : List Char}

/-- The characters of a class at the start of a text are the longest piece of such characters. -/
theorem length_le_takeWhile (hother : other <+: text) (hin : ∀ c ∈ other, isIn c = true) :
  other.length ≤ (text.takeWhile isIn).length
  := by
  obtain ⟨more, rfl⟩ := hother
  rw [List.takeWhile_append_of_pos hin, List.length_append]
  omega

theorem forall_of_run? (h : run? isIn text = some (piece, rest)) :
  ∀ c ∈ piece, isIn c = true
  := by
  unfold run? at h
  split at h
  next => cases h
  next =>
    cases h
    intro c hc
    apply List.mem_takeWhile_imp hc

theorem run?_of_ne_nil (h : text.takeWhile isIn ≠ []) :
  run? isIn text = some (text.takeWhile isIn, text.dropWhile isIn)
  := by
  unfold run?
  split
  next hnil => contradiction
  next => rfl

end

theorem isNumeral_fraction {digits : List Char} (hdigits : IsDigits digits) (text : List Char) :
  IsNumeral (digits ++ (fraction text).1)
  := by
  unfold fraction
  split
  next text =>
    split
    next more rest hrun =>
      apply IsNumeral.fraction hdigits ⟨(append_of_run? hrun).2, forall_of_run? hrun⟩
    next => simpa using IsNumeral.whole hdigits
  next => simpa using IsNumeral.whole hdigits

/-- A numeral at the start of a text goes no further than the digits and the fraction there. -/
theorem IsNumeral.length_le {other : List Char} (h : IsNumeral other) (hother : other <+: text) :
  other.length ≤ (text.takeWhile Char.isDigit ++ (fraction (text.dropWhile Char.isDigit)).1).length
  := by
  cases h with
  | whole hdigits =>
    have hle := length_le_takeWhile hother hdigits.2
    rw [List.length_append]
    omega
  | @fraction digits more hdigits hmore =>
    obtain ⟨others, rfl⟩ := hother
    rw [List.append_assoc, List.takeWhile_append_of_pos hdigits.2, List.dropWhile_append_of_pos hdigits.2]
    have hle : more.length ≤ ((more ++ others).takeWhile Char.isDigit).length :=
      length_le_takeWhile (List.prefix_append more others) hmore.2
    have hne : (more ++ others).takeWhile Char.isDigit ≠ [] := by
      apply List.ne_nil_of_length_pos
      have := List.length_pos_iff.mpr hmore.1
      omega
    have hpoint : Char.isDigit '.' = false := rfl
    simpa [fraction, hpoint, run?_of_ne_nil hne] using hle

/-! ## What patterns split off -/

/-- A pattern matches what it splits off. -/
theorem matches_of_split? (h : pattern.split? text = some (piece, rest)) :
  pattern.Matches piece
  := by
  cases pattern with
  | word =>
    cases text with
    | nil => cases h
    | cons c text =>
      simp only [split?] at h
      split at h
      next hc =>
        cases h
        have hall : ∀ d ∈ text.takeWhile isWordRest, isWordRest d = true :=
          fun d hd => List.mem_takeWhile_imp hd
        simpa [Matches, isName, isWordStart, isWordRest] using And.intro hc hall
      next => cases h
  | number =>
    obtain ⟨⟨digits, others⟩, hrun, heq⟩ := Option.map_eq_some_iff.mp h
    cases heq
    apply isNumeral_fraction ⟨(append_of_run? hrun).2, forall_of_run? hrun⟩
  | newline =>
    unfold split? at h
    split at h <;> simp_all [Matches]
  | blanks =>
    use (append_of_run? h).2
    intro c hc
    simpa [isSpacing, or_assoc] using forall_of_run? h c hc
  | literal =>
    unfold split? at h
    split at h <;> try contradiction
    obtain ⟨⟨inner, others⟩, hclosing, heq⟩ := Option.map_eq_some_iff.mp h
    cases heq
    obtain ⟨inner, hinner, rfl⟩ := exists_isInside hclosing
    use inner, hinner
    rfl
  | comment =>
    unfold split? at h
    split at h <;> try contradiction
    next text _ =>
      cases h
      use text.takeWhile (· ≠ '\n')
      constructor
      · intro hmem
        simpa using List.mem_takeWhile_imp hmem
      · rfl
  | symbol sought kind value =>
    simp only [split?] at h
    split at h <;> cases h
    rfl

/-- A pattern that matches an initial piece of a text splits off one that is at least as long. -/
theorem exists_split?_of_matches {other : List Char} (hother : other <+: text)
    (h : pattern.Matches other) :
  ∃ piece rest, pattern.split? text = some (piece, rest) ∧ other.length ≤ piece.length
  := by
  cases pattern with
  | word =>
    obtain ⟨more, rfl⟩ := hother
    cases other with
    | nil => cases h
    | cons c other =>
      simp only [Matches, isName, Bool.and_eq_true, List.all_eq_true] at h
      have hstart : isWordStart c = true := h.1
      have hle : other.length ≤ ((other ++ more).takeWhile isWordRest).length :=
        length_le_takeWhile (List.prefix_append other more) h.2
      use c :: (other ++ more).takeWhile isWordRest, (other ++ more).dropWhile isWordRest
      simp [split?, hstart, hle]
  | number =>
    have hne : text.takeWhile Char.isDigit ≠ [] := by
      obtain ⟨c, others, rfl, hc⟩ := IsNumeral.exists_cons h
      obtain ⟨more, rfl⟩ := hother
      simp [hc]
    use text.takeWhile Char.isDigit ++ (fraction (text.dropWhile Char.isDigit)).1,
      (fraction (text.dropWhile Char.isDigit)).2
    constructor
    · simp [split?, run?_of_ne_nil hne]
    · apply IsNumeral.length_le h hother
  | newline =>
    obtain ⟨more, rfl⟩ := hother
    obtain rfl : other = ['\n'] := h
    use ['\n'], more, rfl
  | blanks =>
    obtain ⟨hne, hspacing⟩ := h
    have hin : ∀ c ∈ other, isSpacing c = true := by
      simpa [isSpacing, or_assoc] using hspacing
    have hle := length_le_takeWhile hother hin
    have hrun : text.takeWhile isSpacing ≠ [] := by
      apply List.ne_nil_of_length_pos
      have := List.length_pos_iff.mpr hne
      omega
    use text.takeWhile isSpacing, text.dropWhile isSpacing, run?_of_ne_nil hrun
  | literal =>
    obtain ⟨inner, hinner, rfl⟩ := h
    obtain ⟨more, rfl⟩ := hother
    use '"' :: inner ++ ['"'], more
    simp [split?, closing?_of_isInside hinner]
  | comment =>
    obtain ⟨body, hbody, rfl⟩ := h
    obtain ⟨more, rfl⟩ := hother
    have hin : ∀ c ∈ body, decide (c ≠ '\n') = true := by
      intro c hc
      rw [decide_eq_true_eq]
      rintro rfl
      contradiction
    have hle := length_le_takeWhile (List.prefix_append body more) hin
    refine ⟨_, _, rfl, ?_⟩
    simpa using hle
  | symbol sought kind value =>
    obtain rfl : other = sought := h
    use other, text.drop other.length
    simp [split?, List.isPrefixOf_iff_prefix.mpr hother]

variable (hpattern : pattern ∈ table)

include hpattern in
theorem consumes_of_split? (h : pattern.split? text = some (piece, rest)) :
  pattern.Consumes text piece rest
  where
  append_eq := (append_of_split? hpattern h).1
  isMatch := matches_of_split? h
  longest other hother hmatch := by
    obtain ⟨_, _, hsplit, hle⟩ := exists_split?_of_matches hother hmatch
    cases h.symm.trans hsplit
    apply hle

include hpattern in
/-- A pattern splits off the longest initial piece that it matches. -/
theorem split?_eq_some_iff :
  pattern.split? text = some (piece, rest) ↔ pattern.Consumes text piece rest
  := by
  use consumes_of_split? hpattern
  intro h
  obtain ⟨piece', rest', hsplit, -⟩ := exists_split?_of_matches ⟨rest, h.append_eq⟩ h.isMatch
  obtain ⟨rfl, rfl⟩ := h.unique (consumes_of_split? hpattern hsplit)
  apply hsplit

include hpattern in
/-- It splits off nothing when it matches no initial piece. -/
theorem split?_eq_none_iff :
  pattern.split? text = none ↔ ∀ other, other <+: text → ¬ pattern.Matches other
  := by
  constructor
  · intro h other hother hmatch
    obtain ⟨_, _, hsplit, -⟩ := exists_split?_of_matches hother hmatch
    rw [h] at hsplit
    cases hsplit
  · intro h
    rw [Option.eq_none_iff_forall_ne_some]
    rintro ⟨piece, rest⟩ hsplit
    have hconsumes := consumes_of_split? hpattern hsplit
    apply h piece ⟨rest, hconsumes.append_eq⟩ hconsumes.isMatch

/-! ## What comes first -/

/-- What comes first in a text is the longest piece of the first pattern that matches any piece there. -/
theorem first?_eq_some_iff :
  first? text = some (pattern, piece, rest)
    ↔ pattern.Consumes text piece rest ∧ ∃ before after, table = before ++ pattern :: after
      ∧ ∀ q ∈ before, ∀ other, other <+: text → ¬ q.Matches other
  := by
  have hmem {before after : List Pattern} (htable : table = before ++ pattern :: after) : pattern ∈ table := by
    simp [htable]
  have hmem' {before after : List Pattern} (htable : table = before ++ pattern :: after) {q : Pattern}
      (hq : q ∈ before) : q ∈ table := by
    simp [htable, hq]
  rw [first?, List.findSome?_eq_some_iff]
  constructor
  · rintro ⟨before, p, after, htable, hfound, hbefore⟩
    obtain ⟨_, hsplit, heq⟩ := Option.map_eq_some_iff.mp hfound
    cases heq
    use consumes_of_split? (hmem htable) hsplit, before, after, htable
    intro q hq
    apply (split?_eq_none_iff (hmem' htable hq)).mp
    simpa using hbefore q hq
  · rintro ⟨hconsumes, before, after, htable, hbefore⟩
    use before, pattern, after, htable
    rw [(split?_eq_some_iff (hmem htable)).mpr hconsumes]
    use rfl
    intro q hq
    rw [(split?_eq_none_iff (hmem' htable hq)).mpr (hbefore q hq)]
    rfl

theorem first?_eq_none_iff :
  first? text = none ↔ ∀ q ∈ table, ∀ other, other <+: text → ¬ q.Matches other
  := by
  rw [first?, List.findSome?_eq_none_iff]
  apply forall₂_congr
  intro q hq
  rw [Option.map_eq_none_iff, split?_eq_none_iff hq]

/-! ## Shorter texts -/

/-- A longest piece is so when something after it is cut off. -/
theorem Consumes.of_append {beyond : List Char}
    (h : pattern.Consumes (text ++ beyond) piece (rest ++ beyond)) :
  pattern.Consumes text piece rest
  where
  append_eq := by
    have happend := h.append_eq
    rw [← List.append_assoc] at happend
    apply List.append_cancel_right happend
  isMatch := h.isMatch
  longest other hother := h.longest other (hother.trans (List.prefix_append text beyond))

/-- What comes first in a text comes first when something after it is cut off. -/
theorem first?_of_append {beyond : List Char}
    (h : first? (text ++ beyond) = some (pattern, piece, rest ++ beyond)) :
  first? text = some (pattern, piece, rest)
  := by
  obtain ⟨hconsumes, before, after, htable, hbefore⟩ := first?_eq_some_iff.mp h
  apply first?_eq_some_iff.mpr
  use hconsumes.of_append, before, after, htable
  intro q hq other hother
  apply hbefore q hq other (hother.trans (List.prefix_append text beyond))

/-! ## Longer texts -/

theorem isWordRest_of_isName (h : isName text = true) :
  ∀ c ∈ text, isWordRest c = true
  := by
  cases text with
  | nil => simp
  | cons c text =>
    simp only [isName, Bool.and_eq_true, List.all_eq_true] at h
    apply List.forall_mem_cons.mpr ⟨?_, h.2⟩
    rcases Bool.or_eq_true_iff.mp h.1 with halpha | hunderscore
    · simp [Char.isAlphanum, halpha]
    · simp [hunderscore]

/-- A numeral consists of digits and points. -/
theorem isDigit_of_isNumeral (h : IsNumeral text) :
  ∀ c ∈ text, (c.isDigit || c = '.') = true
  := by
  have hdigit {digits : List Char} (hdigits : IsDigits digits) :
      ∀ c ∈ digits, (c.isDigit || c = '.') = true := by
    intro c hc
    rw [hdigits.2 c hc, Bool.true_or]
  cases h with
  | whole hdigits => apply hdigit hdigits
  | fraction hdigits hmore =>
    apply List.forall_mem_append.mpr ⟨hdigit hdigits, List.forall_mem_cons.mpr ⟨rfl, hdigit hmore⟩⟩

/-- Words, numbers and symbols hold neither spacing nor newlines. -/
theorem not_mem_of_matches (hpattern : pattern ∈ table) (h : pattern.Matches piece)
    (hplain : pattern ∉ [newline, blanks, literal, comment]) {c : Char}
    (hc : c ∈ [' ', '\t', '\r', '\n']) :
  c ∉ piece
  := by
  intro hmem
  cases pattern with
  | newline | blanks | literal | comment => simp at hplain
  | word =>
    have hno : isWordRest c = false := by
      simp only [List.mem_cons, List.not_mem_nil, or_false] at hc
      rcases hc with rfl | rfl | rfl | rfl <;> rfl
    cases hno.symm.trans (isWordRest_of_isName h c hmem)
  | number =>
    have hno : (c.isDigit || c = '.') = false := by
      simp only [List.mem_cons, List.not_mem_nil, or_false] at hc
      rcases hc with rfl | rfl | rfl | rfl <;> rfl
    cases hno.symm.trans (isDigit_of_isNumeral h c hmem)
  | symbol sought kind value =>
    have hall : ∀ entry ∈ symbols, entry.1.toList.all (· ∉ [' ', '\t', '\r', '\n']) = true := by decide
    obtain ⟨name, _, hname, rfl, -⟩ := exists_of_symbol_mem hpattern
    obtain rfl : piece = name.toList := h
    have hno := List.all_eq_true.mp (hall _ hname) c hmem
    apply of_decide_eq_true hno hc

/-- Only newlines and literals have newlines. -/
theorem newline_not_mem_of_matches (hpattern : pattern ∈ table) (h : pattern.Matches piece)
    (hnewline : pattern ≠ newline) (hliteral : pattern ≠ literal) :
  '\n' ∉ piece
  := by
  by_cases hplain : pattern ∈ [newline, blanks, literal, comment]
  · simp only [List.mem_cons, List.not_mem_nil, or_false, hnewline, hliteral, false_or] at hplain
    obtain rfl | rfl := hplain
    · intro hmem
      simpa using h.2 '\n' hmem
    · obtain ⟨body, hbody, rfl⟩ := h
      simpa using hbody
  · apply not_mem_of_matches hpattern h hplain (by simp)

theorem first?_quote (text : List Char) :
  first? ('"' :: text) = (closing? text).map fun found => (.literal, '"' :: found.1, found.2)
  := by
  cases h : closing? text <;> simp [first?, table, symbols, split?, run?, isWordStart, isSpacing, h]

/-- A literal that is closed is so whatever comes after it. -/
theorem closing?_append (others : List Char) (h : closing? text = some (piece, rest)) :
  closing? (text ++ others) = some (piece, rest ++ others)
  := by
  obtain ⟨inner, hinner, rfl, rfl⟩ := closing?_eq_some_iff.mp h
  simpa using closing?_of_isInside hinner (rest ++ others)

/-- What comes first in a text comes first in a longer one, when no pattern matches more there.  A literal
that is closed is decided by itself. -/
theorem first?_append_of_forall {others : List Char} (h : first? text = some (pattern, piece, rest))
    (hpatterns : text.head? ≠ some '"' → ∀ q ∈ table, ∀ other, other <+: text ++ others → q.Matches other →
      (∃ shorter, shorter <+: text ∧ q.Matches shorter) ∧ (q = pattern → other <+: text)) :
  first? (text ++ others) = some (pattern, piece, rest ++ others)
  := by
  by_cases hquote : text.head? = some '"'
  · obtain ⟨text, rfl⟩ := List.head?_eq_some_iff.mp hquote
    rw [first?_quote] at h
    obtain ⟨_, hclosing, heq⟩ := Option.map_eq_some_iff.mp h
    cases heq
    rw [List.cons_append, first?_quote, closing?_append others hclosing]
    rfl
  · obtain ⟨hconsumes, before, after, htable, hbefore⟩ := first?_eq_some_iff.mp h
    apply first?_eq_some_iff.mpr
    constructor
    · use by rw [← List.append_assoc, hconsumes.append_eq], hconsumes.isMatch
      intro other hother hmatch
      have hpattern : pattern ∈ table := by simp [htable]
      apply hconsumes.longest other _ hmatch
      apply (hpatterns hquote pattern hpattern other hother hmatch).2 rfl
    · use before, after, htable
      intro q hq other hother hmatch
      have hq' : q ∈ table := by simp [htable, hq]
      obtain ⟨⟨shorter, hshorter, hshort⟩, -⟩ := hpatterns hquote q hq' other hother hmatch
      apply hbefore q hq shorter hshorter hshort

end Pattern
end LayoutGrammar
