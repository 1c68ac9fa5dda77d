import LayoutGrammar.Proofs.Scan.Course

/-!
# Pieces of a text

What the first pattern that matches tells of a text: a newline is a piece of its own, a comment goes on to
the end of its line, and a piece that stands for a token starts with neither a newline nor spacing.  The
kinds of such tokens are those that are not marks (`Terminal.isMark`).  A line that is not bare has a token
after its indentation (`Scan.IsAtToken`), and after a token its end is marked.
-/

namespace LayoutGrammar

/-- The kinds of the marks, which take no text: the ends of lines, of blocks and of the text, and the starts
of blocks. -/
def Terminal.isMark : Terminal → Bool
  | eof | endOfLine | indent | dedent => true
  | _ => false

/-- No word is reserved for a mark or a literal. -/
theorem Terminal.isMark_of_ofReserved? {word : String} {kind : Terminal}
    (h : ofReserved? word = some kind) :
  kind.isMark = false ∧ kind ≠ .string
  := by
  have hwords : ∀ reserved ∈ reservedWords, reserved.2.isMark = false ∧ reserved.2 ≠ .string := by
    decide
  obtain ⟨before, after, hsplit, -⟩ := List.lookup_eq_some_iff.mp h
  apply hwords (word, kind)
  rw [hsplit]
  simp

namespace Pattern

/-! ## Newlines, spacing and comments -/

theorem first?_newline (rest : List Char) :
  first? ('\n' :: rest) = some (.newline, ['\n'], rest)
  := by
  rfl

theorem first?_of_newline {text piece rest : List Char}
    (h : first? text = some (.newline, piece, rest)) :
  piece = ['\n'] ∧ text = '\n' :: rest
  := by
  obtain ⟨-, hsplit⟩ := split?_of_first? h
  unfold split? at hsplit
  split at hsplit <;> simp_all

/-- Spacing between tokens is a stretch of spaces, tabs and carriage returns. -/
theorem isSpacing_of_blanks {text piece rest : List Char}
    (h : first? text = some (.blanks, piece, rest)) :
  ∀ c ∈ piece, isSpacing c = true
  := by
  obtain ⟨-, hsplit⟩ := split?_of_first? h
  simp only [split?, run?] at hsplit
  split at hsplit
  next => cases hsplit
  next hrun =>
    cases hsplit
    intro c hc
    apply List.mem_takeWhile_imp hc

/-- It goes on as far as there is any. -/
theorem not_isSpacing_of_blanks {text piece rest : List Char}
    (h : first? text = some (.blanks, piece, rest)) :
  ∀ c ∈ rest.head?, isSpacing c = false
  := by
  obtain ⟨-, hsplit⟩ := split?_of_first? h
  simp only [split?, run?] at hsplit
  split at hsplit
  next => cases hsplit
  next hrun =>
    cases hsplit
    apply Text.stop_dropWhile

/-- A comment goes on to the end of its line. -/
theorem exists_of_comment {text piece rest : List Char} (h : first? text = some (.comment, piece, rest)) :
  ∃ body, piece = '/' :: '/' :: body ∧ '\n' ∉ body ∧ ∀ c ∈ rest.head?, c = '\n'
  := by
  obtain ⟨-, hsplit⟩ := split?_of_first? h
  unfold split? at hsplit
  split at hsplit <;> try contradiction
  next text _ =>
    cases hsplit
    use text.takeWhile (· ≠ '\n'), rfl
    constructor
    · intro hmem
      simpa using List.mem_takeWhile_imp hmem
    · intro c hc
      simpa using Text.stop_dropWhile _ text c hc

/-! ## Literals -/

/-- What may stand between the quotes of a literal. -/
inductive IsInside : List Char → Prop
  /-- Nothing at all. -/
  | nil : IsInside []
  /-- A character that is neither a quote nor a backslash. -/
  | plain {c : Char} {text : List Char} (hquote : c ≠ '"') (hslash : c ≠ '\\') (more : IsInside text) :
      IsInside (c :: text)
  /-- A backslash and any character but a newline. -/
  | escape {c : Char} {text : List Char} (hnewline : c ≠ '\n') (more : IsInside text) :
      IsInside ('\\' :: c :: text)

theorem closing?_cons {c : Char} (hquote : c ≠ '"') (hslash : c ≠ '\\') (text : List Char) :
  closing? (c :: text) = (closing? text).map fun found => (c :: found.1, found.2)
  := by
  rw [closing?.eq_def]
  split <;> simp_all

/-- After a backslash a literal goes on with any character but a newline. -/
theorem closing?_backslash {c : Char} (hc : c ≠ '\n') (text : List Char) :
  closing? ('\\' :: c :: text) = (closing? text).map fun found => ('\\' :: c :: found.1, found.2)
  := by
  simp [closing?, hc]

/-- A literal is closed by the first quote that is not inside it. -/
theorem closing?_of_isInside {inner : List Char} (h : IsInside inner) (rest : List Char) :
  closing? (inner ++ '"' :: rest) = some (inner ++ ['"'], rest)
  := by
  induction h with
  | nil => rfl
  | plain hquote hslash _ ih => simp [closing?_cons hquote hslash, ih]
  | escape hnewline _ ih => simp [closing?_backslash hnewline, ih]

theorem exists_isInside {text piece rest : List Char} (h : closing? text = some (piece, rest)) :
  ∃ inner, IsInside inner ∧ piece = inner ++ ['"']
  := by
  fun_induction closing? text generalizing piece with
  | case1 | case3 | case5 => cases h
  | case2 =>
    cases h
    use [], .nil
    rfl
  | case4 c text hc ih =>
    obtain ⟨⟨last, rest⟩, hlast, hpiece⟩ := Option.map_eq_some_iff.mp h
    obtain ⟨rfl, rfl⟩ := by simpa using hpiece
    obtain ⟨inner, hinner, rfl⟩ := ih hlast
    use '\\' :: c :: inner, .escape hc hinner
    rfl
  | case6 c text hquote hslash hlast ih =>
    obtain ⟨⟨last, rest⟩, hclosing, hpiece⟩ := Option.map_eq_some_iff.mp h
    obtain ⟨rfl, rfl⟩ := by simpa using hpiece
    obtain ⟨inner, hinner, rfl⟩ := ih hclosing
    have hne : c ≠ '\\' := by
      rintro rfl
      cases text with
      | nil => exact hlast rfl rfl
      | cons d text => exact hslash d text rfl rfl
    use c :: inner, .plain hquote hne hinner
    rfl

/-- A literal goes up to the first quote that is not inside it. -/
theorem closing?_eq_some_iff {text piece rest : List Char} :
  closing? text = some (piece, rest)
    ↔ ∃ inner, IsInside inner ∧ piece = inner ++ ['"'] ∧ text = inner ++ '"' :: rest
  := by
  constructor
  · intro h
    obtain ⟨inner, hinner, rfl⟩ := exists_isInside h
    use inner, hinner, rfl
    simp [← append_of_closing? h]
  · rintro ⟨inner, hinner, rfl, rfl⟩
    apply closing?_of_isInside hinner

/-! ## Pieces that stand for tokens -/

theorem exists_of_literal {text piece rest : List Char} (h : split? .literal text = some (piece, rest)) :
  ∃ inner, piece = '"' :: inner ++ ['"']
  := by
  unfold split? at h
  split at h <;> try contradiction
  next text _ =>
    obtain ⟨⟨last, rest⟩, hlast, hpiece⟩ := Option.map_eq_some_iff.mp h
    obtain ⟨rfl, rfl⟩ := by simpa using hpiece
    obtain ⟨inner, -, rfl⟩ := exists_isInside hlast
    use inner
    rfl

/-- No symbol stands for a mark or a literal. -/
theorem isMark_of_mem_table {sought value : List Char} {kind : Terminal}
    (h : symbol sought kind value ∈ table) :
  kind.isMark = false ∧ kind ≠ .string
  := by
  have hsymbols : ∀ entry ∈ symbols, entry.2.1.isMark = false ∧ entry.2.1 ≠ .string := by
    decide
  obtain ⟨_, _, hmem, -⟩ := exists_of_symbol_mem h
  apply hsymbols _ hmem

/-- A token that a piece stands for is no mark; its value is the piece, or the piece is in double quotes. -/
theorem of_token? {pattern : Pattern} {text piece rest value : List Char} {kind : Terminal}
    (hfirst : first? text = some (pattern, piece, rest))
    (htoken : pattern.token? piece = some (kind, value)) :
  kind.isMark = false ∧
    if kind = .string then ∃ inner, piece = '"' :: inner ++ ['"'] else value = piece
  := by
  obtain ⟨htable, hsplit⟩ := split?_of_first? hfirst
  cases pattern with
  | newline | blanks | comment => cases htoken
  | number =>
    cases htoken
    use rfl
    simp
  | literal =>
    cases htoken
    use rfl
    simpa using exists_of_literal hsplit
  | symbol sought kind value =>
    cases htoken
    obtain ⟨hmark, hstring⟩ := isMark_of_mem_table htable
    use hmark
    rw [if_neg hstring, ← passed_of_first? hfirst, passed]
  | word =>
    cases htoken
    cases hreserved : Terminal.ofReserved? (String.ofList piece) with
    | none =>
      use rfl
      simp
    | some kind =>
      obtain ⟨hmark, hstring⟩ := Terminal.isMark_of_ofReserved? hreserved
      use hmark
      simp [hstring]

/-- A text that starts with anything but a newline does not start with one. -/
theorem ne_newline_of_first? {pattern : Pattern} {text piece rest : List Char}
    (hfirst : first? text = some (pattern, piece, rest)) (hpattern : pattern ≠ newline) :
  ∀ c ∈ text.head?, c ≠ '\n'
  := by
  rintro c hc rfl
  obtain ⟨others, rfl⟩ := List.head?_eq_some_iff.mp hc
  rw [first?_newline] at hfirst
  cases hfirst
  contradiction

theorem ne_newline_of_token? {pattern : Pattern} {text piece rest value : List Char} {kind : Terminal}
    (hfirst : first? text = some (pattern, piece, rest))
    (htoken : pattern.token? piece = some (kind, value)) :
  ∀ c ∈ text.head?, c ≠ '\n'
  := by
  apply ne_newline_of_first? hfirst
  rintro rfl
  cases htoken

theorem first?_of_isSpacing {c : Char} (h : isSpacing c = true) (text : List Char) :
  first? (c :: text) = some (.blanks, c :: text.takeWhile isSpacing, text.dropWhile isSpacing)
  := by
  simp only [isSpacing, Bool.or_eq_true, decide_eq_true_eq] at h
  obtain (rfl | rfl) | rfl := h <;> rfl

/-- Spacing goes up to the first character that is not of it. -/
theorem first?_spacing {piece rest : List Char} (hpiece : ∀ c ∈ piece, isSpacing c = true) (hne : piece ≠ [])
    (hrest : ∀ c ∈ rest.head?, isSpacing c = false) :
  first? (piece ++ rest) = some (.blanks, piece, rest)
  := by
  obtain ⟨c, piece, rfl⟩ := List.exists_cons_of_ne_nil hne
  obtain ⟨hc, hmore⟩ := List.forall_mem_cons.mp hpiece
  obtain ⟨htake, hdrop⟩ := Text.span_append hmore hrest
  rw [List.cons_append, first?_of_isSpacing hc, htake, hdrop]

/-- A comment goes up to the end of its line. -/
theorem first?_comment {body rest : List Char} (hbody : '\n' ∉ body) (hrest : ∀ c ∈ rest.head?, c = '\n') :
  first? ('/' :: '/' :: body ++ rest) = some (.comment, '/' :: '/' :: body, rest)
  := by
  have hmore : ∀ c ∈ body, decide (c ≠ '\n') = true := by
    intro c hc
    rw [decide_eq_true_eq]
    rintro rfl
    contradiction
  obtain ⟨htake, hdrop⟩ := Text.span_append hmore
    (show ∀ c ∈ rest.head?, decide (c ≠ '\n') = false by simpa using hrest)
  have hfirst : first? ('/' :: '/' :: (body ++ rest))
      = some (.comment, '/' :: '/' :: (body ++ rest).takeWhile (· ≠ '\n'),
        (body ++ rest).dropWhile (· ≠ '\n')) := rfl
  rw [htake, hdrop] at hfirst
  apply hfirst

/-- A text that starts with a token does not start with spacing. -/
theorem isSpacing_of_token? {pattern : Pattern} {text piece rest value : List Char} {kind : Terminal}
    (hfirst : first? text = some (pattern, piece, rest))
    (htoken : pattern.token? piece = some (kind, value)) :
  ∀ c ∈ text.head?, isSpacing c = false
  := by
  intro c hc
  obtain ⟨others, rfl⟩ := List.head?_eq_some_iff.mp hc
  cases hspacing : isSpacing c with
  | false => rfl
  | true =>
    rw [first?_of_isSpacing hspacing] at hfirst
    cases hfirst
    cases htoken

/-- Whether a line is bare is told by what comes first on it. -/
theorem isBare_iff_of_first? {pattern : Pattern} {text piece rest : List Char}
    (h : first? text = some (pattern, piece, rest)) :
  Scan.isBare text = true ↔ pattern = .newline ∨ pattern = .comment ∨ piece.head? = some '\r'
  := by
  obtain ⟨happend, hne⟩ := append_of_first? h
  unfold Scan.isBare
  split
  next => cases h
  next =>
    cases h
    simp
  next =>
    cases h
    simp [isSpacing]
  next =>
    cases h
    simp
  next hnewline hreturn hcomment =>
    subst happend
    apply iff_of_false (by simp)
    rintro (rfl | rfl | hhead)
    · apply hnewline _ (first?_of_newline h).2
    · obtain ⟨body, rfl, -⟩ := exists_of_comment h
      apply hcomment (body ++ rest) (by simp)
    · obtain ⟨others, rfl⟩ := List.head?_eq_some_iff.mp hhead
      apply hreturn (others ++ rest) (by simp)

/-- A line that starts with a token is not bare. -/
theorem isBare_of_token? {pattern : Pattern} {text piece rest value : List Char} {kind : Terminal}
    (hfirst : first? text = some (pattern, piece, rest))
    (htoken : pattern.token? piece = some (kind, value)) :
  Scan.isBare text = false
  := by
  rw [← Bool.not_eq_true, isBare_iff_of_first? hfirst]
  rintro (rfl | rfl | hreturn)
  · cases htoken
  · cases htoken
  · have hspacing := isSpacing_of_token? hfirst htoken
    obtain ⟨others, rfl⟩ := List.head?_eq_some_iff.mp hreturn
    rw [← (append_of_first? hfirst).1] at hspacing
    cases hspacing '\r' rfl

/-- What comes first on a line, after its indentation, stands for a token, unless the line is bare. -/
theorem exists_token?_of_isBare {pattern : Pattern} {text piece rest : List Char}
    (hfirst : first? text = some (pattern, piece, rest)) (hbare : Scan.isBare text = false)
    (hindented : ∀ c ∈ text.head?, Scan.isIndentation c = false) :
  ∃ kind value, pattern.token? piece = some (kind, value)
  := by
  rw [← Bool.not_eq_true, isBare_iff_of_first? hfirst, not_or, not_or] at hbare
  cases pattern with
  | word | number | literal | symbol => simp [token?]
  | newline | comment => simp at hbare
  | blanks =>
    have hspacing := isSpacing_of_blanks hfirst
    obtain ⟨rfl, hne⟩ := append_of_first? hfirst
    obtain ⟨c, others, rfl⟩ := List.exists_cons_of_ne_nil hne
    have hc := hspacing c List.mem_cons_self
    have hno := hindented c rfl
    simp only [isSpacing, Scan.isIndentation, Bool.or_eq_true, Bool.or_eq_false_iff, decide_eq_true_eq,
      decide_eq_false_iff_not] at hc hno
    obtain rfl : c = '\r' := by simpa [hno] using hc
    simp at hbare

end Pattern

namespace Scan

variable {s : Scan}

/-! ## The front of a line -/

/-- Whether a line is at its first token: it is not bare and has no indentation. -/
structure IsAtToken (rest : List Char) : Prop where
  /-- The line is not bare. -/
  isBare_eq : isBare rest = false
  /-- It has no indentation. -/
  not_indented : ∀ c ∈ rest.head?, isIndentation c = false

/-- A line is bare unless something is there that is neither a newline nor a carriage return nor a comment. -/
theorem isBare_eq_false_iff {text : List Char} :
  isBare text = false
    ↔ text ≠ [] ∧ (∀ c ∈ text.head?, c ≠ '\n' ∧ c ≠ '\r') ∧ ¬ ['/', '/'] <+: text
  := by
  unfold isBare
  split
  next => simp
  next => simp
  next => simp
  next => simp
  next hnil hnewline hreturn hcomment =>
    apply iff_of_true rfl
    use hnil
    cases text with
    | nil => contradiction
    | cons c text =>
      constructor
      · rintro d ⟨rfl⟩
        constructor
        · rintro rfl
          apply hnewline text rfl
        · rintro rfl
          apply hreturn text rfl
      · rintro ⟨others, hothers⟩
        apply hcomment others hothers.symm

theorem eq_of_mem_indentation (s : Scan) :
  ∀ c ∈ s.rest.takeWhile isIndentation, c = ' ' ∨ c = '\t'
  := by
  intro c hc
  simpa [isIndentation] using List.mem_takeWhile_imp hc

/-- After the indentation of a line there is none. -/
theorem not_isIndentation_indented (s : Scan) :
  ∀ c ∈ s.indented.rest.head?, isIndentation c = false
  := Text.stop_dropWhile isIndentation s.rest

theorem isAtToken_indented (h : isBare s.indented.rest = false) :
  IsAtToken s.indented.rest
  := ⟨h, s.not_isIndentation_indented⟩

/-- Only a token may come where a line is at its first token. -/
theorem IsAtToken.exists_token? {text : List Char} (h : IsAtToken text) {pattern : Pattern}
    {piece rest : List Char} (hfirst : Pattern.first? text = some (pattern, piece, rest)) :
  ∃ kind value, pattern.token? piece = some (kind, value)
  := Pattern.exists_token?_of_isBare hfirst h.isBare_eq h.not_indented

/-! ## The end of a line -/

theorem endLogicalLine_of_none (h : s.last = none) :
  s.endLogicalLine = ([], s)
  := by
  simp [endLogicalLine, h]

theorem endLogicalLine_of_endOfLine (h : s.last = some .endOfLine) :
  s.endLogicalLine = ([], s)
  := by
  simp [endLogicalLine, h]

theorem endLogicalLine_of_isMark {kind : Terminal} (h : s.last = some kind) (hkind : kind.isMark = false) :
  s.endLogicalLine = ([s.mark .endOfLine], { s with last := some .endOfLine })
  := by
  have hne : kind ≠ .endOfLine := by
    rintro rfl
    cases hkind
  unfold endLogicalLine
  split <;> simp_all

end Scan
end LayoutGrammar
