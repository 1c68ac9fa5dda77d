import LayoutGrammar.Proofs.Scan.Lossless
import LayoutGrammar.Proofs.Scan.RoundTrip
import LayoutGrammar.Proofs.Scan.Seam

/-!
# Ends of lines

A carriage return before each newline of a text makes no difference to its tokens (`ofSource_withReturns`),
as long as no literal has a newline in it.  A scan of the one text runs along with a scan of the other
(`Scan.IsAlike`).  The carriage return is spacing of its own after a token or at the start of a line, and else
it goes with the spacing or with the comment before it; in each case both scans are at the newline then.
-/

namespace LayoutGrammar

open Text

/-! ## Texts -/

namespace Text

/-- A text with a carriage return before each newline. -/
def withReturns (text : List Char) : List Char :=
  text.flatMap fun c => if c = '\n' then ['\r', '\n'] else [c]

theorem withReturns_newline (text : List Char) :
  withReturns ('\n' :: text) = '\r' :: '\n' :: withReturns text
  := rfl

theorem withReturns_append (text others : List Char) :
  withReturns (text ++ others) = withReturns text ++ withReturns others
  := List.flatMap_append

/-- A text without newlines stays as it is. -/
theorem withReturns_of_not_mem {text : List Char} (h : '\n' ∉ text) :
  withReturns text = text
  := by
  induction text with
  | nil => rfl
  | cons c text ih =>
    rw [List.mem_cons, not_or] at h
    have hne : c ≠ '\n' := fun heq => h.1 heq.symm
    rw [← List.singleton_append, withReturns_append, ih h.2]
    simp [withReturns, hne]

theorem withReturns_cons {c : Char} (h : c ≠ '\n') (text : List Char) :
  withReturns (c :: text) = c :: withReturns text
  := by
  rw [← List.singleton_append, withReturns_append, withReturns_of_not_mem (by simpa using h.symm)]
  rfl

/-- Unless it starts with a newline, a text starts as before with carriage returns. -/
theorem withReturns_cases (text : List Char) :
  (∃ others, text = '\n' :: others ∧ withReturns text = '\r' :: '\n' :: withReturns others)
  ∨ (withReturns text).head? = text.head?
  := by
  cases text with
  | nil => simp [withReturns]
  | cons c text =>
    by_cases hc : c = '\n'
    · subst hc
      apply Or.inl ⟨text, rfl, rfl⟩
    · rw [withReturns_cons hc]
      apply Or.inr rfl

/-- A text goes on up to its first newline. -/
theorem exists_line (text : List Char) :
  ∃ line rest, text = line ++ rest ∧ '\n' ∉ line ∧ IsAtLineEnd rest
  := by
  use text.takeWhile (· ≠ '\n'), text.dropWhile (· ≠ '\n'), List.takeWhile_append_dropWhile.symm
  constructor
  · intro hmem
    simpa using List.mem_takeWhile_imp hmem
  · intro c hc
    simpa using stop_dropWhile _ text c hc

end Text

/-! ## Patterns -/

namespace Pattern

variable {pattern : Pattern} {text piece rest value : List Char} {kind : Terminal}

/-- Only spacing and comments go on over a carriage return, and they may end before it as well. -/
theorem matches_of_return (hpattern : pattern ∈ table) (hne : text ≠ []) (hquote : text.head? ≠ some '"')
    {more : List Char} (hmatch : pattern.Matches (text ++ '\r' :: more)) :
  pattern.Matches text ∧ (pattern = .blanks ∨ pattern = .comment)
  := by
  have hmem : '\r' ∈ text ++ '\r' :: more := by simp
  cases pattern with
  | word | number | symbol =>
    apply absurd hmem (not_mem_of_matches hpattern hmatch (by simp) (by simp))
  | newline =>
    have hnewline : text ++ '\r' :: more = ['\n'] := hmatch
    simp [hnewline] at hmem
  | literal =>
    obtain ⟨inner, -, hinner⟩ := hmatch
    obtain ⟨c, text, rfl⟩ := List.exists_cons_of_ne_nil hne
    simp_all
  | blanks =>
    use ⟨hne, fun c hc => hmatch.2 c (List.mem_append_left _ hc)⟩, .inl rfl
  | comment =>
    obtain ⟨body, hbody, heq⟩ := hmatch
    match text with
    | [c] => simp at heq
    | c :: d :: text =>
      obtain ⟨rfl, rfl, rfl⟩ := by simpa using heq
      rw [List.mem_append, not_or] at hbody
      use ⟨text, hbody.1, rfl⟩, .inr rfl

/-- A token is found before a carriage return as at the end of a text. -/
theorem first?_append_return (others : List Char) (h : first? text = some (pattern, piece, rest))
    (htoken : pattern.token? piece = some (kind, value)) :
  first? (text ++ '\r' :: others) = some (pattern, piece, rest ++ '\r' :: others)
  := by
  have hne : text ≠ [] := by
    rintro rfl
    cases h
  apply first?_append_of_forall h
  intro hquote q hq other hother hmatch
  rcases List.prefix_or_prefix_of_prefix hother (List.prefix_append text _) with hle | ⟨more, rfl⟩
  · exact ⟨⟨other, hle, hmatch⟩, fun _ => hle⟩
  · rw [List.prefix_append_right_inj] at hother
    cases more with
    | nil =>
      rw [List.append_nil] at hmatch ⊢
      exact ⟨⟨text, List.prefix_rfl, hmatch⟩, fun _ => List.prefix_rfl⟩
    -- What goes on over the carriage return is matched up to it as well, so the same pattern comes first.
    | cons c more =>
      obtain ⟨rfl, -⟩ := List.cons_prefix_cons.mp hother
      obtain ⟨hshort, hspace⟩ := matches_of_return hq hne hquote hmatch
      use ⟨text, List.prefix_rfl, hshort⟩
      rintro rfl
      rcases hspace with rfl | rfl <;> cases htoken

/-- A token is found all the same when the carriage returns are all after it. -/
theorem first?_withReturns (h : first? (piece ++ rest) = some (pattern, piece, rest))
    (htoken : pattern.token? piece = some (kind, value)) :
  first? (piece ++ withReturns rest) = some (pattern, piece, withReturns rest)
  := by
  obtain ⟨line, others, rfl, hline, hothers⟩ := exists_line rest
  have hcut : first? (piece ++ line) = some (pattern, piece, line) := by
    apply first?_of_append
    rw [List.append_assoc]
    apply h
  rw [withReturns_append, withReturns_of_not_mem hline]
  cases others with
  | nil => simpa [withReturns] using hcut
  | cons c others =>
    obtain rfl := hothers c rfl
    rw [withReturns_newline, ← List.append_assoc]
    apply first?_append_return _ hcut htoken

end Pattern

/-! ## Scans -/

/-- Whether a lexeme is on one line of a text. -/
def Lexeme.IsInLine (text : List Char) (l : Lexeme) : Prop :=
  ∀ piece rest, Between text l.start l.stop piece rest → '\n' ∉ piece

namespace Scan

/-- What is left of a text with carriage returns when a text is left of the one without them.  At a newline the
carriage return before it may be passed over already. -/
inductive IsLeft : List Char → List Char → Prop
  /-- All of the text is left. -/
  | all (text : List Char) : IsLeft text (withReturns text)
  /-- The carriage return before a newline is passed over. -/
  | newline (text : List Char) : IsLeft ('\n' :: text) ('\n' :: withReturns text)

/-- Whether a scan of a text with carriage returns is where a scan of the text without them is. -/
structure IsAlike (s t : Scan) : Prop where
  /-- The same text is left, but for the carriage returns. -/
  isLeft : IsLeft s.rest t.rest
  /-- The last lexemes are of the same kind. -/
  last_eq : t.last = s.last
  /-- The same blocks are open. -/
  blocks_eq : t.blocks = s.blocks

variable {s t next : Scan} {marks found : List Lexeme} {text rest : List Char} {xs : List (Terminal × String)}

/-! ## The indentation of a line -/

/-- A carriage return has no more bearing on blocks than the newline after it. -/
theorem isBare_withReturns (text : List Char) :
  isBare (withReturns text) = isBare text
  := by
  match text with
  | [] => rfl
  | '\n' :: text => rfl
  | [c] =>
    by_cases hc : c = '\n'
    · subst hc
      rfl
    · rw [withReturns_cons hc]
      rfl
  | c :: d :: text =>
    by_cases hc : c = '\n'
    · subst hc
      rfl
    · rw [withReturns_cons hc]
      by_cases hd : d = '\n'
      · subst hd
        rw [withReturns_newline]
        unfold isBare
        split <;> split <;> simp_all
      · rw [withReturns_cons hd]
        unfold isBare
        split <;> split <;> simp_all

/-- Indentation stops at the same place. -/
theorem not_isIndentation_withReturns (hstop : ∀ c ∈ text.head?, isIndentation c = false) :
  ∀ c ∈ (withReturns text).head?, isIndentation c = false
  := by
  rcases withReturns_cases text with ⟨others, -, hreturn⟩ | hhead
  · simp [hreturn, isIndentation]
  · rwa [hhead]

/-- The indentation of a line is measured alike. -/
theorem Measures.exists_withReturns (hmarks : s.Measures marks next) (hrest : t.rest = withReturns s.rest)
    (hlast : t.last = s.last) (hblocks : t.blocks = s.blocks) :
  ∃ others after, t.Measures others after ∧ others.map Lexeme.entry = marks.map Lexeme.entry
    ∧ next.IsAlike after
  := by
  have hfront : ∀ c ∈ s.rest.takeWhile isIndentation, isIndentation c = true :=
    fun c hc => List.mem_takeWhile_imp hc
  have htext : t.rest = s.rest.takeWhile isIndentation ++ withReturns s.indented.rest := by
    have hnewline : '\n' ∉ s.rest.takeWhile isIndentation := fun hmem => by cases hfront _ hmem
    rw [← withReturns_of_not_mem hnewline, ← withReturns_append, hrest]
    exact congrArg withReturns List.takeWhile_append_dropWhile.symm
  obtain ⟨hwidth, hindented⟩ := indented_of_append htext hfront
    (not_isIndentation_withReturns s.not_isIndentation_indented)
  -- An empty line is bare by its carriage return, which is not indentation.
  have hbare : isBare t.indented.rest = isBare s.indented.rest := by
    rw [hindented]
    apply isBare_withReturns
  have hleft : IsLeft s.indented.rest t.indented.rest := by
    rw [hindented]
    apply IsLeft.all
  replace hwidth : t.width = s.width := hwidth
  cases hmarks with
  | bare hb =>
    use [], t.indented, .bare (hbare.trans hb), rfl
    exact ⟨hleft, hlast, hblocks⟩
  | opens hb hdeeper hsome =>
    have hmeasures := Measures.opens (hbare.trans hb) (hblocks ▸ hwidth ▸ hdeeper) (hlast ▸ hsome)
    exact ⟨_, _, hmeasures, rfl, hleft, rfl, by rw [hwidth, hblocks]⟩
  | closes hb hsplit hclosed hbelow =>
    have hmeasures := Measures.closes (hbare.trans hb) (hblocks.trans hsplit) (hwidth ▸ hclosed)
      (hwidth ▸ hbelow)
    refine ⟨_, _, hmeasures, ?_, hleft, by simp only [hlast], rfl⟩
    rw [entries_blockEnds, entries_blockEnds]

/-! ## Steps -/

/-- The end of a line is marked alike. -/
theorem endLogicalLine_of_last_eq (hlast : t.last = s.last) :
  t.endLogicalLine.1.map Lexeme.entry = s.endLogicalLine.1.map Lexeme.entry
    ∧ t.endLogicalLine.2.last = s.endLogicalLine.2.last
  := by
  unfold endLogicalLine
  rw [hlast]
  split <;> simp_all [mark, Lexeme.entry]

/-- At a newline the same is said as without the carriage return before it. -/
theorem says_of_newline (hrest : t.rest = '\n' :: withReturns rest) (hlast : t.last = s.last)
    (hblocks : t.blocks = s.blocks) (hmarks : (s.endLogicalLine.2.skip ['\n'] rest).Measures marks next)
    (h : ∀ u, next.IsAlike u → u.Says xs) :
  t.Says ((s.endLogicalLine.1 ++ marks).map Lexeme.entry ++ xs)
  := by
  obtain ⟨hentries, hended⟩ := endLogicalLine_of_last_eq hlast
  have hopen : (t.endLogicalLine.2.skip ['\n'] (withReturns rest)).blocks
      = (s.endLogicalLine.2.skip ['\n'] rest).blocks := by
    rw [skip, skip, blocks_endLogicalLine, blocks_endLogicalLine, hblocks]
  have hline : (t.endLogicalLine.2.skip ['\n'] (withReturns rest)).rest
      = withReturns (s.endLogicalLine.2.skip ['\n'] rest).rest := rfl
  obtain ⟨others, after, hmeasures, hothers, halike⟩ := hmarks.exists_withReturns hline hended hopen
  have hfirst := Pattern.first?_newline (withReturns rest)
  rw [← hrest] at hfirst
  have hsays := Says.move (.newline hfirst hmeasures) (h after halike)
  rwa [List.map_append, hentries, hothers, ← List.map_append] at hsays

/-- Unless it starts with a newline, a text is left as a whole. -/
theorem IsLeft.eq_withReturns {other : List Char} (h : IsLeft text other)
    (hfirst : ∀ c ∈ text.head?, c ≠ '\n') :
  other = withReturns text
  := by
  cases h with
  | all => rfl
  | newline => simp at hfirst

/-- Spacing is found with the carriage return after it, if there is one. -/
theorem exists_first?_of_blanks {piece : List Char}
    (hfirst : Pattern.first? text = some (.blanks, piece, rest)) :
  ∃ more others, Pattern.first? (withReturns text) = some (.blanks, more, others) ∧ IsLeft rest others
  := by
  have hspacing := Pattern.isSpacing_of_blanks hfirst
  have hstop := Pattern.not_isSpacing_of_blanks hfirst
  obtain ⟨rfl, hne⟩ := Pattern.append_of_first? hfirst
  have hnewline : '\n' ∉ piece := fun hmem => by cases hspacing _ hmem
  rw [withReturns_append, withReturns_of_not_mem hnewline]
  rcases withReturns_cases rest with ⟨others, rfl, hrest⟩ | hhead
  · use piece ++ ['\r'], '\n' :: withReturns others
    have hmore : ∀ c ∈ piece ++ ['\r'], Pattern.isSpacing c = true :=
      List.forall_mem_append.mpr ⟨hspacing, by simp [Pattern.isSpacing]⟩
    rw [hrest, List.append_cons]
    use Pattern.first?_spacing hmore (by simp) (by simp [Pattern.isSpacing]), .newline others
  · use piece, withReturns rest
    rw [← hhead] at hstop
    use Pattern.first?_spacing hspacing hne hstop, .all rest

/-- So is a comment. -/
theorem exists_first?_of_comment {piece : List Char}
    (hfirst : Pattern.first? text = some (.comment, piece, rest)) :
  ∃ more others, Pattern.first? (withReturns text) = some (.comment, more, others) ∧ IsLeft rest others
  := by
  obtain ⟨body, rfl, hbody, hstop⟩ := Pattern.exists_of_comment hfirst
  obtain ⟨rfl, -⟩ := Pattern.append_of_first? hfirst
  have hnewline : '\n' ∉ '/' :: '/' :: body := by simpa using hbody
  rw [withReturns_append, withReturns_of_not_mem hnewline]
  cases rest with
  | nil =>
    use '/' :: '/' :: body, [], Pattern.first?_comment hbody hstop, .all []
  | cons c others =>
    obtain rfl := hstop c rfl
    have hmore : '\n' ∉ body ++ ['\r'] := by simpa using hbody
    use '/' :: '/' :: (body ++ ['\r']), '\n' :: withReturns others
    rw [withReturns_newline, List.append_cons]
    use Pattern.first?_comment hmore (by simp), .newline others

/-- A token is on one line when no literal has a newline. -/
theorem newline_not_mem_of_token {pattern : Pattern} {piece value : List Char} {kind : Terminal}
    (hfirst : Pattern.first? s.rest = some (pattern, piece, rest))
    (htoken : pattern.token? piece = some (kind, value)) (hafter : after? s.offset text = some s.rest)
    (hliterals : kind = .string →
      Lexeme.IsInLine text ⟨kind, String.ofList value, s.offset, s.offset + size piece⟩) :
  '\n' ∉ piece
  := by
  by_cases hliteral : pattern = .literal
  · subst hliteral
    cases htoken
    rw [← (Pattern.append_of_first? hfirst).1] at hafter
    apply hliterals rfl piece rest (between_of_after? hafter)
  · have hnewline : pattern ≠ .newline := by
      rintro rfl
      cases htoken
    obtain ⟨htable, hsplit⟩ := Pattern.split?_of_first? hfirst
    apply Pattern.newline_not_mem_of_matches htable (Pattern.matches_of_split? hsplit) hnewline hliteral

/-- A step of a scan is made by one that is alike as well, if no literal that it finds has a newline. -/
theorem IsAlike.says_of_moves (halike : s.IsAlike t) (hmove : s.Moves found next)
    (hafter : after? s.offset text = some s.rest)
    (hliterals : ∀ l ∈ found, l.kind = .string → l.IsInLine text) (h : ∀ u, next.IsAlike u → u.Says xs) :
  t.Says (found.map Lexeme.entry ++ xs)
  := by
  obtain ⟨hleft, hlast, hblocks⟩ := halike
  cases hmove with
  | @token pattern piece rest value kind hfirst htoken =>
    have hrest := hleft.eq_withReturns (Pattern.ne_newline_of_token? hfirst htoken)
    have hpiece := newline_not_mem_of_token hfirst htoken hafter (hliterals _ List.mem_cons_self)
    have happend := (Pattern.append_of_first? hfirst).1
    rw [← happend] at hfirst hrest
    rw [withReturns_append, withReturns_of_not_mem hpiece] at hrest
    have hmore := Pattern.first?_withReturns hfirst htoken
    rw [← hrest] at hmore
    have hnext : IsAlike { s.skip piece rest with last := some kind }
        { t.skip piece (withReturns rest) with last := some kind } := ⟨.all rest, rfl, hblocks⟩
    have hsays := Says.move (.token hmore htoken) (h _ hnext)
    exact hsays
  | @space pattern piece rest hfirst hspace =>
    have hnewline : pattern ≠ .newline := by
      rcases hspace with rfl | rfl <;> decide
    have hrest := hleft.eq_withReturns (Pattern.ne_newline_of_first? hfirst hnewline)
    obtain ⟨more, others, hmore, hleft⟩ : ∃ more others,
        Pattern.first? t.rest = some (pattern, more, others) ∧ IsLeft rest others := by
      rw [hrest]
      rcases hspace with rfl | rfl
      · apply exists_first?_of_blanks hfirst
      · apply exists_first?_of_comment hfirst
    apply Says.move (.space hmore hspace) (h _ ⟨hleft, hlast, hblocks⟩)
  | @newline piece rest marks _ hfirst hmarks =>
    obtain ⟨rfl, hrest⟩ := Pattern.first?_of_newline hfirst
    rw [hrest] at hleft
    generalize ht : t.rest = other at hleft
    cases hleft with
    -- After a token, or on an empty line, the carriage return is spacing of its own.
    | all =>
      have hreturn : Pattern.first? t.rest = some (.blanks, ['\r'], '\n' :: withReturns rest) := by
        rw [ht, withReturns_newline]
        rfl
      have hline : (t.skip ['\r'] ('\n' :: withReturns rest)).rest = '\n' :: withReturns rest := rfl
      apply Says.move (.space hreturn (.inl rfl))
      apply says_of_newline hline hlast hblocks hmarks h
    | newline => apply says_of_newline ht hlast hblocks hmarks h

/-- What a scan yields is said by one that is alike, if no literal has a newline. -/
theorem Yields.says_of_isAlike (hyields : s.Yields found) (halike : s.IsAlike t)
    (hafter : after? s.offset text = some s.rest)
    (hliterals : ∀ l ∈ found, l.kind = .string → l.IsInLine text) :
  t.Says (found.map Lexeme.entry)
  := by
  induction hyields generalizing t with
  | @finish s hrest =>
    obtain ⟨hleft, hlast, hblocks⟩ := halike
    rw [hrest] at hleft
    use t.finish, .finish (hleft.eq_withReturns (by simp))
    obtain ⟨hended, -⟩ := endLogicalLine_of_last_eq hlast
    simp only [Scan.finish, List.map_append, hended, entries_blockEnds, hblocks]
    rfl
  | @move s next found others hmove hothers ih =>
    obtain ⟨hfound, hmore⟩ := List.forall_mem_append.mp hliterals
    rw [List.map_append]
    apply halike.says_of_moves hmove hafter hfound
    intro u hu
    apply ih hu (hmove.after?_eq hafter) hmore

end Scan

/-! ## Sources -/

/-- What is found in a text is found with carriage returns as well, as kinds and values. -/
theorem Lexeme.exists_ofText_withReturns {text : List Char} {found : List Lexeme} (h : ofText text = .ok found)
    (hliterals : ∀ l ∈ found, l.kind = .string → l.IsInLine text) :
  ∃ others, ofText (withReturns text) = .ok others ∧ others.map entry = found.map entry
  := by
  obtain ⟨hmarks, hyields⟩ := ofText_eq_ok_iff.mp h
  have hrest : (Scan.ofText (withReturns text)).rest = withReturns (Scan.ofText text).rest := rfl
  obtain ⟨_, _, hmeasures, -, halike⟩ := hmarks.exists_withReturns hrest rfl rfl
  obtain ⟨rfl, rfl⟩ := hmeasures.eq_of_fresh rfl rfl
  obtain ⟨others, hothers, hentries⟩ :=
    hyields.says_of_isAlike halike (hmarks.after?_eq (after?_zero text)) hliterals
  use others, ofText_eq_ok_iff.mpr ⟨hmeasures, hothers⟩

/-- A source without literals that go over the end of a line has the same tokens, as kinds and values, with a
carriage return before each newline.  The lexemes are its tokens, with offsets that are not taken modulo the
number of 32-bit words. -/
theorem ofSource_withReturns (source file : String) (lexemes : List Lexeme)
    (h : Lexeme.ofText source.toList = .ok lexemes)
    (hliterals : ∀ l ∈ lexemes, l.kind = .string → l.IsInLine source.toList) :
  ∃ tokens others, Token.ofSource source file = .ok tokens
    ∧ Token.ofSource (String.ofList (withReturns source.toList)) file = .ok others
    ∧ others.map Token.entry = tokens.map Token.entry
  := by
  obtain ⟨others, hothers, hentries⟩ := Lexeme.exists_ofText_withReturns h hliterals
  use lexemes.map (Token.ofLexeme file), others.map (Token.ofLexeme file),
    Token.ofSource_eq_ok_iff.mpr ⟨lexemes, h, rfl⟩
  constructor
  · apply Token.ofSource_eq_ok_iff.mpr
    use others
    rw [String.toList_ofList]
    use hothers
  · rw [List.map_map, List.map_map]
    apply hentries

/-- A block after a comment and an empty line, with a literal and spacing at the end of a line. -/
def remarkedBlock : String := "x // é\n\n  y=\"\\n\" \n//\nz"

/-- The block is found with a carriage return at the end of the comment, of the empty line and of the spacing. -/
theorem ofSource_withReturns_remarkedBlock :
  String.ofList (withReturns remarkedBlock.toList) = "x // é\r\n\r\n  y=\"\\n\" \r\n//\r\nz"
  ∧ ∃ tokens others, Token.ofSource remarkedBlock "text" = .ok tokens
    ∧ Token.ofSource (String.ofList (withReturns remarkedBlock.toList)) "text" = .ok others
    ∧ others.map Token.entry = tokens.map Token.entry
    ∧ tokens.map Token.entry = [(.identifier, "x"), (.endOfLine, ""), (.indent, ""), (.identifier, "y"),
      (.assign, "="), (.string, "\n"), (.endOfLine, ""), (.dedent, ""), (.endOfLine, ""), (.identifier, "z"),
      (.endOfLine, ""), (.eof, "EOF")]
  := by
  use by decide +kernel
  obtain ⟨lexemes, hlexemes, hplace, hkinds⟩ : ∃ lexemes, Lexeme.ofText remarkedBlock.toList = .ok lexemes
      ∧ (∀ l ∈ lexemes, l.kind = .string → l.start = 13 ∧ l.stop = 17)
      ∧ lexemes.map Lexeme.entry = [(.identifier, "x"), (.endOfLine, ""), (.indent, ""), (.identifier, "y"),
        (.assign, "="), (.string, "\n"), (.endOfLine, ""), (.dedent, ""), (.endOfLine, ""), (.identifier, "z"),
        (.endOfLine, ""), (.eof, "EOF")] := by
    use [⟨.identifier, "x", 0, 1⟩, ⟨.endOfLine, "", 7, 7⟩, ⟨.indent, "", 11, 11⟩, ⟨.identifier, "y", 11, 12⟩,
      ⟨.assign, "=", 12, 13⟩, ⟨.string, "\n", 13, 17⟩, ⟨.endOfLine, "", 18, 18⟩, ⟨.dedent, "", 22, 22⟩,
      ⟨.endOfLine, "", 22, 22⟩, ⟨.identifier, "z", 22, 23⟩, ⟨.endOfLine, "", 23, 23⟩, ⟨.eof, "EOF", 23, 23⟩]
    use by decide +kernel, by decide
    rfl
  have hliterals : ∀ l ∈ lexemes, l.kind = .string → l.IsInLine remarkedBlock.toList := by
    intro l hl hkind piece rest ⟨hstart, hstop⟩
    rw [(hplace l hl hkind).1] at hstart
    rw [(hplace l hl hkind).2] at hstop
    have hstart' : after? 13 remarkedBlock.toList = some ("\"\\n\"".toList ++ " \n//\nz".toList) := by
      decide +kernel
    have hstop' : after? 17 remarkedBlock.toList = some " \n//\nz".toList := by
      decide +kernel
    obtain rfl := Option.some.inj (hstop'.symm.trans hstop)
    obtain rfl := List.append_cancel_right (Option.some.inj (hstart'.symm.trans hstart))
    decide
  obtain ⟨tokens, others, htokens, hothers, hentries⟩ :=
    ofSource_withReturns remarkedBlock "text" lexemes hlexemes hliterals
  refine ⟨tokens, others, htokens, hothers, hentries, ?_⟩
  obtain ⟨found, hfound, rfl⟩ := Token.ofSource_eq_ok_iff.mp htokens
  obtain rfl := Except.ok.inj (hlexemes.symm.trans hfound)
  rw [List.map_map]
  apply hkinds

end LayoutGrammar
