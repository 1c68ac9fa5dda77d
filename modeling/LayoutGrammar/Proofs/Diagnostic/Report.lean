import LayoutGrammar.Diagnostic.Report
import LayoutGrammar.Proofs.Text.Lines

/-!
# Reports of places

A diagnostic that has a place in a text is told with the line of the place, without the blanks at its ends, and
with a caret in the line below (`Diagnostic.report?_eq`).  In texts of characters of one byte each, the caret is
right below the character at the place when spaces alone indent the line; any other blank that indents it moves the
caret by one to the right (`Diagnostic.report?_pointsAt`).
-/

namespace LayoutGrammar

namespace Text

variable {text : List Char}

/-! ## Lines without the blanks at their ends -/

/-- A line is the blanks that indent it, what is between them, and the blanks at its end. -/
theorem exists_eq_trim (text : List Char) :
  ∃ blanks, text = text.takeWhile isBlank ++ (trim text ++ blanks) ∧ ∀ c ∈ blanks, isBlank c = true
  := by
  use (trimStart text).rtakeWhile isBlank
  constructor
  · show text = text.takeWhile isBlank ++ ((trimStart text).rdropWhile isBlank ++ (trimStart text).rtakeWhile isBlank)
    rw [List.rdropWhile_append_rtakeWhile, trimStart, List.takeWhile_append_dropWhile]
  · intro c hc
    apply List.mem_rtakeWhile_imp hc

/-- The spaces that start a line, and other blanks after them, indent it. -/
theorem takeWhile_isBlank_eq (text : List Char) :
  text.takeWhile isBlank = text.takeWhile (· = ' ') ++ (text.dropWhile (· = ' ')).takeWhile isBlank
  := by
  induction text with
  | nil => rfl
  | cons c text ih =>
    by_cases hc : c = ' '
    · have hblank : isBlank c = true := hc ▸ rfl
      simp [hc ▸ hblank, hc, ih]
    · simp [hc]

theorem trim_dropWhile (text : List Char) : trim (text.dropWhile (· = ' ')) = trim text := by
  have hstart : trimStart (text.dropWhile (· = ' ')) = trimStart text := by
    induction text with
    | nil => rfl
    | cons c text ih =>
      by_cases hc : c = ' '
      · have hblank : isBlank c = true := hc ▸ rfl
        simpa [trimStart, hc ▸ hblank, hc] using ih
      · simp [hc]
  rw [trim, hstart, trim]

theorem trim_concat {c : Char} (hc : isBlank c = true) (text : List Char) :
  trim (text ++ [c]) = trim text
  := by
  show ((text ++ [c]).dropWhile isBlank).rdropWhile isBlank = (text.dropWhile isBlank).rdropWhile isBlank
  rw [List.dropWhile_append]
  split
  next hnil => simp [List.isEmpty_iff.mp hnil, hc]
  next => apply List.rdropWhile_concat_pos _ _ _ hc

theorem trim_sublist (text : List Char) : (trim text).Sublist text :=
  (List.rdropWhile_prefix isBlank _).sublist.trans (List.dropWhile_sublist isBlank)

/-- Without the blanks at its ends a line holds no newline. -/
theorem IsCut.newline_not_mem_trim {pieces : List (List Char)} (h : IsCut pieces) {line : List Char}
    (hline : line ∈ pieces) :
  '\n' ∉ trim line
  := by
  induction h with
  | nil => simp at hline
  | last _ newline =>
    obtain rfl := List.mem_singleton.mp hline
    exact fun hmem => newline ((trim_sublist _).subset hmem)
  | cons newline _ ih =>
    rcases List.mem_cons.mp hline with rfl | hline
    · rw [trim_concat rfl]
      exact fun hmem => newline ((trim_sublist _).subset hmem)
    · apply ih hline

/-- A character of a line that is not blank is found in what is left without the blanks at the ends. -/
theorem getElem?_trim {i : Nat} {c : Char} (h : text[i]? = some c) (hc : isBlank c = false) :
  (text.takeWhile isBlank).length ≤ i ∧ (trim text)[i - (text.takeWhile isBlank).length]? = some c
  := by
  obtain ⟨blanks, htext, hblanks⟩ := exists_eq_trim text
  have hnot {others : List Char} (hothers : ∀ d ∈ others, isBlank d = true) {j : Nat} : others[j]? ≠ some c := by
    intro hj
    rw [hothers c (List.mem_of_getElem? hj)] at hc
    cases hc
  have hle : (text.takeWhile isBlank).length ≤ i := by
    by_contra hlt
    rw [htext, List.getElem?_append_left (by omega)] at h
    apply hnot (fun d hd => List.mem_takeWhile_imp hd) h
  use hle
  rw [htext, List.getElem?_append_right hle, List.getElem?_append] at h
  split at h
  · apply h
  · cases hnot hblanks h

/-! ## Characters of one byte each -/

/-- In a text of characters of one byte each, offsets are numbers of characters. -/
theorem size_eq_length (h : ∀ c ∈ text, c.toNat < 128) :
  size text = text.length
  := by
  induction text with
  | nil => rfl
  | cons c text ih =>
    obtain ⟨hc, htext⟩ := List.forall_mem_cons.mp h
    have hone : c.utf8Size = 1 := Char.utf8Size_eq_one_iff.mpr (Nat.le_of_lt_succ hc)
    rw [size_cons, hone, ih htext, List.length_cons, Nat.add_comm]

/-- A character of a text of characters of one byte each is found at its column in its line. -/
theorem exists_lineAt? (hbytes : ∀ c ∈ text, c.toNat < 128) {offset : Nat} {c : Char}
    (hc : text[offset]? = some c) :
  ∃ place, lineAt? text offset = some place ∧ place.line ∈ lines text ∧ place.line[place.column]? = some c
  := by
  have hlt : offset < text.length := (List.getElem?_eq_some_iff.mp hc).1
  cases hplace : lineAt? text offset with
  | none =>
    rw [lineAt?_eq_none_iff, size_eq_length hbytes] at hplace
    omega
  | some place =>
    obtain ⟨above, below, hlines, -, rfl, hcolumn⟩ := lineAt?_eq_some_iff.mp hplace
    have htext : text = above.flatten ++ (place.line ++ below.flatten) := by
      rw [← flatten_lines text, hlines, List.flatten_append, List.flatten_cons]
    have habove : size above.flatten = above.flatten.length :=
      size_eq_length fun d hd => hbytes d (by simp [htext, hd])
    have hline : size place.line = place.line.length :=
      size_eq_length fun d hd => hbytes d (by simp [htext, hd])
    refine ⟨place, rfl, by simp [hlines], ?_⟩
    rw [habove, htext, List.getElem?_append_right (by omega), Nat.add_sub_cancel_left,
      List.getElem?_append_left (by omega)] at hc
    apply hc

end Text

/-! ## Reports -/

/-- Numbers are written in digits. -/
theorem isDigit_of_mem_toString {n : Nat} {c : Char} (h : c ∈ (toString n).toList) :
  c.isDigit = true
  := by
  apply Nat.isDigit_of_mem_toDigits (b := 10) (by decide) (by decide)
  simpa using h

namespace Diagnostic

variable {source : String} {d : Diagnostic} {place : Text.LinePlace}

/-- The line of a place as it is shown, after the gutter with its number. -/
def shownLine (place : Text.LinePlace) : List Char :=
  (toString place.number).toList ++ " | ".toList ++ Text.trim place.line

/-- The line that is shown below the line of a place, with the caret at its end. -/
def shownArrow (place : Text.LinePlace) : List Char :=
  List.replicate ((toString place.number).length + 1) ' ' ++ "| ".toList ++ arrow place

/-- The column of the character of a place in the line as it is shown. -/
def shownColumn (place : Text.LinePlace) : Nat :=
  (toString place.number).length + 3 + (place.column - (place.line.takeWhile Text.isBlank).length)

/-- A place is told by its line and the arrow below, unless the arrow is too wide. -/
theorem report?_eq (hplace : place? source.toList d.position.offset.toNat = some place) :
  d.report? source =
    if (arrow place).length < UInt16.size then
      some (String.ofList ((d.heading ++ s!"-> {d.position.file}\n" ++ bar place.number).toList
        ++ '\n' :: (shownLine place ++ '\n' :: (shownArrow place ++ ['\n']))))
    else
      none
  := by
  rw [report?, hplace]
  show (excerpt? place).map _ = _
  rw [excerpt?]
  split
  next =>
    simp only [Option.map_some, Option.some.injEq]
    apply String.toList_inj.mp
    simp [shownLine, shownArrow, bar, Text.trim_dropWhile, toString]
  next => rfl

/-- The bar after the number of a line is the first one in the line as it is shown. -/
theorem idxOf_shownLine (place : Text.LinePlace) :
  (shownLine place).idxOf '|' = (toString place.number).length + 1
  := by
  have hbar : '|' ∉ (toString place.number).toList := by
    intro hmem
    cases isDigit_of_mem_toString hmem
  rw [shownLine, List.append_assoc, List.idxOf_append_of_notMem hbar, String.length_toList]
  rfl

/-- The caret is the first one in the line of the arrow, right after the dashes. -/
theorem idxOf_shownArrow (place : Text.LinePlace) :
  (shownArrow place).idxOf '^' = (toString place.number).length + 3
    + (place.column - (place.line.takeWhile (· = ' ')).length)
  := by
  rw [shownArrow, arrow, ← List.append_assoc, List.idxOf_append_of_notMem (by simp)]
  simp
  omega

/-- A report of a place in a line ends in the line and the arrow below. -/
theorem exists_lines_of_report? (hplace : place? source.toList d.position.offset.toNat = some place)
    (hline : place.line ∈ Text.lines source.toList) {report : String} (hreport : d.report? source = some report) :
  ∃ above, Text.lines report.toList = above ++ [shownLine place ++ ['\n'], shownArrow place ++ ['\n']]
  := by
  have hshown : '\n' ∉ shownLine place := by
    have hdigit : '\n' ∉ (toString place.number).toList := by
      intro hmem
      cases isDigit_of_mem_toString hmem
    have htrim := (Text.isCut_lines source.toList).newline_not_mem_trim hline
    simp_all [shownLine]
  have harrow : '\n' ∉ shownArrow place := by
    simp [shownArrow, arrow]
  rw [report?_eq hplace] at hreport
  split at hreport
  next =>
    obtain rfl := Option.some.inj hreport
    rw [String.toList_ofList, Text.lines_append, Text.lines_append_newline hshown, Text.lines_append_newline harrow]
    exact ⟨_, rfl⟩
  next => cases hreport

theorem place?_of_lineAt? {text : List Char} {offset : Nat} (h : Text.lineAt? text offset = some place) :
  place? text offset = some place
  := by
  rw [place?, h]

/-- A report of a place at a character that is not blank, in a text of characters of one byte each, ends in the line
of the place and an arrow, each after a gutter, and the bars of the gutters are in the same column.  The caret of the
arrow is in the column of the character when spaces alone indent the line; if other blanks do, it is to the right of
the column by the number of the blanks after the first spaces.  There is a report unless the arrow is too wide. -/
theorem report?_pointsAt {source : String} {d : Diagnostic} {c : Char} (hbytes : ∀ c ∈ source.toList, c.toNat < 128)
    (hc : source.toList[d.position.offset.toNat]? = some c) (hblank : Text.isBlank c = false) :
  ∃ place, Text.lineAt? source.toList d.position.offset.toNat = some place
    ∧ (d.report? source = none ↔ UInt16.size ≤ (arrow place).length)
    ∧ ∀ report, d.report? source = some report →
      (∃ above, Text.lines report.toList = above ++ [shownLine place ++ ['\n'], shownArrow place ++ ['\n']])
      ∧ (shownArrow place).idxOf '|' = (shownLine place).idxOf '|'
      ∧ (place.line.takeWhile Text.isBlank).length ≤ place.column
      ∧ (shownLine place)[shownColumn place]? = some c
      ∧ (shownArrow place).idxOf '^' = shownColumn place
        + ((place.line.dropWhile (· = ' ')).takeWhile Text.isBlank).length
  := by
  obtain ⟨place, hplace, hline, hcolumn⟩ := Text.exists_lineAt? hbytes hc
  obtain ⟨hindented, htrim⟩ := Text.getElem?_trim hcolumn hblank
  refine ⟨place, hplace, ?_, fun report hreport => ⟨?_, ?_, hindented, ?_, ?_⟩⟩
  · simp [report?_eq (place?_of_lineAt? hplace)]
  · apply exists_lines_of_report? (place?_of_lineAt? hplace) hline hreport
  · rw [idxOf_shownLine, shownArrow, List.append_assoc, List.idxOf_append_of_notMem (by simp), List.length_replicate]
    rfl
  · have hgutter : ((toString place.number).toList ++ " | ".toList).length = (toString place.number).length + 3 := by
      rw [List.length_append, String.length_toList]
      rfl
    rw [shownLine, shownColumn, List.getElem?_append_right (by omega), hgutter, Nat.add_sub_cancel_left, htrim]
  · have hblanks := congrArg List.length (Text.takeWhile_isBlank_eq place.line)
    rw [List.length_append] at hblanks
    rw [idxOf_shownArrow, shownColumn]
    omega

/-- A line that is indented by spaces, with blanks at its end, after nine others. -/
def tenthLine : String := "a\n\n\n\n\n\n\n\n\n  y = $ z\t\n"

/-- The number of the line has two digits, and the caret is below the sign. -/
theorem report?_tenthLine :
  Token.ofSource tenthLine "shell" = .error ⟨.unrecognised "$", ⟨16, "shell"⟩⟩
  ∧ report? ⟨.unrecognised "$", ⟨16, "shell"⟩⟩ tenthLine
    = some "Error: UnrecognisedToken\n-> shell\n   |\n10 | y = $ z\n   | ----^\n"
  ∧ (shownLine ⟨10, "  y = $ z\t\n".toList, 6⟩)[9]? = some '$'
  ∧ (shownArrow ⟨10, "  y = $ z\t\n".toList, 6⟩).idxOf '^' = 9
  := by
  have herror : Token.ofSource tenthLine "shell" = .error ⟨.unrecognised "$", ⟨16, "shell"⟩⟩ := by
    decide +kernel
  have hreport : report? ⟨.unrecognised "$", ⟨16, "shell"⟩⟩ tenthLine
      = some "Error: UnrecognisedToken\n-> shell\n   |\n10 | y = $ z\n   | ----^\n" := by
    decide +kernel
  have hbytes : tenthLine.toList.all (·.toNat < 128) = true := by
    decide
  obtain ⟨place, hplace, -, hshown⟩ := @report?_pointsAt tenthLine ⟨.unrecognised "$", ⟨16, "shell"⟩⟩ '$'
    (by simpa using hbytes) (by decide) (by decide)
  have hfound : Text.lineAt? tenthLine.toList 16 = some ⟨10, "  y = $ z\t\n".toList, 6⟩ := by
    decide +kernel
  obtain rfl := Option.some.inj (hfound.symm.trans hplace)
  obtain ⟨-, -, -, hcolumn, hcaret⟩ := hshown _ hreport
  exact ⟨herror, hreport, hcolumn, hcaret⟩

/-- A line that a tab indents. -/
def tabIndented : String := "if a then\n\tprint $\n"

/-- When a tab indents a line, the caret is to the right of the character at the place. -/
theorem not_report?_pointsAt :
  ¬ ∀ (source file : String) (d : Diagnostic) (c : Char), (∀ c ∈ source.toList, c.toNat < 128) →
    Token.ofSource source file = .error d → source.toList[d.position.offset.toNat]? = some c →
    Text.isBlank c = false →
      ∃ place report above, Text.lineAt? source.toList d.position.offset.toNat = some place
        ∧ d.report? source = some report
        ∧ Text.lines report.toList = above ++ [shownLine place ++ ['\n'], shownArrow place ++ ['\n']]
        ∧ (shownArrow place).idxOf '|' = (shownLine place).idxOf '|'
        ∧ (shownArrow place).idxOf '^' = shownColumn place
  := by
  intro h
  have herror : Token.ofSource tabIndented "shell" = .error ⟨.unrecognised "$", ⟨17, "shell"⟩⟩ := by
    decide +kernel
  have hfound : Text.lineAt? tabIndented.toList 17 = some ⟨2, "\tprint $\n".toList, 7⟩ := by
    decide +kernel
  have hbytes : tabIndented.toList.all (·.toNat < 128) = true := by
    decide
  obtain ⟨place, _, _, hplace, -, -, -, hcaret⟩ :=
    h tabIndented "shell" _ '$' (by simpa using hbytes) herror (by decide) (by decide)
  obtain rfl := Option.some.inj (hfound.symm.trans hplace)
  revert hcaret
  decide

end Diagnostic
end LayoutGrammar
