import LayoutGrammar.Proofs.Scan.Columns
import LayoutGrammar.Text.Line
import Mathlib.Tactic.Use

/-!
# Places in lines

The lines of a text are the pieces that it is cut into after every newline (`lines_eq_iff`).  Finding the place
of an offset undoes this cutting (`lineAt?_places`): the place is in the line that comes after as many lines as
there are newlines before the offset, and the sizes of the lines before it and the column make up the offset.
-/

namespace LayoutGrammar
namespace Text

/-! ## Cutting after newlines -/

/-- The pieces that a text is cut into after every newline.  A newline is the end of its piece, and only the last
piece may do without one, unless it is empty. -/
inductive IsCut : List (List Char) → Prop where
  | nil : IsCut []
  | last {line : List Char} (ne_nil : line ≠ []) (newline : '\n' ∉ line) : IsCut [line]
  | cons {line : List Char} {others : List (List Char)} (newline : '\n' ∉ line) (more : IsCut others) :
      IsCut ((line ++ ['\n']) :: others)

/-- A text that a newline ends is cut on its own, whatever comes after it. -/
theorem lines_append (front rest : List Char) :
  lines (front ++ '\n' :: rest) = lines (front ++ ['\n']) ++ lines rest
  := by
  induction front with
  | nil => simp [lines]
  | cons c front ih =>
    by_cases hc : c = '\n'
    · simp [lines, hc, ih]
    · have hflatten := flatten_lines (front ++ ['\n'])
      rw [List.cons_append, List.cons_append, lines, if_neg hc, ih, lines, if_neg hc]
      cases hlines : lines (front ++ ['\n']) with
      | nil => simp [hlines] at hflatten
      | cons line others => rfl

theorem lines_append_newline {line : List Char} (h : '\n' ∉ line) (rest : List Char) :
  lines (line ++ '\n' :: rest) = (line ++ ['\n']) :: lines rest
  := by
  induction line with
  | nil => simp [lines]
  | cons c line ih =>
    obtain ⟨hc, hline⟩ := List.ne_and_not_mem_of_not_mem_cons h
    rw [List.cons_append, lines, if_neg hc.symm, ih hline]
    rfl

theorem lines_of_not_mem {line : List Char} (hne : line ≠ []) (h : '\n' ∉ line) :
  lines line = [line]
  := by
  induction line with
  | nil => contradiction
  | cons c line ih =>
    obtain ⟨hc, hline⟩ := List.ne_and_not_mem_of_not_mem_cons h
    rw [lines, if_neg hc.symm]
    by_cases hnil : line = []
    · simp [hnil, lines]
    · rw [ih hnil hline]

theorem isCut_lines (text : List Char) :
  IsCut (lines text)
  := by
  fun_induction lines text with
  | case1 => exact .nil
  | case2 text ih => exact @IsCut.cons [] _ (by simp) ih
  | case3 c text hc _ _ => exact .last (by simp) (by simpa using Ne.symm hc)
  | case4 c text hc line others hlines ih =>
    rw [hlines] at ih
    cases ih with
    | last _ newline => exact .last (by simp) (by simp [newline, Ne.symm hc])
    | @cons line _ newline more => exact @IsCut.cons (c :: line) _ (by simp [newline, Ne.symm hc]) more

theorem IsCut.lines_flatten {pieces : List (List Char)} (h : IsCut pieces) :
  lines pieces.flatten = pieces
  := by
  induction h with
  | nil => rfl
  | last ne_nil newline => simpa using lines_of_not_mem ne_nil newline
  | cons newline _ ih =>
    rw [List.flatten_cons, List.append_assoc, List.singleton_append, lines_append_newline newline, ih]

/-- There is just one way to cut a text after every newline. -/
theorem lines_eq_iff {text : List Char} {pieces : List (List Char)} :
  lines text = pieces ↔ IsCut pieces ∧ pieces.flatten = text
  := by
  constructor
  · rintro rfl
    exact ⟨isCut_lines text, flatten_lines text⟩
  · rintro ⟨hcut, rfl⟩
    apply hcut.lines_flatten

theorem IsCut.tail {line : List Char} {others : List (List Char)} (h : IsCut (line :: others)) :
  IsCut others
  := by
  cases h with
  | last => exact .nil
  | cons _ more => exact more

/-- What is left of some pieces from one of them on is cut as well. -/
theorem IsCut.of_append {above pieces : List (List Char)} (h : IsCut (above ++ pieces)) :
  IsCut pieces
  := by
  induction above with
  | nil => apply h
  | cons _ above ih => apply ih h.tail

/-- A piece with others after it ends in a newline, and holds no other. -/
theorem IsCut.exists_line {piece : List Char} {others : List (List Char)} (h : IsCut (piece :: others))
    (hothers : others ≠ []) :
  ∃ line, '\n' ∉ line ∧ piece = line ++ ['\n']
  := by
  cases h with
  | last => contradiction
  | @cons line _ newline _ => use line

/-- The pieces before a piece hold a newline each. -/
theorem IsCut.count_newline {above below : List (List Char)} {line : List Char}
    (h : IsCut (above ++ line :: below)) :
  above.flatten.count '\n' = above.length
  := by
  induction above with
  | nil => rfl
  | cons piece above ih =>
    obtain ⟨line, hline, rfl⟩ := h.exists_line (by simp)
    rw [List.flatten_cons, List.count_append, ih h.tail, List.count_append,
      List.count_eq_zero_of_not_mem hline, List.length_cons, Nat.add_comm]
    rfl

/-! ## What starts before an offset -/

theorem before_append_of_le {front : List Char} {n : Nat} (h : n ≤ size front) (rest : List Char) :
  before n (front ++ rest) = before n front
  := by
  induction front generalizing n with
  | nil =>
    obtain rfl : n = 0 := by simpa using h
    cases rest <;> rfl
  | cons c front ih =>
    cases n with
    | zero => rfl
    | succ n =>
      rw [size_cons] at h
      rw [List.cons_append, before, before, ih (by omega)]

theorem before_sublist (n : Nat) (text : List Char) :
  (before n text).Sublist text
  := by
  fun_induction before n text with
  | case1 => apply List.nil_sublist
  | case2 => apply List.nil_sublist
  | case3 _ _ _ ih => apply ih.cons_cons

/-- No newline starts in a piece before the offset of one of its characters. -/
theorem IsCut.newline_not_mem_before {line : List Char} {others : List (List Char)} (h : IsCut (line :: others))
    {column : Nat} (hcolumn : column < size line) :
  '\n' ∉ before column line
  := by
  cases h with
  | last _ newline => exact fun hmem => newline ((before_sublist column line).subset hmem)
  | @cons line _ newline _ =>
    have hle : column ≤ size line := by
      rw [size_append] at hcolumn
      have : size ['\n'] = 1 := rfl
      omega
    rw [before_append_of_le hle]
    exact fun hmem => newline ((before_sublist column line).subset hmem)

/-- Up to an offset in one of the pieces of a text, there is a newline for each piece before that one. -/
theorem IsCut.count_newline_before {above below : List (List Char)} {line : List Char}
    (h : IsCut (above ++ line :: below)) {column : Nat} (hcolumn : column < size line) :
  (before (size above.flatten + column) (above ++ line :: below).flatten).count '\n' = above.length
  := by
  rw [List.flatten_append, before_append, List.flatten_cons, before_append_of_le hcolumn.le,
    List.count_append, h.count_newline,
    List.count_eq_zero_of_not_mem (h.of_append.newline_not_mem_before hcolumn), Nat.add_zero]

/-! ## Places -/

/-- An offset has no place just when it is not in the pieces. -/
theorem placeIn?_eq_none_iff {number offset : Nat} {pieces : List (List Char)} :
  placeIn? number pieces offset = none ↔ size pieces.flatten ≤ offset
  := by
  fun_induction placeIn? number pieces offset with
  | case1 => simp
  | case2 number line others offset h =>
    simp
    omega
  | case3 number line others offset h ih =>
    rw [ih, List.flatten_cons, size_append]
    omega

/-- The place of an offset is in the piece that it comes to after the pieces before that one. -/
theorem placeIn?_eq_some_iff {number offset : Nat} {pieces : List (List Char)} {place : LinePlace} :
  placeIn? number pieces offset = some place ↔
    ∃ above below, pieces = above ++ place.line :: below ∧ place.number = number + above.length
      ∧ size above.flatten + place.column = offset ∧ place.column < size place.line
  := by
  constructor
  · intro h
    fun_induction placeIn? number pieces offset with
    | case1 => cases h
    | case2 number line others offset hlt =>
      obtain rfl := Option.some.inj h
      exact ⟨[], others, rfl, rfl, by simp, hlt⟩
    | case3 number line others offset hle ih =>
      obtain ⟨above, below, rfl, hnumber, hoffset, hcolumn⟩ := ih h
      use line :: above, below, rfl
      simp only [List.length_cons, List.flatten_cons, size_append]
      omega
  · rintro ⟨above, below, rfl, hnumber, rfl, hcolumn⟩
    obtain ⟨_, line, column⟩ := place
    obtain rfl : _ = number + above.length := hnumber
    replace hcolumn : column < size line := hcolumn
    induction above generalizing number with
    | nil => simp [placeIn?, hcolumn]
    | cons piece above ih =>
      rw [List.cons_append, placeIn?, List.flatten_cons, size_append, Nat.add_assoc,
        if_neg (by omega), Nat.add_sub_cancel_left, ih, List.length_cons, Nat.add_assoc,
        Nat.add_comm 1]

theorem lineAt?_eq_none_iff {text : List Char} {offset : Nat} :
  lineAt? text offset = none ↔ size text ≤ offset
  := by
  rw [lineAt?, placeIn?_eq_none_iff, flatten_lines]

theorem lineAt?_eq_some_iff {text : List Char} {offset : Nat} {place : LinePlace} :
  lineAt? text offset = some place ↔
    ∃ above below, lines text = above ++ place.line :: below ∧ place.number = above.length + 1
      ∧ size above.flatten + place.column = offset ∧ place.column < size place.line
  := by
  simp only [lineAt?, placeIn?_eq_some_iff, Nat.add_comm 1]

/-- Two offsets with places are the same when their lines have the same number and their columns are the same. -/
theorem eq_of_lineAt? {text : List Char} {offset other : Nat} {place found : LinePlace}
    (hplace : lineAt? text offset = some place) (hfound : lineAt? text other = some found)
    (hnumber : place.number = found.number) (hcolumn : place.column = found.column) :
  offset = other
  := by
  obtain ⟨above, below, hlines, habove, rfl, -⟩ := lineAt?_eq_some_iff.mp hplace
  obtain ⟨above', below', hlines', habove', rfl, -⟩ := lineAt?_eq_some_iff.mp hfound
  obtain ⟨rfl, -⟩ := List.append_inj (hlines.symm.trans hlines') (by omega)
  rw [hcolumn]

/-- The last offset in a text is the last one in the last line. -/
theorem getLast?_lines {text : List Char} {place : LinePlace} {offset : Nat}
    (h : lineAt? text offset = some place) (hlast : offset + 1 = size text) :
  (lines text).getLast? = some place.line ∧ place.number = (lines text).length
    ∧ place.column + 1 = size place.line
  := by
  obtain ⟨above, below, hlines, hnumber, hoffset, hcolumn⟩ := lineAt?_eq_some_iff.mp h
  have hsize := congrArg size (flatten_lines text)
  rw [hlines, List.flatten_append, List.flatten_cons, size_append, size_append] at hsize
  have hbelow : below = [] := by
    have hcut := isCut_lines text
    rw [hlines] at hcut
    have hflatten : below.flatten = [] := by
      by_contra hne
      have hpos := size_pos hne
      omega
    rw [← hcut.of_append.tail.lines_flatten, hflatten]
    rfl
  subst hbelow
  rw [hlines]
  refine ⟨by simp, by simpa using hnumber, ?_⟩
  rw [List.flatten_nil, size_nil] at hsize
  omega

/-- Finding the line of an offset undoes cutting a text after every newline.  There is none just for the offsets
that are not less than the number of bytes.  Otherwise the line is the piece whose number is one more than that of
the newlines before the offset, the offset is in it, and the sizes of the pieces before it and the column make up
the offset.  So different offsets have different numbers or different columns. -/
theorem lineAt?_places (source : String) (offset : Nat) :
  (lineAt? source.toList offset = none ↔ source.utf8ByteSize ≤ offset)
  ∧ (∀ place, lineAt? source.toList offset = some place ↔
      place.number = 1 + (before offset source.toList).count '\n'
      ∧ ∃ above below, IsCut (above ++ place.line :: below)
        ∧ (above ++ place.line :: below).flatten = source.toList
        ∧ above.length + 1 = place.number
        ∧ size above.flatten + place.column = offset
        ∧ place.column < size place.line)
  ∧ ∀ other place found, lineAt? source.toList offset = some place →
      lineAt? source.toList other = some found →
      offset ≠ other → (place.number, place.column) ≠ (found.number, found.column)
  := by
  refine ⟨?_, ?_, ?_⟩
  · rw [lineAt?_eq_none_iff, size_toList]
  · intro place
    simp only [lineAt?_eq_some_iff, lines_eq_iff]
    constructor
    · rintro ⟨above, below, ⟨hcut, htext⟩, hnumber, rfl, hcolumn⟩
      constructor
      · rw [← htext, hcut.count_newline_before hcolumn, hnumber, Nat.add_comm]
      · exact ⟨above, below, hcut, htext, hnumber.symm, rfl, hcolumn⟩
    · rintro ⟨-, above, below, hcut, htext, hnumber, hoffset, hcolumn⟩
      exact ⟨above, below, ⟨hcut, htext⟩, hnumber.symm, hoffset, hcolumn⟩
  · intro other place found hplace hfound hne heq
    obtain ⟨hnumber, hcolumn⟩ := Prod.mk.inj heq
    apply hne (eq_of_lineAt? hplace hfound hnumber hcolumn)

/-- An empty line, a character of two bytes, and a last line that no newline ends. -/
def unevenLines : String := "a\n\né\nb"

/-- The second byte of the character and the newline after it are on one line, at different columns. -/
theorem lineAt?_unevenLines :
  lineAt? unevenLines.toList 4 = some ⟨3, ['é', '\n'], 1⟩
  ∧ lineAt? unevenLines.toList 5 = some ⟨3, ['é', '\n'], 2⟩
  ∧ 1 + (before 4 unevenLines.toList).count '\n' = 3
  ∧ ((3, 1) : Nat × Nat) ≠ (3, 2)
  := by
  have hsecond : lineAt? unevenLines.toList 4 = some ⟨3, ['é', '\n'], 1⟩ := by decide +kernel
  have hnewline : lineAt? unevenLines.toList 5 = some ⟨3, ['é', '\n'], 2⟩ := by decide +kernel
  obtain ⟨-, hplace, hdistinct⟩ := lineAt?_places unevenLines 4
  exact ⟨hsecond, hnewline, ((hplace _).mp hsecond).1.symm, hdistinct 5 _ _ hsecond hnewline (by decide)⟩

end Text
end LayoutGrammar
