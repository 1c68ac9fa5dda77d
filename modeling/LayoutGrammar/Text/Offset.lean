/-!
# Offset

Texts are lists of characters, and a place in a text is an offset: a number of bytes of the UTF-8 form
of the text.  `size` is the number of bytes of a text; `after?` drops a number of bytes, and answers
only when that number ends a character.  `after?_eq_some_iff` says that the offsets it answers are those
of the ends of the initial pieces of the text.
-/

namespace LayoutGrammar
namespace Text

/-- The number of bytes of a text. -/
def size : List Char → Nat
  | [] => 0
  | c :: text => c.utf8Size + size text

/-- What follows the first bytes of a text, when they end a character. -/
def after? : Nat → List Char → Option (List Char)
  | 0, text => some text
  | _ + 1, [] => none
  | n + 1, c :: text => if c.utf8Size ≤ n + 1 then after? (n + 1 - c.utf8Size) text else none

@[simp]
theorem size_nil : size [] = 0 := rfl

@[simp]
theorem size_cons (c : Char) (text : List Char) : size (c :: text) = c.utf8Size + size text := rfl

@[simp]
theorem size_append (a b : List Char) : size (a ++ b) = size a + size b := by
  induction a with
  | nil => simp
  | cons c a ih => simp [ih, Nat.add_assoc]

theorem size_pos {text : List Char} (h : text ≠ []) :
  0 < size text
  := by
  obtain ⟨c, others, rfl⟩ := List.exists_cons_of_ne_nil h
  have := c.utf8Size_pos
  rw [size_cons]
  omega

/-- The number of bytes of a text is that of the string of its characters. -/
theorem size_toList (s : String) : size s.toList = s.utf8ByteSize := by
  rw [← @String.ofList_toList s]
  generalize s.toList = text
  rw [String.toList_ofList]
  induction text with
  | nil => rfl
  | cons c text ih =>
    rw [size_cons, ih, ← List.singleton_append, String.ofList_append, String.utf8ByteSize_append]
    simp

@[simp]
theorem after?_zero (text : List Char) : after? 0 text = some text := by
  cases text <;> rfl

theorem after?_cons (n : Nat) (c : Char) (text : List Char) :
  after? (c.utf8Size + n) (c :: text) = after? n text
  := by
  obtain ⟨k, hk⟩ := Nat.exists_eq_succ_of_ne_zero (Nat.pos_iff_ne_zero.1 c.utf8Size_pos)
  rw [hk, Nat.succ_add]
  simp [after?, hk]

/-- Dropping the bytes of an initial piece leaves the other piece. -/
@[simp]
theorem after?_size_append (a b : List Char) : after? (size a) (a ++ b) = some b := by
  induction a with
  | nil => simp
  | cons c a ih => simp [after?_cons, ih]

/-- The answers of `after?` are the pieces that end a text. -/
theorem after?_eq_some_iff {n : Nat} {text rest : List Char} :
  after? n text = some rest ↔ ∃ front, text = front ++ rest ∧ size front = n
  := by
  constructor
  · intro h
    fun_induction after? n text with
    | case1 text => exact ⟨[], by simpa using h, rfl⟩
    | case2 => cases h
    | case3 n c text hc ih =>
      obtain ⟨front, hfront, hsize⟩ := ih h
      exact ⟨c :: front, by simp [hfront], by simp [hsize]; omega⟩
    | case4 => cases h
  · rintro ⟨front, rfl, rfl⟩
    apply after?_size_append

end Text
end LayoutGrammar
