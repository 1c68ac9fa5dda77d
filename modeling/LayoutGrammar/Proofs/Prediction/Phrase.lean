import LayoutGrammar.Tree.Basic
import Mathlib.Order.Lattice
import Mathlib.Tactic.Use

/-!
# Phrase

A phrase says which values may be read from which tokens.  Reading a phrase from the front of some tokens,
with one token to look ahead, comes out in one of two ways: it settles on a value and a number of tokens,
when no other reading that agrees with the tokens up to the next one is possible (`Phrase.Settles`); or it
breaks after a number of tokens, when some reading starts with them but none goes on with the next token
(`Phrase.Breaks`).  Both are kept by sequences and repetitions of phrases, provided that what may follow a
phrase cannot be taken for more of it.
-/

namespace LayoutGrammar

/-! ## Looking ahead -/

/-- Whether the first of some tokens, if there is one, is of none of some kinds. -/
def Avoids (kinds : List Terminal) (ts : List Token) : Prop := ∀ t ∈ ts.head?, t.kind ∉ kinds

theorem avoids_cons_iff {kinds : List Terminal} {t : Token} {ts : List Token} :
  Avoids kinds (t :: ts) ↔ t.kind ∉ kinds
  := by
  simp [Avoids]

theorem avoids_nil (kinds : List Terminal) : Avoids kinds [] := by
  rintro _ ⟨⟩

theorem Avoids.of_subset {kinds others : List Terminal} {ts : List Token} (h : Avoids others ts)
    (hsub : kinds ⊆ others) :
  Avoids kinds ts
  := fun t ht hk => h t ht (hsub hk)

/-- Tokens agree with others up to a place when they are the same before it and have the same token, or
none, there. -/
def Agrees (place : Nat) (us ts : List Token) : Prop := us.take (place + 1) = ts.take (place + 1)

theorem Agrees.of_le {place closer : Nat} {us ts : List Token} (h : Agrees place us ts)
    (hle : closer ≤ place) :
  Agrees closer us ts
  := by
  have htake := congrArg (List.take (closer + 1)) h
  rwa [List.take_take, List.take_take, Nat.min_eq_left (by omega)] at htake

theorem Agrees.getElem?_eq {place i : Nat} {us ts : List Token} (h : Agrees place us ts)
    (hi : i ≤ place) :
  us[i]? = ts[i]?
  := by
  have hget := congrArg (fun l : List Token => l[i]?) h
  simpa [List.getElem?_take, Nat.lt_succ_of_le hi] using hget

theorem Agrees.head?_eq {place : Nat} {us ts : List Token} (h : Agrees place us ts) :
  us.head? = ts.head?
  := by
  rw [List.head?_eq_getElem?, List.head?_eq_getElem?, h.getElem?_eq (Nat.zero_le place)]

theorem Agrees.avoids_iff {place : Nat} {us ts : List Token} (h : Agrees place us ts)
    {kinds : List Terminal} :
  Avoids kinds us ↔ Avoids kinds ts
  := by
  rw [Avoids, Avoids, h.head?_eq]

theorem Agrees.drop {first second : Nat} {us ts : List Token}
    (h : Agrees (first + second) (ts.take first ++ us) ts) (hle : first ≤ ts.length) :
  Agrees second us (ts.drop first)
  := by
  have hdrop := congrArg (List.drop first) h
  rw [List.drop_take, List.drop_take, List.drop_left' (List.length_take_of_le hle)] at hdrop
  rwa [show first + second + 1 - first = second + 1 by omega] at hdrop

/-! ## Phrases -/

/-- Which values may be read from which tokens. -/
def Phrase (α : Type) : Type := α → List Token → Prop

namespace Phrase

/-- Phrases that read the same values from the same tokens are equal. -/
@[ext]
theorem ext {α : Type} {P Q : Phrase α} (h : ∀ value ts, P value ts ↔ Q value ts) :
  P = Q
  := by
  funext value ts
  apply propext (h value ts)

variable {α β : Type} {P Q : Phrase (List Tree)} {ts : List Token}

/-- One phrase after another, with the trees of both. -/
def seq (P Q : Phrase (List Tree)) : Phrase (List Tree) := fun trees ts =>
  ∃ left right us vs, P left us ∧ Q right vs ∧ trees = left ++ right ∧ ts = us ++ vs

/-- The phrase of no tokens. -/
def nothing : Phrase (List Tree) := fun trees ts => trees = [] ∧ ts = []

/-- Any number of readings of a phrase, one after the other. -/
inductive Many (P : Phrase (List Tree)) : Phrase (List Tree)
  | nil : Many P [] []
  | cons {trees others : List Tree} {us vs : List Token} (first : P trees us) (more : Many P others vs) :
      Many P (trees ++ others) (us ++ vs)

/-- One or more readings of a phrase, one after the other. -/
def oneOrMore (P : Phrase (List Tree)) : Phrase (List Tree) := P.seq (Many P)

/-- What a phrase reads, or nothing. -/
def optional (P : Phrase (List Tree)) : Phrase (List Tree) := fun trees ts =>
  nothing trees ts ∨ P trees ts

/-- What any of some phrases reads. -/
def any {ι : Type} (alternatives : List ι) (P : ι → Phrase α) : Phrase α := fun value ts =>
  ∃ i ∈ alternatives, P i value ts

/-- The phrase of the images of what a phrase reads. -/
def map (f : α → β) (P : Phrase α) : Phrase β := fun value ts => ∃ a, P a ts ∧ f a = value

/-- Whether a phrase always reads a token, the first one being of one of some kinds. -/
def StartsIn (P : Phrase α) (kinds : List Terminal) : Prop :=
  ∀ value ts, P value ts → ∃ t us, ts = t :: us ∧ t.kind ∈ kinds

/-- Whether a phrase reads anything at all. -/
def Inhabited (P : Phrase α) : Prop := ∃ value ts, P value ts

/-- Whether what a phrase reads, with anything that may come after it, avoids some kinds. -/
def Clears (P : Phrase α) (kinds last : List Terminal) : Prop :=
  ∀ value ts us, P value ts → Avoids last us → Avoids kinds (ts ++ us)

theorem StartsIn.seq {kinds : List Terminal} (h : P.StartsIn kinds) (Q : Phrase (List Tree)) :
  (P.seq Q).StartsIn kinds
  := by
  rintro _ _ ⟨left, right, us, vs, hP, -, rfl, rfl⟩
  obtain ⟨t, us, rfl, ht⟩ := h left us hP
  use t, us ++ vs, rfl

theorem StartsIn.map {P : Phrase α} {kinds : List Terminal} (h : P.StartsIn kinds) (f : α → β) :
  (P.map f).StartsIn kinds
  := by
  rintro _ ts ⟨value, hP, -⟩
  apply h value ts hP

theorem StartsIn.not_avoids {P : Phrase α} {kinds : List Terminal} (h : P.StartsIn kinds) {value : α}
    {us vs : List Token} (hP : P value us) :
  ¬ Avoids kinds (us ++ vs)
  := by
  obtain ⟨t, us, rfl, ht⟩ := h value us hP
  rw [List.cons_append, avoids_cons_iff]
  simpa using ht

theorem StartsIn.clears {P : Phrase α} {first kinds : List Terminal} (h : P.StartsIn first)
    (hdisjoint : ∀ kind ∈ first, kind ∉ kinds) (last : List Terminal) :
  P.Clears kinds last
  := by
  rintro value us vs hP -
  obtain ⟨t, us, rfl, ht⟩ := h value us hP
  rw [List.cons_append, avoids_cons_iff]
  apply hdisjoint _ ht

theorem Inhabited.seq (hP : P.Inhabited) (hQ : Q.Inhabited) :
  (P.seq Q).Inhabited
  := by
  obtain ⟨left, us, hleft⟩ := hP
  obtain ⟨right, vs, hright⟩ := hQ
  use left ++ right, us ++ vs, left, right, us, vs

theorem inhabited_nothing : nothing.Inhabited := ⟨[], [], rfl, rfl⟩

theorem inhabited_optional (P : Phrase (List Tree)) : P.optional.Inhabited :=
  ⟨[], [], Or.inl ⟨rfl, rfl⟩⟩

/-- Any number of readings is one with more, or none. -/
theorem many_eq (P : Phrase (List Tree)) :
  P.Many = P.oneOrMore.optional
  := by
  ext trees ts
  constructor
  · rintro (_ | ⟨first, more⟩)
    · apply Or.inl ⟨rfl, rfl⟩
    · apply Or.inr ⟨_, _, _, _, first, more, rfl, rfl⟩
  · rintro (⟨rfl, rfl⟩ | ⟨_, _, _, _, first, more, rfl, rfl⟩)
    · apply Many.nil
    · apply Many.cons first more

/-! ## Settling and breaking -/

/-- Whether reading a phrase from the front of some tokens comes to a value and a number of tokens, and any
other reading that agrees with the tokens up to the next one is the same, if what comes after it avoids the
kinds that would go on with the phrase. -/
structure Settles (P : Phrase α) (last : List Terminal) (ts : List Token) (value : α) (count : Nat) :
    Prop where
  /-- The tokens are there. -/
  le : count ≤ ts.length
  /-- The value is read from them. -/
  reads : P value (ts.take count)
  /-- Nothing else is. -/
  unique : ∀ {other us vs}, P other us → Avoids last vs → Agrees count (us ++ vs) ts →
    other = value ∧ us = ts.take count

/-- Whether no reading of a phrase, followed by what avoids the kinds that would go on with it, agrees with
some tokens up to a place. -/
def Dead (P : Phrase α) (last : List Terminal) (ts : List Token) (place : Nat) : Prop :=
  ∀ ⦃value us vs⦄, P value us → Avoids last vs → ¬ Agrees place (us ++ vs) ts

/-- Whether reading a phrase from the front of some tokens comes to a place up to which it can be read but
not on from there. -/
structure Breaks (P : Phrase α) (last : List Terminal) (ts : List Token) (count : Nat) : Prop where
  /-- The tokens are there. -/
  le : count ≤ ts.length
  /-- Some reading starts with them. -/
  viable : ∃ value us, P value (ts.take count ++ us)
  /-- None goes on with the next token, or ends with them if there is none. -/
  dead : P.Dead last ts count

section Verdict

variable {first last next : List Terminal} {left right : List Tree} {count more : Nat}

theorem Settles.pos {P : Phrase α} {value : α} (h : P.Settles last ts value count)
    (hstart : P.StartsIn first) :
  0 < count
  := by
  obtain ⟨t, us, htake, -⟩ := hstart _ _ h.reads
  apply Nat.pos_of_ne_zero
  rintro rfl
  simp at htake

/-- Tokens on which a phrase settles start as the phrase does. -/
theorem Settles.not_avoids {P : Phrase α} {value : α} (h : P.Settles last ts value count)
    (hstart : P.StartsIn first) :
  ¬ Avoids first ts
  := by
  have havoids : ¬ Avoids first (ts.take count ++ ts.drop count) := hstart.not_avoids h.reads
  rwa [List.take_append_drop] at havoids

/-- Tokens on which a phrase breaks after the first start as the phrase does. -/
theorem Breaks.not_avoids {P : Phrase α} (h : P.Breaks last ts count) (hpos : 0 < count)
    (hstart : P.StartsIn first) :
  ¬ Avoids first ts
  := by
  obtain ⟨value, us, hP⟩ := h.viable
  have hts : ts ≠ [] := List.ne_nil_of_length_pos (lt_of_lt_of_le hpos h.le)
  obtain ⟨t, ts, rfl⟩ := List.exists_cons_of_ne_nil hts
  obtain ⟨count, rfl⟩ := Nat.exists_eq_add_of_lt hpos
  have havoids : ¬ Avoids first (_ ++ []) := hstart.not_avoids hP
  simpa [avoids_cons_iff] using havoids

theorem Dead.of_le {P : Phrase α} (h : P.Dead last ts count) (hle : count ≤ more) :
  P.Dead last ts more
  := fun _ _ _ hP hvs hagree => h hP hvs (hagree.of_le hle)

theorem Dead.of_subset {P : Phrase α} (h : P.Dead next ts count) (hsub : next ⊆ last) :
  P.Dead last ts count
  := fun _ _ _ hP hvs hagree => h hP (hvs.of_subset hsub) hagree

/-- No reading of a phrase agrees with tokens that start with none of its kinds. -/
theorem StartsIn.dead {P : Phrase α} (hstart : P.StartsIn first) (h : Avoids first ts) :
  P.Dead last ts count
  := fun _ _ _ hP _ hagree => hstart.not_avoids hP (hagree.avoids_iff.mpr h)

/-- A phrase breaks at once on tokens that start with none of its kinds. -/
theorem breaks_zero {P : Phrase α} (hP : P.Inhabited) (hstart : P.StartsIn first)
    (h : Avoids first ts) :
  P.Breaks last ts 0
  where
  le := Nat.zero_le _
  viable := by
    obtain ⟨value, us, hus⟩ := hP
    use value, us
    simpa using hus
  dead := hstart.dead h

theorem settles_nothing : nothing.Settles last ts [] 0 where
  le := Nat.zero_le _
  reads := ⟨rfl, rfl⟩
  unique := by
    rintro _ _ _ ⟨rfl, rfl⟩ - -
    simp

/-- A phrase that settles, followed by one that settles on what is left. -/
theorem Settles.seq (hP : P.Settles next ts left count) (hQ : Q.Settles last (ts.drop count) right more)
    (hclear : Q.Clears next last) :
  (P.seq Q).Settles last ts (left ++ right) (count + more)
  where
  le := by
    have hle := hQ.le
    rw [List.length_drop] at hle
    have := hP.le
    omega
  reads := by
    rw [List.take_add]
    exact ⟨left, right, _, _, hP.reads, hQ.reads, rfl, rfl⟩
  unique := by
    rintro _ _ vs ⟨left', right', us, us', hleft, hright, rfl, rfl⟩ hvs hagree
    rw [List.append_assoc] at hagree
    obtain ⟨rfl, rfl⟩ := hP.unique hleft (hclear _ _ _ hright hvs)
      (hagree.of_le (Nat.le_add_right count more))
    obtain ⟨rfl, rfl⟩ := hQ.unique hright hvs (hagree.drop hP.le)
    use rfl
    rw [List.take_add]

/-- A phrase that settles, followed by one that breaks on what is left. -/
theorem Settles.seq_breaks (hP : P.Settles next ts left count) (hQ : Q.Breaks last (ts.drop count) more)
    (hclear : Q.Clears next last) :
  (P.seq Q).Breaks last ts (count + more)
  where
  le := by
    have hle := hQ.le
    rw [List.length_drop] at hle
    have := hP.le
    omega
  viable := by
    obtain ⟨right, us, hright⟩ := hQ.viable
    rw [List.take_add]
    refine ⟨left ++ right, us, left, right, _, _, hP.reads, hright, rfl, ?_⟩
    rw [List.append_assoc]
  dead := by
    rintro _ _ vs ⟨left', right', us, us', hleft, hright, rfl, rfl⟩ hvs hagree
    rw [List.append_assoc] at hagree
    obtain ⟨rfl, rfl⟩ := hP.unique hleft (hclear _ _ _ hright hvs)
      (hagree.of_le (Nat.le_add_right count more))
    apply hQ.dead hright hvs (hagree.drop hP.le)

/-- A phrase that breaks does so whatever should follow it. -/
theorem Breaks.seq (hP : P.Breaks next ts count) (hQ : Q.Inhabited) (hclear : Q.Clears next last) :
  (P.seq Q).Breaks last ts count
  where
  le := hP.le
  viable := by
    obtain ⟨left, us, hleft⟩ := hP.viable
    obtain ⟨right, vs, hright⟩ := hQ
    refine ⟨left ++ right, us ++ vs, left, right, _, vs, hleft, hright, rfl, ?_⟩
    rw [List.append_assoc]
  dead := by
    rintro _ _ vs ⟨left', right', us, us', hleft, hright, rfl, rfl⟩ hvs hagree
    rw [List.append_assoc] at hagree
    apply hP.dead hleft (hclear _ _ _ hright hvs) hagree

/-- A phrase settles on its image where it settles. -/
theorem Settles.map {P : Phrase α} {value : α} (h : P.Settles last ts value count) (f : α → β) :
  (P.map f).Settles last ts (f value) count
  where
  le := h.le
  reads := ⟨value, h.reads, rfl⟩
  unique := by
    rintro _ us vs ⟨other, hother, rfl⟩ hvs hagree
    obtain ⟨rfl, rfl⟩ := h.unique hother hvs hagree
    use rfl

theorem Breaks.map {P : Phrase α} (h : P.Breaks last ts count) (f : α → β) :
  (P.map f).Breaks last ts count
  where
  le := h.le
  viable := by
    obtain ⟨value, us, hus⟩ := h.viable
    use f value, us, value
  dead := by
    rintro _ us vs ⟨other, hother, rfl⟩ hvs hagree
    apply h.dead hother hvs hagree

/-! ## Alternatives -/

section

variable {ι : Type} {alternatives : List ι} {i : ι} {P : ι → Phrase α} {others : List Terminal}

/-- Several phrases settle where one of them does and no other one can be read. -/
theorem Settles.any {value : α} (hi : i ∈ alternatives) (h : (P i).Settles others ts value count)
    (hsub : others ⊆ last) (hdead : ∀ j ∈ alternatives, j = i ∨ (P j).Dead last ts count) :
  (any alternatives P).Settles last ts value count
  where
  le := h.le
  reads := ⟨i, hi, h.reads⟩
  unique := by
    rintro other us vs ⟨j, hj, hother⟩ hvs hagree
    rcases hdead j hj with rfl | hdead
    · apply h.unique hother (hvs.of_subset hsub) hagree
    · apply absurd hagree (hdead hother hvs)

/-- Several phrases break where one of them does and no other one can be read. -/
theorem Breaks.any (hi : i ∈ alternatives) (h : (P i).Breaks others ts count)
    (hdead : ∀ j ∈ alternatives, (P j).Dead last ts count) :
  (any alternatives P).Breaks last ts count
  where
  le := h.le
  viable := by
    obtain ⟨value, us, hus⟩ := h.viable
    use value, us, i
  dead := by
    rintro other us vs ⟨j, hj, hother⟩ hvs
    apply hdead j hj hother hvs

end

/-! ## Options -/

/-- A phrase that may be left out is, before tokens with which it does not start. -/
theorem settles_optional_of_avoids (hstart : P.StartsIn first) (h : Avoids first ts) :
  P.optional.Settles last ts [] 0
  where
  le := Nat.zero_le _
  reads := Or.inl ⟨rfl, rfl⟩
  unique := by
    rintro other us vs (⟨rfl, rfl⟩ | hother) hvs hagree
    · simp
    · apply absurd (hagree.avoids_iff.mpr h) (hstart.not_avoids hother)

/-- A phrase that may be left out is not where it settles. -/
theorem Settles.optional (h : P.Settles last ts left count) (hstart : P.StartsIn first)
    (hsub : first ⊆ last) :
  P.optional.Settles last ts left count
  where
  le := h.le
  reads := Or.inr h.reads
  unique := by
    rintro other us vs (⟨rfl, rfl⟩ | hother) hvs hagree
    · apply absurd (hagree.avoids_iff.mp (hvs.of_subset hsub)) (h.not_avoids hstart)
    · apply h.unique hother hvs hagree

theorem Breaks.optional (h : P.Breaks last ts count) (hpos : 0 < count) (hstart : P.StartsIn first)
    (hsub : first ⊆ last) :
  P.optional.Breaks last ts count
  where
  le := h.le
  viable := by
    obtain ⟨value, us, hus⟩ := h.viable
    use value, us
    apply Or.inr hus
  dead := by
    rintro other us vs (⟨rfl, rfl⟩ | hother) hvs hagree
    · apply absurd (hagree.avoids_iff.mp (hvs.of_subset hsub)) (h.not_avoids hpos hstart)
    · apply h.dead hother hvs hagree

/-- More readings of a phrase may come after one, if no kind that the phrase starts with would go on with
it. -/
theorem StartsIn.clears_many (hstart : P.StartsIn first) (hdisjoint : ∀ kind ∈ first, kind ∉ next) :
  P.Many.Clears next (next ++ first)
  := by
  rw [many_eq]
  rintro value us vs (⟨rfl, rfl⟩ | hmany) hvs
  · apply hvs.of_subset (List.subset_append_left next first)
  · apply (hstart.seq _).clears hdisjoint _ value us vs hmany hvs

end Verdict

end Phrase
end LayoutGrammar
