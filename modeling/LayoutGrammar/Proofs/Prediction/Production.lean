import LayoutGrammar.Proofs.Prediction.Choice

/-!
# Evaluating a production

An item comes out as an outlook foretells when one match of its target does, the repetition of an item
being greedy; the items of a production do when each of them does; and so does the production.
-/

namespace LayoutGrammar

/-! ## Sequences at a place -/

namespace Phrase

variable {P Q : Phrase (List Tree)} {first last next : List Terminal} {c mid stop : Cursor}
  {left right : List Tree} {reach further : Nat} {found : Matches}

theorem SettlesAt.length_le (h : P.SettlesAt last c left stop reach) :
  stop.rest.length ≤ c.rest.length
  := by
  obtain ⟨count, rfl, -, -⟩ := h
  simp

theorem SettlesAt.seq (hP : P.SettlesAt next c left mid reach)
    (hQ : Q.SettlesAt last mid right stop further) (hclear : Q.Clears next last) :
  (P.seq Q).SettlesAt last c (left ++ right) stop (max reach further)
  := by
  obtain ⟨count, rfl, hsettles, hreach⟩ := hP
  obtain ⟨more, rfl, hmore, hfurther⟩ := hQ
  simp only [Cursor.index_advance] at hreach hfurther
  refine ⟨count + more, by simp, hsettles.seq hmore hclear, ?_⟩
  simp only [Cursor.index_advance]
  omega

theorem SettlesAt.seq_breaks (hP : P.SettlesAt next c left mid reach) (hQ : Q.BreaksAt last mid further)
    (hclear : Q.Clears next last) :
  (P.seq Q).BreaksAt last c (max reach further)
  := by
  obtain ⟨count, rfl, hsettles, hreach⟩ := hP
  obtain ⟨more, hmore, rfl⟩ := hQ
  simp only [Cursor.index_advance] at hreach
  refine ⟨count + more, hsettles.seq_breaks hmore hclear, ?_⟩
  simp only [Cursor.index_advance]
  omega

/-- A phrase that breaks after one that settles breaks later than where that started. -/
theorem SettlesAt.seq_breaksLater (hP : P.SettlesAt next c left mid reach)
    (hQ : Q.BreaksAt last mid further) (hclear : Q.Clears next last) (hstart : P.StartsIn first) :
  (P.seq Q).BreaksLater last c (max reach further)
  := by
  use hP.seq_breaks hQ hclear
  obtain ⟨count, rfl, hsettles, -⟩ := hP
  obtain ⟨more, -, rfl⟩ := hQ
  have hpos := hsettles.pos hstart
  simp only [Cursor.index_advance]
  omega

theorem BreaksAt.seq (hP : P.BreaksAt next c reach) (hQ : Q.Inhabited) (hclear : Q.Clears next last) :
  (P.seq Q).BreaksAt last c reach
  := by
  obtain ⟨count, hbreaks, hreach⟩ := hP
  use count, hbreaks.seq hQ hclear

theorem BreaksLater.optional (h : P.BreaksLater last c reach) (hstart : P.StartsIn first)
    (hsub : first ⊆ last) :
  P.optional.BreaksLater last c reach
  := by
  obtain ⟨⟨count, hbreaks, rfl⟩, hlt⟩ := h
  use ⟨count, hbreaks.optional (by omega) hstart hsub, rfl⟩

/-- Whether the matches that were found at a place are what a phrase that starts with some kinds settles
on, or none when it does not start there. -/
def Yields (P : Phrase (List Tree)) (first last : List Terminal) (c : Cursor) (found : Matches)
    (reach : Nat) : Prop :=
  (found = ⟨⟨[], c⟩, 0⟩ ∧ Avoids first c.rest ∧ reach = 0)
    ∨ (0 < found.count ∧ P.SettlesAt last c found.trees found.cursor reach)

theorem Yields.optional (h : P.Yields first last c found reach) (hstart : P.StartsIn first)
    (hsub : first ⊆ last) :
  P.optional.SettlesAt last c found.trees found.cursor reach
  := by
  rcases h with ⟨rfl, havoids, rfl⟩ | ⟨-, count, hstop, hsettles, hreach⟩
  · use 0, rfl, settles_optional_of_avoids hstart havoids
    apply Nat.zero_le
  · use count, hstop, hsettles.optional hstart hsub

theorem Yields.length_le (h : P.Yields first last c found reach) :
  found.cursor.rest.length ≤ c.rest.length
  := by
  rcases h with ⟨rfl, -, -⟩ | ⟨-, hsettles⟩
  · apply le_refl
  · apply hsettles.length_le

end Phrase

/-! ## Items -/

theorem Target.IsDeep.mono {o : Outlook} {room : Nat} {target : Target} {c c' : Cursor}
    (h : target.IsDeep o room c') (hle : c'.rest.length ≤ c.rest.length) :
  target.IsDeep o room c
  := by
  obtain ⟨head, hhead, hroom⟩ := h
  use head, hhead
  apply le_trans hroom
  apply Nat.add_le_add_left
  apply Nat.mul_le_mul_left _ hle

/-- Whether an attempt to match an item at a place comes out as foretold. -/
def Item.IsForetold (o : Outlook) (m : Meaning) (item : Item) (rule : Nonterminal) (c : Cursor)
    (attempt : Attempt Matches) (deep : Prop) : Prop :=
  attempt.Ends ((item.opening m rule).Yields (item.target.first o) (item.next o) c)
    ((item.opening m rule).BreaksLater (item.next o) c) deep

section

variable {o : Outlook} {g : Grammar} {m : Meaning} (h : o.Foresees g m)
include h

/-- Matching as often as possible comes out as foretold when a match does, if no kind that a match starts
with would go on with it. -/
theorem matchMany_ends {once : Cursor → Attempt (Option Piece)} {target : Target} {rule : Nonterminal}
    {room : Nat} (honce : ∀ c, target.IsForetold o m rule c (once c) (target.IsDeep o room c))
    (hdisjoint : ∀ kind ∈ target.first o, kind ∉ target.next o) (c : Cursor) :
  (matchMany once c).Ends
    ((target.phrase m rule).oneOrMore.Yields (target.first o) (target.next o ++ target.first o) c)
    ((target.phrase m rule).oneOrMore.BreaksLater (target.next o ++ target.first o) c)
    (target.IsDeep o room c)
  := by
  have hstart := h.target_startsIn target rule
  have hmany := hstart.seq (target.phrase m rule).Many
  have hclear := hstart.clears_many hdisjoint
  have hsub : target.first o ⊆ target.next o ++ target.first o := List.subset_append_right _ _
  induction hc : c.rest.length using Nat.strong_induction_on generalizing c with
  | _ n ih =>
    rw [matchMany]
    apply (honce c).bind
    · rintro (_ | piece) reach hfound
      · obtain ⟨havoids, rfl⟩ := hfound
        apply Attempt.ends_pure
        apply Or.inl ⟨rfl, havoids, rfl⟩
      · have hlt := hfound.length_lt hstart
        simp only [if_pos hlt]
        apply (ih _ (hc ▸ hlt) piece.cursor rfl).bind
        · intro others further hothers
          have hrest := hothers.optional hmany hsub
          rw [← Phrase.many_eq] at hrest
          apply Attempt.ends_pure
          rw [Nat.max_zero]
          apply Or.inr ⟨Nat.succ_pos _, hfound.seq hrest hclear⟩
        · intro further hstuck
          have hrest := hstuck.optional hmany hsub
          rw [← Phrase.many_eq] at hrest
          apply hfound.seq_breaksLater hrest.1 hclear hstart
        · intro hdeep
          apply hdeep.mono (le_of_lt hlt)
    · rintro reach ⟨hbreaks, hlt⟩
      refine ⟨hbreaks.seq ?_ hclear, hlt⟩
      rw [Phrase.many_eq]
      apply Phrase.inhabited_optional
    · apply id

/-- An item comes out as foretold when a match of its target does. -/
theorem matchItem_isForetold {s : Setting} {inner : Evaluator} {room : Nat} {rule : Nonterminal}
    {item : Item} {c : Cursor}
    (honce : ∀ c', item.repetition.isRepeated = true ∨ c' = c →
      item.target.IsForetold o m rule c' (matchOnce s inner rule item.target c')
        (item.target.IsDeep o room c'))
    (hdisjoint : item.repetition.isRepeated = true → ∀ kind ∈ item.target.first o,
      kind ∉ item.target.next o) :
  item.IsForetold o m rule c (matchItem s inner rule item c) (item.target.IsDeep o room c)
  := by
  unfold Item.IsForetold matchItem Item.opening Item.next
  cases hrepeated : item.repetition.isRepeated with
  | true => apply matchMany_ends h (fun c' => honce c' (Or.inl hrepeated)) (hdisjoint hrepeated)
  | false =>
    apply (honce c (Or.inr rfl)).bind
    · rintro (_ | piece) reach hfound
      · obtain ⟨havoids, rfl⟩ := hfound
        apply Attempt.ends_pure
        apply Or.inl ⟨rfl, havoids, rfl⟩
      · apply Attempt.ends_pure
        rw [Nat.max_zero]
        apply Or.inr ⟨Nat.one_pos, hfound⟩
    · intro reach hstuck
      apply hstuck
    · apply id

/-! ## Continuations -/

omit h in
/-- More of an item that may be left out would start as the item does. -/
theorem Item.first_subset_next {item : Item} (hmin : item.repetition.minimum = 0)
    (honce : item.repetition ≠ .atMostOnce) :
  item.target.first o ⊆ item.next o
  := by
  have hrepeated : item.repetition.isRepeated = true := by
    cases hr : item.repetition <;> simp_all [Repetition.minimum, Repetition.isRepeated]
  rw [Item.next, if_pos hrepeated]
  apply List.subset_append_right

/-- A continuation settles on matches that are enough. -/
theorem Item.settles_phrase {item : Item} {rule : Nonterminal} {c : Cursor} {found : Matches} {reach : Nat}
    (hfound : (item.opening m rule).Yields (item.target.first o) (item.next o) c found reach)
    (henough : item.repetition.minimum ≤ found.count) (honce : item.repetition ≠ .atMostOnce) :
  (item.phrase m rule).SettlesAt (item.next o) c found.trees found.cursor reach
  := by
  unfold Item.phrase
  split
  next hmin =>
    apply hfound.optional (h.opening_startsIn item rule) (Item.first_subset_next hmin honce)
  next hmin =>
    rcases hfound with ⟨rfl, -⟩ | ⟨-, hsettles⟩
    · apply absurd (Nat.le_zero.mp henough) hmin
    · apply hsettles

/-- A continuation breaks where its matches do. -/
theorem Item.breaks_phrase {item : Item} {rule : Nonterminal} {c : Cursor} {reach : Nat}
    (hstuck : (item.opening m rule).BreaksLater (item.next o) c reach)
    (honce : item.repetition ≠ .atMostOnce) :
  (item.phrase m rule).BreaksAt (item.next o) c reach
  := by
  unfold Item.phrase
  split
  next hmin =>
    apply (hstuck.optional (h.opening_startsIn item rule) (Item.first_subset_next hmin honce)).1
  next => apply hstuck.1

/-- A continuation breaks at once when it has too few matches, and that is where the mismatch is. -/
theorem Item.breaks_of_tooFew {s : Setting} {item : Item} {rule : Nonterminal} {c : Cursor}
    {found : Matches} {reach : Nat}
    (hfound : (item.opening m rule).Yields (item.target.first o) (item.next o) c found reach)
    (hfew : found.count < item.repetition.minimum) :
  (item.phrase m rule).BreaksAt (item.next o) c
    (max reach (mismatchAt s rule item found.cursor .tooFew).reach)
  := by
  have hle : item.repetition.minimum ≤ 1 := by
    cases item.repetition <;> decide
  rcases hfound with ⟨rfl, havoids, rfl⟩ | ⟨hpos, -⟩
  · have hmin : item.repetition.minimum ≠ 0 := by omega
    rw [Item.phrase, if_neg hmin, Nat.zero_max]
    use 0, Phrase.breaks_zero (h.opening_inhabited item rule) (h.opening_startsIn item rule) havoids
    rfl
  · omega

/-- The continuations of a production come out as foretold when each of them does. -/
theorem matchAll_ends {s : Setting} {inner : Evaluator} {room : Nat} {rule : Nonterminal}
    {last : List Terminal} {items : List Item} {before : Piece}
    (hitems : ∀ item ∈ items, ∀ c,
      item.IsForetold o m rule c (matchItem s inner rule item c) (item.target.IsDeep o room c))
    (hseparates : Item.separates o last items = true) :
  (matchAll s inner rule items before).Ends
    (fun piece reach => ∃ trees, piece.trees = before.trees ++ trees ∧
      (Item.phrases m rule items).SettlesAt last before.cursor trees piece.cursor reach)
    ((Item.phrases m rule items).BreaksAt last before.cursor)
    (∃ item ∈ items, item.target.IsDeep o room before.cursor)
  := by
  induction items generalizing before with
  | nil =>
    apply Attempt.ends_pure
    use [], by simp, 0, rfl, Phrase.settles_nothing
    apply Nat.zero_le
  | cons item items ih =>
    simp only [Item.separates, Bool.and_eq_true, decide_eq_true_eq] at hseparates
    obtain ⟨⟨⟨honce, hclears⟩, -⟩, hmore⟩ := hseparates
    have hclear := h.phrases_clears rule hclears
    rw [matchAll]
    apply (hitems item List.mem_cons_self before.cursor).bind
    · intro found reach hfound
      split
      next hfew =>
        apply Attempt.ends_raise rfl
        apply (Item.breaks_of_tooFew h hfound hfew).seq (h.phrases_inhabited rule items) hclear
      next henough =>
        rw [if_neg (fun hmost => honce hmost.1)]
        have hsettles := Item.settles_phrase h hfound (Nat.le_of_not_lt henough) honce
        apply (ih (fun i hi => hitems i (List.mem_cons_of_mem item hi)) hmore).mono
        · rintro piece further ⟨trees, htrees, hrest⟩
          refine ⟨found.trees ++ trees, ?_, hsettles.seq hrest hclear⟩
          rw [htrees, List.append_assoc]
        · intro further hrest
          apply hsettles.seq_breaks hrest hclear
        · rintro ⟨i, hi, hdeep⟩
          exact ⟨i, List.mem_cons_of_mem item hi, hdeep.mono hfound.length_le⟩
    · intro reach hstuck
      apply (Item.breaks_phrase h hstuck honce).seq (h.phrases_inhabited rule items) hclear
    · intro hdeep
      use item, List.mem_cons_self

/-! ## Productions -/

omit h in
/-- What matches an opening item is nested less deeply than its production. -/
theorem Target.IsDeep.of_opening {p : Production} {room : Nat} {c : Cursor} (hsuits : o.Suits g p)
    (hdeep : p.opening.target.IsDeep o room c) :
  room + 1 ≤ o.depth p.rule c
  := by
  obtain ⟨head, hhead, hroom⟩ := hdeep
  have hrank := hsuits.rank head hhead
  unfold Outlook.depth at *
  omega

omit h in
/-- What matches a continuation is nested less deeply than its production, as a token has been read. -/
theorem Target.IsDeep.of_continuation {p : Production} {room : Nat} {c c' : Cursor} {item : Item}
    (hsuits : o.Suits g p) (hitem : item ∈ p.continuations) (hlt : c'.rest.length < c.rest.length)
    (hdeep : item.target.IsDeep o room c') :
  room + 1 ≤ o.depth p.rule c
  := by
  obtain ⟨head, hhead, hroom⟩ := hdeep
  have hrank := hsuits.height head (List.mem_flatMap_of_mem (List.mem_cons_of_mem _ hitem) hhead)
  have hmul := Nat.mul_le_mul_left o.height (Nat.succ_le_of_lt hlt)
  rw [Nat.mul_succ] at hmul
  unfold Outlook.depth at *
  omega

/-- What was read at a place is the node of the trees of a production that settles there. -/
theorem Production.foretells_of_settlesAt {p : Production} {c stop : Cursor} {trees : List Tree}
    {reach : Nat} (hp : p ∈ g.productions)
    (hbody : (p.body m).SettlesAt (o.next p.rule) c trees stop reach) :
  trees ≠ [] ∧ (p.phrase m).Foretells (o.next p.rule) c (p.first o)
    (Reading.found? ⟨⟨p.rule, trees⟩, stop.index - c.index⟩ c) reach
  := by
  have hphrase := hbody.map (Node.mk p.rule)
  rw [← h.phrase_eq hp] at hphrase
  obtain ⟨count, rfl, hsettles, hreach⟩ := hphrase
  have hne : trees ≠ [] := hsettles.reads.2.1
  use hne
  rw [Reading.found?, if_pos (by simp [Reading.isMatch, Node.isEmpty, hne])]
  use count, by simp, hsettles
  simpa using hreach

/-- A production comes out as foretold when its items do. -/
theorem matchProduction_isForetold {s : Setting} {inner : Evaluator} {room : Nat} {p : Production}
    {c : Cursor} (hp : p ∈ g.productions)
    (hopening : p.opening.IsForetold o m p.rule c (matchItem s inner p.rule p.opening c)
      (p.opening.target.IsDeep o room c))
    (hitems : ∀ item ∈ p.continuations, ∀ c,
      item.IsForetold o m p.rule c (matchItem s inner p.rule item c) (item.target.IsDeep o room c))
    (depth : Nat) :
  p.IsForetold o m c (matchProduction s inner depth p c) (room + 1 ≤ o.depth p.rule c)
  := by
  have hsuits := h.suits p hp
  have hseparates := hsuits.separates
  simp only [Production.items, Item.separates, Bool.and_eq_true] at hseparates
  obtain ⟨⟨⟨-, hclears⟩, -⟩, hmore⟩ := hseparates
  have hclear := h.phrases_clears p.rule hclears
  have hstart := h.opening_startsIn p.opening p.rule
  unfold Production.IsForetold matchProduction
  rw [h.phrase_eq hp]
  apply Attempt.Ends.after_note _ rfl rfl
  apply hopening.bind
  · rintro opening reach (⟨rfl, havoids, rfl⟩ | ⟨hpos, hsettles⟩)
    · apply Attempt.ends_pure
      refine ⟨?_, rfl⟩
      apply havoids
    · rw [if_neg (by omega)]
      apply (matchAll_ends h hitems hmore).bind
      · rintro whole further ⟨trees, htrees, hrest⟩
        rw [← h.phrase_eq hp]
        have hbody := hsettles.seq hrest hclear
        rw [← htrees] at hbody
        obtain ⟨hne, hforetells⟩ := Production.foretells_of_settlesAt h hp hbody
        rw [if_neg (by simpa using hne)]
        apply Attempt.Ends.after_note _ rfl rfl
        apply Attempt.ends_pure
        simpa using hforetells
      · intro further hstuck
        apply (hsettles.seq_breaksLater hstuck hclear hstart).map
      · rintro ⟨item, hitem, hdeep⟩
        apply hdeep.of_continuation hsuits hitem (hsettles.length_lt hstart)
  · intro reach hstuck
    have hseq := hstuck.1.seq (h.phrases_inhabited p.rule p.continuations) hclear
    apply Phrase.BreaksLater.map ⟨hseq, hstuck.2⟩
  · intro hdeep
    apply hdeep.of_opening hsuits

/-- An item of a production comes out as foretold when a token is enough to tell its alternatives apart. -/
theorem matchItem_of_isDecidedAt {s : Setting} {inner : Evaluator} {room : Nat} {p : Production}
    {item : Item} {c : Cursor} (hs : s.grammar = g) (hinner : o.Foretells m g inner room)
    (hp : p ∈ g.productions) (hitem : item ∈ p.items)
    (hdisjoint : item.repetition.isRepeated = true → ∀ kind ∈ item.target.first o,
      kind ∉ item.target.next o)
    (hdecided : ∀ c', item.repetition.isRepeated = true ∨ c' = c → item.target.IsDecidedAt o g c') :
  item.IsForetold o m p.rule c (matchItem s inner p.rule item c) (item.target.IsDeep o room c)
  := by
  have hsuits := h.suits p hp
  have href : ∀ head ∈ item.target.references, head ∈ p.references :=
    fun head hhead => List.mem_flatMap_of_mem hitem hhead
  apply matchItem_isForetold h _ hdisjoint
  intro c' hc'
  apply matchOnce_isForetold h hs hinner p.rule _ _ (hdecided c' hc')
  · intro head hhead
    apply hsuits.contains head (href head hhead)
  · intro head hhead
    apply hsuits.covers head (href head hhead)

omit h in
/-- More matches of a repeated item cannot be taken for what goes on with one. -/
theorem Item.disjoint_of_separates {last : List Terminal} {items : List Item} {item : Item}
    (hseparates : Item.separates o last items = true) (hitem : item ∈ items)
    (hrepeated : item.repetition.isRepeated = true) :
  ∀ kind ∈ item.target.first o, kind ∉ item.target.next o
  := by
  induction items with
  | nil => simp at hitem
  | cons first items ih =>
    simp only [Item.separates, Bool.and_eq_true, decide_eq_true_eq] at hseparates
    rcases List.mem_cons.mp hitem with rfl | hitem
    · apply hseparates.1.2 hrepeated
    · apply ih hseparates.2 hitem

/-- A production comes out as foretold at a place where a token is enough to tell the alternatives of its
items apart. -/
theorem matchProduction_of_isDecided {s : Setting} {inner : Evaluator} {room : Nat} {p : Production}
    {c : Cursor} (hs : s.grammar = g) (hinner : o.Foretells m g inner room) (hp : p ∈ g.productions)
    (hopening : ∀ c', p.opening.repetition.isRepeated = true ∨ c' = c →
      p.opening.target.IsDecidedAt o g c')
    (hitems : ∀ item ∈ p.continuations, item.target.isDecided o g = true) (depth : Nat) :
  p.IsForetold o m c (matchProduction s inner depth p c) (room + 1 ≤ o.depth p.rule c)
  := by
  have hdisjoint (item : Item) (hitem : item ∈ p.items) :=
    Item.disjoint_of_separates (h.suits p hp).separates hitem
  apply matchProduction_isForetold h hp
  · apply matchItem_of_isDecidedAt h hs hinner hp List.mem_cons_self
    · apply hdisjoint _ List.mem_cons_self
    · apply hopening
  · intro item hitem c'
    have hmem : item ∈ p.items := List.mem_cons_of_mem _ hitem
    apply matchItem_of_isDecidedAt h hs hinner hp hmem (hdisjoint item hmem)
    intro c'' _
    apply Target.isDecidedAt (hitems item hitem)

end

end LayoutGrammar
