import LayoutGrammar.Evaluation.Basic
import LayoutGrammar.Proofs.Prediction.Phrase

/-!
# Outlook

The phrases that the productions of a grammar stand for when they are read without regard to the order of
alternatives or to greediness, relative to the phrases of the nonterminals (`Meaning`).  A meaning solves a
grammar when the phrase of every nonterminal is that of its productions (`Meaning.Solves`).

An outlook tells of every nonterminal with which kinds of tokens it starts and which would go on with it.
When it suits a grammar (`Outlook.Suits`), one token is enough to tell what comes next, but for the choices
between alternatives, for which it has to be checked separately (`Target.isDecided`).
-/

namespace LayoutGrammar

/-- The phrases of nonterminals. -/
abbrev Meaning : Type := Nonterminal → Phrase Node

/-! ## Phrases of productions -/

section

variable (m : Meaning) (rule : Nonterminal)

/-- The phrase of any of some nonterminals. -/
def Meaning.anyOf (heads : List Nonterminal) : Phrase Node := Phrase.any heads m

/-- The phrase of one match of a target in a production of a rule. -/
def Target.phrase : Target → Phrase (List Tree)
  | .tokens kinds excluded => fun trees ts =>
    ∃ t, t.kind ∈ kinds.members ∧ trees = (if excluded then [] else [.leaf t]) ∧ ts = [t]
  | .rules heads hoisted => (m.anyOf heads.members).map (graft rule hoisted)

/-- The phrase of an item that opens a production of a rule: it has to match. -/
def Item.opening (item : Item) : Phrase (List Tree) :=
  if item.repetition.isRepeated then
    (item.target.phrase m rule).oneOrMore
  else
    item.target.phrase m rule

/-- The phrase of an item that continues a production of a rule: it may be left out unless it has to match
at least once. -/
def Item.phrase (item : Item) : Phrase (List Tree) :=
  if item.repetition.minimum = 0 then
    (item.opening m rule).optional
  else
    item.opening m rule

/-- The phrase of some items, one after the other, that continue a production of a rule. -/
def Item.phrases : List Item → Phrase (List Tree)
  | [] => Phrase.nothing
  | item :: items => (item.phrase m rule).seq (phrases items)

/-- The phrase of the items of a production. -/
def Production.body (p : Production) : Phrase (List Tree) :=
  (p.opening.opening m p.rule).seq (Item.phrases m p.rule p.continuations)

/-- The phrase of a production: a node of its rule that keeps something. -/
def Production.phrase (p : Production) : Phrase Node := fun node ts =>
  node.rule = p.rule ∧ node.children ≠ [] ∧ p.body m node.children ts

@[simp]
theorem Item.opening_once (target : Target) :
  Item.opening m rule ⟨target, .once⟩ = target.phrase m rule
  := rfl

@[simp]
theorem Item.opening_atLeastOnce (target : Target) :
  Item.opening m rule ⟨target, .atLeastOnce⟩ = (target.phrase m rule).oneOrMore
  := rfl

@[simp]
theorem Item.phrase_once (target : Target) :
  Item.phrase m rule ⟨target, .once⟩ = target.phrase m rule
  := rfl

@[simp]
theorem Item.phrase_atLeastOnce (target : Target) :
  Item.phrase m rule ⟨target, .atLeastOnce⟩ = (target.phrase m rule).oneOrMore
  := rfl

@[simp]
theorem Item.phrase_zeroOrMore (target : Target) :
  Item.phrase m rule ⟨target, .zeroOrMore⟩ = (target.phrase m rule).Many
  := (Phrase.many_eq _).symm

end

/-- Whether the phrase of every nonterminal is that of any of its productions. -/
def Meaning.Solves (m : Meaning) (g : Grammar) : Prop :=
  ∀ rule node ts, m rule node ts ↔ ∃ p ∈ g.productions, p.rule = rule ∧ p.phrase m node ts

/-! ## Outlook -/

/-- What can be told of nonterminals by a token. -/
structure Outlook where
  /-- The kinds of the first token of a nonterminal. -/
  first : Nonterminal → List Terminal
  /-- The kinds of tokens that would go on with a nonterminal. -/
  next : Nonterminal → List Terminal
  /-- A bound on the evaluations nested in that of a nonterminal before a token is read. -/
  rank : Nonterminal → Nat
  /-- A bound on all ranks. -/
  height : Nat

section

variable (o : Outlook)

/-- The kinds of the first token of a target. -/
def Target.first : Target → List Terminal
  | .tokens kinds _ => kinds.members
  | .rules heads _ => heads.members.flatMap o.first

/-- The kinds of tokens that would go on with a match of a target. -/
def Target.next : Target → List Terminal
  | .tokens _ _ => []
  | .rules heads _ => heads.members.flatMap o.next

/-- The kinds of the first token of a production. -/
def Production.first (p : Production) : List Terminal := p.opening.target.first o

/-- The kinds of tokens that would go on with the matches of an item. -/
def Item.next (item : Item) : List Terminal :=
  if item.repetition.isRepeated then
    item.target.next o ++ item.target.first o
  else
    item.target.next o

/-- Whether some items, and then anything that avoids the kinds `last`, always avoid some kinds. -/
def Item.clears (kinds last : List Terminal) : List Item → Bool
  | [] => decide (kinds ⊆ last)
  | item :: items =>
    decide (∀ kind ∈ item.target.first o, kind ∉ kinds)
      && (decide (item.repetition.minimum ≠ 0) || clears kinds last items)

/-- Whether a token is enough to tell which of some items is next, before anything that avoids the kinds
`last`. -/
def Item.separates (last : List Terminal) : List Item → Bool
  | [] => true
  | item :: items =>
    decide (item.repetition ≠ .atMostOnce) && clears o (item.next o) last items
      && decide (item.repetition.isRepeated = true →
          ∀ kind ∈ item.target.first o, kind ∉ item.target.next o)
      && separates last items

/-- Whether a match of an item always keeps something. -/
def Item.keeps (item : Item) : Bool := decide (item.repetition.minimum ≠ 0) && !item.target.isExcluded

/-- Whether a token is enough to tell which alternative of a target in a grammar is next. -/
def Target.isDecided (g : Grammar) (target : Target) : Bool :=
  decide ((target.references.flatMap g.alternatives).Pairwise fun p q =>
    ∀ kind ∈ p.first o, kind ∉ q.first o)

/-- The productions of a grammar that an outlook suits. -/
structure Outlook.Suits (g : Grammar) (p : Production) : Prop where
  /-- A production starts as its rule does. -/
  first : p.first o ⊆ o.first p.rule
  /-- A nonterminal starts as one of its alternatives does. -/
  covers : ∀ rule ∈ p.references, o.first rule ⊆ (g.alternatives rule).flatMap (Production.first o)
  /-- A token tells which item is next. -/
  separates : Item.separates o (o.next p.rule) p.items = true
  /-- Something is kept. -/
  keeps : ∃ item ∈ p.items, item.keeps = true
  /-- Ranks go down as long as no token is read. -/
  rank : ∀ rule ∈ p.opening.target.references, o.rank rule < o.rank p.rule
  /-- Ranks are bounded. -/
  height : ∀ rule ∈ p.references, o.rank rule < o.height
  /-- There are alternatives for every nonterminal. -/
  contains : ∀ rule ∈ p.references, g.contains rule = true

instance (g : Grammar) (p : Production) : Decidable (o.Suits g p) :=
  decidable_of_iff
    (p.first o ⊆ o.first p.rule
      ∧ (∀ rule ∈ p.references, o.first rule ⊆ (g.alternatives rule).flatMap (Production.first o))
      ∧ Item.separates o (o.next p.rule) p.items = true
      ∧ (∃ item ∈ p.items, item.keeps = true)
      ∧ (∀ rule ∈ p.opening.target.references, o.rank rule < o.rank p.rule)
      ∧ (∀ rule ∈ p.references, o.rank rule < o.height)
      ∧ ∀ rule ∈ p.references, g.contains rule = true)
    ⟨fun ⟨h₁, h₂, h₃, h₄, h₅, h₆, h₇⟩ => ⟨h₁, h₂, h₃, h₄, h₅, h₆, h₇⟩,
      fun ⟨h₁, h₂, h₃, h₄, h₅, h₆, h₇⟩ => ⟨h₁, h₂, h₃, h₄, h₅, h₆, h₇⟩⟩

end

/-- Whether an outlook suits a grammar with a meaning. -/
structure Outlook.Foresees (o : Outlook) (g : Grammar) (m : Meaning) : Prop where
  /-- The outlook suits every production. -/
  suits : ∀ p ∈ g.productions, o.Suits g p
  /-- The meaning solves the grammar. -/
  solves : m.Solves g
  /-- Every nonterminal reads something. -/
  inhabited : ∀ rule, (m rule).Inhabited

/-! ## Starting -/

section

variable {o : Outlook} {g : Grammar} {m : Meaning} (h : o.Foresees g m)
include h

omit h in
theorem Target.startsIn_of_references {target : Target} {rule : Nonterminal}
    (href : ∀ head ∈ target.references, (m head).StartsIn (o.first head)) :
  (target.phrase m rule).StartsIn (target.first o)
  := by
  cases target with
  | tokens kinds excluded =>
    rintro _ _ ⟨t, ht, -, rfl⟩
    use t, [], rfl, ht
  | rules heads hoisted =>
    rintro _ ts ⟨node, ⟨head, hhead, hnode⟩, -⟩
    obtain ⟨t, us, rfl, ht⟩ := href head hhead node ts hnode
    use t, us, rfl
    apply List.mem_flatMap_of_mem hhead ht

omit h in
theorem Item.opening_startsIn {item : Item} {rule : Nonterminal} {kinds : List Terminal}
    (hstart : (item.target.phrase m rule).StartsIn kinds) :
  (item.opening m rule).StartsIn kinds
  := by
  unfold opening
  split
  · apply hstart.seq
  · apply hstart

/-- A nonterminal starts as its outlook says. -/
theorem Outlook.Foresees.startsIn (rule : Nonterminal) :
  (m rule).StartsIn (o.first rule)
  := by
  induction hr : o.rank rule using Nat.strong_induction_on generalizing rule with
  | _ rank ih =>
    intro node ts hnode
    obtain ⟨p, hp, rfl, -, -, hbody⟩ := (h.solves rule node ts).mp hnode
    have hsuits := h.suits p hp
    have hopening : (p.opening.opening m p.rule).StartsIn (p.first o) := by
      apply Item.opening_startsIn
      apply Target.startsIn_of_references
      intro head hhead
      apply ih _ (hr ▸ hsuits.rank head hhead) head rfl
    obtain ⟨t, us, rfl, ht⟩ := hopening.seq _ _ _ hbody
    use t, us, rfl, hsuits.first ht

theorem Outlook.Foresees.target_startsIn (target : Target) (rule : Nonterminal) :
  (target.phrase m rule).StartsIn (target.first o)
  := Target.startsIn_of_references fun head _ => h.startsIn head

theorem Outlook.Foresees.production_startsIn (p : Production) :
  (p.phrase m).StartsIn (p.first o)
  := by
  rintro node ts ⟨-, -, hbody⟩
  apply (Item.opening_startsIn (h.target_startsIn p.opening.target p.rule)).seq _ _ _ hbody

/-! ## Items -/

theorem Outlook.Foresees.target_inhabited (target : Target) (rule : Nonterminal) :
  (target.phrase m rule).Inhabited
  := by
  cases target with
  | tokens kinds excluded =>
    obtain ⟨kind, hkind⟩ := List.exists_mem_of_ne_nil _ kinds.nonempty
    exact ⟨_, _, .unplaced kind "", hkind, rfl, rfl⟩
  | rules heads hoisted =>
    obtain ⟨head, hhead⟩ := List.exists_mem_of_ne_nil _ heads.nonempty
    obtain ⟨node, ts, hnode⟩ := h.inhabited head
    exact ⟨_, ts, node, ⟨head, hhead, hnode⟩, rfl⟩

theorem Outlook.Foresees.opening_inhabited (item : Item) (rule : Nonterminal) :
  (item.opening m rule).Inhabited
  := by
  have htarget := h.target_inhabited item.target rule
  unfold Item.opening
  split
  · apply htarget.seq
    rw [Phrase.many_eq]
    apply Phrase.inhabited_optional
  · apply htarget

theorem Outlook.Foresees.phrases_inhabited (rule : Nonterminal) (items : List Item) :
  (Item.phrases m rule items).Inhabited
  := by
  induction items with
  | nil => apply Phrase.inhabited_nothing
  | cons item items ih =>
    apply Phrase.Inhabited.seq _ ih
    unfold Item.phrase
    split
    · apply Phrase.inhabited_optional
    · apply h.opening_inhabited

theorem Outlook.Foresees.opening_startsIn (item : Item) (rule : Nonterminal) :
  (item.opening m rule).StartsIn (item.target.first o)
  := Item.opening_startsIn (h.target_startsIn item.target rule)

/-- Items that clear some kinds do so whatever they read. -/
theorem Outlook.Foresees.phrases_clears (rule : Nonterminal) {kinds last : List Terminal}
    {items : List Item} (hclears : Item.clears o kinds last items = true) :
  (Item.phrases m rule items).Clears kinds last
  := by
  induction items with
  | nil =>
    rintro _ _ us ⟨rfl, rfl⟩ hus
    rw [Item.clears, decide_eq_true_eq] at hclears
    apply hus.of_subset hclears
  | cons item items ih =>
    simp only [Item.clears, Bool.and_eq_true, Bool.or_eq_true, decide_eq_true_eq] at hclears
    obtain ⟨hdisjoint, hempty⟩ := hclears
    have hopening := (h.opening_startsIn item rule).clears hdisjoint []
    rintro _ _ vs ⟨left, right, us, us', hleft, hright, rfl, rfl⟩ hvs
    have hnone : Avoids [] (us' ++ vs) := by simp [Avoids]
    rw [List.append_assoc]
    unfold Item.phrase at hleft
    split at hleft
    next hmin =>
      rcases hleft with ⟨rfl, rfl⟩ | hleft
      · apply ih (hempty.resolve_left (not_not_intro hmin)) _ _ _ hright hvs
      · apply hopening _ _ _ hleft hnone
    next => apply hopening _ _ _ hleft hnone

/-! ## Keeping -/

theorem Outlook.Foresees.opening_ne_nil {item : Item} {rule : Nonterminal} {trees : List Tree}
    {ts : List Token} (hopening : item.opening m rule trees ts) (hkept : item.target.isExcluded = false) :
  trees ≠ []
  := by
  have htarget {trees : List Tree} {ts : List Token} (ht : item.target.phrase m rule trees ts) :
      trees ≠ [] := by
    cases htarget : item.target with
    | tokens kinds excluded =>
      rw [htarget] at ht hkept
      obtain ⟨t, -, rfl, -⟩ := ht
      simp_all [Target.isExcluded]
    | rules heads hoisted =>
      rw [htarget] at ht
      obtain ⟨node, ⟨head, -, hnode⟩, rfl⟩ := ht
      obtain ⟨p, -, -, -, hne, -⟩ := (h.solves head node _).mp hnode
      unfold graft
      split
      · apply hne
      · simp
  unfold Item.opening at hopening
  split at hopening
  · obtain ⟨_, _, _, _, hfirst, -, rfl, -⟩ := hopening
    apply List.append_ne_nil_of_left_ne_nil (htarget hfirst)
  · apply htarget hopening

theorem Outlook.Foresees.phrases_ne_nil {rule : Nonterminal} {items : List Item} {trees : List Tree}
    {ts : List Token} (hitems : Item.phrases m rule items trees ts) {item : Item} (hitem : item ∈ items)
    (hkeeps : item.keeps = true) :
  trees ≠ []
  := by
  induction items generalizing trees ts with
  | nil => simp at hitem
  | cons first items ih =>
    obtain ⟨left, right, us, vs, hleft, hright, rfl, rfl⟩ := hitems
    rcases List.mem_cons.mp hitem with rfl | hitem
    · simp only [Item.keeps, Bool.and_eq_true, decide_eq_true_eq, Bool.not_eq_true'] at hkeeps
      obtain ⟨hmin, hkept⟩ := hkeeps
      rw [Item.phrase, if_neg hmin] at hleft
      apply List.append_ne_nil_of_left_ne_nil (h.opening_ne_nil hleft hkept)
    · apply List.append_ne_nil_of_right_ne_nil _ (ih hright hitem)

/-- What a production reads is kept, so its phrase is that of its items, as the children of a node. -/
theorem Outlook.Foresees.phrase_eq {p : Production} (hp : p ∈ g.productions) :
  p.phrase m = (p.body m).map (Node.mk p.rule)
  := by
  ext node ts
  constructor
  · rintro ⟨hrule, -, hbody⟩
    exact ⟨node.children, hbody, by rw [← hrule]⟩
  · rintro ⟨trees, hbody, rfl⟩
    refine ⟨rfl, ?_, hbody⟩
    obtain ⟨left, right, us, vs, hleft, hright, rfl, rfl⟩ := hbody
    obtain ⟨item, hitem, hkeeps⟩ := (h.suits p hp).keeps
    rcases List.mem_cons.mp hitem with rfl | hitem
    · simp only [Item.keeps, Bool.and_eq_true, Bool.not_eq_true'] at hkeeps
      apply List.append_ne_nil_of_left_ne_nil (h.opening_ne_nil hleft hkeeps.2)
    · apply List.append_ne_nil_of_right_ne_nil _ (h.phrases_ne_nil hright hitem hkeeps)

end

end LayoutGrammar
