import LayoutGrammar.Proofs.Evaluation.Leaves
import LayoutGrammar.Proofs.Evaluation.Silence
import LayoutGrammar.Proofs.Evaluation.Simulation

/-!
# Hoisting is a matter of shape

Which items are hoisted makes a difference to the shape of the tree only: productions and grammars that are equal
except for that read as many tokens, keep the same ones as leaves, and fail for the same reason
(`Session.evaluate_of_unhoisted_eq`).  Whether a production matches is told by whether its tree is empty, and what is
matched adds something to a tree whether it is hoisted or not, so that trees that differ in shape are empty together
(`relates_exceptHoisting`).
-/

namespace LayoutGrammar

/-! ## Grammars without hoisting -/

/-- A target with nothing hoisted. -/
def Target.unhoisted : Target → Target
  | tokens kinds excluded => tokens kinds excluded
  | rules heads _ => rules heads false

/-- An item with nothing hoisted. -/
def Item.unhoisted (item : Item) : Item := { item with target := item.target.unhoisted }

/-- A production with nothing hoisted. -/
def Production.unhoisted (p : Production) : Production :=
  ⟨p.rule, p.opening.unhoisted, p.continuations.map Item.unhoisted⟩

/-- A grammar with nothing hoisted. -/
def Grammar.unhoisted (g : Grammar) : Grammar := ⟨g.productions.map Production.unhoisted⟩

/-- A target is shown the same, hoisted or not. -/
theorem Target.shown_unhoisted (target : Target) :
  target.unhoisted.shown = target.shown
  := by
  cases target <;> rfl

namespace Grammar

theorem alternatives_unhoisted (g : Grammar) (rule : Nonterminal) :
  g.unhoisted.alternatives rule = (g.alternatives rule).map Production.unhoisted
  := List.filter_map

theorem contains_unhoisted (g : Grammar) (rule : Nonterminal) :
  g.unhoisted.contains rule = g.contains rule
  := by
  rw [contains_eq, contains_eq, alternatives_unhoisted, List.isEmpty_map]

theorem candidates_unhoisted (g : Grammar) (rules : List Nonterminal) :
  g.unhoisted.candidates rules = (g.candidates rules).map (List.map Production.unhoisted)
  := by
  induction rules with
  | nil => rfl
  | cons rule others ih =>
    simp only [candidates, contains_unhoisted, alternatives_unhoisted, ih]
    split
    · cases g.candidates others with
      | ok ps => exact congrArg Except.ok List.map_append.symm
      | error reason => rfl
    · rfl

end Grammar

/-! ## Evaluations that are equal except for hoisting -/

/-- Evaluations of what is equal except for hoisting, where trees are the same when they have the same leaves. -/
def Correspondence.exceptHoisting : Correspondence where
  allows _ := True
  target a b := b.unhoisted = a.unhoisted
  place := Eq
  trees a b := Tree.leavesOf b = Tree.leavesOf a ∧ b.isEmpty = a.isEmpty
  told := Eq
  shift := 0
  edge := none

/-- Elements are the same one by one when what they are mapped to is equal. -/
theorem forall₂_of_map_eq {α β : Type} {f : α → β} {xs ys : List α} (h : ys.map f = xs.map f) :
  List.Forall₂ (fun x y => f y = f x) xs ys
  := by
  have heq : List.Forall₂ (fun a b => b = a) (xs.map f) (ys.map f) := by
    rw [h]
    apply List.forall₂_same.mpr
    intro _ _
    rfl
  rwa [List.forall₂_map_left_iff, List.forall₂_map_right_iff] at heq

namespace Correspondence

theorem items_exceptHoisting {a b : Item} (h : b.unhoisted = a.unhoisted) :
  exceptHoisting.Items a b
  := by
  obtain ⟨htarget, hrepetition⟩ := Item.mk.inj h
  exact ⟨htarget, hrepetition⟩

theorem productions_exceptHoisting {p q : Production} (h : q.unhoisted = p.unhoisted) :
  exceptHoisting.Productions p q
  := by
  obtain ⟨hrule, hopening, hcontinuations⟩ := Production.mk.inj h
  use trivial, hrule, items_exceptHoisting hopening
  apply (forall₂_of_map_eq hcontinuations).imp
  intro a b
  apply items_exceptHoisting

theorem candidates_exceptHoisting {g g' : Grammar} (h : g'.unhoisted = g.unhoisted) (rules : List Nonterminal) :
  exceptHoisting.Outcomes (List.Forall₂ exceptHoisting.Productions) (g.candidates rules) (g'.candidates rules)
  := by
  have hcandidates : (g'.candidates rules).map (List.map Production.unhoisted)
      = (g.candidates rules).map (List.map Production.unhoisted) := by
    rw [← Grammar.candidates_unhoisted, ← Grammar.candidates_unhoisted, h]
  cases hg : g.candidates rules with
  | ok ps =>
    cases hg' : g'.candidates rules with
    | ok qs =>
      rw [hg, hg'] at hcandidates
      apply Outcomes.ok
      apply (forall₂_of_map_eq (Except.ok.inj hcandidates)).imp
      intro p q
      apply productions_exceptHoisting
    | error reason => simp [hg, hg', Except.map] at hcandidates
  | error reason =>
    cases hg' : g'.candidates rules with
    | ok qs => simp [hg, hg', Except.map] at hcandidates
    | error reason' =>
      rw [hg, hg'] at hcandidates
      exact .error (Except.error.inj hcandidates).symm

end Correspondence

theorem follows_exceptHoisting (s : Setting) (g : Grammar) :
  Correspondence.exceptHoisting.Follows s { s with grammar := g }
  := by
  apply Correspondence.follows_of_eq s g rfl rfl rfl
  · intro token
    exact ⟨rfl, rfl⟩
  · rintro a b ⟨htarget, -⟩
    rw [← Target.shown_unhoisted, htarget, Target.shown_unhoisted]
  · exact Eq.symm
  · intro d _
    rfl

theorem relates_exceptHoisting (s : Setting) {g : Grammar} (h : g.unhoisted = s.grammar.unhoisted) :
  Correspondence.exceptHoisting.Relates s { s with grammar := g }
  where
  toFollows := follows_exceptHoisting s g
  tokens := by
    rintro kinds excluded (_ | _) htarget
    · apply htarget
    · cases htarget
  rules := by
    rintro heads hoisted (_ | ⟨heads', hoisted'⟩) htarget
    · cases htarget
    · obtain ⟨⟩ := htarget
      use hoisted'
  candidates := by
    intro heads _ _ _
    apply Correspondence.candidates_exceptHoisting h
  graft := by
    rintro heads hoisted hoisted' a b rule - - ha ⟨hleaves, hempty⟩
    have hb : b.isEmpty = false := by
      rw [← ha]
      apply hempty
    constructor
    · rw [leavesOf_graft, leavesOf_graft]
      apply hleaves
    · rw [List.isEmpty_eq_false_iff.mpr (graft_ne_nil ha rule hoisted),
        List.isEmpty_eq_false_iff.mpr (graft_ne_nil hb rule hoisted')]
  nil := ⟨rfl, rfl⟩
  append := by
    rintro a b a' b' ⟨hleaves, hempty⟩ ⟨hleaves', hempty'⟩
    constructor
    · simp only [Tree.leavesOf_eq_flatMap, List.flatMap_append] at hleaves hleaves' ⊢
      rw [hleaves, hleaves']
    · rw [Bool.eq_iff_iff, List.isEmpty_iff, List.isEmpty_iff] at hempty hempty' ⊢
      rw [List.append_eq_nil_iff, List.append_eq_nil_iff, hempty, hempty']
  isEmpty_eq := And.right

/-- A production that does not match reads nothing, whatever a session has evaluated before. -/
theorem Session.eq_nothing_of_evaluate {s : Session} {p : Production} {start : Nat} {reading : Reading}
    (hout : (s.evaluate p start).1.outcome = .ok reading) (h : reading.isMatch = false) :
  reading = .nothing p.rule
  := by
  apply (evaluate_finds_nothing s.setting (s.limit + 1) 0 p (s.cursor start)).of_ok _ _ h
  apply outcome_conclude_eq_ok_iff.mp hout

/-- Grammars and productions that are equal except for what is hoisted read alike, whatever the tokens, the limit,
the place and what was evaluated before: both match, read as many tokens and keep the same ones as leaves, or neither
matches, or both fail for the same reason at the same place. -/
theorem Session.evaluate_of_unhoisted_eq (s : Session) {g : Grammar} (hg : g.unhoisted = s.grammar.unhoisted)
    {p q : Production} (hpq : q.unhoisted = p.unhoisted) (start : Nat) :
  let outcome := (s.evaluate p start).1.outcome
  let outcome' := ({ s with grammar := g }.evaluate q start).1.outcome
  (∃ reading reading', outcome = .ok reading ∧ outcome' = .ok reading'
      ∧ reading.isMatch = true ∧ reading'.isMatch = true ∧ reading'.consumed = reading.consumed
      ∧ reading'.node.rule = reading.node.rule ∧ reading'.node.leaves = reading.node.leaves)
    ∨ (outcome = .ok (.nothing p.rule) ∧ outcome' = .ok (.nothing p.rule))
    ∨ ∃ d, outcome = .error d ∧ outcome' = .error d
  := by
  intro outcome outcome'
  let t : Session := { s with grammar := g }
  have hmemory : Correspondence.exceptHoisting.Memories s.memory t.memory :=
    Correspondence.memories_refl fun _ _ => rfl
  have hrelates : Correspondence.exceptHoisting.Relates s.setting t.setting :=
    relates_exceptHoisting s.setting hg
  have hplace : Correspondence.exceptHoisting.place (s.cursor start) (t.cursor start) := rfl
  obtain ⟨⟨houtcome, -⟩, -⟩ :=
    hrelates.session hmemory rfl rfl (Correspondence.productions_exceptHoisting hpq) hplace
  obtain ⟨reading, reading', hout, hout', hread⟩ | ⟨d, _, hout, hout', rfl⟩ := houtcome.ok_or_error
  · have hmatch : reading'.isMatch = reading.isMatch := hrelates.isMatch_eq hread
    obtain ⟨hrule, ⟨hleaves, -⟩, hconsumed⟩ := hread
    cases hempty : reading.isMatch with
    | true =>
      rw [hempty] at hmatch
      exact Or.inl ⟨reading, reading', hout, hout', hempty, hmatch, hconsumed, hrule, hleaves⟩
    | false =>
      rw [hempty] at hmatch
      have hnothing := eq_nothing_of_evaluate hout hempty
      have hrule : q.rule = p.rule := (Correspondence.productions_exceptHoisting hpq).rule_eq
      have hnothing' := eq_nothing_of_evaluate hout' hmatch
      rw [hrule] at hnothing'
      refine Or.inr (Or.inl ⟨?_, ?_⟩)
      · rw [← hnothing, ← hout]
      · rw [← hnothing', ← hout']
  · exact Or.inr (Or.inr ⟨d, hout, hout'⟩)

/-- Numbers with commas between them, where those after the first are hoisted or not. -/
def listing (hoisted : Bool) : Production :=
  ⟨.expression, .token .number, [⟨.rules (.one .subsequentPrint) hoisted, .zeroOrMore⟩]⟩

/-- What listings refer to. -/
def listingGrammar (hoisted : Bool) : Grammar :=
  ⟨[listing hoisted, ⟨.subsequentPrint, .skip .comma, [.token .number]⟩]⟩

/-- Two numbers with a comma between them. -/
def listedNumbers : List Token := [.unplaced .number "1", .unplaced .comma "", .unplaced .number "2"]

/-- The numbers of a listing are its leaves, hoisted or not, in trees of different shapes. -/
theorem evaluate_listedNumbers :
  let s := Session.start (listingGrammar true) listedNumbers 10
  let t := { s with grammar := listingGrammar false }
  (listingGrammar false).unhoisted = s.grammar.unhoisted
    ∧ (listing false).unhoisted = (listing true).unhoisted
    ∧ ∃ reading reading', (s.evaluate (listing true) 0).1.outcome = .ok reading
      ∧ (t.evaluate (listing false) 0).1.outcome = .ok reading' ∧ reading.node ≠ reading'.node
      ∧ reading.consumed = 3 ∧ reading'.consumed = reading.consumed
      ∧ reading'.node.leaves = reading.node.leaves
  := by
  intro s t
  have hgrammar : (listingGrammar false).unhoisted = s.grammar.unhoisted := by
    decide
  have hlisting : (listing false).unhoisted = (listing true).unhoisted := by
    decide
  have hout : (s.evaluate (listing true) 0).1.outcome = .ok ⟨⟨.expression,
      [.leaf (.unplaced .number "1"), .leaf (.unplaced .number "2")]⟩, 3⟩ := by
    decide +kernel
  have hout' : (t.evaluate (listing false) 0).1.outcome = .ok ⟨⟨.expression,
      [.leaf (.unplaced .number "1"), .node .subsequentPrint [.leaf (.unplaced .number "2")]]⟩, 3⟩ := by
    decide +kernel
  refine ⟨hgrammar, hlisting, _, _, hout, hout', by simp, rfl, ?_⟩
  obtain ⟨reading, reading', h, h', -, -, hconsumed, -, hleaves⟩ | ⟨h, -⟩ | ⟨d, h, -⟩ :=
    s.evaluate_of_unhoisted_eq hgrammar hlisting 0
  · obtain rfl := Except.ok.inj (hout.symm.trans h)
    obtain rfl := Except.ok.inj (hout'.symm.trans h')
    exact ⟨hconsumed, hleaves⟩
  · simp [hout, Reading.nothing, Node.empty] at h
  · cases hout.symm.trans h

end LayoutGrammar
