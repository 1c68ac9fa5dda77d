import LayoutGrammar.Diagnostic.Basic
import LayoutGrammar.Grammar.Production

/-!
# Grammar

A grammar is a list of productions.  The productions of one nonterminal are its alternatives, in the order
in which they were added; a nonterminal without alternatives is unknown.  `validate` accepts a grammar
exactly when no production refers to an unknown nonterminal (`validate_eq_ok_iff`).
-/

namespace LayoutGrammar

/-- A list of productions, in the order in which they were added. -/
structure Grammar where
  /-- The productions. -/
  productions : List Production
deriving DecidableEq

namespace Grammar

/-- The grammar without productions. -/
def empty : Grammar := ⟨[]⟩

/-- A grammar with further productions. -/
def add (g : Grammar) (productions : List Production) : Grammar := ⟨g.productions ++ productions⟩

theorem productions_foldl_add (g : Grammar) (additions : List (List Production)) :
  (additions.foldl add g).productions = g.productions ++ additions.flatten
  := by
  induction additions generalizing g with
  | nil => simp
  | cons addition additions ih => simp [ih, add]

/-- The productions of a nonterminal. -/
def alternatives (g : Grammar) (rule : Nonterminal) : List Production :=
  g.productions.filter fun p => p.rule = rule

/-- Whether a nonterminal has a production. -/
def contains (g : Grammar) (rule : Nonterminal) : Bool :=
  g.productions.any fun p => p.rule = rule

/-- The nonterminals that have productions. -/
def rules (g : Grammar) : List Nonterminal := Nonterminal.all.filter g.contains

/-- The number of nonterminals that have productions. -/
def size (g : Grammar) : Nat := g.rules.length

/-- The diagnostic of a nonterminal without productions. -/
def unknown (rule : Nonterminal) : Diagnostic := ⟨.unknownRule rule, .null⟩

/-- The alternatives of some nonterminals, one nonterminal after the other, unless one is unknown. -/
def candidates (g : Grammar) : List Nonterminal → Except Diagnostic (List Production)
  | [] => .ok []
  | rule :: others =>
    if g.contains rule then
      (g.candidates others).map fun productions => g.alternatives rule ++ productions
    else
      .error (unknown rule)

/-- The nonterminals that productions refer to, in the order in which they are checked. -/
def references (g : Grammar) : List Nonterminal :=
  g.rules.flatMap fun rule => (g.alternatives rule).flatMap Production.references

/-- Whether all nonterminals that productions refer to have productions. -/
def validate (g : Grammar) : Except Diagnostic Unit :=
  match g.references.find? fun rule => !g.contains rule with
  | some missing => .error (unknown missing)
  | none => .ok ()

theorem contains_eq_true_iff {g : Grammar} {rule : Nonterminal} :
  g.contains rule = true ↔ ∃ p ∈ g.productions, p.rule = rule
  := by
  simp [contains]

/-- A nonterminal is known when it has alternatives. -/
theorem contains_eq (g : Grammar) (rule : Nonterminal) :
  g.contains rule = !(g.alternatives rule).isEmpty
  := by
  rw [Bool.eq_iff_iff, contains_eq_true_iff]
  simp [alternatives]

theorem mem_rules_iff {g : Grammar} {rule : Nonterminal} :
  rule ∈ g.rules ↔ ∃ p ∈ g.productions, p.rule = rule
  := by
  simp [rules, Nonterminal.mem_all, contains_eq_true_iff]

theorem mem_flatMap_alternatives_iff {g : Grammar} {rules : List Nonterminal} {p : Production} :
  p ∈ rules.flatMap g.alternatives ↔ p ∈ g.productions ∧ p.rule ∈ rules
  := by
  simp only [List.mem_flatMap, alternatives, List.mem_filter, decide_eq_true_eq]
  constructor
  · rintro ⟨rule, hrule, hp, rfl⟩
    exact ⟨hp, hrule⟩
  · rintro ⟨hp, hrule⟩
    exact ⟨p.rule, hrule, hp, rfl⟩

/-- The alternatives of nonterminals that are known. -/
theorem candidates_eq {g : Grammar} {rules : List Nonterminal}
    (hrules : ∀ rule ∈ rules, g.contains rule = true) :
  g.candidates rules = .ok (rules.flatMap g.alternatives)
  := by
  induction rules with
  | nil => rfl
  | cons rule others ih =>
    rw [candidates, if_pos (hrules rule List.mem_cons_self),
      ih fun r hr => hrules r (List.mem_cons_of_mem rule hr)]
    rfl

/-- The alternatives of some nonterminals depend on nothing but those of each of them. -/
theorem candidates_congr {g g' : Grammar} {rules : List Nonterminal}
    (h : ∀ rule ∈ rules, g'.alternatives rule = g.alternatives rule) :
  g'.candidates rules = g.candidates rules
  := by
  induction rules with
  | nil => rfl
  | cons rule others ih =>
    have hrule := h rule List.mem_cons_self
    have hothers := ih fun r hr => h r (List.mem_cons_of_mem rule hr)
    simp only [candidates, contains_eq, hrule, hothers]

/-- What is checked is what productions refer to. -/
theorem mem_references_iff {g : Grammar} {rule : Nonterminal} :
  rule ∈ g.references ↔ ∃ p ∈ g.productions, rule ∈ p.references
  := by
  simp only [references, List.mem_flatMap, mem_rules_iff, alternatives, List.mem_filter,
    decide_eq_true_eq]
  constructor
  · rintro ⟨_, _, p, ⟨hp, _⟩, hrule⟩
    exact ⟨p, hp, hrule⟩
  · rintro ⟨p, hp, hrule⟩
    exact ⟨p.rule, ⟨p, hp, rfl⟩, p, ⟨hp, rfl⟩, hrule⟩

/-- A grammar is valid when every nonterminal that a production refers to has a production. -/
theorem validate_eq_ok_iff {g : Grammar} :
  g.validate = .ok () ↔ ∀ p ∈ g.productions, ∀ rule ∈ p.references, g.contains rule = true
  := by
  have hnone : g.validate = .ok () ↔ g.references.find? (fun rule => !g.contains rule) = none := by
    unfold validate
    split <;> simp_all
  rw [hnone, List.find?_eq_none]
  constructor
  · intro h p hp rule hrule
    simpa using h rule (mem_references_iff.2 ⟨p, hp, hrule⟩)
  · intro h rule hrule
    obtain ⟨p, hp, hp'⟩ := mem_references_iff.1 hrule
    simpa using h p hp rule hp'

end Grammar
end LayoutGrammar
