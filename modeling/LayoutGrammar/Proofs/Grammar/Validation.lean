import LayoutGrammar.Proofs.Evaluation.Reachable
import LayoutGrammar.Proofs.Evaluation.Runs

/-!
# Validation

A grammar is valid just when its productions make up all rules that they refer to, and when it is not, the first
rule that is missing is told, whatever the order in which productions of different rules were added
(`Grammar.validate_exact`).  No evaluation under a valid grammar comes to an unknown rule, as the rules that are known
refer to each other only (`Session.cause_of_validate`), and neither does a parse (`Parse.cause_of_validate`).
-/

namespace LayoutGrammar

/-! ## The first rule that is missing -/

/-- The number of nonterminals before one, in the order in which a grammar is checked. -/
def Nonterminal.order (rule : Nonterminal) : Nat := all.idxOf rule

/-- Nonterminals are listed in their order. -/
theorem Nonterminal.pairwise_all : all.Pairwise fun rule other => rule.order < other.order := by
  decide +kernel

/-- Whether some productions make up all rules that a production refers to. -/
def Production.IsSupplied (ps : List Production) (p : Production) : Prop :=
  ∀ rule ∈ p.references, ∃ q ∈ ps, q.rule = rule

instance (ps : List Production) (p : Production) : Decidable (p.IsSupplied ps) :=
  inferInstanceAs (Decidable (∀ rule ∈ p.references, ∃ q ∈ ps, q.rule = rule))

/-- Whether a rule is the first that productions refer to and that none of them makes up, and a production the first
that refers to it: first in the order of rules, then in that of productions, then in that of references. -/
structure IsFirstMissing (ps : List Production) (p : Production) (missing : Nonterminal) : Prop where
  /-- The rule is missing. -/
  absent : ∀ q ∈ ps, q.rule ≠ missing
  /-- The production refers to it, and before it to no rule that is missing. -/
  references : ∃ before after, p.references = before ++ missing :: after ∧ ∀ rule ∈ before, ∃ q ∈ ps, q.rule = rule
  /-- It is one of the productions, and those of its rule before it refer to no rule that is missing. -/
  productions : ∃ earlier later, ps = earlier ++ p :: later ∧ ∀ q ∈ earlier, q.rule = p.rule → q.IsSupplied ps
  /-- Neither do the productions of rules that come before. -/
  rules : ∀ q ∈ ps, q.rule.order < p.rule.order → q.IsSupplied ps

namespace Grammar

variable {g : Grammar} {p : Production} {rule missing : Nonterminal}

theorem contains_eq_false_iff :
  g.contains rule = false ↔ ∀ q ∈ g.productions, q.rule ≠ rule
  := by
  simp [contains]

theorem find?_references_eq_none_iff :
  p.references.find? (fun rule => !g.contains rule) = none ↔ p.IsSupplied g.productions
  := by
  rw [List.find?_eq_none]
  simp only [Bool.not_eq_true', Bool.not_eq_false, contains_eq_true_iff, Production.IsSupplied]

theorem find?_references_eq_some_iff :
  p.references.find? (fun rule => !g.contains rule) = some missing ↔
    (∀ q ∈ g.productions, q.rule ≠ missing)
      ∧ ∃ before after, p.references = before ++ missing :: after
        ∧ ∀ rule ∈ before, ∃ q ∈ g.productions, q.rule = rule
  := by
  rw [List.find?_eq_some_iff_append]
  simp only [Bool.not_not, Bool.not_eq_true', contains_eq_false_iff, contains_eq_true_iff]

/-- Where a production is among the alternatives of its rule is where it is among those of the productions that are
alternatives. -/
theorem exists_alternatives_eq_append_iff {Q : Production → Prop} :
  (∃ earlier later, g.alternatives p.rule = earlier ++ p :: later ∧ ∀ q ∈ earlier, Q q) ↔
    ∃ earlier later, g.productions = earlier ++ p :: later ∧ ∀ q ∈ earlier, q.rule = p.rule → Q q
  := by
  constructor
  · rintro ⟨earlier, later, heq, hearlier⟩
    obtain ⟨before, rest, hproductions, rfl, hrest⟩ := List.filter_eq_append_iff.mp heq
    obtain ⟨others, after, rfl, hothers, -, -⟩ := List.filter_eq_cons_iff.mp hrest
    use before ++ others, after, by rw [hproductions, List.append_assoc]
    intro q hq hrule
    rcases List.mem_append.mp hq with hq | hq
    · apply hearlier
      simp [hq, hrule]
    · apply absurd hrule
      simpa using hothers q hq
  · rintro ⟨earlier, later, heq, hearlier⟩
    use earlier.filter fun q => q.rule = p.rule, later.filter fun q => q.rule = p.rule
    constructor
    · simp [alternatives, heq]
    · intro q hq
      obtain ⟨hmem, hrule⟩ := List.mem_filter.mp hq
      apply hearlier q hmem (by simpa using hrule)

/-- The rules before one of a grammar are those that are less in the order of rules. -/
theorem exists_rules_eq_append_iff {Q : Nonterminal → Prop} (h : rule ∈ g.rules) :
  (∃ before after, g.rules = before ++ rule :: after ∧ ∀ other ∈ before, Q other) ↔
    ∀ other ∈ g.rules, other.order < rule.order → Q other
  := by
  have hsorted : g.rules.Pairwise fun rule other => rule.order < other.order :=
    Nonterminal.pairwise_all.filter g.contains
  constructor
  · rintro ⟨before, after, heq, hbefore⟩ other hother hlt
    rw [heq] at hother hsorted
    obtain ⟨-, hrest, -⟩ := List.pairwise_append.mp hsorted
    rcases List.mem_append.mp hother with hother | hother
    · apply hbefore other hother
    · rcases List.mem_cons.mp hother with rfl | hother
      · apply absurd hlt (Nat.lt_irrefl _)
      · apply absurd hlt (Nat.lt_asymm (List.rel_of_pairwise_cons hrest hother))
  · intro hQ
    obtain ⟨before, after, heq⟩ := List.append_of_mem h
    use before, after, heq
    intro other hother
    rw [heq] at hsorted hQ
    apply hQ other (List.mem_append_left _ hother)
    apply hsorted.rel_of_mem_append hother List.mem_cons_self

/-- Nothing is missing of the alternatives of a rule when all of them are supplied. -/
theorem findSome?_alternatives_eq_none_iff :
  (g.alternatives rule).findSome? (fun p => p.references.find? fun rule => !g.contains rule) = none ↔
    ∀ q ∈ g.productions, q.rule = rule → q.IsSupplied g.productions
  := by
  simp only [List.findSome?_eq_none_iff, find?_references_eq_none_iff, alternatives, List.mem_filter,
    decide_eq_true_eq, and_imp]

/-- What is missing first of the alternatives of a rule is missing first in one of them, before which they are
supplied. -/
theorem findSome?_alternatives_eq_some_iff :
  (g.alternatives rule).findSome? (fun p => p.references.find? fun rule => !g.contains rule) = some missing ↔
    ∃ p, p.rule = rule ∧ p.references.find? (fun rule => !g.contains rule) = some missing
      ∧ ∃ earlier later, g.productions = earlier ++ p :: later
        ∧ ∀ q ∈ earlier, q.rule = p.rule → q.IsSupplied g.productions
  := by
  rw [List.findSome?_eq_some_iff]
  simp only [find?_references_eq_none_iff]
  constructor
  · rintro ⟨earlier, p, later, heq, hp, hearlier⟩
    have hmem : p ∈ g.alternatives rule := by simp [heq]
    obtain rfl : p.rule = rule := by simpa using (List.mem_filter.mp hmem).2
    exact ⟨p, rfl, hp, exists_alternatives_eq_append_iff.mp ⟨earlier, later, heq, hearlier⟩⟩
  · rintro ⟨p, rfl, hp, hproductions⟩
    obtain ⟨earlier, later, heq, hearlier⟩ := exists_alternatives_eq_append_iff.mpr hproductions
    use earlier, p, later

/-- What is missing first among the references that are checked is the first rule that is missing. -/
theorem find?_eq_some_iff_isFirstMissing :
  g.references.find? (fun rule => !g.contains rule) = some missing ↔
    ∃ p, IsFirstMissing g.productions p missing
  := by
  simp only [references, List.find?_flatMap, List.findSome?_eq_some_iff (l := g.rules),
    findSome?_alternatives_eq_none_iff, findSome?_alternatives_eq_some_iff, find?_references_eq_some_iff]
  constructor
  · rintro ⟨before, _, after, heq, ⟨p, rfl, ⟨habsent, hreferences⟩, hproductions⟩, hbefore⟩
    have hrule : p.rule ∈ g.rules := by simp [heq]
    have hless := (exists_rules_eq_append_iff hrule).mp ⟨before, after, heq, hbefore⟩
    use p, habsent, hreferences, hproductions
    intro q hq hlt
    apply hless q.rule (mem_rules_iff.mpr ⟨q, hq, rfl⟩) hlt q hq rfl
  · rintro ⟨p, habsent, hreferences, hproductions, hless⟩
    have hrule : p.rule ∈ g.rules := by
      obtain ⟨earlier, later, heq, -⟩ := hproductions
      apply mem_rules_iff.mpr ⟨p, by simp [heq], rfl⟩
    have hothers : ∀ other ∈ g.rules, other.order < p.rule.order →
        ∀ q ∈ g.productions, q.rule = other → q.IsSupplied g.productions := by
      rintro _ - hlt q hq rfl
      apply hless q hq hlt
    obtain ⟨before, after, heq, hbefore⟩ := (exists_rules_eq_append_iff hrule).mpr hothers
    exact ⟨before, p.rule, after, heq, ⟨p, rfl, ⟨habsent, hreferences⟩, hproductions⟩, hbefore⟩

/-- A grammar that is not valid is told so by the first rule that is missing. -/
theorem validate_eq_error_iff {d : Diagnostic} :
  g.validate = .error d ↔ ∃ p missing, IsFirstMissing g.productions p missing ∧ d = unknown missing
  := by
  have hsome : g.validate = .error d ↔
      ∃ missing, g.references.find? (fun rule => !g.contains rule) = some missing ∧ d = unknown missing := by
    unfold validate
    cases g.references.find? fun rule => !g.contains rule <;> simp [eq_comm]
  rw [hsome, exists_comm]
  simp only [find?_eq_some_iff_isFirstMissing, exists_and_right]

/-- Whether a grammar is valid depends on nothing but the alternatives of each rule. -/
theorem validate_congr {g' : Grammar} (h : ∀ rule, g'.alternatives rule = g.alternatives rule) :
  g'.validate = g.validate
  := by
  have hcontains : g'.contains = g.contains := by
    funext rule
    rw [contains_eq, contains_eq, h]
  rw [validate, validate, references, references, rules, rules, hcontains, funext h]

end Grammar

/-! ## Evaluations under a valid grammar -/

/-- The rules that a valid grammar knows refer to each other only. -/
theorem Grammar.isClosed_of_validate {g : Grammar} (h : g.validate = .ok ()) :
  g.IsClosed {rule | g.contains rule = true}
  := by
  intro q hq _
  apply validate_eq_ok_iff.mp h q hq

section

variable {p : Production} {d : Diagnostic}

/-- Under a valid grammar no production that refers to known rules only comes to an unknown one. -/
theorem cause_of_evaluateTop {s : Setting} (hvalid : s.grammar.validate = .ok ())
    (hp : ∀ rule ∈ p.references, s.grammar.contains rule = true) {c : Cursor}
    (hout : (evaluateTop s p c).outcome = .error d) (rule : Nonterminal) :
  d.cause ≠ .unknownRule rule
  := by
  intro hcause
  obtain ⟨houtcome, -⟩ := mirrors_among (Grammar.isClosed_of_validate hvalid) (fun _ _ => rfl) hp c
  rw [hout] at houtcome
  cases houtcome with
  | error told =>
    obtain ⟨hknown, hunknown⟩ : s.grammar.contains rule = true ∧ s.grammar.contains rule = false :=
      told.2 rule hcause
    rw [hknown] at hunknown
    cases hunknown

/-- Neither is a session under a valid grammar, whatever was asked before, ever told of an unknown rule. -/
theorem Session.cause_of_validate {s : Session} (hvalid : s.grammar.validate = .ok ())
    (hp : ∀ rule ∈ p.references, s.grammar.contains rule = true) {start : Nat}
    (hout : (s.evaluate p start).1.outcome = .error d) (rule : Nonterminal) :
  d.cause ≠ .unknownRule rule
  := by
  intro hcause
  have hindex : d.cause.index? = none := by
    rw [hcause]
    rfl
  apply cause_of_evaluateTop (s := s.setting) hvalid hp (outcome_eq_error_of_conclude hout hindex) rule hcause

/-- A run of productions that refer to known rules only fails for no unknown rule. -/
theorem Parse.cause_of_runEach {ps : List Production} {session : Session} {parse : Parse}
    (hvalid : session.grammar.validate = .ok ())
    (hps : ∀ p ∈ ps, ∀ rule ∈ p.references, session.grammar.contains rule = true)
    (hout : (runEach ps session parse).outcome = .error d) (rule : Nonterminal) :
  d.cause ≠ .unknownRule rule
  := by
  induction ps generalizing session parse with
  | nil =>
    obtain ⟨shown, hcause⟩ := cause_of_checkEnd hout
    rw [hcause]
    simp
  | cons p others ih =>
    obtain ⟨hp, hothers⟩ := List.forall_mem_cons.mp hps
    simp only [runEach] at hout
    cases hfirst : (session.evaluate p parse.position).1.outcome with
    | ok reading =>
      rw [hfirst] at hout
      -- The next session differs in its memory only.
      have hafter : (session.evaluate p parse.position).2.grammar.validate = .ok () := hvalid
      apply ih hafter hothers hout
    | error reason =>
      rw [hfirst] at hout
      obtain rfl := Except.error.inj hout
      apply Session.cause_of_validate hvalid hp hfirst

/-- A parse of a valid grammar fails for no unknown rule. -/
theorem Parse.cause_of_validate {parse : Parse} (hvalid : parse.grammar.validate = .ok ())
    (hout : parse.run.outcome = .error d) (rule : Nonterminal) :
  d.cause ≠ .unknownRule rule
  := by
  apply cause_of_runEach _ _ hout
  · apply hvalid
  · intro p hp
    apply Grammar.validate_eq_ok_iff.mp hvalid p (List.mem_filter.mp hp).1

end

/-! ## Grammars that productions are added to -/

/-- Validation is exact and suffices, whatever productions are added to a grammar and in what order.  A grammar is
valid just when its productions make up all rules that they refer to.  When it is not, it is told so by the first
rule that is missing, which does not depend on how productions of different rules were added in turn.  When it is,
neither the evaluation of one of its productions, or of any other that refers to rules of the grammar only, nor a
parse fails for an unknown rule. -/
theorem Grammar.validate_exact (additions : List (List Production)) :
  let g := additions.foldl Grammar.add .empty
  let ps := additions.flatten
  (g.validate = .ok () ↔ ∀ p ∈ ps, p.IsSupplied ps)
    ∧ (∀ d, g.validate = .error d ↔ ∃ p missing, IsFirstMissing ps p missing ∧ d = unknown missing)
    ∧ (∀ others : List (List Production),
        (∀ rule, (others.flatten.filter fun p => p.rule = rule) = ps.filter fun p => p.rule = rule) →
          (others.foldl Grammar.add .empty).validate = g.validate)
    ∧ (g.validate = .ok () →
        (∀ (s : Session) (p : Production) (start : Nat) (d : Diagnostic), s.grammar = g → p ∈ ps ∨ p.IsSupplied ps →
          (s.evaluate p start).1.outcome = .error d → ∀ rule, d.cause ≠ .unknownRule rule)
        ∧ ∀ (parse : Parse) (d : Diagnostic), parse.grammar = g → parse.run.outcome = .error d →
          ∀ rule, d.cause ≠ .unknownRule rule)
  := by
  intro g ps
  have hproductions (additions : List (List Production)) :
      (additions.foldl Grammar.add .empty).productions = additions.flatten :=
    productions_foldl_add empty additions
  have hsupplied (p : Production) : p.IsSupplied ps ↔ ∀ rule ∈ p.references, g.contains rule = true := by
    simp only [Production.IsSupplied, contains_eq_true_iff, g, hproductions, ps]
  have hvalid : g.validate = .ok () ↔ ∀ p ∈ ps, p.IsSupplied ps := by
    simp only [validate_eq_ok_iff, hsupplied, g, hproductions, ps]
  refine ⟨hvalid, ?_, ?_, ?_⟩
  · intro d
    rw [validate_eq_error_iff, hproductions]
  · intro others hothers
    apply validate_congr
    intro rule
    rw [alternatives, alternatives, hproductions, hproductions, hothers rule]
  · intro hg
    constructor
    · rintro s p start d hs hp hout
      apply Session.cause_of_validate (by rw [hs, hg]) _ hout
      rw [hs, ← hsupplied]
      rcases hp with hp | hp
      · apply hvalid.mp hg p hp
      · apply hp
    · intro parse d hparse hout
      apply Parse.cause_of_validate (by rw [hparse, hg]) hout

/-- What is added for programs that are expressions: the root, and then the rules of expressions. -/
def nestedAdditions : List (List Production) := [[⟨.root, .nest .expression .once, []⟩], nestedGrammar.productions]

/-- A number before a parenthesis that nothing has opened. -/
def closedNumber : List Token := [.unplaced .number "1", .unplaced .closeParen ""]

/-- Expressions are valid, be the root added first or last, and neither an evaluation that lacks a parenthesis nor a
parse that is left with one fails for an unknown rule. -/
theorem Grammar.validate_nestedAdditions :
  let g := nestedAdditions.foldl Grammar.add .empty
  let d : Diagnostic := ⟨.tooFew ⟨.group, "`CloseParen`", 2, "end of input"⟩, .null⟩
  let e : Diagnostic := ⟨.unexpected "CloseParen" 1, .null⟩
  g.validate = .ok () ∧ (nestedAdditions.reverse.foldl Grammar.add .empty).validate = .ok ()
    ∧ ((Session.start g openedNumber 10).evaluate parenthesized 0).1.outcome = .error d
    ∧ (Parse.start g closedNumber).run.outcome = .error e
    ∧ ∀ rule, d.cause ≠ .unknownRule rule ∧ e.cause ≠ .unknownRule rule
  := by
  intro g d e
  obtain ⟨hvalid, -, hothers, hdynamic⟩ := validate_exact nestedAdditions
  have hg : g.validate = .ok () := hvalid.mpr (by decide +kernel)
  have hmem : parenthesized ∈ nestedAdditions.flatten := by decide +kernel
  have hsession : ((Session.start g openedNumber 10).evaluate parenthesized 0).1.outcome = .error d := by
    decide +kernel
  have hparse : (Parse.start g closedNumber).run.outcome = .error e := by
    decide +kernel
  have hreversed : ∀ rule ∈ Nonterminal.all, (nestedAdditions.reverse.flatten.filter fun p => p.rule = rule)
      = nestedAdditions.flatten.filter fun p => p.rule = rule := by
    decide +kernel
  obtain ⟨hevaluate, hrun⟩ := hdynamic hg
  refine ⟨hg, ?_, hsession, hparse, fun rule => ⟨?_, ?_⟩⟩
  · rw [hothers _ fun rule => hreversed rule (Nonterminal.mem_all rule), hg]
  · apply hevaluate _ parenthesized 0 d rfl (Or.inl hmem) hsession
  · apply hrun _ e rfl hparse

/-- Of two rules that are missing, the one that a group refers to is told, though a primary, which comes after groups,
was added before. -/
example :
  let additions : List (List Production) := [[⟨.primary, .nest .floor .once, []⟩], [⟨.group, .nest .unary .once, []⟩]]
  (additions.foldl Grammar.add .empty).validate = .error (Grammar.unknown .unary)
  := by
  decide +kernel

end LayoutGrammar
