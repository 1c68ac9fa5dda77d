import LayoutGrammar.Proofs.Evaluation.Reuse
import LayoutGrammar.Proofs.Evaluation.Simulation
import Mathlib.Data.Set.Basic

/-!
# Rules that can be reached

What a production reads depends on nothing but the productions of the rules that can be reached from it
(`Session.evaluate_add_of_not_reaches`).  What carries this is any set of rules that refer to each other only: when
two grammars have the same alternatives for these rules, evaluations of a production that refers to none but these
mirror each other (`mirrors_among`), and tell of no unknown rule but one of these.
-/

namespace LayoutGrammar

/-! ## Rules that refer to each other -/

namespace Grammar

/-- The rules that can be reached from a production. -/
inductive Reaches (g : Grammar) (p : Production) : Nonterminal → Prop where
  /-- The production refers to the rule. -/
  | refers {rule : Nonterminal} (mem : rule ∈ p.references) : g.Reaches p rule
  /-- An alternative of a rule that can be reached refers to the rule. -/
  | further {q : Production} {rule : Nonterminal} (reaches : g.Reaches p q.rule) (registered : q ∈ g.productions)
    (mem : rule ∈ q.references) : g.Reaches p rule

/-- Whether the alternatives of some rules refer to none but these rules. -/
def IsClosed (g : Grammar) (rules : Set Nonterminal) : Prop :=
  ∀ q ∈ g.productions, q.rule ∈ rules → ∀ rule ∈ q.references, rule ∈ rules

variable {g : Grammar} {p : Production} {rules : Set Nonterminal}

theorem isClosed_reaches (g : Grammar) (p : Production) :
  g.IsClosed {rule | g.Reaches p rule}
  := by
  intro q hq hreaches rule hrule
  apply Reaches.further hreaches hq hrule

/-- From some rules that refer to each other only no other rule can be reached. -/
theorem Reaches.mem {rule : Nonterminal} (h : g.Reaches p rule) (hclosed : g.IsClosed rules)
    (hp : ∀ rule ∈ p.references, rule ∈ rules) :
  rule ∈ rules
  := by
  induction h with
  | refers mem => apply hp _ mem
  | further _ registered mem ih => apply hclosed _ registered ih _ mem

/-- Productions of other rules leave the alternatives of a rule as they are. -/
theorem alternatives_add_of_ne {further : List Production} {rule : Nonterminal}
    (h : ∀ q ∈ further, q.rule ≠ rule) :
  (g.add further).alternatives rule = g.alternatives rule
  := by
  simpa [alternatives, add] using h

end Grammar

/-! ## Evaluations among some rules -/

/-- Evaluations of productions that refer to none but some rules, of which a grammar may lack some. -/
def Correspondence.among (g : Grammar) (rules : Set Nonterminal) : Correspondence where
  allows _ := True
  target a b := b = a ∧ ∀ rule ∈ a.references, rule ∈ rules
  place := Eq
  trees := Eq
  told d e := e = d ∧ ∀ rule, d.cause = .unknownRule rule → rule ∈ rules ∧ g.contains rule = false
  shift := 0
  edge := none

section

variable {s : Setting} {g : Grammar} {rules : Set Nonterminal}

/-- A production that refers to none but some rules is the same among them. -/
theorem Correspondence.productions_among {p : Production} (hp : ∀ rule ∈ p.references, rule ∈ rules) :
  (among g rules).Productions p p
  := by
  apply productions_refl trivial
  intro item hitem
  refine ⟨⟨rfl, ?_⟩, rfl⟩
  intro rule hrule
  apply hp rule (List.mem_flatMap.mpr ⟨item, hitem, hrule⟩)

theorem follows_among (s : Setting) (g : Grammar) (rules : Set Nonterminal) :
  (Correspondence.among s.grammar rules).Follows s { s with grammar := g }
  := by
  apply Correspondence.follows_of_eq s g rfl rfl rfl
  · intro token
    rfl
  · rintro a b ⟨⟨htarget, -⟩, -⟩
    rw [htarget]
  · exact And.left
  · intro d hd
    exact ⟨rfl, fun rule hrule => absurd hrule (hd rule)⟩

theorem relates_among (hclosed : s.grammar.IsClosed rules)
    (hsame : ∀ rule ∈ rules, g.alternatives rule = s.grammar.alternatives rule) :
  (Correspondence.among s.grammar rules).Relates s { s with grammar := g }
  := by
  apply (follows_among s g rules).relates_of_candidates And.left rfl
  rintro heads _ ⟨-, hheads⟩
  have hcandidates : g.candidates heads.members = s.grammar.candidates heads.members :=
    Grammar.candidates_congr fun rule hrule => hsame rule (hheads rule hrule)
  rw [hcandidates]
  apply Correspondence.candidates_refl
  · intro p hp hrule
    apply Correspondence.productions_among
    apply hclosed p hp (hheads p.rule hrule)
  · intro rule hrule hunknown
    use rfl
    rintro _ ⟨⟩
    exact ⟨hheads rule hrule, hunknown⟩

/-- A production that refers to none but some rules is evaluated alike under grammars that have the same
alternatives for these rules, when these refer to each other only. -/
theorem mirrors_among (hclosed : s.grammar.IsClosed rules)
    (hsame : ∀ rule ∈ rules, g.alternatives rule = s.grammar.alternatives rule) {p : Production}
    (hp : ∀ rule ∈ p.references, rule ∈ rules) (c : Cursor) :
  (evaluateTop s p c).Mirrors (.among s.grammar rules) (Correspondence.among s.grammar rules).Readings
    (evaluateTop { s with grammar := g } p c)
  := ((relates_among hclosed hsame).evaluate _ 0 (Correspondence.productions_among hp) rfl).mirrors rfl

end

/-- Productions of rules that cannot be reached from a production make no difference to it, whatever tokens, limit
and memory a session has and wherever it starts: when they are added, it reads and fails the same, the same happens,
and the same is kept of it. -/
theorem Session.evaluate_add_of_not_reaches (s : Session) (p : Production) (further : List Production) (start : Nat)
    (h : ∀ q ∈ further, ¬ s.grammar.Reaches p q.rule) :
  let more := { s with grammar := s.grammar.add further }
  (more.evaluate p start).1.outcome = (s.evaluate p start).1.outcome
    ∧ (more.evaluate p start).1.journal.events = (s.evaluate p start).1.journal.events
    ∧ (more.evaluate p start).2.memory = (s.evaluate p start).2.memory
  := by
  intro more
  have hsame : ∀ rule ∈ {rule | s.grammar.Reaches p rule},
      (s.grammar.add further).alternatives rule = s.grammar.alternatives rule := by
    intro rule hrule
    apply Grammar.alternatives_add_of_ne
    rintro q hq rfl
    apply h q hq hrule
  obtain ⟨houtcome, hevents⟩ := mirrors_among (s := s.setting) (s.grammar.isClosed_reaches p) hsame
    (fun _ => Grammar.Reaches.refers) (s.cursor start)
  apply conclude_congr rfl
  · apply houtcome.eq And.left fun hread => hread.eq rfl
  · apply Correspondence.events_eq And.left rfl hevents

/-- An expression in parentheses or a number. -/
def parenthesized : Production := ⟨.expression, .oneOf (.of .group [.primary]), []⟩

/-- Expressions that are nested in parentheses, to any depth. -/
def nestedGrammar : Grammar := ⟨[
  parenthesized,
  ⟨.group, .skip .openParen, [.nest .expression .once, .skip .closeParen]⟩,
  ⟨.primary, .token .number, []⟩]⟩

/-- A number after a parenthesis that is not closed. -/
def openedNumber : List Token := [.unplaced .openParen "", .unplaced .number "1"]

/-- No statement can be reached from an expression, which goes on to lack its parenthesis when there are
statements. -/
theorem evaluate_add_statement :
  let s := Session.start nestedGrammar openedNumber 10
  let further : List Production := [⟨.statement, .nest .expression .once, []⟩]
  (∀ q ∈ further, ¬ s.grammar.Reaches parenthesized q.rule)
    ∧ ({ s with grammar := s.grammar.add further }.evaluate parenthesized 0).1.outcome
      = .error ⟨.tooFew ⟨.group, "`CloseParen`", 2, "end of input"⟩, .null⟩
  := by
  intro s further
  have hclosed : nestedGrammar.IsClosed {.expression, .group, .primary} := by
    intro q hq _ rule hrule
    simp only [nestedGrammar, List.mem_cons, List.not_mem_nil, or_false] at hq
    rcases hq with rfl | rfl | rfl <;> revert rule <;> decide
  have hnot : ∀ q ∈ further, ¬ s.grammar.Reaches parenthesized q.rule := by
    intro q hq hreaches
    obtain rfl := List.mem_singleton.mp hq
    apply absurd (hreaches.mem hclosed (by decide))
    decide
  have hout : (s.evaluate parenthesized 0).1.outcome
      = .error ⟨.tooFew ⟨.group, "`CloseParen`", 2, "end of input"⟩, .null⟩ := by
    decide +kernel
  use hnot
  rw [(Session.evaluate_add_of_not_reaches s parenthesized further 0 hnot).1, hout]

end LayoutGrammar
