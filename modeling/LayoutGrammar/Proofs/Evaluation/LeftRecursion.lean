import LayoutGrammar.Proofs.Evaluation.Alternatives
import Mathlib.Data.List.Basic

/-!
# Left recursion

A production that opens with itself, or with one that opens with it in turn, goes deeper and reads nothing.  Such
productions make up a descent without end (`Grammar.Descends`), in which each tries the next one first.  An evaluation
that is refused deeper down is refused all the way up, for the same reason, as no choice goes on to another
alternative for it (`matchProduction_of_opensWith`).  So a descent always comes to the limit and tells so
(`Session.evaluate_of_descends`).
-/

namespace LayoutGrammar

/-! ## Descents -/

namespace Grammar

/-- Whether a production tries another one before all else: its opening item asks for rules, and the other
production is the first alternative of the first of them. -/
def OpensWith (g : Grammar) (p q : Production) : Prop :=
  ∃ heads hoisted first, p.opening.target = .rules heads hoisted ∧ heads.members.head? = some first
    ∧ (g.alternatives first).head? = some q

/-- Whether productions of a grammar open with each other, one after the other, without end. -/
structure Descends (g : Grammar) (chain : Nat → Production) : Prop where
  /-- They are productions of the grammar. -/
  registered : ∀ i, chain i ∈ g.productions
  /-- Each opens with the next one. -/
  opens : ∀ i, g.OpensWith (chain i) (chain (i + 1))

/-- What a production opens with is the first candidate of its opening item, if the item refers to no unknown
rule. -/
theorem OpensWith.exists_candidates {g : Grammar} {p q : Production} (h : g.OpensWith p q)
    (hknown : ∀ rule ∈ p.opening.target.references, g.contains rule = true) :
  ∃ heads hoisted others, p.opening.target = .rules heads hoisted
    ∧ g.candidates heads.members = .ok (q :: others)
  := by
  obtain ⟨heads, hoisted, first, htarget, hfirst, hq⟩ := h
  obtain ⟨rules, hmembers⟩ := List.head?_eq_some_iff.mp hfirst
  obtain ⟨others, hothers⟩ := List.head?_eq_some_iff.mp hq
  have hheads : ∀ rule ∈ heads.members, g.contains rule = true := by
    rwa [htarget] at hknown
  use heads, hoisted, others ++ rules.flatMap g.alternatives, htarget
  rw [candidates_eq hheads, hmembers, List.flatMap_cons, hothers, List.cons_append]

end Grammar

/-! ## Refusals -/

section

variable {s : Setting} {inner : Evaluator} {c : Cursor} {d : Diagnostic} {j : Journal}

/-- A choice is refused as its first alternative is. -/
theorem tryRules_of_refused {rules : List Nonterminal} {q : Production} {others : List Production}
    (hcandidates : s.grammar.candidates rules = .ok (q :: others)) (hq : inner q c = ⟨.error d, j⟩)
    (hd : d.isMismatch = false) :
  tryRules s inner rules c = ⟨.error d, j⟩
  := by
  rw [tryRules_of_candidates hcandidates]
  simp only [tryEach, hq, hd, Bool.false_eq_true, if_false]

/-- An item fails as the choice between its rules does, however often it may match. -/
theorem matchItem_of_error (rule : Nonterminal) {item : Item} {heads : Choice Nonterminal} {hoisted : Bool}
    (htarget : item.target = .rules heads hoisted) (h : tryRules s inner heads.members c = ⟨.error d, j⟩) :
  matchItem s inner rule item c = ⟨.error d, j⟩
  := by
  have honce : matchOnce s inner rule item.target c = ⟨.error d, j⟩ := by
    rw [htarget, matchOnce, h]
    apply Attempt.bind_of_error rfl
  unfold matchItem
  split
  · rw [matchMany, honce]
    apply Attempt.bind_of_error rfl
  · rw [honce]
    apply Attempt.bind_of_error rfl

/-- A production is refused as the one that it opens with is, and nothing happens but that it was entered. -/
theorem matchProduction_of_opensWith {p q : Production} (h : s.grammar.OpensWith p q)
    (hknown : ∀ rule ∈ p.references, s.grammar.contains rule = true) (hq : inner q c = ⟨.error d, j⟩)
    (hd : d.isMismatch = false) (depth : Nat) :
  matchProduction s inner depth p c = ⟨.error d, .event (.entered p.rule c.index depth) ++ j⟩
  := by
  obtain ⟨heads, hoisted, others, htarget, hcandidates⟩ := h.exists_candidates fun rule hrule =>
    hknown rule (List.mem_flatMap.mpr ⟨p.opening, List.mem_cons_self, hrule⟩)
  have hopening : matchItem s inner p.rule p.opening c = ⟨.error d, j⟩ :=
    matchItem_of_error p.rule htarget (tryRules_of_refused hcandidates hq hd)
  rw [matchProduction, hopening]
  rfl

/-- A descent is refused at the limit, after each of its productions was entered at the same place, one deeper than
the other. -/
theorem evaluate_descent {chain : Nat → Production} (hchain : s.grammar.Descends chain)
    (hvalid : s.grammar.validate = .ok ()) (room depth first : Nat) (c : Cursor) :
  ∃ j : Journal,
    evaluate s room depth (chain first) c
      = ⟨.error ⟨.tooDeep (chain (first + room)).rule s.limit, c.position s.ending⟩, j⟩
    ∧ j.events = (List.range room).map fun i => .entered (chain (first + i)).rule c.index (depth + i)
  := by
  induction room generalizing depth first with
  | zero => exact ⟨.empty, rfl, rfl⟩
  | succ room ih =>
    obtain ⟨j, hnext, hevents⟩ := ih (depth + 1) (first + 1)
    have hlast : first + 1 + room = first + (room + 1) := by omega
    rw [hlast] at hnext
    have hknown := Grammar.validate_eq_ok_iff.mp hvalid (chain first) (hchain.registered first)
    use .event (.entered (chain first).rule c.index depth) ++ j
    constructor
    · apply matchProduction_of_opensWith (hchain.opens first) hknown hnext rfl
    · rw [Journal.events_append, Journal.events_event, hevents, List.range_succ_eq_map, List.map_cons, List.map_map]
      simp [Function.comp_def, Nat.add_assoc, Nat.add_comm 1]

end

/-- Left recursion is always caught.  In a valid grammar, when productions open with each other without end, the
evaluation of the first of them goes deeper until it comes to the limit, and is refused there, for the rule that
would have been next: whatever tokens, limit and memory a session has and wherever the evaluation starts, nothing is
matched, no mismatch is raised or told, and every evaluation starts at the same token. -/
theorem Session.evaluate_of_descends (s : Session) (chain : Nat → Production) (start : Nat)
    (hvalid : s.grammar.validate = .ok ()) (hchain : s.grammar.Descends chain) :
  (s.evaluate (chain 0) start).1.outcome
      = .error ⟨.tooDeep (chain (s.limit + 1)).rule s.limit, s.position start⟩
    ∧ (s.evaluate (chain 0) start).1.journal.events
      = (List.range (s.limit + 1)).map (fun depth => .entered (chain depth).rule start depth)
    ∧ (s.evaluate (chain 0) start).2 = s
  := by
  obtain ⟨j, hout, hevents⟩ :=
    evaluate_descent (s := s.setting) hchain hvalid (s.limit + 1) 0 0 (s.cursor start)
  simp only [Nat.zero_add] at hout hevents
  have hevaluate : s.evaluate (chain 0) start = s.conclude _ := congrArg s.conclude hout
  have hmemory : s.memory.follow j = s.memory := by
    rw [Memory.follow, hevents, List.foldl_map]
    apply List.foldl_fixed
  rw [hevaluate]
  refine ⟨?_, hevents, ?_⟩
  · rw [outcome_conclude_eq_self]
    · rfl
    · rintro _ ⟨⟩
      rfl
  · simp only [conclude, hmemory]

/-- A sum of operands. -/
def sumOfOperands : Production := ⟨.expression, .nest .primary .once, [.skip .plus, .nest .primary .once]⟩

/-- An operand that is a sum. -/
def sumAsOperand : Production := ⟨.primary, .nest .expression .once, []⟩

/-- Sums whose operands are sums first of all, and numbers only then. -/
def circularGrammar : Grammar := ⟨[sumOfOperands, sumAsOperand, ⟨.primary, .token .number, []⟩]⟩

/-- A number is not taken for an operand, as the sum before it comes to the limit. -/
theorem evaluate_circularSum :
  let s := Session.start circularGrammar [.unplaced .number "1"] 10
  let chain (i : Nat) : Production := if i % 2 = 0 then sumOfOperands else sumAsOperand
  s.grammar.validate = .ok () ∧ s.grammar.Descends chain
    ∧ (s.evaluate sumOfOperands 0).1.outcome = .error ⟨.tooDeep .primary 10, .null⟩
  := by
  intro s chain
  have hvalid : s.grammar.validate = .ok () := by
    decide +kernel
  have hsum : s.grammar.OpensWith sumOfOperands sumAsOperand := ⟨.one .primary, false, .primary, rfl, rfl, rfl⟩
  have hoperand : s.grammar.OpensWith sumAsOperand sumOfOperands :=
    ⟨.one .expression, false, .expression, rfl, rfl, rfl⟩
  have hchain : s.grammar.Descends chain := by
    constructor
    · intro i
      by_cases hi : i % 2 = 0 <;> simp [s, chain, hi, Session.start, circularGrammar]
    · intro i
      by_cases hi : i % 2 = 0
      · have hnext : (i + 1) % 2 ≠ 0 := by omega
        simpa only [chain, if_pos hi, if_neg hnext] using hsum
      · have hnext : (i + 1) % 2 = 0 := by omega
        simpa only [chain, if_neg hi, if_pos hnext] using hoperand
  have hfirst : chain 0 = sumOfOperands := by decide
  have hlast : chain (s.limit + 1) = sumAsOperand := by decide
  obtain ⟨hout, -⟩ := Session.evaluate_of_descends s chain 0 hvalid hchain
  rw [hfirst, hlast] at hout
  exact ⟨hvalid, hchain, hout⟩

end LayoutGrammar
