import LayoutGrammar.Grammar.Basic
import LayoutGrammar.Tree.Basic
import Mathlib.Data.List.Nodup
import Mathlib.Tactic.Use

/-!
# Tiers of binary operators

A list of tiers, from the loosest to the tightest, over operands that are single tokens: the productions that
are added to a grammar for them (`Precedence.additions`), and how a sequence of operands and operators is cut
into nodes (`Precedence.split`).  The cut at the loosest operator leaves pieces that are sequences of operands
and operators of the other tiers (`Precedence.Alternates.joined`).
-/

namespace LayoutGrammar

/-- A tier of binary operators that group to the left. -/
structure Tier where
  /-- The nonterminal of the operands of the tier with its operators. -/
  level : Nonterminal
  /-- The nonterminal of an operator of the tier and the operand after it. -/
  continuation : Nonterminal
  /-- The operator. -/
  operator : Terminal
deriving DecidableEq

namespace Precedence

/-! ## Productions -/

section

variable (base : Nonterminal) (kinds : Choice Terminal)

/-- The nonterminals of some tiers and of the operands of them all. -/
def rules : List Tier → List Nonterminal
  | [] => [base]
  | tier :: tiers => tier.level :: tier.continuation :: rules tiers

/-- The operators of some tiers. -/
def operators (tiers : List Tier) : List Terminal := tiers.map Tier.operator

/-- The nonterminal of the loosest of some tiers, or of the operands if there is none. -/
def head : List Tier → Nonterminal
  | [] => base
  | tier :: _ => tier.level

/-- The production of the nonterminal of the loosest of some tiers, or of the operands if there is none. -/
def top : List Tier → Production
  | [] => ⟨base, ⟨.tokens kinds false, .once⟩, []⟩
  | tier :: tiers => .operands tier.level tier.continuation (head base tiers)

/-- What is added to a grammar for some tiers: the two productions of each tier, and the one of the
operands. -/
def additions : List Tier → List (List Production)
  | [] => [[top base kinds []]]
  | tier :: tiers =>
    Production.binary tier.level tier.continuation (head base tiers) tier.operator :: additions tiers

/-- Tiers that can be told apart: no two of their nonterminals are the same, no two of their operators are, and
no operator is an operand. -/
structure AreDistinct (tiers : List Tier) : Prop where
  /-- No two nonterminals are the same. -/
  rules_nodup : (rules base tiers).Nodup
  /-- No two operators are the same. -/
  operators_nodup : (operators tiers).Nodup
  /-- No operator is an operand. -/
  disjoint : ∀ kind ∈ operators tiers, kind ∉ kinds.members

end

variable {base : Nonterminal} {kinds : Choice Terminal} {tier : Tier} {tiers : List Tier}

theorem rule_top (base : Nonterminal) (kinds : Choice Terminal) (tiers : List Tier) :
  (top base kinds tiers).rule = head base tiers
  := by
  cases tiers <;> rfl

theorem head_mem_rules (base : Nonterminal) (tiers : List Tier) : head base tiers ∈ rules base tiers := by
  cases tiers <;> simp [head, rules]

theorem top_mem_additions (base : Nonterminal) (kinds : Choice Terminal) (tiers : List Tier) :
  top base kinds tiers ∈ (additions base kinds tiers).flatten
  := by
  cases tiers <;> simp [top, additions, Production.binary]

/-- The productions that are added are for one nonterminal each. -/
theorem map_rule_additions (base : Nonterminal) (kinds : Choice Terminal) (tiers : List Tier) :
  (additions base kinds tiers).flatten.map Production.rule = rules base tiers
  := by
  induction tiers with
  | nil => rfl
  | cons tier tiers ih =>
    simp [additions, rules, Production.binary, Production.operands, Production.operation, ih]

/-- There are two nonterminals for each tier, and one for the operands. -/
theorem length_rules (base : Nonterminal) (tiers : List Tier) :
  (rules base tiers).length = 2 * tiers.length + 1
  := by
  induction tiers with
  | nil => rfl
  | cons tier tiers ih =>
    simp only [rules, List.length_cons, ih]
    omega

theorem AreDistinct.tail (h : AreDistinct base kinds (tier :: tiers)) :
  AreDistinct base kinds tiers
  where
  rules_nodup := h.rules_nodup.of_cons.of_cons
  operators_nodup := h.operators_nodup.of_cons
  disjoint kind hkind := h.disjoint kind (List.mem_cons_of_mem _ hkind)

/-- The nonterminals of a tier are not the one of its operands. -/
theorem AreDistinct.head_ne (h : AreDistinct base kinds (tier :: tiers)) :
  head base tiers ≠ tier.level ∧ head base tiers ≠ tier.continuation
  := by
  have hmem := head_mem_rules base tiers
  have hnodup := h.rules_nodup
  simp only [rules, List.nodup_cons, List.mem_cons, not_or] at hnodup
  constructor
  · rintro heq
    apply hnodup.1.2 (heq ▸ hmem)
  · rintro heq
    apply hnodup.2.1 (heq ▸ hmem)

/-! ## Sequences of operands and operators -/

/-- Operands of some kinds with operators of some kinds between them. -/
inductive Alternates (kinds operators : List Terminal) : List Token → Prop where
  /-- One operand. -/
  | single {t : Token} (operand : t.kind ∈ kinds) : Alternates kinds operators [t]
  /-- An operand, an operator, and what comes after it. -/
  | cons {t o : Token} {ts : List Token} (operand : t.kind ∈ kinds) (operator : o.kind ∈ operators)
      (others : Alternates kinds operators ts) : Alternates kinds operators (t :: o :: ts)

/-- Pieces of some sort with an operator between them. -/
inductive Joined (P : List Token → Prop) (operator : Terminal) : List Token → Prop where
  /-- One piece. -/
  | single {piece : List Token} (sort : P piece) : Joined P operator piece
  /-- A piece, the operator, and what comes after it. -/
  | cons {piece ts : List Token} {o : Token} (sort : P piece) (kind_eq : o.kind = operator)
      (others : Joined P operator ts) : Joined P operator (piece ++ o :: ts)

namespace Alternates

variable {kinds operators : List Terminal} {ts : List Token}

theorem ne_nil (h : Alternates kinds operators ts) : ts ≠ [] := by
  cases h <;> simp

theorem kind_mem (h : Alternates kinds operators ts) {t : Token} (ht : t ∈ ts) :
  t.kind ∈ kinds ∨ t.kind ∈ operators
  := by
  induction h with
  | single operand =>
    obtain rfl := List.mem_singleton.mp ht
    apply Or.inl operand
  | cons operand operator _ ih =>
    rcases List.mem_cons.mp ht with rfl | ht
    · apply Or.inl operand
    · rcases List.mem_cons.mp ht with rfl | ht
      · apply Or.inr operator
      · apply ih ht

/-- Without operators there is one operand. -/
theorem eq_single (h : Alternates kinds [] ts) : ∃ t, ts = [t] ∧ t.kind ∈ kinds := by
  cases h with
  | single operand => exact ⟨_, rfl, operand⟩
  | cons _ operator _ => cases operator

/-- A sequence is made up of sequences without one of the operators, which is between them. -/
theorem joined {operator : Terminal} (h : Alternates kinds (operator :: operators) ts) :
  Joined (Alternates kinds operators) operator ts
  := by
  induction h with
  | single operand => apply Joined.single (.single operand)
  | @cons t o ts operand ho _ ih =>
    by_cases heq : o.kind = operator
    · apply Joined.cons (.single operand) heq ih
    · -- Another operator is part of the first piece.
      have hother := (List.mem_cons.mp ho).resolve_left heq
      cases ih with
      | single sort => apply Joined.single (.cons operand hother sort)
      | cons sort kind_eq others => apply Joined.cons (.cons operand hother sort) kind_eq others

end Alternates

/-- An operand with further operands and the operators before them. -/
theorem alternates_flatMap {kinds operators : List Terminal} {operand : Token} {others : List (Token × Token)}
    (hoperand : operand.kind ∈ kinds)
    (hothers : ∀ other ∈ others, other.1.kind ∈ operators ∧ other.2.kind ∈ kinds) :
  Alternates kinds operators (operand :: others.flatMap fun other => [other.1, other.2])
  := by
  induction others generalizing operand with
  | nil => apply Alternates.single hoperand
  | cons other others ih =>
    obtain ⟨⟨hoperator, hother⟩, hothers⟩ := List.forall_mem_cons.mp hothers
    apply Alternates.cons hoperand hoperator (ih hother hothers)

/-! ## The split -/

/-- The node of a sequence of operands and operators of some tiers: the sequence is cut at the operators of the
loosest tier, which are dropped, and the pieces are the nodes of the other tiers. -/
def split (base : Nonterminal) : List Tier → List Token → Node
  | [], ts => ⟨base, ts.map .leaf⟩
  | tier :: tiers, ts =>
    ⟨tier.level, (ts.splitOnP fun t => t.kind = tier.operator).map fun piece => (split base tiers piece).tree⟩

theorem rule_split (base : Nonterminal) (tiers : List Tier) (ts : List Token) :
  (split base tiers ts).rule = head base tiers
  := by
  cases tiers <;> rfl

theorem split_isEmpty (base : Nonterminal) (tiers : List Tier) {ts : List Token} (h : ts ≠ []) :
  (split base tiers ts).isEmpty = false
  := by
  cases tiers with
  | nil => simpa [split, Node.isEmpty] using h
  | cons tier tiers => simp [split, Node.isEmpty, List.splitOnP_ne_nil]

/-- No operator of a tier is in a sequence of the tiers after it. -/
theorem AreDistinct.not_mem (h : AreDistinct base kinds (tier :: tiers)) {ts : List Token}
    (hts : Alternates kinds.members (operators tiers) ts) :
  ∀ t ∈ ts, decide (t.kind = tier.operator) = false
  := by
  intro t ht
  rw [decide_eq_false_iff_not]
  intro heq
  rcases hts.kind_mem ht with hkind | hkind
  · apply h.disjoint tier.operator List.mem_cons_self (heq ▸ hkind)
  · apply (List.nodup_cons.mp h.operators_nodup).1 (heq ▸ hkind)

theorem AreDistinct.splitOnP_single (h : AreDistinct base kinds (tier :: tiers)) {piece : List Token}
    (hpiece : Alternates kinds.members (operators tiers) piece) :
  (piece.splitOnP fun t => t.kind = tier.operator) = [piece]
  := List.splitOnP_eq_singleton (h.not_mem hpiece)

theorem AreDistinct.splitOnP_cons (h : AreDistinct base kinds (tier :: tiers)) {piece ts : List Token}
    (hpiece : Alternates kinds.members (operators tiers) piece) {o : Token} (ho : o.kind = tier.operator) :
  ((piece ++ o :: ts).splitOnP fun t => t.kind = tier.operator)
    = piece :: ts.splitOnP fun t => t.kind = tier.operator
  := List.splitOnP_append_cons_of_forall_mem (h.not_mem hpiece) o (by simpa using ho) ts

/-! ## The grammar -/

/-- Whatever the order in which the productions are added, each of their nonterminals has one. -/
theorem AreDistinct.alternatives_eq (h : AreDistinct base kinds tiers) {order : List (List Production)}
    (horder : order.Perm (additions base kinds tiers)) {p : Production}
    (hp : p ∈ (additions base kinds tiers).flatten) :
  (order.foldl Grammar.add .empty).alternatives p.rule = [p]
  := by
  let ps := (additions base kinds tiers).flatten
  have hperm : (order.foldl Grammar.add .empty).productions.Perm ps := by
    rw [Grammar.productions_foldl_add]
    apply horder.flatten
  have hrules : (ps.map Production.rule).Nodup := by
    rw [map_rule_additions]
    apply h.rules_nodup
  have hsame : ps.filter (fun q => q.rule = p.rule) = [p] := by
    rw [← List.perm_singleton, List.perm_ext_iff_of_nodup (hrules.of_map.filter _) (List.nodup_singleton p)]
    intro q
    rw [List.mem_filter, List.mem_singleton, decide_eq_true_eq]
    constructor
    · rintro ⟨hq, hrule⟩
      apply List.inj_on_of_nodup_map hrules hq hp hrule
    · rintro rfl
      use hp
  rw [Grammar.alternatives, ← List.perm_singleton, ← hsame]
  apply hperm.filter

end Precedence
end LayoutGrammar
