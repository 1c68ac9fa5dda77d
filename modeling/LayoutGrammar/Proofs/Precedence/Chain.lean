import LayoutGrammar.Evaluation.Session
import LayoutGrammar.Proofs.Evaluation.Parts
import LayoutGrammar.Proofs.Precedence.Tiers
import LayoutGrammar.Proofs.Prediction.Phrase
import Mathlib.Data.List.Perm.Subperm

/-!
# Chains of binary operators

When the productions of some tiers of binary operators are added to the grammar without productions, in any
order, the production of the loosest tier reads a sequence of operands and operators as it is split
(`evaluate_eq_split`).  The induction is on the tiers: if the tiers after one read their sequences as these are
split (`ReadsSplit`), an operation of the tier reads one piece of a sequence with the operator before it
(`operation_outcome`), the repeated operations read all pieces but the first (`operations_outcome`), and a
piece ends where an operator of the tier or something that is no operator comes next.
-/

namespace LayoutGrammar

namespace Precedence

/-- The evaluators that read sequences of operands and operators of some tiers as these are split, as long as no
operator of the tiers comes next. -/
def ReadsSplit (base : Nonterminal) (kinds : Choice Terminal) (tiers : List Tier) (inner : Evaluator) : Prop :=
  ∀ (c : Cursor) (ts after : List Token), Alternates kinds.members (operators tiers) ts →
    c.rest = ts ++ after → Avoids (operators tiers) after →
    (inner (top base kinds tiers) c).outcome = .ok ⟨split base tiers ts, ts.length⟩

/-- Operands are read as they are. -/
theorem readsSplit_nil (s : Setting) (base : Nonterminal) (kinds : Choice Terminal) (room depth : Nat) :
  ReadsSplit base kinds [] (evaluate s (room + 1) depth)
  := by
  intro c ts after hts hrest _
  obtain ⟨t, rfl, hkind⟩ := hts.eq_single
  have honce : (matchOnce s (evaluate s room (depth + 1)) base (.tokens kinds false) c).outcome
      = .ok (some ⟨[.leaf t], c.advance 1⟩) := by
    rw [matchOnce_token hrest hkind]
    rfl
  change (matchProduction s _ depth ⟨base, _, []⟩ c).outcome = _
  rw [matchProduction_outcome_of_single, matchItem_once honce]
  simp [Except.map, Matches.reading, Piece.reading, split]

/-- An operator of a tier is none of the tiers after it. -/
theorem AreDistinct.avoids_operator {base : Nonterminal} {kinds : Choice Terminal} {tier : Tier}
    {tiers : List Tier} (h : AreDistinct base kinds (tier :: tiers)) {o : Token} {ts : List Token}
    (ho : o.kind = tier.operator) :
  Avoids (operators tiers) (o :: ts)
  := by
  rw [avoids_cons_iff, ho]
  apply (List.nodup_cons.mp h.operators_nodup).1

/-! ## One tier -/

/-- Without an operator of a tier there is no operation. -/
theorem operation_nothing (s : Setting) (inner : Evaluator) (depth : Nat) (continuation next : Nonterminal)
    {operator : Terminal} {c : Cursor} (h : Avoids [operator] c.rest) :
  (matchProduction s inner depth (.operation continuation next operator) c).outcome
    = .ok (.nothing continuation)
  := by
  have honce : (matchOnce s inner continuation (.tokens (.one operator) true) c).outcome = .ok none := by
    have hnone : ∀ t ∈ c.rest.head?, t.kind ∉ (Choice.one operator).members := h
    rw [matchOnce_token_of_not hnone]
    rfl
  have hitem : (matchItem s inner continuation (.skip operator) c).outcome = .ok ⟨⟨[], c⟩, 0⟩ :=
    matchItem_once_of_none honce
  simp only [matchProduction, Production.operation, Attempt.outcome_bind, Attempt.note, Except.bind, hitem]
  rfl

section

variable {s : Setting} {inner : Evaluator} {base : Nonterminal} {kinds : Choice Terminal} {tier : Tier}
  {tiers : List Tier} (hdistinct : AreDistinct base kinds (tier :: tiers))
  (hnext : s.grammar.alternatives (head base tiers) = [top base kinds tiers])
  (hinner : ReadsSplit base kinds tiers inner)
include hnext hinner

/-- An operand of a tier is read as it is split among the tiers after it. -/
theorem operand_outcome {rule : Nonterminal} (hrule : head base tiers ≠ rule) {c : Cursor}
    {piece after : List Token} (hpiece : Alternates kinds.members (operators tiers) piece)
    (hrest : c.rest = piece ++ after) (hafter : Avoids (operators tiers) after) :
  (matchItem s inner rule (.nest (head base tiers) .once) c).outcome
    = .ok ⟨⟨[(split base tiers piece).tree], c.advance piece.length⟩, 1⟩
  := by
  have hcandidates : s.grammar.candidates (Choice.one (head base tiers)).members
      = .ok [top base kinds tiers] := by
    rw [← rule_top base kinds] at hnext ⊢
    apply Grammar.candidates_one hnext
  have hmatch : (⟨split base tiers piece, piece.length⟩ : Reading).isMatch = true := by
    simp [Reading.isMatch, split_isEmpty base tiers hpiece.ne_nil]
  have hgraft : graft rule false (split base tiers piece) = [(split base tiers piece).tree] := by
    simp [graft, rule_split, hrule]
  rw [← hgraft]
  apply matchItem_once
  apply (matchOnce_of_single hcandidates rule (hinner c piece after hpiece hrest hafter) hmatch).1

include hdistinct

/-- An operator of a tier and the operand after it make up a node of the operand. -/
theorem operation_outcome (depth : Nat) {c : Cursor} {o : Token} {piece after : List Token}
    (ho : o.kind = tier.operator) (hpiece : Alternates kinds.members (operators tiers) piece)
    (hrest : c.rest = o :: (piece ++ after)) (hafter : Avoids (operators tiers) after) :
  (matchProduction s inner depth (.operation tier.continuation (head base tiers) tier.operator) c).outcome
    = .ok ⟨⟨tier.continuation, [(split base tiers piece).tree]⟩, piece.length + 1⟩
  := by
  have honce : (matchOnce s inner tier.continuation (.tokens (.one tier.operator) true) c).outcome
      = .ok (some ⟨[], c.advance 1⟩) := by
    rw [matchOnce_token hrest (by simp [Choice.one, Choice.of, ho])]
    rfl
  have hoperand := operand_outcome hnext hinner hdistinct.head_ne.2 (c := c.advance 1) hpiece
    (by simp [hrest]) hafter
  have hall : (matchAll s inner tier.continuation [.nest (head base tiers) .once] ⟨[], c.advance 1⟩).outcome
      = .ok ⟨[(split base tiers piece).tree], (c.advance 1).advance piece.length⟩ :=
    matchAll_single (.nest (head base tiers) .once) ⟨[], c.advance 1⟩ hoperand (Nat.le_refl 1)
      (show Repetition.once ≠ .atMostOnce by decide)
  have hread := (matchProduction_of_ok (p := .operation tier.continuation (head base tiers) tier.operator)
    depth (matchItem_once honce) Nat.one_ne_zero hall).1
  rw [hread]
  simp [Piece.reading, Production.operation, Nat.add_comm]

end

section

variable {s : Setting} {base : Nonterminal} {kinds : Choice Terminal} {tier : Tier} {tiers : List Tier}
  (hdistinct : AreDistinct base kinds (tier :: tiers))
  (hnext : s.grammar.alternatives (head base tiers) = [top base kinds tiers])
  (hoperation : s.grammar.candidates (Choice.one tier.continuation).members
    = .ok [.operation tier.continuation (head base tiers) tier.operator])

/-- The next operation of a tier, if there is one, whose node is hoisted. -/
def operationAt (s : Setting) (tier : Tier) (room depth : Nat) : Cursor → Attempt (Option Piece) :=
  matchOnce s (evaluate s room depth) tier.level (.rules (.one tier.continuation) true)

include hoperation

/-- Without an operator of a tier there are no operations. -/
theorem operations_nothing (room depth : Nat) {c : Cursor} (h : Avoids (operators (tier :: tiers)) c.rest) :
  (matchMany (operationAt s tier (room + 1) depth) c).outcome = .ok ⟨⟨[], c⟩, 0⟩
  := by
  apply matchMany_outcome_of_none
  apply matchOnce_of_single_nothing hoperation
  · apply operation_nothing
    apply h.of_subset
    simp [operators]
  · rfl

variable {room depth : Nat} (hinner : ReadsSplit base kinds tiers (evaluate s room (depth + 1)))
include hdistinct hnext hinner

/-- An operator of a tier and the operand after it add the node of the operand. -/
theorem operationAt_outcome {c : Cursor} {o : Token} {piece after : List Token}
    (ho : o.kind = tier.operator) (hpiece : Alternates kinds.members (operators tiers) piece)
    (hrest : c.rest = o :: (piece ++ after)) (hafter : Avoids (operators tiers) after) :
  (operationAt s tier (room + 1) depth c).outcome
    = .ok (some ⟨[(split base tiers piece).tree], c.advance (piece.length + 1)⟩)
  := by
  have hread := operation_outcome hdistinct hnext hinner depth ho hpiece hrest hafter
  have hmatch : (⟨⟨tier.continuation, [(split base tiers piece).tree]⟩, piece.length + 1⟩ : Reading).isMatch
      = true := rfl
  apply (matchOnce_of_single hoperation tier.level hread hmatch).1

/-- The operations of a tier read the operators of the tier with the pieces after them. -/
theorem operations_outcome {ts after : List Token}
    (hts : Joined (Alternates kinds.members (operators tiers)) tier.operator ts)
    (hafter : Avoids (operators (tier :: tiers)) after) {c : Cursor} {o : Token}
    (ho : o.kind = tier.operator) (hrest : c.rest = o :: (ts ++ after)) :
  ∃ count, (matchMany (operationAt s tier (room + 1) depth) c).outcome
    = .ok ⟨⟨(ts.splitOnP fun t => t.kind = tier.operator).map fun piece => (split base tiers piece).tree,
        c.advance (ts.length + 1)⟩, count⟩
  := by
  induction hts generalizing c o with
  | @single piece hpiece =>
    have hone := operationAt_outcome hdistinct hnext hoperation hinner ho hpiece hrest
      (hafter.of_subset (List.subset_cons_self _ _))
    have hend : (c.advance (piece.length + 1)).rest = after := by
      simp [hrest]
    have hothers := operations_nothing hoperation room depth (hend ▸ hafter)
    use 1
    rw [hdistinct.splitOnP_single hpiece, matchMany_outcome_of_some hone _ hothers]
    · simp
    · simp only [Cursor.rest_advance, List.length_drop, hrest, List.length_cons]
      omega
  | @cons piece ts o' hpiece ho' _ ih =>
    rw [List.append_assoc] at hrest
    have hone := operationAt_outcome hdistinct hnext hoperation hinner ho hpiece hrest
      (hdistinct.avoids_operator ho')
    have hrest' : (c.advance (piece.length + 1)).rest = o' :: (ts ++ after) := by
      simp [hrest]
    obtain ⟨count, hothers⟩ := ih ho' hrest'
    use count + 1
    rw [hdistinct.splitOnP_cons hpiece ho', matchMany_outcome_of_some hone _ hothers]
    · have hlength : piece.length + 1 + (ts.length + 1) = (piece ++ o' :: ts).length + 1 := by
        simp
        omega
      rw [Cursor.advance_advance, hlength]
      rfl
    · simp only [Cursor.rest_advance, List.length_drop, hrest, List.length_cons]
      omega

end

/-! ## All tiers -/

section

variable {s : Setting} {base : Nonterminal} {kinds : Choice Terminal} {tier : Tier} {tiers : List Tier}
  (hdistinct : AreDistinct base kinds (tier :: tiers))
  (hnext : s.grammar.alternatives (head base tiers) = [top base kinds tiers]) {room depth : Nat}
  (hhead : ReadsSplit base kinds tiers (evaluate s (room + 1) (depth + 1)))
include hdistinct hnext hhead

/-- A tier reads its first operand and its operations. -/
theorem level_outcome {c d : Cursor} {piece after : List Token} {trees : List Tree} {count : Nat}
    (hpiece : Alternates kinds.members (operators tiers) piece) (hrest : c.rest = piece ++ after)
    (hafter : Avoids (operators tiers) after)
    (hothers : (matchMany (operationAt s tier (room + 1) (depth + 1)) (c.advance piece.length)).outcome
      = .ok ⟨⟨trees, d⟩, count⟩) :
  (evaluate s (room + 2) depth (top base kinds (tier :: tiers)) c).outcome
    = .ok ⟨⟨tier.level, (split base tiers piece).tree :: trees⟩, d.index - c.index⟩
  := by
  have hopening := operand_outcome hnext hhead hdistinct.head_ne.1 hpiece hrest hafter
  have hall : (matchAll s (evaluate s (room + 1) (depth + 1)) tier.level
        [.hoist tier.continuation .zeroOrMore] ⟨[(split base tiers piece).tree], c.advance piece.length⟩).outcome
      = .ok ⟨(split base tiers piece).tree :: trees, d⟩ :=
    matchAll_single (.hoist tier.continuation .zeroOrMore)
      ⟨[(split base tiers piece).tree], c.advance piece.length⟩ hothers (Nat.zero_le count)
      (show Repetition.zeroOrMore ≠ .atMostOnce by decide)
  apply (matchProduction_of_ok (p := top base kinds (tier :: tiers)) depth hopening Nat.one_ne_zero hall).1

/-- A tier reads its sequences as they are split when the tiers after it do. -/
theorem ReadsSplit.cons
    (hoperation : s.grammar.candidates (Choice.one tier.continuation).members
      = .ok [.operation tier.continuation (head base tiers) tier.operator])
    (hinner : ReadsSplit base kinds tiers (evaluate s room (depth + 2))) :
  ReadsSplit base kinds (tier :: tiers) (evaluate s (room + 2) depth)
  := by
  intro c ts after hts hrest hafter
  have hjoined : Joined (Alternates kinds.members (operators tiers)) tier.operator ts := hts.joined
  cases hjoined with
  | single hpiece =>
    have hend : (c.advance ts.length).rest = after := by
      simp [hrest]
    have hothers := operations_nothing hoperation room (depth + 1) (hend ▸ hafter)
    rw [level_outcome hdistinct hnext hhead hpiece hrest (hafter.of_subset (List.subset_cons_self _ _)) hothers]
    simp [split, hdistinct.splitOnP_single hpiece]
  | @cons piece ts o hpiece ho hjoined =>
    rw [List.append_assoc] at hrest
    have hend : (c.advance piece.length).rest = o :: (ts ++ after) := by
      simp [hrest]
    obtain ⟨count, hothers⟩ := operations_outcome hdistinct hnext hoperation hinner hjoined hafter ho hend
    rw [level_outcome hdistinct hnext hhead hpiece hrest (hdistinct.avoids_operator ho) hothers]
    simp [split, hdistinct.splitOnP_cons hpiece ho]

end

/-- The tiers of a grammar read their sequences as they are split, with room enough for two nested evaluations
for each tier and one for the operands. -/
theorem readsSplit {s : Setting} {base : Nonterminal} {kinds : Choice Terminal} {tiers : List Tier}
    (hdistinct : AreDistinct base kinds tiers)
    (hg : ∀ p ∈ (additions base kinds tiers).flatten, s.grammar.alternatives p.rule = [p]) {room : Nat}
    (hroom : 2 * tiers.length < room) (depth : Nat) :
  ReadsSplit base kinds tiers (evaluate s room depth)
  := by
  induction tiers generalizing room depth with
  | nil =>
    obtain ⟨room, rfl⟩ : ∃ r, room = r + 1 := Nat.exists_eq_succ_of_ne_zero (Nat.ne_of_gt hroom)
    apply readsSplit_nil
  | cons tier tiers ih =>
    rw [List.length_cons] at hroom
    obtain ⟨room, rfl⟩ : ∃ r, room = r + 2 := ⟨room - 2, by omega⟩
    have hothers : ∀ p ∈ (additions base kinds tiers).flatten, s.grammar.alternatives p.rule = [p] := by
      intro p hp
      apply hg
      simp [additions, hp]
    have hnext := hothers _ (top_mem_additions base kinds tiers)
    rw [rule_top] at hnext
    have hoperation := Grammar.candidates_one (hg (.operation tier.continuation (head base tiers) tier.operator)
      (by simp [additions, Production.binary]))
    apply ReadsSplit.cons hdistinct hnext _ hoperation
    · apply ih hdistinct.tail hothers (by omega)
    · apply ih hdistinct.tail hothers (by omega)

/-- There are fewer tiers than would be too deep. -/
theorem AreDistinct.length_lt {base : Nonterminal} {kinds : Choice Terminal} {tiers : List Tier}
    (h : AreDistinct base kinds tiers) :
  2 * tiers.length < defaultLimit + 1
  := by
  have hle : (rules base tiers).length ≤ Nonterminal.all.length :=
    (h.rules_nodup.subperm fun rule _ => Nonterminal.mem_all rule).length_le
  have hall : Nonterminal.all.length ≤ defaultLimit := by decide
  rw [length_rules] at hle
  omega

/-- Tiers of binary operators whose productions are added in any order, over operands of some kinds: of tokens
that start with operands and operators of the tiers in turn, after which no operator comes next, the loosest
tier reads these, and its node is as they are split. -/
theorem evaluate_eq_split {base : Nonterminal} {kinds : Choice Terminal} {tier : Tier} {tiers : List Tier}
    (hdistinct : AreDistinct base kinds (tier :: tiers)) {order : List (List Production)}
    (horder : order.Perm (additions base kinds (tier :: tiers))) {operand : Token}
    {others : List (Token × Token)} (hoperand : operand.kind ∈ kinds.members)
    (hothers : ∀ other ∈ others, other.1.kind ∈ operators (tier :: tiers) ∧ other.2.kind ∈ kinds.members)
    {after : List Token} (hafter : Avoids (operators (tier :: tiers)) after) :
  let g := order.foldl Grammar.add .empty
  let tokens := operand :: others.flatMap fun other => [other.1, other.2]
  let reading : Reading := ⟨split base (tier :: tiers) tokens, 2 * others.length + 1⟩
  ∃ p, g.alternatives tier.level = [p] ∧ (p.evaluate g (tokens ++ after)).outcome = .ok reading
    ∧ reading.isMatch = true
  := by
  intro g tokens reading
  have halternates := alternates_flatMap hoperand hothers
  have hlength : tokens.length = 2 * others.length + 1 := by
    simp [tokens, List.length_flatMap]
    omega
  have hg : ∀ p ∈ (additions base kinds (tier :: tiers)).flatten, g.alternatives p.rule = [p] :=
    fun p hp => hdistinct.alternatives_eq horder hp
  use top base kinds (tier :: tiers), hg _ (top_mem_additions base kinds (tier :: tiers))
  have hread : (evaluateTop (Session.start g (tokens ++ after) defaultLimit).setting
      (top base kinds (tier :: tiers)) (.ofIndex (tokens ++ after) 0)).outcome = .ok reading := by
    have hreads : ReadsSplit base kinds (tier :: tiers)
        (evaluateTop (Session.start g (tokens ++ after) defaultLimit).setting) :=
      readsSplit hdistinct hg hdistinct.length_lt 0
    rw [hreads (.ofIndex (tokens ++ after) 0) tokens after halternates rfl hafter, hlength]
  constructor
  · apply Session.outcome_conclude_eq_ok_iff.mpr hread
  · simp [Reading.isMatch, reading, tokens, split_isEmpty base (tier :: tiers) halternates.ne_nil]

/-- Sums of products of numbers. -/
def sumTiers : List Tier :=
  [⟨.level .sum, .subsequent .sum, .plus⟩, ⟨.level .multiply, .subsequent .multiply, .times⟩]

/-- A product is one operand of a sum, whichever tier is added first. -/
theorem evaluate_sum :
  let g := (additions .primary (.one .number) sumTiers).reverse.foldl Grammar.add .empty
  let number (text : String) : Token := .unplaced .number text
  let primary (text : String) : Tree := .node .primary [.leaf (number text)]
  let node : Node := ⟨.level .sum, [.node (.level .multiply) [primary "1"],
    .node (.level .multiply) [primary "2", primary "3"]]⟩
  ∃ p, g.alternatives (.level .sum) = [p]
    ∧ (p.evaluate g [number "1", .unplaced .plus "", number "2", .unplaced .times "", number "3",
      .unplaced .closeParen ""]).outcome = .ok ⟨node, 5⟩
  := by
  intro g number primary node
  have hdistinct : AreDistinct .primary (.one .number) sumTiers :=
    ⟨by decide, by decide, by decide⟩
  let others : List (Token × Token) := [(.unplaced .plus "", number "2"), (.unplaced .times "", number "3")]
  have hothers : ∀ other ∈ others,
      other.1.kind ∈ operators sumTiers ∧ other.2.kind ∈ (Choice.one Terminal.number).members := by
    decide
  have hafter : Avoids (operators sumTiers) [.unplaced .closeParen ""] := by
    rw [avoids_cons_iff]
    decide
  have hoperand : (number "1").kind ∈ (Choice.one Terminal.number).members := by decide
  obtain ⟨p, hp, hout, -⟩ := evaluate_eq_split hdistinct (List.reverse_perm _) hoperand hothers hafter
  have hsplit : split .primary sumTiers
      (number "1" :: others.flatMap fun other => [other.1, other.2]) = node := by
    decide +kernel
  use p, hp
  rw [← hsplit]
  apply hout

end Precedence
end LayoutGrammar
