import LayoutGrammar.Program.Grammar
import LayoutGrammar.Proofs.Evaluation.Growth

/-!
# The leaves of what is read

The leaves of the node that an evaluation builds are tokens that were read, in order and each at most once
(`Keeps`).  When the kinds of the tokens that a grammar excludes are none of those that it keeps, which
tokens are leaves is told by their kinds (`leaves_of_evaluate`).  Nothing is attached twice and nothing is
left behind by an alternative that was given up, since what is built always goes with the tokens it was
built from (`growth_keeps`).
-/

namespace LayoutGrammar

/-- Some tokens of a list of tokens, in order, where a token of the list may be among them or missing only
if its kind allows it. -/
inductive Keeps (kept left : Terminal → Prop) : List Token → List Token → Prop
  /-- No tokens. -/
  | nil : Keeps kept left [] []
  /-- A token that is kept. -/
  | keep {t : Token} {ls ts : List Token} (h : kept t.kind) (more : Keeps kept left ls ts) :
      Keeps kept left (t :: ls) (t :: ts)
  /-- A token that is left out. -/
  | leave {t : Token} {ls ts : List Token} (h : left t.kind) (more : Keeps kept left ls ts) :
      Keeps kept left ls (t :: ts)

section

variable {kept left : Terminal → Prop} {leaves more ts us : List Token}

theorem Keeps.append (h : Keeps kept left leaves ts) (hmore : Keeps kept left more us) :
  Keeps kept left (leaves ++ more) (ts ++ us)
  := by
  induction h with
  | nil => apply hmore
  | keep hkind _ ih => apply Keeps.keep hkind ih
  | leave hkind _ ih => apply Keeps.leave hkind ih

theorem Keeps.sublist (h : Keeps kept left leaves ts) :
  leaves.Sublist ts
  := by
  induction h with
  | nil => apply List.Sublist.slnil
  | keep _ _ ih => apply ih.cons_cons
  | leave _ _ ih => apply ih.cons

/-- When no kind may be both kept and left out, the tokens that are kept are those of the kinds that are. -/
theorem Keeps.eq_filter {excluded : List Terminal}
    (h : Keeps (· ∉ excluded) (· ∈ excluded) leaves ts) :
  leaves = ts.filter fun t => t.kind ∉ excluded
  := by
  induction h with
  | nil => rfl
  | keep hkind _ ih => simpa [List.filter_cons, hkind] using ih
  | leave hkind _ ih => simpa [List.filter_cons, hkind] using ih

end

/-! ## Leaves and tokens -/

/-- The targets of which the excluded tokens may be left out, and the others kept. -/
def Target.Respects (kept left : Terminal → Prop) : Target → Prop
  | tokens kinds excluded => ∀ kind ∈ kinds.members, if excluded = true then left kind else kept kind
  | rules _ _ => True

/-- Which trees have leaves that are kept of the tokens from one place to another. -/
def KeepsBetween (kept left : Terminal → Prop) (_ : Nonterminal) (c : Cursor) (trees : List Tree)
    (d : Cursor) : Prop :=
  ∃ read, c.rest = read ++ d.rest ∧ d.index = c.index + read.length
    ∧ Keeps kept left (Tree.leavesOf trees) read

/-- Nesting a node and taking its children keep its leaves. -/
theorem leavesOf_graft (rule : Nonterminal) (hoisted : Bool) (node : Node) :
  Tree.leavesOf (graft rule hoisted node) = node.leaves
  := by
  unfold graft
  split
  · rfl
  · simp [Tree.leavesOf, Tree.leaves, Node.tree, Node.leaves]

theorem growth_keeps (kept left : Terminal → Prop) :
  Growth (Target.Respects kept left) (KeepsBetween kept left)
  where
  nothing rule c := ⟨[], rfl, rfl, .nil⟩
  append := by
    rintro rule c d e trees others ⟨read, hc, hd, hkeeps⟩ ⟨more, hd', he, hmore⟩
    use read ++ more
    rw [hc, hd', he, hd, Tree.leavesOf_eq_flatMap, List.flatMap_append, ← Tree.leavesOf_eq_flatMap,
      ← Tree.leavesOf_eq_flatMap, List.append_assoc, List.length_append, Nat.add_assoc]
    use rfl, rfl, hkeeps.append hmore
  token := by
    rintro rule kinds excluded c token rest hrespects hrest hkind
    use [token]
    have htoken := hrespects _ hkind
    refine ⟨by simp [Cursor.advance, hrest], rfl, ?_⟩
    cases excluded with
    | true => apply Keeps.leave htoken Keeps.nil
    | false => apply Keeps.keep htoken Keeps.nil
  graft := by
    rintro rule heads hoisted c d node - - - ⟨read, hc, hd, hkeeps⟩
    use read, hc, hd
    rw [leavesOf_graft]
    apply hkeeps

/-- The leaves of what a session reads are kept of the tokens that it read. -/
theorem exists_keeps_of_evaluate {kept left : Terminal → Prop} {s : Session}
    (hgrammar : s.grammar.Allows (Target.Respects kept left)) {p : Production}
    (hp : p.Allows (Target.Respects kept left)) {start : Nat} {reading : Reading}
    (hout : (s.evaluate p start).1.outcome = .ok reading) :
  ∃ read rest, s.tokens.drop start = read ++ rest ∧ read.length = reading.consumed
    ∧ Keeps kept left reading.node.leaves read
  := by
  have hread := (growth_keeps kept left).of_evaluate hgrammar hp hout
  obtain ⟨read, hrest, hindex, hkeeps⟩ := hread.children
  use read, ((s.cursor start).advance reading.consumed).rest, hrest
  constructor
  · simpa [Cursor.advance] using hindex.symm
  · apply hkeeps

/-! ## Which tokens are leaves -/

/-- Whether a target excludes the tokens of some kinds and keeps all others. -/
def Target.Separates (excluded : List Terminal) : Target → Prop
  | tokens kinds isExcluded => ∀ kind ∈ kinds.members, kind ∈ excluded ↔ isExcluded = true
  | rules _ _ => True

instance (excluded : List Terminal) : (target : Target) → Decidable (target.Separates excluded)
  | .tokens kinds isExcluded =>
    inferInstanceAs (Decidable (∀ kind ∈ kinds.members, kind ∈ excluded ↔ isExcluded = true))
  | .rules _ _ => inferInstanceAs (Decidable True)

instance (excluded : List Terminal) (p : Production) : Decidable (p.Allows (Target.Separates excluded)) :=
  inferInstanceAs (Decidable (∀ item ∈ p.items, item.target.Separates excluded))

theorem Target.Separates.respects {excluded : List Terminal} {target : Target}
    (h : target.Separates excluded) :
  target.Respects (· ∉ excluded) (· ∈ excluded)
  := by
  cases target with
  | tokens kinds isExcluded =>
    intro kind hkind
    cases isExcluded with
    | true => simpa using h kind hkind
    | false => simpa using h kind hkind
  | rules heads hoisted => trivial

theorem Production.Allows.mono {p : Production} {allowed allowed' : Target → Prop}
    (h : p.Allows allowed) (himp : ∀ target, allowed target → allowed' target) :
  p.Allows allowed'
  := fun item hitem => himp item.target (h item hitem)

/-- The kinds of the tokens that are fully described by their kinds. -/
def Terminal.fixed : List Terminal := Terminal.all.filter fun kind => !kind.isLexical

theorem Terminal.not_mem_fixed_iff {kind : Terminal} :
  kind ∉ fixed ↔ kind.isLexical = true
  := by
  simp [fixed, mem_all]

/-- The productions of the grammar of programs exclude the tokens that their kinds fully describe, and keep
all others. -/
theorem Program.allows_separates_fixed :
  ∀ p ∈ grammar.productions, p.Allows (Target.Separates Terminal.fixed)
  := by
  decide +kernel

/-- The leaves of what is read are tokens that were read, in order and each at most once.  When a grammar
and a production exclude the tokens of some kinds and keep all others, the leaves are the tokens of other
kinds that were read.  In the grammar of programs these are the numbers, literals and identifiers. -/
theorem leaves_of_evaluate (s : Session) (p : Production) (start : Nat) (reading : Reading)
    (hout : (s.evaluate p start).1.outcome = .ok reading) :
  ∃ read rest, s.tokens.drop start = read ++ rest ∧ read.length = reading.consumed
    ∧ reading.node.leaves.Sublist read
    ∧ (∀ excluded, p.Allows (Target.Separates excluded) → s.grammar.Allows (Target.Separates excluded) →
      reading.node.leaves = read.filter fun t => t.kind ∉ excluded)
    ∧ (s.grammar = Program.grammar → p ∈ Program.grammar.productions →
      reading.node.leaves = read.filter fun t => t.kind ∈ [.number, .string, .identifier])
  := by
  have hany (target : Target) : target.Respects (fun _ => True) (fun _ => True) := by
    cases target with
    | tokens kinds excluded => simp [Target.Respects]
    | rules heads hoisted => trivial
  obtain ⟨read, rest, hdrop, hlength, hkeeps⟩ :=
    exists_keeps_of_evaluate (fun _ _ _ _ => hany _) (fun _ _ => hany _) hout
  have hfilter (excluded : List Terminal) (hp : p.Allows (Target.Separates excluded))
      (hgrammar : s.grammar.Allows (Target.Separates excluded)) :
      reading.node.leaves = read.filter fun t => t.kind ∉ excluded := by
    obtain ⟨read', rest', hdrop', hlength', hkeeps'⟩ := exists_keeps_of_evaluate
      (fun q hq => (hgrammar q hq).mono fun _ => Target.Separates.respects)
      (hp.mono fun _ => Target.Separates.respects) hout
    -- The tokens that were read are told by their number.
    obtain ⟨rfl, -⟩ := List.append_inj (hdrop.symm.trans hdrop') (hlength.trans hlength'.symm)
    apply hkeeps'.eq_filter
  refine ⟨read, rest, hdrop, hlength, hkeeps.sublist, hfilter, ?_⟩
  intro hgrammar hp
  rw [hfilter Terminal.fixed (Program.allows_separates_fixed p hp)
    (hgrammar ▸ Program.allows_separates_fixed)]
  apply List.filter_congr
  intro t _
  rw [decide_eq_decide, Terminal.not_mem_fixed_iff]
  cases t.kind <;> simp [Terminal.isLexical]

/-- A print statement of a variable in parentheses and a number, after a token that is not read. -/
def printed : List Token :=
  [.unplaced .comma "", .unplaced .printWord "", .unplaced .openParen "", .unplaced .identifier "x",
    .unplaced .closeParen "", .unplaced .comma "", .unplaced .number "1"]

/-- The statement is read from the second token on, and its leaves are the variable and the number. -/
theorem leaves_printed :
  let p : Production :=
    ⟨.print, .skip .printWord, [.nest .expression .once, .hoist .subsequentPrint .zeroOrMore]⟩
  ∃ reading, ((Session.start Program.grammar printed 60).evaluate p 1).1.outcome = .ok reading
    ∧ reading.consumed = 6 ∧ reading.node.leaves = [.unplaced .identifier "x", .unplaced .number "1"]
  := by
  intro p
  have hsix : ((Session.start Program.grammar printed 60).evaluate p 1).1.outcome.toOption.map
      Reading.consumed = some 6 := by
    decide +kernel
  obtain ⟨reading, hreading, hconsumed⟩ := Option.map_eq_some_iff.mp hsix
  have hout : ((Session.start Program.grammar printed 60).evaluate p 1).1.outcome = .ok reading := by
    generalize ((Session.start Program.grammar printed 60).evaluate p 1).1.outcome = outcome at hreading
    cases outcome <;> simp_all [Except.toOption]
  obtain ⟨read, rest, hdrop, hlength, -, -, hleaves⟩ := leaves_of_evaluate _ p 1 reading hout
  obtain ⟨rfl, -⟩ : printed.drop 1 = read ∧ [] = rest :=
    List.append_inj ((List.append_nil _).trans hdrop) (by rw [hlength, hconsumed]; rfl)
  use reading, hout, hconsumed
  apply hleaves rfl
  decide

end LayoutGrammar
