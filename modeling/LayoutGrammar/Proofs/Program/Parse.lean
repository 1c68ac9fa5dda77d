import LayoutGrammar.Evaluation.Parse
import LayoutGrammar.Proofs.Evaluation.Furthest
import LayoutGrammar.Proofs.Program.Evaluation
import LayoutGrammar.Proofs.Program.Readings

/-!
# Parsing programs

How a parse of programs that has read nothing comes out (`Program.verdict`): it runs into the limit of
depth, or it settles on the tree of a program, or it fails at the token at which programs break.  From this
it follows which tokens are accepted (`Program.outcome_eq_ok_iff`), that no tree has lost anything of its
program (`Program.programs_tree_and_tree_eq`), and where an error is reported
(`Program.index_of_error_eq_length_viable`).
-/

namespace LayoutGrammar

open Computability

/-- Whether a run failed because evaluations were nested too deeply. -/
def Parse.Run.IsTooDeep (run : Parse.Run) : Prop :=
  ∃ d rule limit, run.outcome = .error d ∧ d.cause = .tooDeep rule limit

/-- Whether some tokens are none, or start with the end of the text. -/
def IsOver (ts : List Token) : Prop := ∀ t ∈ ts.head?, t.kind = .eof

theorem IsOver.avoids {ts : List Token} (h : IsOver ts) :
  Avoids Program.statementKinds ts
  := by
  intro t ht
  rw [h t ht]
  decide

/-- A parse that has come to the end of the text is complete. -/
theorem Parse.checkEnd_eq_ok_iff {parse : Parse} :
  parse.checkEnd = .ok () ↔ IsOver (parse.tokens.drop parse.position)
  := by
  unfold checkEnd
  cases parse.tokens.drop parse.position <;> simp [IsOver]

/-- A parse that is not complete fails at the token that it has come to. -/
theorem Parse.index?_of_checkEnd {parse : Parse} {d : Diagnostic} (h : parse.checkEnd = .error d) :
  d.cause.index? = some parse.position ∧ parse.position < parse.tokens.length
  := by
  unfold checkEnd at h
  split at h
  next token _ hdrop =>
    constructor
    · split at h
      · cases h
      · obtain rfl := Except.error.inj h
        rfl
    · rw [← List.drop_eq_nil_iff.not.trans Nat.not_le, hdrop]
      apply List.cons_ne_nil
  next => cases h

namespace Program

/-! ## Programs as a phrase -/

/-- A program is an option to read a root, as a node of its children. -/
theorem programs_eq :
  programs = ((meaning .root).map Node.children).optional.map (Node.mk .root)
  := by
  ext node ts
  rw [programs_iff]
  constructor
  · rintro (⟨rfl, rfl⟩ | hnode)
    · exact ⟨[], Or.inl ⟨rfl, rfl⟩, rfl⟩
    · obtain ⟨rule, children⟩ := node
      obtain rfl : rule = .root := hnode.1
      exact ⟨children, Or.inr ⟨_, hnode, rfl⟩, rfl⟩
  · rintro ⟨children, ⟨rfl, rfl⟩ | ⟨node, hnode, rfl⟩, rfl⟩
    · apply Or.inl ⟨rfl, rfl⟩
    · obtain ⟨rule, children⟩ := node
      obtain rfl : rule = .root := hnode.1
      apply Or.inr hnode

section

variable {ts : List Token} {node : Node} {count : Nat}

theorem startsIn_children : ((meaning .root).map Node.children).StartsIn statementKinds :=
  (foresees.startsIn .root).map _

theorem settles_of_avoids (h : Avoids statementKinds ts) :
  programs.Settles statementKinds ts (.empty .root) 0
  := by
  rw [programs_eq]
  apply (Phrase.settles_optional_of_avoids startsIn_children h).map

theorem settles_of_root (h : (meaning .root).Settles statementKinds ts node count) :
  programs.Settles statementKinds ts node count
  := by
  have hsettles := ((h.map Node.children).optional startsIn_children (List.Subset.refl _)).map
    (Node.mk .root)
  rw [programs_eq]
  convert hsettles
  rw [← h.reads.1]

theorem breaks_of_root (h : (meaning .root).Breaks statementKinds ts count) (hpos : 0 < count) :
  programs.Breaks statementKinds ts count
  := by
  rw [programs_eq]
  apply ((h.map Node.children).optional hpos startsIn_children (List.Subset.refl _)).map

end

/-! ## Running a parse -/

/-- The production of the root. -/
def rootProduction : Production := ⟨.root, .hoist .statement .atLeastOnce, []⟩

/-- A parse of programs that has read nothing. -/
def fresh (ts : List Token) (limit : Nat) : Parse := (Parse.start grammar ts).withLimit limit

/-- The evaluation of the root at the first of some tokens. -/
def attempted (ts : List Token) (limit : Nat) : Attempt Reading :=
  evaluateTop (Session.start grammar ts limit).setting rootProduction (.ofIndex ts 0)

section

variable {ts : List Token} {limit : Nat}

/-- A parse of programs runs the one production of the root. -/
theorem run_fresh :
  (fresh ts limit).run = Parse.runEach [rootProduction] (.start grammar ts limit) (fresh ts limit)
  := by
  have hrun : (fresh ts limit).run
      = Parse.runEach (grammar.alternatives .root) (.start grammar ts limit) (fresh ts limit) := rfl
  rw [hrun, alternatives_eq]
  rfl

theorem evaluate_root :
  ((Session.start grammar ts limit).evaluate rootProduction (fresh ts limit).position).1.outcome
    = (attempted ts limit).outcome.mapError (Memory.fresh.follow (attempted ts limit).journal).promote
  := rfl

theorem run_of_ok {reading : Reading} (h : (attempted ts limit).outcome = .ok reading) :
  (fresh ts limit).run.outcome = ((fresh ts limit).add reading).checkEnd
    ∧ (fresh ts limit).run.parse = (fresh ts limit).add reading
  := by
  rw [run_fresh]
  simp [Parse.runEach, evaluate_root, h, Except.mapError]

theorem run_of_error {reason : Diagnostic} (h : (attempted ts limit).outcome = .error reason) :
  (fresh ts limit).run.outcome
    = .error ((Memory.fresh.follow (attempted ts limit).journal).promote reason)
  := by
  rw [run_fresh]
  simp [Parse.runEach, evaluate_root, h, Except.mapError]

/-- A parse whose root fails stays as it is. -/
theorem parse_of_error {reason : Diagnostic} (h : (attempted ts limit).outcome = .error reason) :
  (fresh ts limit).run.parse = fresh ts limit
  := by
  rw [run_fresh]
  simp [Parse.runEach, evaluate_root, h, Except.mapError]

/-- A parse that has read nothing takes a tree that was read, and the number of its tokens, or stays as it
is when nothing was read. -/
theorem add_fresh (reading : Reading) :
  ((fresh ts limit).add reading).tokens = ts ∧ match reading.found? (.ofIndex ts 0) with
    | some (node, stop) => ((fresh ts limit).add reading).tree = node
        ∧ ((fresh ts limit).add reading).position = stop.index
    | none => ((fresh ts limit).add reading).tree = .empty .root
        ∧ ((fresh ts limit).add reading).position = 0
  := by
  simp only [Parse.add, Reading.found?]
  by_cases hm : reading.isMatch = true
  · simp [hm, fresh, Parse.start, Parse.withLimit, Node.isEmpty, Node.empty, Cursor.ofIndex]
  · simp [hm, fresh, Parse.start, Parse.withLimit]

end

/-! ## How a parse comes out -/

/-- How a parse of programs that has read nothing comes out. -/
inductive Verdict (ts : List Token) (limit : Nat) (run : Parse.Run) : Prop where
  /-- The limit is too low. -/
  | deep (isTooDeep : run.IsTooDeep) (lt : limit < 24 * (ts.length + 1))
  /-- Programs break at the token at which the parse fails. -/
  | breaks {d : Diagnostic} {count : Nat} (breaks : programs.Breaks statementKinds ts count)
      (outcome : run.outcome = .error d) (isMismatch : d.isMismatch = true)
      (index : d.cause.index? = some count)
  /-- Programs settle on the tree and the number of tokens that were read. -/
  | settles (settles : programs.Settles statementKinds ts run.parse.tree run.parse.position)
      (outcome : run.outcome = run.parse.checkEnd) (tokens : run.parse.tokens = ts)

section

variable (ts : List Token) (limit : Nat)

theorem attempted_isForetold :
  (attempted ts limit).Ends
    (fun reading reach => (meaning .root).Foretells statementKinds (.ofIndex ts 0) statementKinds
      (reading.found? (.ofIndex ts 0)) reach)
    ((meaning .root).BreaksLater statementKinds (.ofIndex ts 0)) (limit < 24 * (ts.length + 1))
  := by
  have hmem : rootProduction ∈ productionsOf .root := List.mem_cons_self
  have hforetold := evaluate_foretells (s := (Session.start grammar ts limit).setting) rfl (limit + 1) 0
    rootProduction (mem_productionsOf_iff.mp hmem).1 (.ofIndex ts 0)
  rw [Production.IsForetold, ← meaning_eq_phrase (show productionsOf .root = [rootProduction] from rfl)]
    at hforetold
  apply Attempt.Ends.mono hforetold (fun _ _ => id) (fun _ => id)
  intro hdeep
  simp only [Outlook.depth, outlook, rank, rootProduction, Cursor.ofIndex, List.drop_zero] at hdeep
  omega

variable {ts limit}

/-- Programs settle on what a parse has read when nothing went wrong up to there. -/
theorem settles_of_ok {reading : Reading} (hout : (attempted ts limit).outcome = .ok reading) :
  programs.Settles statementKinds ts (fresh ts limit).run.parse.tree (fresh ts limit).run.parse.position
  := by
  obtain ⟨-, hadd⟩ := @add_fresh ts limit reading
  rw [← (run_of_ok hout).2] at hadd
  have hfound := (attempted_isForetold ts limit).ok reading hout
  cases h : reading.found? (.ofIndex ts 0) with
  | none =>
    rw [h] at hfound hadd
    rw [hadd.1, hadd.2]
    apply settles_of_avoids hfound.1
  | some found =>
    rw [h] at hfound hadd
    obtain ⟨count, hstop, hsettles, -⟩ := hfound
    rw [hadd.1, hadd.2, hstop]
    simpa [Cursor.ofIndex] using settles_of_root hsettles

theorem verdict_of_ok {reading : Reading} (hout : (attempted ts limit).outcome = .ok reading) :
  Verdict ts limit (fresh ts limit).run
  := by
  obtain ⟨houtcome, hparse⟩ := run_of_ok hout
  obtain ⟨htokens, -⟩ := @add_fresh ts limit reading
  rw [← hparse] at htokens houtcome
  apply Verdict.settles (settles_of_ok hout) houtcome htokens

/-- The mismatch that is told arose where programs break, since it got as far as any. -/
theorem verdict_of_mismatch {reason : Diagnostic} (hout : (attempted ts limit).outcome = .error reason)
    (hm : reason.isMismatch = true) :
  Verdict ts limit (fresh ts limit).run
  := by
  have hrecords : (attempted ts limit).Records := evaluate_records _ _ _ _ _
  have htells := hrecords.tells hout hm
  have hmismatch := hrecords.isMismatch _ htells.raised
  obtain ⟨index, hindex⟩ := Diagnostic.index?_of_isMismatch hmismatch
  obtain ⟨⟨count, hbreaks, hreach⟩, hlt⟩ := (attempted_isForetold ts limit).mismatch reason hout hm
  rw [← htells.reach_eq, Diagnostic.reach, hindex] at hreach hlt
  obtain rfl : index = count := by
    simpa [Cursor.ofIndex] using hreach
  apply Verdict.breaks (breaks_of_root hbreaks _) (run_of_error hout) hmismatch hindex
  simpa [Cursor.ofIndex] using hlt

variable (ts limit)

theorem verdict : Verdict ts limit (fresh ts limit).run := by
  cases hout : (attempted ts limit).outcome with
  | ok reading => apply verdict_of_ok hout
  | error reason =>
    cases hm : reason.isMismatch with
    | true => apply verdict_of_mismatch hout hm
    | false =>
      obtain ⟨⟨rule, bound, hcause⟩, hdeep⟩ := (attempted_isForetold ts limit).other reason hout hm
      have houtcome := run_of_error hout
      rw [Memory.promote_of_not_isMismatch hm] at houtcome
      apply Verdict.deep ⟨reason, rule, bound, houtcome, hcause⟩ hdeep

end

variable {ts : List Token} {limit : Nat}

/-- The limit is high enough when it allows for all levels of an expression at every token. -/
theorem not_isTooDeep (h : 24 * (ts.length + 1) ≤ limit) : ¬ (fresh ts limit).run.IsTooDeep := by
  rintro ⟨d, rule, bound, hout, hcause⟩
  cases verdict ts limit with
  | deep _ hlt => omega
  | breaks _ houtcome hmismatch =>
    rw [houtcome] at hout
    obtain rfl := Except.error.inj hout
    simp [Diagnostic.isMismatch, hcause, Cause.isMismatch] at hmismatch
  | settles _ houtcome =>
    rw [houtcome] at hout
    obtain ⟨hindex, -⟩ := Parse.index?_of_checkEnd hout
    simp [hcause, Cause.index?] at hindex

/-- When the limit is high enough, a program that comes before the end of the text is read as a whole. -/
theorem run_of_programs {node : Node} {w rest : List Token} (h : programs node w) (hover : IsOver rest)
    (hdeep : ¬ (fresh (w ++ rest) limit).run.IsTooDeep) :
  (fresh (w ++ rest) limit).run.outcome = .ok () ∧ (fresh (w ++ rest) limit).run.parse.tree = node
    ∧ (fresh (w ++ rest) limit).run.parse.position = w.length
  := by
  cases verdict (w ++ rest) limit with
  | deep isTooDeep => contradiction
  | breaks hbreaks => apply absurd rfl (hbreaks.dead h hover.avoids)
  | settles hsettles houtcome htokens =>
    obtain ⟨hnode, hw⟩ := hsettles.unique h hover.avoids rfl
    have hposition : w.length = (fresh (w ++ rest) limit).run.parse.position := by
      rw [← List.length_take_of_le hsettles.le, ← hw]
    refine ⟨?_, hnode.symm, hposition.symm⟩
    rw [houtcome, Parse.checkEnd_eq_ok_iff, htokens, ← hposition, List.drop_left]
    apply hover

/-- What is read when a parse succeeds is a program that comes before the end of the text. -/
theorem programs_of_run (h : (fresh ts limit).run.outcome = .ok ()) :
  programs (fresh ts limit).run.parse.tree (ts.take (fresh ts limit).run.parse.position)
    ∧ IsOver (ts.drop (fresh ts limit).run.parse.position)
  := by
  cases verdict ts limit with
  | deep hdeep =>
    obtain ⟨d, rule, bound, hout, -⟩ := hdeep
    simp [hout] at h
  | breaks _ houtcome => simp [houtcome] at h
  | settles hsettles houtcome htokens =>
    use hsettles.reads
    rw [houtcome, Parse.checkEnd_eq_ok_iff, htokens] at h
    apply h

/-- Programs that are printed alike are the same. -/
theorem programs_unique {node other : Node} (hnode : programs node ts) (hother : programs other ts) :
  node = other
  := by
  have hover : IsOver [] := by rintro _ ⟨⟩
  have hdeep : ¬ (fresh (ts ++ []) (24 * ((ts ++ []).length + 1))).run.IsTooDeep :=
    not_isTooDeep (le_refl _)
  rw [← (run_of_programs hnode hover hdeep).2.1, ← (run_of_programs hother hover hdeep).2.1]

/-! ## Acceptance -/

/-- Unless it runs into the limit, a parse succeeds if and only if the tokens are a word of programs, read as
a context-free grammar, up to the end of the text.  It then reads that word. -/
theorem outcome_eq_ok_iff (ts : List Token) (limit : Nat)
    (hdeep : ¬ (fresh ts limit).run.IsTooDeep) :
  ((fresh ts limit).run.outcome = .ok () ↔
    ∃ w rest, ts = w ++ rest ∧ IsOver rest ∧ w.map Token.kind ∈ programWords)
  ∧ ∀ w rest, ts = w ++ rest → IsOver rest → w.map Token.kind ∈ programWords →
    (fresh ts limit).run.parse.position = w.length
  := by
  have hrun {w rest : List Token} (hts : ts = w ++ rest) (hover : IsOver rest)
      (hw : w.map Token.kind ∈ programWords) :
      (fresh ts limit).run.outcome = .ok () ∧ (fresh ts limit).run.parse.position = w.length := by
    obtain ⟨node, hnode⟩ := exists_programs_iff.mpr hw
    subst hts
    obtain ⟨hout, -, hposition⟩ := run_of_programs hnode hover hdeep
    use hout
  constructor
  · constructor
    · intro hout
      obtain ⟨hprogram, hover⟩ := programs_of_run hout
      refine ⟨_, _, (List.take_append_drop _ ts).symm, hover, ?_⟩
      apply exists_programs_iff.mp ⟨_, hprogram⟩
    · rintro ⟨w, rest, hts, hover, hw⟩
      apply (hrun hts hover hw).1
  · intro w rest hts hover hw
    apply (hrun hts hover hw).2

/-- An assignment on a line of its own, and the end of the text. -/
def assignmentLine : List Token :=
  [.unplaced .identifier "x", .unplaced .assign "", .unplaced .number "1", .unplaced .endOfLine "",
    .unplaced .eof ""]

/-- The line is a word of programs, and the end of the text is not read. -/
theorem outcome_assignmentLine :
  (fresh assignmentLine 200).run.outcome = .ok ()
    ∧ ∃ w rest, assignmentLine = w ++ rest ∧ IsOver rest ∧ w.map Token.kind ∈ programWords ∧ w.length = 4
  := by
  have hout : (fresh assignmentLine 200).run.outcome = .ok () := by
    decide +kernel
  have hposition : (fresh assignmentLine 200).run.parse.position = 4 := by
    decide +kernel
  have hdeep : ¬ (fresh assignmentLine 200).run.IsTooDeep := not_isTooDeep (by decide)
  obtain ⟨haccepts, hread⟩ := outcome_eq_ok_iff assignmentLine 200 hdeep
  obtain ⟨w, rest, hts, hover, hw⟩ := haccepts.mp hout
  use hout, w, rest, hts, hover, hw
  rw [← hread w rest hts hover hw, hposition]

/-! ## Trees -/

/-- The tree of a successful parse is that of a program and spells the tokens that were read.  The other way
round, tokens that the tree of a program spells, up to the end of the text, are read as that tree, unless the
parse runs into the limit, and it does not when the limit is high enough.  No tokens are spelled by the trees
of two programs. -/
theorem programs_tree_and_tree_eq (ts : List Token) (limit : Nat) :
  ((fresh ts limit).run.outcome = .ok () →
    programs (fresh ts limit).run.parse.tree (ts.take (fresh ts limit).run.parse.position))
  ∧ (∀ node w rest, programs node w → ts = w ++ rest → IsOver rest →
    ¬ (fresh ts limit).run.IsTooDeep →
      (fresh ts limit).run.outcome = .ok () ∧ (fresh ts limit).run.parse.tree = node
        ∧ (fresh ts limit).run.parse.position = w.length)
  ∧ (24 * (ts.length + 1) ≤ limit → ¬ (fresh ts limit).run.IsTooDeep)
  ∧ ∀ node other, programs node ts → programs other ts → node = other
  := by
  refine ⟨?_, ?_, not_isTooDeep, ?_⟩
  · intro hout
    apply (programs_of_run hout).1
  · rintro node w rest hnode rfl hover hdeep
    apply run_of_programs hnode hover hdeep
  · intro node other hnode hother
    apply programs_unique hnode hother

/-- The tree of the line is that of a program, and with the least limit that is surely high enough it is
read in the same way. -/
theorem tree_assignmentLine :
  (fresh assignmentLine 200).run.outcome = .ok ()
    ∧ programs (fresh assignmentLine 200).run.parse.tree (assignmentLine.take 4)
    ∧ (fresh assignmentLine 144).run.outcome = .ok ()
    ∧ (fresh assignmentLine 144).run.parse.tree = (fresh assignmentLine 200).run.parse.tree
  := by
  have hout : (fresh assignmentLine 200).run.outcome = .ok () := by
    decide +kernel
  have hposition : (fresh assignmentLine 200).run.parse.position = 4 := by
    decide +kernel
  have hprogram := (programs_tree_and_tree_eq assignmentLine 200).1 hout
  rw [hposition] at hprogram
  obtain ⟨-, hread, hdeep, -⟩ := programs_tree_and_tree_eq assignmentLine 144
  have hover : IsOver (assignmentLine.drop 4) := by
    rintro _ ⟨⟩
    rfl
  have hrun := hread _ _ _ hprogram (List.take_append_drop 4 assignmentLine).symm hover
    (hdeep (by decide))
  exact ⟨hout, hprogram, hrun.1, hrun.2.1⟩

/-! ## Errors -/

/-- Whether the kinds of some tokens are how some word of programs starts. -/
def IsViable (ts : List Token) : Prop := ∃ w, ts.map Token.kind ++ w ∈ programWords

/-- Viable tokens are how the tokens of some program start. -/
theorem isViable_iff :
  IsViable ts ↔ ∃ node us, programs node (ts ++ us)
  := by
  constructor
  · rintro ⟨w, hw⟩
    let us : List Token := w.map fun kind => .unplaced kind ""
    have hkinds : (ts ++ us).map Token.kind = ts.map Token.kind ++ w := by
      simp [us, Token.unplaced, Function.comp_def]
    rw [← hkinds] at hw
    obtain ⟨node, hnode⟩ := exists_programs_iff.mpr hw
    use node, us
  · rintro ⟨node, us, hnode⟩
    use us.map Token.kind
    rw [← List.map_append]
    apply exists_programs_iff.mp ⟨node, hnode⟩

theorem isViable_of_breaks {count : Nat} (h : programs.Breaks statementKinds ts count) :
  IsViable (ts.take count)
  := by
  obtain ⟨node, us, hnode⟩ := h.viable
  apply isViable_iff.mpr ⟨node, us, hnode⟩

/-- A viable part of some tokens is how a program starts that agrees with all of them up to its last one. -/
theorem IsViable.exists_agrees {count : Nat} (h : IsViable (ts.take (count + 1)))
    (hlt : count < ts.length) :
  ∃ node us, programs node us ∧ Agrees count (us ++ []) ts ∧ count < us.length
  := by
  obtain ⟨node, us, hnode⟩ := isViable_iff.mp h
  have hlen := List.length_take_of_le hlt
  refine ⟨node, _, hnode, ?_, ?_⟩
  · rw [List.append_nil, Agrees, List.take_left' hlen]
  · rw [List.length_append, hlen]
    omega

/-- Tokens are not viable beyond a token up to which no program goes. -/
theorem not_isViable_of_dead {count : Nat} (hlt : count < ts.length)
    (h : programs.Dead statementKinds ts count) :
  ¬ IsViable (ts.take (count + 1))
  := by
  intro hviable
  obtain ⟨node, us, hnode, hagree, -⟩ := hviable.exists_agrees hlt
  apply h hnode (avoids_nil _) hagree

/-- Tokens are not viable beyond those that a program is read from. -/
theorem not_isViable_of_settles {count : Nat} {node : Node} (hlt : count < ts.length)
    (h : programs.Settles statementKinds ts node count) :
  ¬ IsViable (ts.take (count + 1))
  := by
  intro hviable
  obtain ⟨other, us, hother, hagree, hlonger⟩ := hviable.exists_agrees hlt
  obtain ⟨-, rfl⟩ := h.unique hother (avoids_nil _) hagree
  rw [List.length_take_of_le hlt.le] at hlonger
  omega

/-- A mismatch or an unexpected token is reported where the longest viable part of the tokens ends. -/
theorem index_of_error_eq_length_viable (ts : List Token) (limit : Nat) (d : Diagnostic)
    (hout : (fresh ts limit).run.outcome = .error d)
    (hd : d.isMismatch = true ∨ ∃ shown index, d.cause = .unexpected shown index) :
  ∃ index ≤ ts.length, d.cause.index? = some index ∧ IsViable (ts.take index)
    ∧ (index = ts.length ∨ ¬ IsViable (ts.take (index + 1)))
  := by
  cases verdict ts limit with
  | deep hdeep =>
    obtain ⟨e, rule, bound, he, hcause⟩ := hdeep
    rw [hout] at he
    obtain rfl := Except.error.inj he
    simp [Diagnostic.isMismatch, hcause, Cause.isMismatch] at hd
  | @breaks e count hbreaks houtcome _ hindex =>
    rw [hout] at houtcome
    obtain rfl := Except.error.inj houtcome
    use count, hbreaks.le, hindex, isViable_of_breaks hbreaks
    rcases hbreaks.le.eq_or_lt with heq | hlt
    · apply Or.inl heq
    · apply Or.inr (not_isViable_of_dead hlt hbreaks.dead)
  | settles hsettles houtcome htokens =>
    rw [hout] at houtcome
    obtain ⟨hindex, hlt⟩ := Parse.index?_of_checkEnd houtcome.symm
    rw [htokens] at hlt
    refine ⟨_, hsettles.le, hindex, ?_, Or.inr (not_isViable_of_settles hlt hsettles)⟩
    apply isViable_iff.mpr
    use (fresh ts limit).run.parse.tree, []
    rw [List.append_nil]
    apply hsettles.reads

/-- An assignment of an expression in parentheses that are not closed. -/
def unclosed : List Token :=
  [.unplaced .identifier "x", .unplaced .assign "", .unplaced .openParen "", .unplaced .number "1",
    .unplaced .endOfLine ""]

/-- The end of the line is reported, where the parenthesis should be closed. -/
theorem index_of_error_unclosed :
  let d : Diagnostic := ⟨.tooFew ⟨.group, "`CloseParen`", 4, "`EndOfLine`"⟩, .null⟩
  (fresh unclosed 200).run.outcome = .error d ∧ IsViable (unclosed.take 4) ∧ ¬ IsViable unclosed
  := by
  intro d
  have hout : (fresh unclosed 200).run.outcome = .error d := by
    decide +kernel
  obtain ⟨index, -, hindex, hviable, hnot⟩ := index_of_error_eq_length_viable unclosed 200 d hout (Or.inl rfl)
  obtain rfl : 4 = index := Option.some.inj hindex
  use hout, hviable, hnot.resolve_left (by decide)

end Program
end LayoutGrammar
