import LayoutGrammar.Evaluation.Parse
import LayoutGrammar.Program.Grammar
import LayoutGrammar.Proofs.Evaluation.Progress

/-!
# Runs of a parse

A parse may be run again and again, under changing limits, and whatever comes of a run, the tree is made of
the tokens that have been read (`Parse.isSound_afterAll`).  What carries this is one reading that goes into a
parse (`Parse.IsSound.add`): it is a match just when it read tokens, and its leaves are among them.

A run that fails has read nothing just when none of its productions matched before one failed
(`Parse.left_of_run_eq_error`).
-/

namespace LayoutGrammar
namespace Parse

/-! ## What has been read -/

/-- Whether the tree of a parse is made of the tokens that the parse has read. -/
structure IsSound (parse : Parse) : Prop where
  /-- The tree is tagged as a root. -/
  rule_eq : parse.tree.rule = .root
  /-- The tree is empty as long as no token has been read. -/
  isEmpty_iff : parse.tree.isEmpty = true ↔ parse.position = 0
  /-- The tokens that have been read are there. -/
  le_length : parse.position ≤ parse.tokens.length
  /-- No node below the root is empty. -/
  isFilled : ∀ tree ∈ parse.tree.children, tree.IsFilled
  /-- The leaves are among the tokens that have been read. -/
  leaves : parse.tree.leaves.Sublist (parse.tokens.take parse.position)

/-- Whether a parse has read what another has read, and maybe more. -/
structure Extends (earlier later : Parse) : Prop where
  /-- The grammar is the same. -/
  grammar_eq : later.grammar = earlier.grammar
  /-- The tokens are the same. -/
  tokens_eq : later.tokens = earlier.tokens
  /-- No token is given back. -/
  position_le : earlier.position ≤ later.position
  /-- The tree grows to the right. -/
  children : earlier.tree.children <+: later.tree.children

theorem Extends.refl (parse : Parse) : parse.Extends parse := ⟨rfl, rfl, le_rfl, List.prefix_rfl⟩

theorem Extends.trans {first second third : Parse} (h : first.Extends second)
    (hnext : second.Extends third) :
  first.Extends third
  where
  grammar_eq := hnext.grammar_eq.trans h.grammar_eq
  tokens_eq := hnext.tokens_eq.trans h.tokens_eq
  position_le := h.position_le.trans hnext.position_le
  children := h.children.trans hnext.children

theorem isSound_start (g : Grammar) (ts : List Token) :
  (start g ts).IsSound
  where
  rule_eq := rfl
  isEmpty_iff := by simp [start, Node.empty, Node.isEmpty]
  le_length := Nat.zero_le ts.length
  isFilled := by simp [start, Node.empty]
  leaves := by simp [start, Node.empty, Node.leaves, Tree.leavesOf]

theorem IsSound.withLimit {parse : Parse} (h : parse.IsSound) (limit : Nat) :
  (parse.withLimit limit).IsSound
  := ⟨h.rule_eq, h.isEmpty_iff, h.le_length, h.isFilled, h.leaves⟩

/-! ## One reading -/

theorem add_of_isMatch {parse : Parse} {reading : Reading} (h : reading.isMatch = true) :
  parse.add reading = { parse with
    tree := if parse.tree.isEmpty then reading.node else parse.tree.append [reading.node.tree]
    position := parse.position + reading.consumed }
  := if_pos h

theorem add_of_not_isMatch {parse : Parse} {reading : Reading} (h : reading.isMatch = false) :
  parse.add reading = parse
  := by
  simp [add, h]

/-- A parse takes in what it reads, be it the first match or a later one. -/
theorem extends_add (parse : Parse) (reading : Reading) :
  parse.Extends (parse.add reading)
  := by
  cases hmatch : reading.isMatch with
  | false =>
    rw [add_of_not_isMatch hmatch]
    apply Extends.refl
  | true =>
    rw [add_of_isMatch hmatch]
    refine ⟨rfl, rfl, Nat.le_add_right .., ?_⟩
    cases hempty : parse.tree.isEmpty with
    | true =>
      obtain hchildren : parse.tree.children = [] := by simpa [Node.isEmpty] using hempty
      rw [hchildren]
      apply List.nil_prefix
    | false => apply List.prefix_append

/-- The leaves of what is read at a token are among the tokens from there on. -/
theorem sublist_of_evaluateTop {s : Setting} {p : Production} {ts : List Token} {index : Nat}
    {reading : Reading} (hout : (evaluateTop s p (.ofIndex ts index)).outcome = .ok reading) :
  reading.node.leaves.Sublist ((ts.drop index).take reading.consumed)
  := by
  obtain ⟨read, hread, hlength, hleaves⟩ := (evaluate_finds_leaves s _ 0 p _).of_ok reading hout
  rw [← hlength]
  apply List.prefix_iff_eq_take.mp hread ▸ hleaves

/-- A reading of a root goes over into a parse. -/
theorem IsSound.add {parse : Parse} (h : parse.IsSound) {s : Setting} {p : Production}
    (hp : p.rule = .root) {reading : Reading}
    (hout : (evaluateTop s p (.ofIndex parse.tokens parse.position)).outcome = .ok reading) :
  (parse.add reading).IsSound
  := by
  cases hmatch : reading.isMatch with
  | false =>
    rw [add_of_not_isMatch hmatch]
    apply h
  | true =>
    have hrule : reading.node.rule = .root :=
      ((evaluate_finds_isFilled s _ 0 p _).of_ok reading hout).rule_eq.trans hp
    have hprogress : reading.Progresses (.ofIndex parse.tokens parse.position) :=
      (evaluate_finds_progresses s _ 0 p _).of_ok reading hout
    have hne : reading.node.children ≠ [] := by simpa [Reading.isMatch, Node.isEmpty] using hmatch
    have hpos := hprogress.isMatch_iff.mp hmatch
    have hle : parse.position + reading.consumed ≤ parse.tokens.length := by
      have hsound := h.le_length
      have hrest : reading.consumed ≤ parse.tokens.length - parse.position := by
        simpa [Cursor.ofIndex] using hprogress.le_length
      omega
    have hleaves := sublist_of_evaluateTop hout
    rw [add_of_isMatch hmatch]
    cases hempty : parse.tree.isEmpty with
    | true =>
      refine ⟨hrule, ?_, hle, hprogress.isFilled, ?_⟩
      · simp [Node.isEmpty, hne, hpos.ne']
      · simp only [if_true, List.take_add]
        apply hleaves.trans (List.sublist_append_right ..)
    | false =>
      refine ⟨h.rule_eq, ?_, hle, ?_, ?_⟩
      · simp [Node.isEmpty, Node.append, hpos.ne']
      · apply List.forall_mem_append.mpr ⟨h.isFilled, _⟩
        rw [List.forall_mem_singleton]
        apply Tree.IsFilled.node hne hprogress.isFilled
      · simp only [Bool.false_eq_true, if_false, Node.leaves_append, List.take_add]
        apply h.leaves.append
        simpa [Tree.leavesOf, Tree.leaves, Node.tree, Node.leaves] using hleaves

/-! ## One run -/

/-- A parse that is not complete is told so by the token that it has come to. -/
theorem cause_of_checkEnd {parse : Parse} {d : Diagnostic} (h : parse.checkEnd = .error d) :
  ∃ shown, d.cause = .unexpected shown parse.position
  := by
  unfold checkEnd at h
  split at h
  next token _ _ =>
    split at h
    · cases h
    · obtain rfl := Except.error.inj h
      use token.shown
  next => cases h

section

variable {session : Session} {parse : Parse} {p : Production}

/-- A run goes on after a production that does not fail. -/
theorem runEach_of_ok {reading : Reading}
    (h : (evaluateTop session.setting p (session.cursor parse.position)).outcome = .ok reading)
    (others : List Production) :
  let next := runEach others (session.evaluate p parse.position).2 (parse.add reading)
  (runEach (p :: others) session parse).outcome = next.outcome
    ∧ (runEach (p :: others) session parse).parse = next.parse
  := by
  have hout : (session.evaluate p parse.position).1.outcome = .ok reading :=
    Session.outcome_conclude_eq_ok_iff.mpr h
  simp [runEach, hout]

/-- A run ends at a production that fails, and the parse stays as it is. -/
theorem runEach_of_error {reason : Diagnostic}
    (h : (evaluateTop session.setting p (session.cursor parse.position)).outcome = .error reason)
    (others : List Production) :
  (∃ d, (runEach (p :: others) session parse).outcome = .error d)
    ∧ (runEach (p :: others) session parse).parse = parse
  := by
  obtain ⟨d, hout⟩ : ∃ d, (session.evaluate p parse.position).1.outcome = .error d := by
    simp [Session.evaluate, Session.conclude, h, Except.mapError]
  simp [runEach, hout]

/-- What holds of a parse, and goes over to it with every reading, holds after a run. -/
theorem runEach_induction {P : Parse → Prop} {ps : List Production}
    (hadd : ∀ parse, P parse → ∀ p ∈ ps, ∀ reading,
      (evaluateTop session.setting p (session.cursor parse.position)).outcome = .ok reading →
        P (parse.add reading))
    (h : P parse) :
  P (runEach ps session parse).parse
  := by
  induction ps generalizing session parse with
  | nil => apply h
  | cons p others ih =>
    cases hout : (evaluateTop session.setting p (session.cursor parse.position)).outcome with
    | ok reading =>
      rw [(runEach_of_ok hout others).2]
      -- The next session differs in its memory only.
      apply ih
      · intro later hlater q hq
        apply hadd later hlater q (List.mem_cons_of_mem p hq)
      · apply hadd parse h p List.mem_cons_self reading hout
    | error reason =>
      rw [(runEach_of_error hout others).2]
      apply h

/-- A run reads on. -/
theorem extends_runEach (ps : List Production) (session : Session) (parse : Parse) :
  parse.Extends (runEach ps session parse).parse
  := by
  apply runEach_induction _ (Extends.refl parse)
  intro later hlater _ _ reading _
  apply hlater.trans (extends_add later reading)

end

theorem IsSound.run {parse : Parse} (h : parse.IsSound) :
  parse.run.parse.IsSound
  := by
  have hboth : parse.run.parse.IsSound ∧ parse.run.parse.tokens = parse.tokens := by
    unfold Parse.run
    apply runEach_induction (P := fun later => later.IsSound ∧ later.tokens = parse.tokens) _ ⟨h, rfl⟩
    intro later hlater p hp reading hout
    obtain ⟨hsound, htokens⟩ := hlater
    have hrule : p.rule = .root := by
      simpa using (List.mem_filter.mp hp).2
    rw [Session.cursor, Session.start, ← htokens] at hout
    use hsound.add hrule hout
    rw [(extends_add later reading).tokens_eq, htokens]
  apply hboth.1

/-! ## Runs one after the other -/

/-- What may be asked of a parse. -/
inductive Request where
  /-- That it is run. -/
  | run
  /-- That it has another limit from then on. -/
  | withLimit (limit : Nat)

/-- A parse after a request, whatever came of it. -/
def after (parse : Parse) : Request → Parse
  | .run => parse.run.parse
  | .withLimit limit => parse.withLimit limit

/-- A parse after some requests, one after the other. -/
def afterAll (parse : Parse) (requests : List Request) : Parse := requests.foldl after parse

theorem IsSound.after {parse : Parse} (h : parse.IsSound) (request : Request) :
  (parse.after request).IsSound
  := by
  cases request with
  | run => apply h.run
  | withLimit limit => apply h.withLimit

theorem extends_after (parse : Parse) (request : Request) :
  parse.Extends (parse.after request)
  := by
  cases request with
  | run => apply extends_runEach
  | withLimit limit => exact ⟨rfl, rfl, le_rfl, List.prefix_rfl⟩

theorem isSound_and_extends_afterAll {parse : Parse} (h : parse.IsSound) (requests : List Request) :
  (parse.afterAll requests).IsSound ∧ parse.Extends (parse.afterAll requests)
  := by
  induction requests generalizing parse with
  | nil => exact ⟨h, Extends.refl parse⟩
  | cons request requests ih =>
    obtain ⟨hsound, hextends⟩ := ih (h.after request)
    exact ⟨hsound, (extends_after parse request).trans hextends⟩

/-- After any requests the tree of a parse is made of the tokens that have been read, of those that there were
at first, and whatever is asked then, nothing that has been read is lost. -/
theorem isSound_afterAll (g : Grammar) (ts : List Token) (requests : List Request) :
  let parse := (start g ts).afterAll requests
  parse.IsSound ∧ parse.grammar = g ∧ parse.tokens = ts
    ∧ ∀ request, parse.Extends (parse.after request)
  := by
  intro parse
  obtain ⟨hsound, hextends⟩ := isSound_and_extends_afterAll (isSound_start g ts) requests
  use hsound, hextends.grammar_eq, hextends.tokens_eq
  apply extends_after

/-! ## Runs that fail -/

/-- Whether one of some productions matches at a place, those before it neither matching nor failing. -/
inductive HasMatch (s : Setting) (c : Cursor) : List Production → Prop where
  /-- The first production matches. -/
  | here {p : Production} {others : List Production} {reading : Reading}
    (outcome : (evaluateTop s p c).outcome = .ok reading) (isMatch : reading.isMatch = true) :
    HasMatch s c (p :: others)
  /-- The first production reads nothing, and one of the others matches. -/
  | later {p : Production} {others : List Production} {reading : Reading}
    (outcome : (evaluateTop s p c).outcome = .ok reading) (isMatch : reading.isMatch = false)
    (hasMatch : HasMatch s c others) : HasMatch s c (p :: others)

section

variable {session : Session} {parse : Parse} {ps : List Production}

/-- A run has read a token once one of its productions has matched, whatever comes of the others. -/
theorem position_lt_of_hasMatch (session : Session) (parse : Parse)
    (h : HasMatch session.setting (session.cursor parse.position) ps) :
  parse.position < (runEach ps session parse).parse.position
  := by
  induction ps generalizing session with
  | nil => cases h
  | cons p others ih =>
    cases h with
    | @here _ _ reading hout hmatch =>
      rw [(runEach_of_ok hout others).2]
      have hpos : 0 < reading.consumed :=
        ((evaluate_finds_progresses _ _ 0 p _).of_ok reading hout).isMatch_iff.mp hmatch
      have hle := (extends_runEach others (session.evaluate p parse.position).2
        (parse.add reading)).position_le
      rw [add_of_isMatch hmatch] at hle ⊢
      apply lt_of_lt_of_le (Nat.lt_add_of_pos_right hpos) hle
    | later hout hmatch hothers =>
      rw [(runEach_of_ok hout others).2, add_of_not_isMatch hmatch]
      apply ih (session.evaluate p parse.position).2 hothers

/-- A run of which no production matches leaves a parse as it was. -/
theorem runEach_parse_of_not_hasMatch
    (h : ¬ HasMatch session.setting (session.cursor parse.position) ps) :
  (runEach ps session parse).parse = parse
  := by
  induction ps generalizing session with
  | nil => rfl
  | cons p others ih =>
    cases hout : (evaluateTop session.setting p (session.cursor parse.position)).outcome with
    | ok reading =>
      have hmatch : reading.isMatch = false := by
        rw [← Bool.not_eq_true]
        intro hmatch
        apply h (.here hout hmatch)
      rw [(runEach_of_ok hout others).2, add_of_not_isMatch hmatch]
      apply ih
      intro hothers
      apply h (.later hout hmatch hothers)
    | error reason => apply (runEach_of_error hout others).2

/-- What fails a run of one production that has read something is a token that is left over. -/
theorem cause_of_runEach_single {p : Production} {d : Diagnostic}
    (hout : (runEach [p] session parse).outcome = .error d)
    (hlt : parse.position < (runEach [p] session parse).parse.position) :
  ∃ shown, d.cause = .unexpected shown (runEach [p] session parse).parse.position
  := by
  cases h : (evaluateTop session.setting p (session.cursor parse.position)).outcome with
  | ok reading =>
    obtain ⟨houtcome, hparse⟩ := runEach_of_ok h []
    rw [houtcome] at hout
    rw [hparse]
    apply cause_of_checkEnd hout
  | error reason =>
    rw [(runEach_of_error h []).2] at hlt
    apply absurd hlt (Nat.lt_irrefl _)

end

/-- When a parse that has read nothing fails, nothing is left of its run just when no production of the root
matched before one failed.  When the root has one production only, something is left only of tokens that come
before the one at which the parse fails as not expected. -/
theorem left_of_run_eq_error (g : Grammar) (ts : List Token) (limit : Nat) (d : Diagnostic)
    (h : ((start g ts).withLimit limit).run.outcome = .error d) :
  let session := Session.start g ts limit
  let after := ((start g ts).withLimit limit).run.parse
  ((after.tree = .empty .root ∧ after.position = 0) ↔
    ¬ HasMatch session.setting (session.cursor 0) (g.alternatives .root))
  ∧ ∀ p, g.alternatives .root = [p] →
    (after.tree = .empty .root ∧ after.position = 0)
      ∨ ∃ shown, d.cause = .unexpected shown after.position ∧ 0 < after.position
  := by
  intro session after
  have hrun : ((start g ts).withLimit limit).run
      = runEach (g.alternatives .root) session ((start g ts).withLimit limit) := rfl
  have hlt (hmatch : HasMatch session.setting (session.cursor 0) (g.alternatives .root)) :
      0 < after.position :=
    position_lt_of_hasMatch session ((start g ts).withLimit limit) hmatch
  have hiff : (after.tree = .empty .root ∧ after.position = 0) ↔
      ¬ HasMatch session.setting (session.cursor 0) (g.alternatives .root) := by
    constructor
    · rintro ⟨-, hzero⟩ hmatch
      apply (hlt hmatch).ne' hzero
    · intro hnone
      have hparse : after = (start g ts).withLimit limit := runEach_parse_of_not_hasMatch hnone
      rw [hparse]
      exact ⟨rfl, rfl⟩
  use hiff
  intro p hp
  by_cases hmatch : HasMatch session.setting (session.cursor 0) (g.alternatives .root)
  · right
    have hread : 0 < (runEach [p] session ((start g ts).withLimit limit)).parse.position := by
      rw [← hp]
      apply hlt hmatch
    rw [hrun, hp] at h
    obtain ⟨shown, hcause⟩ := cause_of_runEach_single h hread
    rw [← hp] at hcause
    use shown, hcause, hlt hmatch
  · apply Or.inl (hiff.mpr hmatch)

/-- A number on a line of its own, and a parenthesis that nothing has opened. -/
def unopened : List Token :=
  [.unplaced .number "1", .unplaced .endOfLine "", .unplaced .closeParen ""]

/-- The parenthesis is left over, and the statement before it has been read. -/
theorem left_unopened :
  let parse := (start Program.grammar unopened).withLimit 200
  let d : Diagnostic := ⟨.unexpected "CloseParen" 2, .null⟩
  parse.run.outcome = .error d ∧ parse.run.parse.position = 2
    ∧ ∃ p, Program.grammar.alternatives .root = [p]
      ∧ ∃ shown, d.cause = .unexpected shown parse.run.parse.position
  := by
  intro parse d
  have hout : parse.run.outcome = .error d := by
    decide +kernel
  have hposition : parse.run.parse.position = 2 := by
    decide +kernel
  have hroot : Program.grammar.alternatives .root = [⟨.root, .hoist .statement .atLeastOnce, []⟩] := by
    decide +kernel
  obtain ⟨-, hleft⟩ := left_of_run_eq_error Program.grammar unopened 200 d hout
  obtain hnone | ⟨shown, hcause, -⟩ := hleft _ hroot
  · rw [hposition] at hnone
    cases hnone.2
  · exact ⟨hout, hposition, _, hroot, shown, hcause⟩

/-- A parse that fails may have read something. -/
theorem not_start_of_run_eq_error :
  ¬ ∀ (g : Grammar) (ts : List Token) (limit : Nat) (d : Diagnostic),
    ((start g ts).withLimit limit).run.outcome = .error d →
      ((start g ts).withLimit limit).run.parse.tree = .empty .root
        ∧ ((start g ts).withLimit limit).run.parse.position = 0
  := by
  intro h
  have hout : ((start Program.grammar unopened).withLimit 200).run.outcome
      = .error ⟨.unexpected "CloseParen" 2, .null⟩ := by
    decide +kernel
  have hposition : ((start Program.grammar unopened).withLimit 200).run.parse.position = 2 := by
    decide +kernel
  have hnone := (h _ _ _ _ hout).2
  rw [hposition] at hnone
  cases hnone

end Parse
end LayoutGrammar
