import LayoutGrammar.Proofs.Evaluation.Reuse
import LayoutGrammar.Proofs.Evaluation.Silence

/-!
# A choice and its alternatives

A choice comes out as its alternatives do when each of them is evaluated on its own (`tryRules_chooses`): the
first that matches is found, the first refusal is told, and if there is neither, the mismatch that is told is
as far as the furthest that is told for an alternative.

Neither a choice nor an alternative tells the mismatch that it failed for, but one as far as any that was
raised in it.  That the choice gets no further than its failed alternatives is so because the others, which
come to nothing, have raised nothing (`evaluate_isSilent`).
-/

namespace LayoutGrammar

/-- Whether a choice goes on after an alternative that comes out in some way: one that comes to nothing, or
that ends in a mismatch. -/
def isPassed : Except Diagnostic Reading → Bool
  | .ok reading => !reading.isMatch
  | .error reason => reason.isMismatch

/-- The mismatches that are as far as the furthest among some results. -/
def Diagnostic.IsFurthestIn (d : Diagnostic) (results : List (Except Diagnostic Reading)) : Prop :=
  ∃ index, d.cause.index? = some index
    ∧ (∃ e, .error e ∈ results ∧ e.cause.index? = some index)
    ∧ ∀ e, .error e ∈ results → ∃ i ≤ index, e.cause.index? = some i

/-- A mismatch is as far as the furthest when it got as far as a result and no result got further. -/
theorem Diagnostic.isFurthestIn_of_reach {d : Diagnostic} {results : List (Except Diagnostic Reading)}
    (hd : d.isMismatch = true) (hexists : ∃ e, .error e ∈ results ∧ e.isMismatch = true ∧ e.reach = d.reach)
    (hle : ∀ e, .error e ∈ results → e.isMismatch = true ∧ e.reach ≤ d.reach) :
  d.IsFurthestIn results
  := by
  obtain ⟨index, hindex⟩ := index?_of_isMismatch hd
  use index, hindex
  constructor
  · obtain ⟨e, he, hmismatch, hreach⟩ := hexists
    use e, he
    rw [(reach_eq_iff hmismatch hd).mp hreach, hindex]
  · intro e he
    obtain ⟨hmismatch, hreach⟩ := hle e he
    obtain ⟨i, k, hi, hk, hik⟩ := index_le_of_reach_le hd hmismatch hreach
    obtain rfl := Option.some.inj (hindex.symm.trans hk)
    use i, hik

/-- How a choice comes out whose alternatives have some results, in order. -/
structure Chooses (results : List (Except Diagnostic Reading))
    (choice : Except Diagnostic (Option Reading)) : Prop where
  /-- What is found is the first match, unless an alternative before it is refused. -/
  found : ∀ reading, choice = .ok (some reading) ↔
    reading.isMatch = true
    ∧ ∃ before others, results = before ++ .ok reading :: others ∧ ∀ r ∈ before, isPassed r = true
  /-- The first refusal is told, unless an alternative before it matches. -/
  refused : ∀ reason, reason.isMismatch = false → (choice = .error reason ↔
    ∃ before others, results = before ++ .error reason :: others ∧ ∀ r ∈ before, isPassed r = true)
  /-- Nothing is found when every alternative comes to nothing. -/
  nothing : choice = .ok none ↔ ∀ r ∈ results, ∃ reading, r = .ok reading ∧ reading.isMatch = false
  /-- When alternatives end in mismatches and the others come to nothing, a mismatch as far as any is told. -/
  mismatch : (∀ r ∈ results, isPassed r = true) → (∃ e, .error e ∈ results) →
    ∃ d, choice = .error d ∧ d.isMismatch = true ∧ d.IsFurthestIn results

/-! ## Results in order -/

/-- The first result of a list that is not passed. -/
theorem eq_of_first {before before' others others' : List (Except Diagnostic Reading)}
    {r r' : Except Diagnostic Reading} (h : before ++ r :: others = before' ++ r' :: others')
    (hbefore : ∀ q ∈ before, isPassed q = true) (hbefore' : ∀ q ∈ before', isPassed q = true)
    (hr : isPassed r = false) (hr' : isPassed r' = false) :
  r = r'
  := by
  have hfind {before others : List (Except Diagnostic Reading)} {r : Except Diagnostic Reading}
      (hbefore : ∀ q ∈ before, isPassed q = true) (hr : isPassed r = false) :
      (before ++ r :: others).find? (fun q => !isPassed q) = some r := by
    rw [List.find?_eq_some_iff_append]
    use by simp [hr], before, others, rfl
    simpa using hbefore
  rw [← Option.some_inj, ← hfind hbefore hr, h, hfind hbefore' hr']

/-- A choice that comes out as the first alternative that it does not pass. -/
theorem chooses_of_first {before others : List (Except Diagnostic Reading)} {r : Except Diagnostic Reading}
    (hbefore : ∀ q ∈ before, isPassed q = true) (hr : isPassed r = false) :
  Chooses (before ++ r :: others) (r.map some)
  where
  found reading := by
    constructor
    · intro hchoice
      obtain ⟨_, rfl, ⟨⟩⟩ : ∃ found, r = .ok found ∧ some found = some reading := by
        cases r <;> simp_all [Except.map]
      use by simpa [isPassed] using hr, before, others
    · rintro ⟨hmatch, before', others', heq, hbefore'⟩
      rw [eq_of_first heq hbefore hbefore' hr (by simp [isPassed, hmatch])]
      rfl
  refused reason hreason := by
    constructor
    · intro hchoice
      obtain rfl : r = .error reason := by
        cases r <;> simp_all [Except.map]
      use before, others
    · rintro ⟨before', others', heq, hbefore'⟩
      rw [eq_of_first heq hbefore hbefore' hr hreason]
      rfl
  nothing := by
    constructor
    · cases r <;> simp [Except.map]
    · intro hnothing
      obtain ⟨reading, rfl, hmatch⟩ := hnothing r (by simp)
      simp [isPassed, hmatch] at hr
  mismatch hpassed := by
    have hpass := hpassed r (by simp)
    simp [hr] at hpass

/-- A choice that passes all alternatives. -/
theorem chooses_of_passed {results : List (Except Diagnostic Reading)}
    {choice : Except Diagnostic (Option Reading)} (hpassed : ∀ r ∈ results, isPassed r = true)
    (hchoice : (choice = .ok none ∧ ∀ e, .error e ∉ results)
      ∨ ∃ d, choice = .error d ∧ d.isMismatch = true ∧ d.IsFurthestIn results) :
  Chooses results choice
  := by
  have hresult {before others : List (Except Diagnostic Reading)} {r : Except Diagnostic Reading}
      (heq : results = before ++ r :: others) : isPassed r = true := by
    apply hpassed
    simp [heq]
  constructor
  · intro reading
    constructor
    · rintro rfl
      simp at hchoice
    · rintro ⟨hmatch, before, others, heq, -⟩
      simpa [isPassed, hmatch] using hresult heq
  · intro reason hreason
    constructor
    · rintro rfl
      simp [hreason] at hchoice
    · rintro ⟨before, others, heq, -⟩
      simpa [isPassed, hreason] using hresult heq
  · rcases hchoice with ⟨rfl, hok⟩ | ⟨d, rfl, -, index, -, ⟨e, he, -⟩, -⟩
    · simp only [true_iff]
      rintro (reason | reading) hr
      · apply absurd hr (hok reason)
      · use reading, rfl
        simpa [isPassed] using hpassed _ hr
    · constructor
      · simp
      · intro hnothing
        obtain ⟨_, ⟨⟩, -⟩ := hnothing _ he
  · rintro - ⟨e, he⟩
    rcases hchoice with ⟨-, hok⟩ | htold
    · apply absurd he (hok e)
    · apply htold

/-! ## What a choice passes -/

theorem Attempt.failure?_eq_some_iff {α : Type} {attempt : Attempt α} {reason : Diagnostic} :
  attempt.failure? = some reason ↔ attempt.outcome = .error reason
  := by
  unfold failure?
  split <;> simp_all

theorem tryRules_of_candidates {s : Setting} {rules : List Nonterminal} {ps : List Production}
    (h : s.grammar.candidates rules = .ok ps) (inner : Evaluator) (c : Cursor) :
  tryRules s inner rules c = tryEach inner ps none c
  := by
  simp only [tryRules, h]

section

variable {inner : Evaluator} {c : Cursor}

/-- A choice that passes an alternative goes on with the further of its mismatch, if it has one, and the one
that was kept.  What happened then got as far as in the alternative. -/
theorem tryEach_cons_of_isPassed {p : Production} (hp : isPassed (inner p c).outcome = true)
    (others : List Production) (failure : Option Diagnostic) :
  ∃ j : Journal, ((inner p c).journal.Balanced → j.Balanced ∧ j.reach = (inner p c).journal.reach)
    ∧ tryEach inner (p :: others) failure c
      = (tryEach inner others (Diagnostic.furthestOf failure (inner p c).failure?.toList) c).after j
  := by
  cases hout : (inner p c).outcome with
  | ok reading =>
    rw [hout] at hp
    have hempty : reading.isMatch = false := by simpa [isPassed] using hp
    use (inner p c).journal, fun h => ⟨h, rfl⟩
    simp [tryEach, Attempt.failure?, hout, hempty]
  | error reason =>
    rw [hout] at hp
    have hmismatch : reason.isMismatch = true := hp
    use (inner p c).journal ++ .event (.discarded reason)
    constructor
    · intro h
      use h.append (.event rfl)
      have hquiet : (Journal.event (.discarded reason)).reach = 0 := rfl
      rw [h.reach_append, hquiet, Nat.max_zero]
    · simp [tryEach, Attempt.failure?, hout, hmismatch]

/-- A choice that passes some alternatives comes out as one between the others, with the furthest of their
mismatches. -/
theorem outcome_tryEach_append {before : List Production}
    (hbefore : ∀ p ∈ before, isPassed (inner p c).outcome = true) (others : List Production)
    (failure : Option Diagnostic) :
  (tryEach inner (before ++ others) failure c).outcome
    = (tryEach inner others
        (Diagnostic.furthestOf failure (before.filterMap fun p => (inner p c).failure?)) c).outcome
  := by
  induction before generalizing failure with
  | nil => rfl
  | cons p before ih =>
    obtain ⟨hp, hbefore⟩ := List.forall_mem_cons.mp hbefore
    obtain ⟨j, -, heq⟩ := tryEach_cons_of_isPassed hp (before ++ others) failure
    rw [List.cons_append, heq, Attempt.after, ih hbefore, ← Diagnostic.furthestOf_append]
    cases hfailure : (inner p c).failure? <;> simp [hfailure]

/-- A choice that passes all alternatives got as far as they did. -/
theorem reach_tryEach_le_iff (hinner : ∀ p, (inner p c).journal.Balanced) {ps : List Production}
    (hps : ∀ p ∈ ps, isPassed (inner p c).outcome = true) (failure : Option Diagnostic) {bound : Nat} :
  (tryEach inner ps failure c).journal.reach ≤ bound ↔ ∀ p ∈ ps, (inner p c).journal.reach ≤ bound
  := by
  induction ps generalizing failure with
  | nil => cases failure <;> simp [tryEach, Attempt.succeed, Attempt.fail]
  | cons p others ih =>
    obtain ⟨hp, hothers⟩ := List.forall_mem_cons.mp hps
    obtain ⟨j, hj, heq⟩ := tryEach_cons_of_isPassed hp others failure
    obtain ⟨hbalanced, hreach⟩ := hj (hinner p)
    rw [heq, Attempt.after, hbalanced.reach_append, Nat.max_le, hreach, ih hothers, List.forall_mem_cons]

/-- A choice stops at an alternative that it does not pass. -/
theorem outcome_tryEach_cons {p : Production} (hp : isPassed (inner p c).outcome = false)
    (others : List Production) (failure : Option Diagnostic) :
  (tryEach inner (p :: others) failure c).outcome = (inner p c).outcome.map some
  := by
  cases hout : (inner p c).outcome with
  | ok reading =>
    rw [hout] at hp
    have hmatch : reading.isMatch = true := by simpa [isPassed] using hp
    simp [tryEach, hout, hmatch, Except.map]
  | error reason =>
    rw [hout] at hp
    have hrefused : reason.isMismatch = false := hp
    simp [tryEach, hout, hrefused, Except.map]

end

/-! ## What is told -/

namespace Session

variable {α : Type} {s : Session} {attempt : Attempt α}

/-- For a mismatch, a fresh session tells one that got as far as any that was raised. -/
theorem exists_outcome_conclude_of_mismatch (hs : s.memory = .fresh)
    (h : attempt.IsConducted Journal.Stands) {reason : Diagnostic} (hout : attempt.outcome = .error reason)
    (hreason : reason.isMismatch = true) :
  ∃ d, (s.conclude attempt).1.outcome = .error d ∧ d.isMismatch = true ∧ d.reach = attempt.journal.reach
  := by
  have htold : (s.conclude attempt).1.outcome
      = .error ((s.memory.follow attempt.journal).promote reason) := by
    simp [conclude, hout, Except.mapError]
  have hremembers := Memory.remembers_fresh.follow (h.of_error hout)
  have hmismatch := (Memory.isMismatch_promote hremembers.isMismatch reason).trans hreason
  rw [← hs] at hmismatch
  exact ⟨_, htold, hmismatch, (tells_of_conclude hs h.records htold hmismatch).reach_eq⟩

/-- Of an alternative that is passed either nothing is told, and then nothing was raised in it, or a mismatch
that got as far as any that was raised. -/
theorem outcome_conclude_of_isPassed {attempt : Attempt Reading} (hs : s.memory = .fresh)
    (h : attempt.IsConducted Journal.Stands)
    (hsilent : attempt.IsSilent (fun reading => reading.isMatch = false) True)
    (hpassed : isPassed attempt.outcome = true) :
  (∃ reading, (s.conclude attempt).1.outcome = .ok reading ∧ reading.isMatch = false
    ∧ attempt.journal.reach = 0)
  ∨ ∃ d, (s.conclude attempt).1.outcome = .error d ∧ d.isMismatch = true ∧ d.reach = attempt.journal.reach
  := by
  cases hout : attempt.outcome with
  | ok reading =>
    left
    rw [hout] at hpassed
    have hempty : reading.isMatch = false := by simpa [isPassed] using hpassed
    use reading, outcome_conclude_eq_ok_iff.mpr hout, hempty
    simp [Journal.reach, (hsilent.of_ok reading hout hempty).2]
  | error reason =>
    right
    rw [hout] at hpassed
    apply exists_outcome_conclude_of_mismatch hs h hout hpassed

/-- The alternatives that a choice passes are those that it would pass by what is told for them. -/
theorem isPassed_conclude {attempt : Attempt Reading} (hs : s.memory = .fresh)
    (h : attempt.IsConducted Journal.Stands) :
  isPassed (s.conclude attempt).1.outcome = isPassed attempt.outcome
  := by
  by_cases hmismatch : ∃ reason, attempt.outcome = .error reason ∧ reason.isMismatch = true
  · obtain ⟨reason, hout, hreason⟩ := hmismatch
    obtain ⟨d, htold, hd, -⟩ := exists_outcome_conclude_of_mismatch hs h hout hreason
    rw [htold, hout]
    apply hd.trans hreason.symm
  · rw [outcome_conclude_eq_self]
    simpa using hmismatch

section

variable {inner : Evaluator} {c : Cursor} (hs : s.memory = .fresh)
  (h : ∀ p, (inner p c).IsConducted Journal.Stands)
include hs h

/-- What is told for a choice that does not pass all alternatives. -/
theorem chooses_of_not_isPassed {before : List Production} {p : Production}
    (hbefore : ∀ q ∈ before, isPassed (inner q c).outcome = true) (hp : isPassed (inner p c).outcome = false)
    (others : List Production) :
  Chooses ((before ++ p :: others).map fun q => (s.conclude (inner q c)).1.outcome)
    (s.conclude (tryEach inner (before ++ p :: others) none c)).1.outcome
  := by
  have hrefused (reason : Diagnostic) (hreason : (inner p c).outcome = .error reason) :
      reason.isMismatch = false := by
    simpa [isPassed, hreason] using hp
  have hsame : (s.conclude (inner p c)).1.outcome = (inner p c).outcome :=
    outcome_conclude_eq_self hrefused
  have hout : (tryEach inner (before ++ p :: others) none c).outcome = (inner p c).outcome.map some := by
    rw [outcome_tryEach_append hbefore, outcome_tryEach_cons hp]
  have htold : (s.conclude (tryEach inner (before ++ p :: others) none c)).1.outcome
      = (s.conclude (inner p c)).1.outcome.map some := by
    rw [outcome_conclude_eq_self, hout, hsame]
    intro reason hreason
    rw [hout] at hreason
    apply hrefused
    cases hinner : (inner p c).outcome <;> simp_all [Except.map]
  rw [htold, List.map_append, List.map_cons]
  apply chooses_of_first
  · simp only [List.forall_mem_map]
    intro q hq
    rw [isPassed_conclude hs (h q), hbefore q hq]
  · rw [hsame, hp]

variable {ps : List Production} (hps : ∀ p ∈ ps, isPassed (inner p c).outcome = true)
include hps

/-- The mismatch that is told for a choice that passes all alternatives is as far as the furthest that is told
for one of them. -/
theorem isFurthestIn_told
    (hsilent : ∀ p, (inner p c).IsSilent (fun reading => reading.isMatch = false) True) {d : Diagnostic}
    (hd : d.isMismatch = true) (hreach : d.reach = (tryEach inner ps none c).journal.reach) :
  d.IsFurthestIn (ps.map fun p => (s.conclude (inner p c)).1.outcome)
  := by
  have hcases (p : Production) (hp : p ∈ ps) := outcome_conclude_of_isPassed hs (h p) (hsilent p) (hps p hp)
  have hle {bound : Nat} : d.reach ≤ bound ↔ ∀ p ∈ ps, (inner p c).journal.reach ≤ bound := by
    rw [hreach]
    apply reach_tryEach_le_iff (fun p => (h p).records.balanced) hps
  apply Diagnostic.isFurthestIn_of_reach hd
  · -- It got further than to no token at all, and so did an alternative.
    obtain ⟨index, hindex⟩ := Diagnostic.index?_of_isMismatch hd
    have hsucc : d.reach = index + 1 := by simp [Diagnostic.reach, hindex]
    have hnot : ¬ d.reach ≤ index := by omega
    rw [hle] at hnot
    push Not at hnot
    obtain ⟨p, hp, hlt⟩ := hnot
    have hbelow := hle.mp (Nat.le_refl _) p hp
    rcases hcases p hp with ⟨reading, -, -, hzero⟩ | ⟨e, htold, he, hsame⟩
    · omega
    · use e, List.mem_map.mpr ⟨p, hp, htold⟩, he
      omega
  · intro e he
    obtain ⟨p, hp, htold⟩ := List.mem_map.mp he
    rcases hcases p hp with ⟨reading, hout, -, -⟩ | ⟨d', hout, hmismatch, hsame⟩
    · simp [hout] at htold
    · obtain rfl := Except.error.inj (hout.symm.trans htold)
      use hmismatch
      rw [hsame]
      apply hle.mp (Nat.le_refl _) p hp

/-- What is told for a choice that passes all alternatives. -/
theorem chooses_of_isPassed
    (hsilent : ∀ p, (inner p c).IsSilent (fun reading => reading.isMatch = false) True)
    (hchoice : (tryEach inner ps none c).IsConducted Journal.Stands) :
  Chooses (ps.map fun p => (s.conclude (inner p c)).1.outcome)
    (s.conclude (tryEach inner ps none c)).1.outcome
  := by
  have hout := outcome_tryEach_append hps [] none
  rw [List.append_nil] at hout
  apply chooses_of_passed
  · simp only [List.forall_mem_map]
    intro p hp
    rw [isPassed_conclude hs (h p), hps p hp]
  by_cases hfailed : ∃ p ∈ ps, ∃ reason, (inner p c).outcome = .error reason
  · right
    obtain ⟨p, hp, reason, hreason⟩ := hfailed
    have hmem : reason ∈ ps.filterMap fun p => (inner p c).failure? :=
      List.mem_filterMap.mpr ⟨p, hp, Attempt.failure?_eq_some_iff.mpr hreason⟩
    obtain ⟨thrown, hthrown⟩ := Diagnostic.furthestOf_isSome none (List.ne_nil_of_mem hmem)
    obtain ⟨q, hq, hfailure⟩ :=
      List.mem_filterMap.mp ((Diagnostic.mem_of_furthestOf hthrown).resolve_left (by simp))
    have hmismatch : thrown.isMismatch = true := by
      simpa [isPassed, Attempt.failure?_eq_some_iff.mp hfailure] using hps q hq
    rw [hthrown] at hout
    obtain ⟨d, htold, hd, hreach⟩ := exists_outcome_conclude_of_mismatch hs hchoice hout hmismatch
    exact ⟨d, htold, hd, isFurthestIn_told hs h hps hsilent hd hreach⟩
  · left
    push Not at hfailed
    have hnone : ps.filterMap (fun p => (inner p c).failure?) = [] := by
      rw [List.filterMap_eq_nil_iff]
      intro p hp
      rw [Option.eq_none_iff_forall_ne_some]
      intro reason hreason
      apply hfailed p hp reason (Attempt.failure?_eq_some_iff.mp hreason)
    rw [hnone] at hout
    use outcome_conclude_eq_ok_iff.mpr hout
    intro e he
    obtain ⟨p, hp, htold⟩ := List.mem_map.mp he
    rw [outcome_conclude_eq_self fun reason hreason => absurd hreason (hfailed p hp reason)] at htold
    apply hfailed p hp e htold

end

/-- What a fresh session tells for a choice, by what it tells for each alternative. -/
theorem chooses_of_conclude {inner : Evaluator} {ps : List Production} {c : Cursor} (hs : s.memory = .fresh)
    (h : ∀ p, (inner p c).IsConducted Journal.Stands)
    (hsilent : ∀ p, (inner p c).IsSilent (fun reading => reading.isMatch = false) True)
    (hchoice : (tryEach inner ps none c).IsConducted Journal.Stands) :
  Chooses (ps.map fun p => (s.conclude (inner p c)).1.outcome)
    (s.conclude (tryEach inner ps none c)).1.outcome
  := by
  cases hfirst : ps.find? (fun p => !isPassed (inner p c).outcome) with
  | some p =>
    obtain ⟨hp, before, others, rfl, hbefore⟩ := List.find?_eq_some_iff_append.mp hfirst
    apply chooses_of_not_isPassed hs h
    · simpa using hbefore
    · simpa using hp
  | none =>
    apply chooses_of_isPassed hs h _ hsilent hchoice
    simpa using List.find?_eq_none.mp hfirst

end Session

/-- A choice between known nonterminals, for any grammar, tokens and limit and at any place, comes out as the
alternatives do that a fresh session evaluates there, each on its own. -/
theorem Session.tryRules_chooses {g : Grammar} {rules : List Nonterminal}
    (hrules : ∀ rule ∈ rules, g.contains rule = true) (tokens : List Token) (limit start : Nat) :
  let session := Session.start g tokens limit
  ∃ ps, g.candidates rules = .ok ps
    ∧ Chooses (ps.map fun p => (session.evaluate p start).1.outcome)
      (session.tryRules rules start).1.outcome
  := by
  intro session
  have hps := Grammar.candidates_eq hrules
  use rules.flatMap g.alternatives, hps
  have hinner := conduct_stands.evaluate (s := session.setting) (limit + 1) 0
  have htry : tryRulesTop session.setting rules (session.cursor start)
      = tryEach (evaluateTop session.setting) (rules.flatMap g.alternatives) none (session.cursor start) :=
    tryRules_of_candidates hps _ _
  change Chooses _ (session.conclude (tryRulesTop session.setting rules (session.cursor start))).1.outcome
  rw [htry]
  apply chooses_of_conclude rfl
  · apply fun p => hinner p (session.cursor start)
  · apply fun p => evaluate_isSilent session.setting (limit + 1) 0 p (session.cursor start)
  · rw [← htry]
    apply conduct_stands.tryRules hinner

/-- For a statement or an assignment without a value the mismatch of the value is told, while an assignment or
a primary is found. -/
theorem Session.chooses_withoutValue :
  let session := Session.start smallGrammar withoutValue 10
  let late : Diagnostic := ⟨.tooFew ⟨.assignment, "`Number`", 2, "`CloseParen`"⟩, .null⟩
  (∃ ps, smallGrammar.candidates [.statement, .assignment] = .ok ps
    ∧ Chooses (ps.map fun p => (session.evaluate p 0).1.outcome)
      (session.tryRules [.statement, .assignment] 0).1.outcome)
  ∧ (session.tryRules [.statement, .assignment] 0).1.outcome = .error late
  ∧ (session.tryRules [.assignment, .primary] 0).1.outcome
    = .ok (some ⟨⟨.primary, [.leaf (.unplaced .identifier "x")]⟩, 1⟩)
  := by
  intro session late
  refine ⟨tryRules_chooses ?_ withoutValue 10 0, ?_, ?_⟩ <;> decide +kernel

end LayoutGrammar
