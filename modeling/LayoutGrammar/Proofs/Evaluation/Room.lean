import LayoutGrammar.Proofs.Evaluation.Edge
import LayoutGrammar.Proofs.Evaluation.Parts

/-!
# The room that evaluations take

How many levels of nested evaluations it takes to read some tokens, exactly: with as many levels or more the tokens
are read, and with less the attempt fails because evaluations are nested too deeply (`Attempt.Takes`).  Attempts in a
row take what the greatest of them takes (`Attempt.Takes.bind`), and an evaluation takes one level more than what is
tried in it (`Production.takes_of_items`, `Production.takes_nothing`).  Alternatives that do not match take room as
well, which counts for a choice as much as that of the alternative that matches (`choiceTakes_cons_of_nothing`).
-/

namespace LayoutGrammar

/-! ## Attempts that take room -/

namespace Attempt

variable {α β : Type} {limit levels more : Nat} {P Q : α → Prop} {attempt : Nat → Attempt α}

/-- Whether an attempt, given room for a number of levels of evaluations, takes so many levels: with these it finds a
value of some sort, and with less it fails for the limit. -/
structure Takes (limit levels : Nat) (P : α → Prop) (attempt : Nat → Attempt α) : Prop where
  /-- With enough room a value is found. -/
  found : ∀ room, levels ≤ room → ∃ value, (attempt room).outcome = .ok value ∧ P value
  /-- With less the limit is reached. -/
  refused : ∀ room, room < levels →
    ∃ rule position, (attempt room).outcome = .error ⟨.tooDeep rule limit, position⟩

/-- An attempt that finds a value in any case takes no room. -/
theorem takes_of_ok {value : α} (hout : ∀ room, (attempt room).outcome = .ok value) (h : P value) (limit : Nat) :
  Takes limit 0 P attempt
  := ⟨fun room _ => ⟨value, hout room, h⟩, nofun⟩

/-- What fails only for the limit does not fail for a mismatch. -/
theorem Takes.isMismatch_eq (h : Takes limit levels P attempt) {room : Nat} {d : Diagnostic}
    (hout : (attempt room).outcome = .error d) :
  d.isMismatch = false
  := by
  by_cases hlevels : levels ≤ room
  · obtain ⟨value, hvalue, -⟩ := h.found room hlevels
    cases hvalue.symm.trans hout
  · obtain ⟨rule, position, herror⟩ := h.refused room (by omega)
    obtain rfl := Except.error.inj (herror.symm.trans hout)
    rfl

/-- Attempts that come out alike take the same room. -/
theorem Takes.congr {other : Nat → Attempt α} (h : Takes limit levels P attempt)
    (heq : ∀ room, (other room).outcome = (attempt room).outcome) :
  Takes limit levels P other
  where
  found room hroom := by
    rw [heq]
    apply h.found room hroom
  refused room hroom := by
    rw [heq]
    apply h.refused room hroom

/-- What holds of anything that is found holds of what an attempt finds with enough room. -/
theorem Takes.and_finds (h : Takes limit levels P attempt) (hfinds : ∀ room, (attempt room).Finds Q) :
  Takes limit levels (fun value => P value ∧ Q value) attempt
  where
  found room hroom := by
    obtain ⟨value, hout, hvalue⟩ := h.found room hroom
    exact ⟨value, hout, hvalue, (hfinds room).of_ok value hout⟩
  refused := h.refused

/-- Two attempts in a row take the room of the one that takes more. -/
theorem Takes.bind {next : Nat → α → Attempt β} {R : β → Prop} (h : Takes limit levels P attempt)
    (hnext : ∀ value, P value → Takes limit more R fun room => next room value) :
  Takes limit (max levels more) R fun room => attempt room >>= next room
  where
  found room hroom := by
    obtain ⟨value, hout, hvalue⟩ := h.found room (by omega)
    rw [bind_of_ok hout]
    apply (hnext value hvalue).found room (by omega)
  refused room hroom := by
    by_cases hlevels : levels ≤ room
    · obtain ⟨value, hout, hvalue⟩ := h.found room hlevels
      rw [bind_of_ok hout]
      apply (hnext value hvalue).refused room (by omega)
    · obtain ⟨rule, position, hout⟩ := h.refused room (by omega)
      rw [bind_of_error hout]
      exact ⟨rule, position, rfl⟩

/-- An event that happens before an attempt takes no room. -/
theorem Takes.after_note (h : Takes limit levels P attempt) (e : Event) :
  Takes limit levels P fun room => do note e; attempt room
  where
  found := h.found
  refused := h.refused

/-- What comes of a value that was found without any further attempt takes no more room. -/
theorem Takes.map {next : Nat → α → Attempt β} {R : β → Prop} (h : Takes limit levels P attempt)
    (hnext : ∀ value, P value → ∃ value', (∀ room, (next room value).outcome = .ok value') ∧ R value') :
  Takes limit levels R fun room => attempt room >>= next room
  := by
  rw [← Nat.max_zero levels]
  apply h.bind
  intro value hvalue
  obtain ⟨value', hout, hvalue'⟩ := hnext value hvalue
  apply takes_of_ok hout hvalue'

end Attempt

/-! ## What takes room -/

section

variable (s : Setting)

/-- Whether a production takes some levels to read some tokens at a place, or none of them when it does not match. -/
def Production.Takes (p : Production) (c : Cursor) (levels tokens : Nat) : Prop :=
  ∀ depth, Attempt.Takes s.limit levels (fun reading => reading.consumed = tokens)
    fun room => LayoutGrammar.evaluate s room depth p c

/-- Whether a choice between productions takes some levels to read some tokens at a place, or none of them when no
production matches. -/
def ChoiceTakes (ps : List Production) (c : Cursor) (levels tokens : Nat) : Prop :=
  ∀ depth, Attempt.Takes s.limit levels
    (fun found => found.elim 0 Reading.consumed = tokens ∧ (found = none ↔ tokens = 0))
    fun room => tryEach (evaluate s room depth) ps none c

/-- Whether a target takes some levels to match some tokens at a place, or none of them when it does not match. -/
def Target.Takes (target : Target) (c : Cursor) (levels tokens : Nat) : Prop :=
  ∀ rule depth, Attempt.Takes s.limit levels
    (fun found => found.elim c Piece.cursor = c.advance tokens ∧ (found = none ↔ tokens = 0))
    fun room => matchOnce s (evaluate s room depth) rule target c

/-- Whether the matches of an item take some levels to read some tokens at a place. -/
def Item.Takes (item : Item) (c : Cursor) (levels tokens : Nat) : Prop :=
  ∀ rule depth, Attempt.Takes s.limit levels
    (fun found => found.cursor = c.advance tokens ∧ (found.count = 0 ↔ tokens = 0))
    fun room => matchItem s (evaluate s room depth) rule item c

/-- Whether items in a row take some levels to read some tokens at a place. -/
def ItemsTake (items : List Item) (c : Cursor) (levels tokens : Nat) : Prop :=
  ∀ rule depth trees, Attempt.Takes s.limit levels (fun whole => whole.cursor = c.advance tokens)
    fun room => matchAll s (evaluate s room depth) rule items ⟨trees, c⟩

end

variable {s : Setting} {c : Cursor} {levels tokens more further : Nat}

/-! ## Choice -/

theorem choiceTakes_nil (s : Setting) (c : Cursor) :
  ChoiceTakes s [] c 0 0
  := fun _ => Attempt.takes_of_ok (fun _ => rfl) ⟨rfl, by simp⟩ s.limit

/-- When an alternative does not fail for a mismatch, it decides whether a choice goes on to the others. -/
theorem tryEach_outcome_cons {inner : Evaluator} {p : Production}
    (h : ∀ d, (inner p c).outcome = .error d → d.isMismatch = false) (others : List Production)
    (failure : Option Diagnostic) :
  (tryEach inner (p :: others) failure c).outcome
    = (do
      let reading ← inner p c
      if reading.isMatch then pure (some reading) else tryEach inner others failure c : Attempt _).outcome
  := by
  rw [tryEach, Attempt.outcome_bind]
  cases hout : (inner p c).outcome with
  | ok reading =>
    simp only [Except.bind]
    split <;> rfl
  | error d => simp [h d hout, Except.bind]

/-- A choice takes the first alternative that matches. -/
theorem choiceTakes_cons_of_match {p : Production} (h : p.Takes s c levels tokens) (hpos : 0 < tokens)
    (others : List Production) :
  ChoiceTakes s (p :: others) c levels tokens
  := by
  intro depth
  have hp := (h depth).and_finds fun room => evaluate_finds_progresses s room depth p c
  apply Attempt.Takes.congr _ fun room => tryEach_outcome_cons (fun _ => hp.isMismatch_eq) others none
  apply hp.map
  rintro reading ⟨rfl, hprogress⟩
  simp only [hprogress.isMatch_iff.mpr hpos, if_true]
  refine ⟨some reading, fun _ => rfl, rfl, ?_⟩
  simpa using hpos.ne'

/-- A choice takes the room of an alternative that does not match, and goes on. -/
theorem choiceTakes_cons_of_nothing {p : Production} {others : List Production} (h : p.Takes s c levels 0)
    (hothers : ChoiceTakes s others c more tokens) :
  ChoiceTakes s (p :: others) c (max levels more) tokens
  := by
  intro depth
  have hp := (h depth).and_finds fun room => evaluate_finds_progresses s room depth p c
  apply Attempt.Takes.congr _ fun room => tryEach_outcome_cons (fun _ => hp.isMismatch_eq) others none
  apply hp.bind
  rintro reading ⟨hzero, hprogress⟩
  have hmatch : ¬ reading.isMatch = true := by
    rw [hprogress.isMatch_iff, hzero]
    apply lt_irrefl
  simp only [if_neg hmatch]
  apply hothers depth

/-- A choice of one production takes what the production takes. -/
theorem choiceTakes_single {p : Production} (h : p.Takes s c levels tokens) :
  ChoiceTakes s [p] c levels tokens
  := by
  rcases Nat.eq_zero_or_pos tokens with rfl | hpos
  · rw [← Nat.max_zero levels]
    apply choiceTakes_cons_of_nothing h (choiceTakes_nil s c)
  · apply choiceTakes_cons_of_match h hpos

/-- Alternatives that do not match make no difference to a choice that takes as much room as any of them. -/
theorem choiceTakes_append_of_nothing {ps others : List Production} (h : ∀ p ∈ ps, p.Takes s c levels 0)
    (hothers : ChoiceTakes s others c more tokens) (hle : levels ≤ more) :
  ChoiceTakes s (ps ++ others) c more tokens
  := by
  induction ps with
  | nil => apply hothers
  | cons p ps ih =>
    obtain ⟨hp, hps⟩ := List.forall_mem_cons.mp h
    rw [← Nat.max_eq_right hle]
    apply choiceTakes_cons_of_nothing hp (ih hps)

/-! ## Items -/

theorem Target.takes_of_choice {heads : Choice Nonterminal} {ps : List Production}
    (hcandidates : s.grammar.candidates heads.members = .ok ps) (h : ChoiceTakes s ps c levels tokens)
    (hoisted : Bool) :
  (Target.rules heads hoisted).Takes s c levels tokens
  := by
  intro rule depth
  simp only [matchOnce, tryRules, hcandidates]
  apply (h depth).map
  rintro (_ | reading) ⟨htokens, hnone⟩
  · refine ⟨none, fun _ => rfl, ?_, by simpa using hnone⟩
    rw [← htokens]
    rfl
  · refine ⟨some _, fun _ => rfl, ?_, by simpa using hnone⟩
    rw [← htokens]
    rfl

/-- A token that is next is matched without any room. -/
theorem Target.takes_token {kinds : Choice Terminal} {excluded : Bool} {token : Token} {rest : List Token}
    (hrest : c.rest = token :: rest) (hkind : token.kind ∈ kinds.members) :
  (Target.tokens kinds excluded).Takes s c 0 1
  := by
  intro rule depth
  simp only [matchOnce_token hrest hkind]
  apply Attempt.takes_of_ok (fun _ => rfl)
  simp

/-- Without any room it shows that a token is not next. -/
theorem Target.takes_token_of_not {kinds : Choice Terminal} (h : ∀ token ∈ c.rest.head?, token.kind ∉ kinds.members)
    (excluded : Bool) :
  (Target.tokens kinds excluded).Takes s c 0 0
  := by
  intro rule depth
  simp only [matchOnce_token_of_not h]
  apply Attempt.takes_of_ok (fun _ => rfl)
  simp

theorem Item.takes_once {target : Target} {repetition : Repetition} (h : target.Takes s c levels tokens)
    (hrepetition : repetition.isRepeated = false) :
  (Item.mk target repetition).Takes s c levels tokens
  := by
  intro rule depth
  simp only [matchItem, hrepetition, Bool.false_eq_true, if_false]
  apply (h rule depth).map
  rintro (_ | piece) ⟨hcursor, hnone⟩
  · exact ⟨_, fun _ => rfl, hcursor, by simpa using hnone⟩
  · exact ⟨_, fun _ => rfl, hcursor, by simpa using hnone⟩

/-- An item that is repeated matches its target and then itself. -/
theorem matchItem_repeated (s : Setting) (room depth : Nat) (rule : Nonterminal) (target : Target)
    {repetition : Repetition} (hrepetition : repetition.isRepeated = true) (c : Cursor) :
  matchItem s (evaluate s room depth) rule ⟨target, repetition⟩ c
    = matchThen (matchOnce s (evaluate s room depth) rule target)
      (matchItem s (evaluate s room depth) rule ⟨target, repetition⟩) c
  := by
  have hmany : matchItem s (evaluate s room depth) rule ⟨target, repetition⟩
      = matchMany (matchOnce s (evaluate s room depth) rule target) := by
    funext c
    rw [matchItem, if_pos hrepetition]
  rw [hmany]
  apply (eq_matchMany_iff (matchOnce_finds_advances s room depth rule target) _).mpr rfl c

/-- After a match, an item that is repeated goes on with what comes next. -/
theorem Item.takes_again {target : Target} {repetition : Repetition} (hrepetition : repetition.isRepeated = true)
    (h : target.Takes s c levels tokens) (hpos : 0 < tokens)
    (hothers : (Item.mk target repetition).Takes s (c.advance tokens) more further) :
  (Item.mk target repetition).Takes s c (max levels more) (tokens + further)
  := by
  intro rule depth
  simp only [fun room => matchItem_repeated s room depth rule target hrepetition c, matchThen]
  apply (h rule depth).bind
  rintro (_ | ⟨trees, _⟩) ⟨hcursor, hnone⟩
  · simp [hpos.ne'] at hnone
  · obtain rfl : _ = c.advance tokens := hcursor
    apply (hothers rule depth).map
    rintro others ⟨hend, -⟩
    refine ⟨_, fun _ => rfl, ?_, ?_⟩
    · rw [hend, Cursor.advance_advance]
    · simp
      omega

/-- Where a target does not match, an item has no matches. -/
theorem Item.takes_none {target : Target} (h : target.Takes s c levels 0) (repetition : Repetition) :
  (Item.mk target repetition).Takes s c levels 0
  := by
  cases hrepetition : repetition.isRepeated with
  | false => apply Item.takes_once h hrepetition
  | true =>
    intro rule depth
    simp only [fun room => matchItem_repeated s room depth rule target hrepetition c, matchThen]
    apply (h rule depth).map
    rintro (_ | piece) ⟨-, hnone⟩
    · exact ⟨_, fun _ => rfl, rfl, by simp⟩
    · simp at hnone

theorem itemsTake_nil (s : Setting) (c : Cursor) :
  ItemsTake s [] c 0 0
  := by
  intro rule depth trees
  apply Attempt.takes_of_ok
  · intro room
    rfl
  · rfl

/-- An item that matches if it must, and may not match at most once, takes what its matches take, and the items after
it take what they take. -/
theorem itemsTake_cons {item : Item} {items : List Item} (h : item.Takes s c levels tokens)
    (hmatch : item.repetition.minimum ≠ 0 → 0 < tokens) (hrepetition : item.repetition ≠ .atMostOnce)
    (hothers : ItemsTake s items (c.advance tokens) more further) :
  ItemsTake s (item :: items) c (max levels more) (tokens + further)
  := by
  intro rule depth trees
  simp only [matchAll]
  apply (h rule depth).bind
  rintro ⟨⟨others, _⟩, count⟩ ⟨rfl, hcount⟩
  have henough : ¬ count < item.repetition.minimum := by
    have hminimum : item.repetition.minimum ≤ 1 := by cases item.repetition <;> decide
    simp only at hcount
    omega
  simp only [if_neg henough, hrepetition, false_and, if_false]
  rw [← Cursor.advance_advance]
  apply hothers rule depth

/-! ## Productions -/

section

variable {p : Production}

/-- An evaluation takes a level more than what is tried in it. -/
theorem takes_evaluate {P : Reading → Prop} (s : Setting) (p : Production) (c : Cursor) (depth : Nat)
    (h : Attempt.Takes s.limit levels P fun room => matchProduction s (evaluate s room (depth + 1)) depth p c) :
  Attempt.Takes s.limit (levels + 1) P fun room => evaluate s room depth p c
  where
  found room hroom := by
    obtain ⟨room, rfl⟩ : ∃ below, room = below + 1 := ⟨room - 1, by omega⟩
    apply h.found room (by omega)
  refused room hroom := by
    cases room with
    | zero => exact ⟨_, _, rfl⟩
    | succ room => apply h.refused room (by omega)

/-- A production whose opening item does not match takes a level more than the item. -/
theorem Production.takes_nothing (h : p.opening.Takes s c levels 0) :
  p.Takes s c (levels + 1) 0
  := by
  intro depth
  apply takes_evaluate
  simp only [matchProduction]
  apply Attempt.Takes.after_note
  apply (h p.rule (depth + 1)).map
  rintro opening ⟨-, hcount⟩
  simp only [if_pos (hcount.mpr rfl)]
  exact ⟨_, fun _ => rfl, rfl⟩

/-- A production whose opening item matches takes a level more than its items, when it keeps something. -/
theorem Production.takes_of_items (h : p.opening.Takes s c levels tokens) (hpos : 0 < tokens)
    (hothers : ItemsTake s p.continuations (c.advance tokens) more further)
    (hkeeps : ∃ item ∈ p.items, item.keeps = true) :
  p.Takes s c (max levels more + 1) (tokens + further)
  := by
  intro depth
  apply takes_evaluate
  simp only [matchProduction]
  apply Attempt.Takes.after_note
  apply ((h p.rule (depth + 1)).and_finds fun room => matchItem_finds_keeps p.rule p.opening c).bind
  rintro ⟨⟨trees, _⟩, count⟩ ⟨⟨rfl, hcount⟩, -, hkept⟩
  have hmatched : count ≠ 0 := by
    simp only at hcount
    omega
  -- What is kept makes the difference between a match and none, whichever item keeps it.
  have hbefore : trees ≠ [] ∨ ∃ item ∈ p.continuations, item.keeps = true := by
    obtain ⟨item, hitem, hkeeps⟩ := hkeeps
    rcases List.mem_cons.mp hitem with rfl | hitem
    · obtain ⟨-, hexcluded⟩ := by simpa [Item.keeps] using hkeeps
      apply Or.inl (hkept hexcluded hmatched)
    · apply Or.inr ⟨item, hitem, hkeeps⟩
  simp only [if_neg hmatched]
  apply ((hothers p.rule (depth + 1) trees).and_finds fun room => matchAll_finds_ne_nil p.rule hbefore).map
  rintro whole ⟨hend, hne⟩
  simp only [List.isEmpty_iff, if_neg hne]
  refine ⟨_, fun _ => rfl, ?_⟩
  simp [hend]

/-- A production of one item takes a level more than the item. -/
theorem Production.takes_of_single (h : p.opening.Takes s c levels tokens) (hsingle : p.continuations = [])
    (hkeeps : p.opening.keeps = true) :
  p.Takes s c (levels + 1) tokens
  := by
  rcases Nat.eq_zero_or_pos tokens with rfl | hpos
  · apply Production.takes_nothing h
  · have hnone : ItemsTake s p.continuations (c.advance tokens) 0 0 := by
      rw [hsingle]
      apply itemsTake_nil
    have htakes := Production.takes_of_items h hpos hnone ⟨p.opening, List.mem_cons_self, hkeeps⟩
    rwa [Nat.max_zero] at htakes

/-- A production that opens with a token takes one level to show that it is not next. -/
theorem Production.takes_of_avoids {kind : Terminal} {excluded : Bool} {kinds : List Terminal}
    (hopening : p.opening = ⟨.tokens (.one kind) excluded, .once⟩) (h : Avoids kinds c.rest) (hkind : kind ∈ kinds) :
  p.Takes s c 1 0
  := by
  have hnone : ∀ token ∈ c.rest.head?, token.kind ∉ (Choice.one kind).members := by
    apply h.of_subset
    apply List.cons_subset.mpr ⟨hkind, List.nil_subset _⟩
  apply Production.takes_nothing
  rw [hopening]
  apply Item.takes_once (Target.takes_token_of_not hnone excluded) rfl

end

end LayoutGrammar
