import LayoutGrammar.Proofs.Evaluation.Ends
import LayoutGrammar.Proofs.Prediction.Outlook

/-!
# Evaluating a choice

An evaluation comes out as an outlook foretells when it finds nothing before a token with which its phrase
does not start, finds what the phrase settles on, or fails at the token at which the phrase breaks
(`Phrase.Foretells`, `Phrase.BreaksLater`).  When at most one of some alternatives can start with the next
token, the first that matches is as good as any, so that a choice comes out as foretold when its
alternatives do.
-/

namespace LayoutGrammar

/-! ## Phrases at a place -/

namespace Phrase

variable {α β : Type}

section

variable (P : Phrase α) (last : List Terminal) (c : Cursor)

/-- Whether a phrase settles at a place, on a value and the place after it, when the mismatches that were
raised got no further. -/
def SettlesAt (value : α) (stop : Cursor) (reach : Nat) : Prop :=
  ∃ count, stop = c.advance count ∧ P.Settles last c.rest value count ∧ reach ≤ stop.index

/-- Whether a phrase breaks at the token that the mismatches that were raised got to. -/
def BreaksAt (reach : Nat) : Prop := ∃ count, P.Breaks last c.rest count ∧ reach = c.index + count + 1

/-- Whether a phrase breaks after the token at a place. -/
def BreaksLater (reach : Nat) : Prop := P.BreaksAt last c reach ∧ c.index + 1 < reach

/-- Whether what was found at a place, with the place after it, is what a phrase that starts with some
kinds settles on, or nothing when it does not start there. -/
def Foretells (first : List Terminal) : Option (α × Cursor) → Nat → Prop
  | some (value, stop), reach => P.SettlesAt last c value stop reach
  | none, reach => Avoids first c.rest ∧ reach = 0

end

variable {P : Phrase α} {first last : List Terminal} {c stop : Cursor} {value : α} {reach : Nat}

theorem SettlesAt.not_avoids (h : P.SettlesAt last c value stop reach) (hstart : P.StartsIn first) :
  ¬ Avoids first c.rest
  := by
  obtain ⟨count, -, hsettles, -⟩ := h
  apply hsettles.not_avoids hstart

theorem BreaksLater.not_avoids (h : P.BreaksLater last c reach) (hstart : P.StartsIn first) :
  ¬ Avoids first c.rest
  := by
  obtain ⟨⟨count, hbreaks, rfl⟩, hlt⟩ := h
  apply hbreaks.not_avoids _ hstart
  omega

/-- A phrase that settles at a place on some tokens leaves fewer. -/
theorem SettlesAt.length_lt (h : P.SettlesAt last c value stop reach) (hstart : P.StartsIn first) :
  stop.rest.length < c.rest.length
  := by
  obtain ⟨count, rfl, hsettles, -⟩ := h
  have hpos := hsettles.pos hstart
  have hle := hsettles.le
  simp
  omega

theorem SettlesAt.map (h : P.SettlesAt last c value stop reach) (f : α → β) :
  (P.map f).SettlesAt last c (f value) stop reach
  := by
  obtain ⟨count, hstop, hsettles, hreach⟩ := h
  use count, hstop, hsettles.map f

theorem BreaksLater.map (h : P.BreaksLater last c reach) (f : α → β) :
  (P.map f).BreaksLater last c reach
  := by
  obtain ⟨⟨count, hbreaks, hreach⟩, hlt⟩ := h
  use ⟨count, hbreaks.map f, hreach⟩

end Phrase

/-! ## Evaluators -/

/-- What a production read at a place, with the place after it. -/
def Reading.found? (reading : Reading) (c : Cursor) : Option (Node × Cursor) :=
  if reading.isMatch then some (reading.node, c.advance reading.consumed) else none

section

variable (o : Outlook) (m : Meaning)

/-- A bound on the evaluations nested in that of a nonterminal at a place. -/
def Outlook.depth (rule : Nonterminal) (c : Cursor) : Nat := o.rank rule + o.height * c.rest.length

/-- Whether an attempt to evaluate a production at a place comes out as foretold. -/
def Production.IsForetold (p : Production) (c : Cursor) (attempt : Attempt Reading) (deep : Prop) : Prop :=
  attempt.Ends
    (fun reading reach =>
      (p.phrase m).Foretells (o.next p.rule) c (p.first o) (reading.found? c) reach)
    ((p.phrase m).BreaksLater (o.next p.rule) c) deep

/-- Whether an attempt to match a target once at a place comes out as foretold. -/
def Target.IsForetold (target : Target) (rule : Nonterminal) (c : Cursor) (attempt : Attempt (Option Piece))
    (deep : Prop) : Prop :=
  attempt.Ends
    (fun r reach => (target.phrase m rule).Foretells (target.next o) c (target.first o)
      (r.map fun piece => (piece.trees, piece.cursor)) reach)
    ((target.phrase m rule).BreaksLater (target.next o) c) deep

/-- Whether matching a target at a place may be nested more deeply than some levels. -/
def Target.IsDeep (room : Nat) (target : Target) (c : Cursor) : Prop :=
  ∃ head ∈ target.references, room ≤ o.depth head c

/-- Whether an evaluator with some levels left before the limit evaluates the productions of a grammar as
foretold. -/
def Outlook.Foretells (g : Grammar) (inner : Evaluator) (room : Nat) : Prop :=
  ∀ p ∈ g.productions, ∀ c, p.IsForetold o m c (inner p c) (room ≤ o.depth p.rule c)

/-- Whether a production is the only one among some that may start before some tokens. -/
def Production.IsOnly (p : Production) (ps : List Production) (ts : List Token) : Prop :=
  p ∈ ps ∧ ∀ q ∈ ps, q = p ∨ Avoids (q.first o) ts

end

/-! ## Alternatives -/

/-- How a choice ends, from how its first alternative does and the choice between the others. -/
theorem tryEach_ends {inner : Evaluator} {p : Production} {others : List Production}
    {failure : Option Diagnostic} {c : Cursor} {foundFirst : Reading → Nat → Prop}
    {stuckFirst : Nat → Prop} {deepFirst : Prop} {found : Option Reading → Nat → Prop}
    {stuck : Nat → Prop} {deep : Prop} (hfirst : (inner p c).Ends foundFirst stuckFirst deepFirst)
    (hmatch : ∀ reading reach, foundFirst reading reach → reading.isMatch = true →
      found (some reading) reach)
    (hpass : ∀ reading reach, foundFirst reading reach → reading.isMatch = false →
      (tryEach inner others failure c).Ends (fun r further => found r (max reach further))
        (fun further => stuck (max reach further)) deep)
    (hfail : ∀ (reason : Diagnostic) reach, stuckFirst reach → reason.isMismatch = true →
      (tryEach inner others (some (reason.keepFurther failure)) c).Ends
        (fun r further => found r (max reach further)) (fun further => stuck (max reach further)) deep)
    (hdeep : deepFirst → deep) :
  (tryEach inner (p :: others) failure c).Ends found stuck deep
  := by
  simp only [tryEach]
  split
  next reading hout =>
    have hfound := hfirst.ok reading hout
    split
    next hm =>
      constructor
      · apply hfirst.balanced
      · rintro _ ⟨⟩
        apply hmatch reading _ hfound hm
      · simp
      · simp
    next hm =>
      rw [Bool.not_eq_true] at hm
      apply (hpass reading _ hfound hm).after hfirst.balanced
  next reason hout =>
    split
    next hm =>
      have hevent : (Journal.event (.discarded reason)).Balanced := .event rfl
      have hreach : (Journal.event (.discarded reason)).reach = 0 := by
        simp [Journal.reach, Journal.raised_event (e := .discarded reason) rfl, Event.raised?]
      apply Attempt.Ends.after (.append hfirst.balanced hevent)
      rw [hfirst.balanced.reach_append, hreach, Nat.max_zero]
      apply hfail reason _ (hfirst.mismatch reason hout hm) hm
    next hm =>
      rw [Bool.not_eq_true] at hm
      obtain ⟨hcause, hroom⟩ := hfirst.other reason hout hm
      constructor
      · apply hfirst.balanced
      · simp
      · rintro _ ⟨⟩ hnot
        simp [hm] at hnot
      · rintro _ ⟨⟩ -
        use hcause, hdeep hroom

/-- Without another alternative, the mismatch so far is the outcome of a choice. -/
theorem tryEach_nil_ends {inner : Evaluator} {mismatch : Diagnostic} {c : Cursor}
    {found : Option Reading → Nat → Prop} {stuck : Nat → Prop} {deep : Prop}
    (hm : mismatch.isMismatch = true) (h : stuck 0) :
  (tryEach inner [] (some mismatch) c).Ends found stuck deep
  where
  balanced := .empty
  ok := by simp [tryEach, Attempt.fail]
  mismatch := by
    rintro _ ⟨⟩ -
    apply h
  other := by
    rintro _ ⟨⟩ hnot
    simp [hm] at hnot

theorem Diagnostic.isMismatch_keepFurther {d : Diagnostic} {kept : Option Diagnostic}
    (hd : d.isMismatch = true) (hkept : ∀ k ∈ kept, k.isMismatch = true) :
  (d.keepFurther kept).isMismatch = true
  := by
  unfold keepFurther
  split
  · split
    · apply hd
    · apply hkept _ rfl
  · apply hd

section

variable {o : Outlook} {g : Grammar} {m : Meaning} (h : o.Foresees g m)
include h

/-- A production that does not start at a place comes to nothing there. -/
theorem Production.IsForetold.of_avoids {p : Production} {c : Cursor} {attempt : Attempt Reading}
    {deep : Prop} (hp : p.IsForetold o m c attempt deep) (havoids : Avoids (p.first o) c.rest) :
  attempt.Ends (fun reading reach => reading.isMatch = false ∧ reach = 0) (fun _ => False) deep
  := by
  apply Attempt.Ends.mono hp
  · intro reading reach hfound
    cases hm : reading.isMatch with
    | false =>
      rw [Reading.found?, hm] at hfound
      use rfl, hfound.2
    | true =>
      rw [Reading.found?, hm] at hfound
      apply absurd havoids (hfound.not_avoids (h.production_startsIn p))
  · intro reach hstuck
    apply hstuck.not_avoids (h.production_startsIn p) havoids
  · apply id

/-- An alternative that does not start at a place makes no difference there. -/
theorem tryEach_cons_of_avoids {inner : Evaluator} {p : Production} {others : List Production}
    {failure : Option Diagnostic} {c : Cursor} {deepFirst : Prop}
    {found : Option Reading → Nat → Prop} {stuck : Nat → Prop} {deep : Prop}
    (hp : p.IsForetold o m c (inner p c) deepFirst) (havoids : Avoids (p.first o) c.rest)
    (hothers : (tryEach inner others failure c).Ends found stuck deep) (hdeep : deepFirst → deep) :
  (tryEach inner (p :: others) failure c).Ends found stuck deep
  := by
  apply tryEach_ends (hp.of_avoids h havoids) _ _ _ hdeep
  · rintro reading reach ⟨hnot, -⟩ hm
    simp [hnot] at hm
  · rintro reading _ ⟨-, rfl⟩ -
    simpa using hothers
  · rintro _ _ ⟨⟩

omit h in
/-- An alternative that starts at a place either matches or breaks there. -/
theorem tryEach_cons_of_starts {inner : Evaluator} {p : Production} {others : List Production}
    {failure : Option Diagnostic} {c : Cursor} {deepFirst : Prop}
    {found : Option Reading → Nat → Prop} {stuck : Nat → Prop} {deep : Prop}
    (hp : p.IsForetold o m c (inner p c) deepFirst) (hstarts : ¬ Avoids (p.first o) c.rest)
    (hmatch : ∀ (reading : Reading) reach, (p.phrase m).SettlesAt (o.next p.rule) c reading.node
      (c.advance reading.consumed) reach → found (some reading) reach)
    (hfail : ∀ (reason : Diagnostic) reach, (p.phrase m).BreaksLater (o.next p.rule) c reach →
      reason.isMismatch = true → (tryEach inner others (some (reason.keepFurther failure)) c).Ends
        (fun r further => found r (max reach further)) (fun further => stuck (max reach further)) deep)
    (hdeep : deepFirst → deep) :
  (tryEach inner (p :: others) failure c).Ends found stuck deep
  := by
  apply tryEach_ends hp _ _ hfail hdeep
  · intro reading reach hfound hm
    rw [Reading.found?, if_pos hm] at hfound
    apply hmatch reading reach hfound
  · intro reading reach hfound hm
    rw [Reading.found?, hm] at hfound
    apply absurd hfound.1 hstarts

/-- When none of some alternatives starts at a place, a choice between them comes to what it did before. -/
theorem tryEach_of_avoids {inner : Evaluator} {ps : List Production} {failure : Option Diagnostic}
    {c : Cursor} {deep : Production → Prop} (hinner : ∀ p ∈ ps, p.IsForetold o m c (inner p c) (deep p))
    (havoids : ∀ p ∈ ps, Avoids (p.first o) c.rest)
    (hfailure : ∀ d ∈ failure, d.isMismatch = true) :
  (tryEach inner ps failure c).Ends (fun r reach => r = none ∧ failure = none ∧ reach = 0)
    (fun reach => failure ≠ none ∧ reach = 0) (∃ p ∈ ps, deep p)
  := by
  induction ps with
  | nil =>
    cases failure with
    | none => apply Attempt.ends_pure (by simp)
    | some mismatch => apply tryEach_nil_ends (hfailure mismatch rfl) (by simp)
  | cons p others ih =>
    rw [List.forall_mem_cons] at hinner havoids
    apply tryEach_cons_of_avoids h hinner.1 havoids.1
    · apply Attempt.Ends.mono (ih hinner.2 havoids.2) (fun _ _ => id) (fun _ => id)
      rintro ⟨q, hq, hdeep⟩
      use q, List.mem_cons_of_mem p hq
    · intro hdeep
      use p, List.mem_cons_self

omit h in
/-- The only alternative that may start somewhere is so among more that do not start there. -/
theorem Production.IsOnly.cons {p q : Production} {ps : List Production} {ts : List Token}
    (hq : q.IsOnly o ps ts) (havoids : Avoids (p.first o) ts) :
  q.IsOnly o (p :: ps) ts
  := by
  use List.mem_cons_of_mem p hq.1
  rw [List.forall_mem_cons]
  use Or.inr havoids, hq.2

omit h in
theorem Production.isOnly_cons_self {p : Production} {ps : List Production} {ts : List Token}
    (havoids : ∀ q ∈ ps, Avoids (q.first o) ts) :
  p.IsOnly o (p :: ps) ts
  := by
  use List.mem_cons_self
  rw [List.forall_mem_cons]
  use Or.inl rfl, fun q hq => Or.inr (havoids q hq)

/-- When at most one of some alternatives may start at a place, a choice between them comes out as that one
does. -/
theorem tryEach_of_pairwise {inner : Evaluator} {ps : List Production} {c : Cursor}
    {deep : Production → Prop} (hinner : ∀ p ∈ ps, p.IsForetold o m c (inner p c) (deep p))
    (hpairwise : ps.Pairwise fun p q => Avoids (p.first o) c.rest ∨ Avoids (q.first o) c.rest) :
  (tryEach inner ps none c).Ends
    (fun r reach => match r with
      | some reading => ∃ p : Production, p.IsOnly o ps c.rest ∧
          (p.phrase m).SettlesAt (o.next p.rule) c reading.node (c.advance reading.consumed) reach
      | none => (∀ p ∈ ps, Avoids (p.first o) c.rest) ∧ reach = 0)
    (fun reach => ∃ p : Production, p.IsOnly o ps c.rest ∧ (p.phrase m).BreaksLater (o.next p.rule) c reach)
    (∃ p ∈ ps, deep p)
  := by
  induction ps with
  | nil => apply Attempt.ends_pure (by simp)
  | cons p others ih =>
    rw [List.pairwise_cons] at hpairwise
    rw [List.forall_mem_cons] at hinner
    have hdeep : (∃ q ∈ others, deep q) → ∃ q ∈ p :: others, deep q := by
      rintro ⟨q, hq, hdeep⟩
      use q, List.mem_cons_of_mem p hq
    have hfirst : deep p → ∃ q ∈ p :: others, deep q := by
      intro hdeep
      use p, List.mem_cons_self
    by_cases havoids : Avoids (p.first o) c.rest
    · apply tryEach_cons_of_avoids h hinner.1 havoids _ hfirst
      apply (ih hinner.2 hpairwise.2).mono _ _ hdeep
      · rintro (_ | reading) reach hfound
        · simpa [havoids] using hfound
        · obtain ⟨q, hq, hsettles⟩ := hfound
          use q, hq.cons havoids
      · rintro reach ⟨q, hq, hbreaks⟩
        use q, hq.cons havoids
    · have hothers : ∀ q ∈ others, Avoids (q.first o) c.rest := by
        intro q hq
        apply (hpairwise.1 q hq).resolve_left havoids
      have honly := Production.isOnly_cons_self (p := p) hothers
      apply tryEach_cons_of_starts hinner.1 havoids _ _ hfirst
      · intro reading reach hsettles
        exact ⟨p, honly, hsettles⟩
      · intro reason reach hbreaks hm
        have hkeep : ∀ d ∈ some (reason.keepFurther none), d.isMismatch = true := by
          rintro _ ⟨⟩
          apply hm
        apply (tryEach_of_avoids h hinner.2 hothers hkeep).mono _ _ hdeep
        · simp
        · rintro _ ⟨-, rfl⟩
          rw [Nat.max_zero]
          use p, honly

/-! ## Nonterminals -/

/-- The phrase of some nonterminals is that of their alternatives. -/
theorem Outlook.Foresees.anyOf_eq (rules : List Nonterminal) :
  m.anyOf rules = Phrase.any (rules.flatMap g.alternatives) (Production.phrase m)
  := by
  ext node ts
  constructor
  · rintro ⟨rule, hrule, hnode⟩
    obtain ⟨p, hp, rfl, hphrase⟩ := (h.solves rule node ts).mp hnode
    use p, Grammar.mem_flatMap_alternatives_iff.mpr ⟨hp, hrule⟩
  · rintro ⟨p, hp, hphrase⟩
    obtain ⟨hp, hrule⟩ := Grammar.mem_flatMap_alternatives_iff.mp hp
    use p.rule, hrule
    apply (h.solves p.rule node ts).mpr
    exact ⟨p, hp, rfl, hphrase⟩

/-- Some nonterminals settle on what their only alternative that may start does. -/
theorem Production.IsOnly.settles {p : Production} {rules : List Nonterminal} {ts : List Token}
    {node : Node} {count : Nat} (hp : p.IsOnly o (rules.flatMap g.alternatives) ts)
    (hsettles : (p.phrase m).Settles (o.next p.rule) ts node count) :
  (m.anyOf rules).Settles (rules.flatMap o.next) ts node count
  := by
  rw [h.anyOf_eq]
  apply Phrase.Settles.any hp.1 hsettles
  · intro kind
    apply List.mem_flatMap_of_mem (Grammar.mem_flatMap_alternatives_iff.mp hp.1).2
  · intro q hq
    rcases hp.2 q hq with rfl | havoids
    · apply Or.inl rfl
    · apply Or.inr ((h.production_startsIn q).dead havoids)

/-- Some nonterminals break where their only alternative that may start does. -/
theorem Production.IsOnly.breaks {p : Production} {rules : List Nonterminal} {ts : List Token}
    {count : Nat} (hp : p.IsOnly o (rules.flatMap g.alternatives) ts)
    (hbreaks : (p.phrase m).Breaks (o.next p.rule) ts count) :
  (m.anyOf rules).Breaks (rules.flatMap o.next) ts count
  := by
  rw [h.anyOf_eq]
  apply Phrase.Breaks.any hp.1 hbreaks
  intro q hq
  rcases hp.2 q hq with rfl | havoids
  · apply hbreaks.dead.of_subset
    intro kind
    apply List.mem_flatMap_of_mem (Grammar.mem_flatMap_alternatives_iff.mp hp.1).2
  · apply (h.production_startsIn q).dead havoids

variable {s : Setting} {inner : Evaluator} {room : Nat}

/-- A choice between nonterminals comes out as foretold when their alternatives do. -/
theorem tryRules_ends (hs : s.grammar = g) (hinner : o.Foretells m g inner room) {rules : List Nonterminal}
    {c : Cursor} (hcontains : ∀ rule ∈ rules, g.contains rule = true)
    (hcovers : ∀ rule ∈ rules, o.first rule ⊆ (g.alternatives rule).flatMap (Production.first o))
    (hdecided : (rules.flatMap g.alternatives).Pairwise fun p q =>
      Avoids (p.first o) c.rest ∨ Avoids (q.first o) c.rest) :
  (tryRules s inner rules c).Ends
    (fun r reach => (m.anyOf rules).Foretells (rules.flatMap o.next) c (rules.flatMap o.first)
      (r.map fun reading => (reading.node, c.advance reading.consumed)) reach)
    ((m.anyOf rules).BreaksLater (rules.flatMap o.next) c) (∃ rule ∈ rules, room ≤ o.depth rule c)
  := by
  unfold tryRules
  rw [hs, Grammar.candidates_eq hcontains]
  have hps : ∀ p ∈ rules.flatMap g.alternatives, p.IsForetold o m c (inner p c) (room ≤ o.depth p.rule c) :=
    fun p hp => hinner p (Grammar.mem_flatMap_alternatives_iff.mp hp).1 c
  apply (tryEach_of_pairwise h hps hdecided).mono
  · rintro (_ | reading) reach hfound
    · obtain ⟨havoids, rfl⟩ := hfound
      refine ⟨?_, rfl⟩
      intro t ht hkind
      obtain ⟨rule, hrule, hkind⟩ := List.mem_flatMap.mp hkind
      obtain ⟨p, hp, hkind⟩ := List.mem_flatMap.mp (hcovers rule hrule hkind)
      apply havoids p (List.mem_flatMap_of_mem hrule hp) t ht hkind
    · obtain ⟨p, hp, count, hstop, hsettles, hreach⟩ := hfound
      use count, hstop, hp.settles h hsettles
  · rintro reach ⟨p, hp, ⟨count, hbreaks, hreach⟩, hlt⟩
    use ⟨count, hp.breaks h hbreaks, hreach⟩
  · rintro ⟨p, hp, hdeep⟩
    use p.rule, (Grammar.mem_flatMap_alternatives_iff.mp hp).2

omit h in
theorem settles_tokens {kinds : Choice Terminal} {excluded : Bool} {rule : Nonterminal} {t : Token}
    {ts : List Token} (ht : t.kind ∈ kinds.members) (last : List Terminal) :
  ((Target.tokens kinds excluded).phrase m rule).Settles last (t :: ts)
    (if excluded then [] else [.leaf t]) 1
  where
  le := by simp
  reads := ⟨t, ht, rfl, rfl⟩
  unique := by
    rintro _ _ vs ⟨t', -, rfl, rfl⟩ - hagree
    obtain rfl : t' = t := by simpa using hagree.head?_eq
    simp

/-- Whether at most one alternative of a target may start at a place. -/
def Target.IsDecidedAt (o : Outlook) (g : Grammar) (target : Target) (c : Cursor) : Prop :=
  (target.references.flatMap g.alternatives).Pairwise fun p q =>
    Avoids (p.first o) c.rest ∨ Avoids (q.first o) c.rest

omit h in
theorem Target.isDecidedAt {target : Target} (hdecided : target.isDecided o g = true) (c : Cursor) :
  target.IsDecidedAt o g c
  := by
  rw [isDecided, decide_eq_true_eq] at hdecided
  apply hdecided.imp
  intro p q hpq
  cases hc : c.rest with
  | nil => simp [Avoids]
  | cons t ts =>
    rw [avoids_cons_iff, avoids_cons_iff, ← not_and_or]
    rintro ⟨hp, hq⟩
    apply hpq t.kind hp hq

/-- One match of a target comes out as foretold. -/
theorem matchOnce_isForetold (hs : s.grammar = g) (hinner : o.Foretells m g inner room) (rule : Nonterminal)
    {target : Target} {c : Cursor} (hcontains : ∀ head ∈ target.references, g.contains head = true)
    (hcovers : ∀ head ∈ target.references,
      o.first head ⊆ (g.alternatives head).flatMap (Production.first o))
    (hdecided : target.IsDecidedAt o g c) :
  target.IsForetold o m rule c (matchOnce s inner rule target c) (target.IsDeep o room c)
  := by
  unfold Target.IsForetold
  cases target with
  | tokens kinds excluded =>
    simp only [matchOnce]
    split
    next t ts hc =>
      split
      next ht =>
        apply Attempt.ends_pure
        refine ⟨1, rfl, ?_, Nat.zero_le _⟩
        rw [hc]
        apply settles_tokens ht
      next ht =>
        apply Attempt.ends_pure
        simpa [Phrase.Foretells, Target.first, hc, avoids_cons_iff] using ht
    next hc =>
      apply Attempt.ends_pure
      simp [Phrase.Foretells, hc, Avoids]
  | rules heads hoisted =>
    simp only [matchOnce]
    apply (tryRules_ends h hs hinner hcontains hcovers hdecided).bind
    · rintro (_ | reading) reach hfound
      · apply Attempt.ends_pure
        simp only [Nat.max_zero]
        apply hfound
      · apply Attempt.ends_pure
        simp only [Nat.max_zero]
        apply hfound.map
    · intro reach hstuck
      apply hstuck.map
    · apply id

end

end LayoutGrammar
