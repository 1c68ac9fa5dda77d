import LayoutGrammar.Proofs.Evaluation.Furthest
import LayoutGrammar.Proofs.Evaluation.Nesting

/-!
# Where mismatches arise

Every mismatch is that of an item at a place (`Diagnostic.IsAt`).  Those that arise in an evaluation are at
places beyond the one that it starts from, up to the end of the tokens (`evaluate_logs_within`): the opening
item of a production raises none, and its continuations come after a token that was read.  So wherever an
evaluation fails for a mismatch, it has read a token (`Attempt.Logs.failure_within`), and what is told for it
names a token further on, shows it and says where it is (`Diagnostic.IsLocated`).
-/

namespace LayoutGrammar

/-! ## Places -/

/-- Whether a diagnostic is the mismatch of an item of a production at a place. -/
def Diagnostic.IsAt (s : Setting) (c : Cursor) (d : Diagnostic) : Prop :=
  ∃ rule item, d = mismatchAt s rule item c .tooFew ∨ d = mismatchAt s rule item c .tooMany

/-- Whether a diagnostic is a mismatch at a place that comes after a number of tokens at least. -/
def Diagnostic.IsWithin (s : Setting) (c : Cursor) (least : Nat) (d : Diagnostic) : Prop :=
  ∃ count, least ≤ count ∧ count ≤ c.rest.length ∧ d.IsAt s (c.advance count)

/-- Whether an event raises no mismatch but at such a place. -/
def Event.RaisesWithin (s : Setting) (c : Cursor) (least : Nat) (e : Event) : Prop :=
  ∀ d, e = .raised d → d.IsWithin s c least

section

variable {s : Setting} {c : Cursor} {count least : Nat} {d : Diagnostic}

theorem Diagnostic.IsAt.index?_eq (h : d.IsAt s c) :
  d.cause.index? = some c.index
  := by
  obtain ⟨rule, item, rfl | rfl⟩ := h <;> rfl

theorem Diagnostic.IsAt.within (h : d.IsAt s (c.advance count)) (hcount : count ≤ c.rest.length)
    (hleast : least ≤ count) :
  d.IsWithin s c least
  := ⟨count, hleast, hcount, h⟩

theorem Diagnostic.IsWithin.of_advance {more : Nat} (h : d.IsWithin s (c.advance count) more)
    (hcount : count ≤ c.rest.length) (hleast : least ≤ count + more) :
  d.IsWithin s c least
  := by
  obtain ⟨further, hmore, hle, hd⟩ := h
  rw [Cursor.rest_advance, List.length_drop] at hle
  rw [Cursor.advance_advance] at hd
  apply hd.within (by omega) (by omega)

theorem Event.raisesWithin_of_raised?_eq_none {e : Event} (h : e.raised? = none) :
  e.RaisesWithin s c least
  := by
  rintro d rfl
  cases h

/-- What is logged after some tokens is logged after fewer. -/
theorem Attempt.Logs.within_of_advance {α : Type} {attempt : Attempt α} {more : Nat}
    (h : attempt.Logs (Event.RaisesWithin s (c.advance count) more)) (hcount : count ≤ c.rest.length)
    (hleast : least ≤ count + more) :
  attempt.Logs (Event.RaisesWithin s c least)
  := by
  constructor
  intro e he d hd
  apply (h.of_mem e he d hd).of_advance hcount hleast

end

/-! ## Evaluations -/

section

variable {s : Setting} {room depth : Nat}

section

variable (ih : ∀ p c, (evaluate s room depth p c).Logs (Event.RaisesWithin s c 1))
include ih

/-- The matches of an item raise mismatches beyond the first place only. -/
theorem matchItem_logs_within (rule : Nonterminal) (item : Item) (c : Cursor) :
  (matchItem s (evaluate s room depth) rule item c).Logs (Event.RaisesWithin s c 1)
  := by
  apply matchItem_logs fun _ => Event.raisesWithin_of_raised?_eq_none rfl
  intro q _ _ count hcount
  apply (ih q _).within_of_advance hcount (Nat.le_add_left ..)

theorem lookAhead_logs_within (target : Target) (c : Cursor) :
  (lookAhead s (evaluate s room depth) target c).Logs (Event.RaisesWithin s c 1)
  := by
  apply lookAhead_logs fun _ => Event.raisesWithin_of_raised?_eq_none rfl
  · intro _ _ _
    exact ⟨Event.raisesWithin_of_raised?_eq_none rfl, Event.raisesWithin_of_raised?_eq_none rfl⟩
  · intro q _ _
    apply ih

/-- Continuations raise mismatches from the place on that they start from. -/
theorem matchAll_logs_within (rule : Nonterminal) (items : List Item) (before : Piece) :
  (matchAll s (evaluate s room depth) rule items before).Logs (Event.RaisesWithin s before.cursor 0)
  := by
  induction items generalizing before with
  | nil => apply Attempt.logs_pure
  | cons item items ih' =>
    have hitem : (matchItem s (evaluate s room depth) rule item before.cursor).Logs
        (Event.RaisesWithin s (before.cursor.advance 0) 1) :=
      matchItem_logs_within ih rule item before.cursor
    rw [matchAll]
    apply (hitem.within_of_advance (Nat.zero_le _) (Nat.zero_le _)).bind
      (matchItem_finds_advance rule item before.cursor)
    rintro found ⟨count, -, hcount, hcursor⟩
    have hothers : (matchAll s (evaluate s room depth) rule items
        ⟨before.trees ++ found.trees, found.cursor⟩).Logs (Event.RaisesWithin s before.cursor 0) := by
      have hlater := ih' ⟨before.trees ++ found.trees, found.cursor⟩
      rw [hcursor] at hlater ⊢
      apply hlater.within_of_advance hcount (Nat.zero_le _)
    have hraise {d : Diagnostic} (hd : d.IsAt s found.cursor) :
        (Attempt.raise d : Attempt Piece).Logs (Event.RaisesWithin s before.cursor 0) := by
      apply Attempt.logs_raise
      rintro _ ⟨⟩
      rw [hcursor] at hd
      use count, Nat.zero_le count, hcount
    split
    · apply hraise ⟨rule, item, Or.inl rfl⟩
    · split
      · have hahead := lookAhead_logs_within ih item.target found.cursor
        rw [hcursor] at hahead ⊢
        apply (hahead.within_of_advance hcount (Nat.zero_le _)).bind (Attempt.finds_true _)
        rintro (_ | _) _
        · rw [← hcursor]
          apply hothers
        · rw [← hcursor]
          apply hraise ⟨rule, item, Or.inr rfl⟩
      · apply hothers

theorem matchProduction_logs_within (own : Nat) (p : Production) (c : Cursor) :
  (matchProduction s (evaluate s room depth) own p c).Logs (Event.RaisesWithin s c 1)
  := by
  refine Attempt.Logs.after_note ?_ (Event.raisesWithin_of_raised?_eq_none rfl)
  apply (matchItem_logs_within ih p.rule p.opening c).bind (matchItem_finds_advance p.rule p.opening c)
  rintro opening ⟨count, hopening, hcount, hcursor⟩
  split
  · apply Attempt.logs_pure
  next hmatch =>
    have hothers := matchAll_logs_within ih p.rule p.continuations opening.toPiece
    rw [hcursor] at hothers
    apply (hothers.within_of_advance hcount (by omega)).bind (Attempt.finds_true _)
    intro whole _
    split
    · apply Attempt.logs_pure
    · refine Attempt.Logs.after_note ?_ (Event.raisesWithin_of_raised?_eq_none rfl)
      apply Attempt.logs_pure

end

end

/-- The mismatches that arise in an evaluation are at places beyond the one that it starts from, among the
tokens that are left there or past the last. -/
theorem evaluate_logs_within (s : Setting) (room depth : Nat) (p : Production) (c : Cursor) :
  (evaluate s room depth p c).Logs (Event.RaisesWithin s c 1)
  := by
  induction room generalizing depth p c with
  | zero => apply Attempt.logs_of_empty rfl
  | succ room ih => apply matchProduction_logs_within (ih (depth + 1))

/-! ## Failures -/

/-- A mismatch that was raised outside of any look-ahead is that of an event. -/
theorem Journal.mem_events_of_raised {j : Journal} {d : Diagnostic} (h : d ∈ j.raised) :
  .raised d ∈ j.events
  := by
  obtain ⟨e, he, hd⟩ := List.mem_filterMap.mp h
  have heq : e = .raised d := by
    cases e <;> simp_all [Event.raised?]
  rw [← heq]
  apply (Event.outside_sublist 0 j.events).subset he

/-- A mismatch that an attempt fails for is at a place at which the attempt raises mismatches. -/
theorem Attempt.Logs.failure_within {α : Type} {attempt : Attempt α} {s : Setting} {c : Cursor} {least : Nat}
    (h : attempt.Logs (Event.RaisesWithin s c least)) (hconduct : attempt.IsConducted Journal.Stands)
    {d : Diagnostic} (hout : attempt.outcome = .error d) (hd : d.isMismatch = true) :
  d.IsWithin s c least
  := by
  have hraised := (hconduct.of_error hout).raised_of_failure d rfl hd
  apply h.of_mem _ (Journal.mem_events_of_raised hraised) d rfl

/-! ## Locations -/

/-- Whether a mismatch names a token of some tokens beyond an index, or the place past the last one, when it is
told with a position: the position is where the token starts or where the last one stops, and what is shown as
found is that token. -/
structure Mismatch.Locates (tokens : List Token) (start : Nat) (position : Position) (m : Mismatch) : Prop where
  /-- The mismatch is beyond the index. -/
  lt : start < m.index
  /-- It is at a token or past the last one. -/
  le : m.index ≤ tokens.length
  /-- The token is where the mismatch is told, and is shown. -/
  token : ∀ token, tokens[m.index]? = some token → position = token.span.start
    ∧ m.found = if token.kind = .eof then "end of input" else "`" ++ token.shown ++ "`"
  /-- Past the last token, a mismatch is told where that one stops. -/
  ending : m.index = tokens.length → ∃ last, tokens.getLast? = some last
    ∧ position = last.span.stop ∧ m.found = "end of input"

/-- Whether a diagnostic is a mismatch that is told where it is. -/
def Diagnostic.IsLocated (tokens : List Token) (start : Nat) (d : Diagnostic) : Prop :=
  ∃ m, (d.cause = .tooFew m ∨ d.cause = .tooMany m) ∧ m.Locates tokens start d.position

/-- The mismatch of an item at a place among some tokens is told where it is. -/
theorem locates_of_ofIndex {tokens : List Token} {start index : Nat} (rule : Nonterminal) (element : String)
    (hlt : start < index) (hle : index ≤ tokens.length) :
  Mismatch.Locates tokens start ((Cursor.ofIndex tokens index).position (.ofEnd tokens))
    ⟨rule, element, index, (Cursor.ofIndex tokens index).found⟩
  where
  lt := hlt
  le := hle
  token token htoken := by
    obtain ⟨hindex, rfl⟩ := List.getElem?_eq_some_iff.mp htoken
    have hdrop := List.drop_eq_getElem_cons hindex
    simp only [Cursor.ofIndex, Cursor.position, Cursor.found, hdrop, true_and]
  ending hindex := by
    obtain rfl : index = tokens.length := hindex
    obtain ⟨last, hlast⟩ : ∃ last, tokens.getLast? = some last := by
      cases hnone : tokens.getLast? with
      | some last => use last
      | none => simp [List.getLast?_eq_none_iff.mp hnone] at hlt
    use last, hlast
    simp [Cursor.ofIndex, Cursor.position, Cursor.found, Position.ofEnd, hlast]

/-- Within some tokens, a mismatch at a place that comes after a token of them is told where it is. -/
theorem Diagnostic.IsWithin.isLocated {g : Grammar} {tokens : List Token} {limit start : Nat} {d : Diagnostic}
    (h : d.IsWithin (Session.start g tokens limit).setting (.ofIndex tokens start) 1) :
  d.IsLocated tokens start
  := by
  obtain ⟨count, hpos, hle, rule, item, hd⟩ := h
  rw [Cursor.advance_ofIndex] at hd
  simp only [Cursor.ofIndex, List.length_drop] at hle
  have hlt : start < start + count := by omega
  have hlocates := locates_of_ofIndex rule item.target.shown hlt (show start + count ≤ tokens.length by omega)
  rcases hd with rfl | rfl
  · exact ⟨_, Or.inl rfl, hlocates⟩
  · exact ⟨_, Or.inr rfl, hlocates⟩

/-- What is told for an attempt arose where the attempt raises mismatches. -/
theorem Attempt.Tells.within {α : Type} {attempt : Attempt α} {s : Setting} {c : Cursor} {least : Nat}
    {d : Diagnostic} (h : attempt.Tells d) (hlogs : attempt.Logs (Event.RaisesWithin s c least)) :
  d.IsWithin s c least
  := hlogs.of_mem _ (Journal.mem_events_of_raised h.raised) d rfl

/-- Whatever the grammar, the tokens and the limit, a mismatch that a fresh session answers with, when it
evaluates a production or a choice at any place, is at a token beyond the place or past the last one.  It is
told where that token starts, or where the last one stops, and shows that token. -/
theorem isLocated_of_outcome_eq_mismatch (g : Grammar) (tokens : List Token) (limit start : Nat)
    (d : Diagnostic) (hd : d.isMismatch = true) :
  (∀ p, ((Session.start g tokens limit).evaluate p start).1.outcome = .error d →
    d.IsLocated tokens start)
  ∧ ∀ rules, ((Session.start g tokens limit).tryRules rules start).1.outcome = .error d →
    d.IsLocated tokens start
  := by
  let s := (Session.start g tokens limit).setting
  have hinner (p : Production) (c : Cursor) :
      (evaluateTop s p c).Logs (Event.RaisesWithin s c 1) :=
    evaluate_logs_within s (limit + 1) 0 p c
  constructor
  · intro p hout
    have htells := Session.tells_of_conclude rfl (evaluate_records s _ 0 p _) hout hd
    apply (htells.within (hinner p _)).isLocated
  · intro rules hout
    have htells := Session.tells_of_conclude rfl (tryRulesTop_records s rules _) hout hd
    have hlogs : (tryRulesTop s rules (.ofIndex tokens start)).Logs
        (Event.RaisesWithin s (.ofIndex tokens start) 1) :=
      tryRules_logs (fun _ => Event.raisesWithin_of_raised?_eq_none rfl) fun p _ _ => hinner p _
    apply (htells.within hlogs).isLocated

/-- An assignment at the end of a text that stops before its value, after a token that is not read. -/
def unfinishedText : List Token :=
  [⟨.comma, ",", ⟨⟨0, "note"⟩, ⟨1, "note"⟩⟩⟩, ⟨.identifier, "x", ⟨⟨2, "note"⟩, ⟨3, "note"⟩⟩⟩,
    ⟨.assign, "=", ⟨⟨4, "note"⟩, ⟨5, "note"⟩⟩⟩]

/-- That the value is missing is told where the text stops, by a statement that is taken for a primary and by
a choice. -/
theorem isLocated_unfinishedText :
  let session := Session.start smallGrammar unfinishedText 10
  let p : Production := ⟨.statement, .oneOf (.of .assignment [.primary]), [.skip .endOfLine]⟩
  let d : Diagnostic := ⟨.tooFew ⟨.assignment, "`Number`", 3, "end of input"⟩, ⟨5, "note"⟩⟩
  (session.evaluate p 1).1.outcome = .error d ∧ (session.tryRules [.statement] 1).1.outcome = .error d
    ∧ d.IsLocated unfinishedText 1
  := by
  intro session p d
  have hproduction : (session.evaluate p 1).1.outcome = .error d := by decide +kernel
  have hchoice : (session.tryRules [.statement] 1).1.outcome = .error d := by decide +kernel
  use hproduction, hchoice
  apply (isLocated_of_outcome_eq_mismatch smallGrammar unfinishedText 10 1 d rfl).1 p hproduction

end LayoutGrammar
