import LayoutGrammar.Proofs.Evaluation.Nesting
import LayoutGrammar.Proofs.Program.Parse

/-!
# The depth of programs

How deep the evaluations of a program are nested.  The rank of a nonterminal goes down along the opening items
of productions, and a continuation is evaluated only beyond a token that was read.  So no nonterminal opens
itself (`Outlook.not_transGen_opens`), and the depth of an evaluation is bounded by the height of the outlook
for every token up to its place (`Outlook.nesting`).  For programs the height is 24, whatever the tokens are
(`Program.depth_of_run`).
-/

namespace LayoutGrammar

/-- Whether a nonterminal may be evaluated as the opening item of another one, at the same place. -/
def Grammar.Opens (g : Grammar) (rule head : Nonterminal) : Prop :=
  ∃ p ∈ g.productions, p.rule = rule ∧ head ∈ p.opening.target.references

/-- Whether an event is not nested deeper than some levels for every token up to its place. -/
def Event.IsWithin (height : Nat) : Event → Prop
  | entered _ index depth => depth ≤ height * (index + 1)
  | _ => True

namespace Outlook

variable {o : Outlook} {g : Grammar}

/-- No nonterminal opens itself, be it by way of others, when ranks go down. -/
theorem not_transGen_opens
    (hrank : ∀ p ∈ g.productions, ∀ rule ∈ p.opening.target.references, o.rank rule < o.rank p.rule)
    (rule : Nonterminal) :
  ¬ Relation.TransGen g.Opens rule rule
  := by
  have hlt {first last : Nonterminal} (h : Relation.TransGen g.Opens first last) :
      o.rank last < o.rank first := by
    induction h with
    | single hopens =>
      obtain ⟨p, hp, rfl, hhead⟩ := hopens
      apply hrank p hp _ hhead
    | tail _ hopens ih =>
      obtain ⟨p, hp, rfl, hhead⟩ := hopens
      apply lt_trans (hrank p hp _ hhead) ih
  intro h
  apply lt_irrefl _ (hlt h)

/-- What is left of the height at a token is enough for the rank of what is evaluated there. -/
theorem nesting (hsuits : ∀ p ∈ g.productions, o.Suits g p) :
  Nesting g (fun depth p c => p ∈ g.productions ∧ depth + o.rank p.rule ≤ o.height * (c.index + 1))
    (Event.IsWithin o.height)
  where
  entered hcall := le_trans (Nat.le_add_right _ _) hcall.2
  opening := by
    rintro depth p c ⟨hp, hdepth⟩ q hq hrule d hle
    use hq
    have hrank := (hsuits p hp).rank q.rule hrule
    have hmono : o.height * (c.index + 1) ≤ o.height * (d.index + 1) :=
      Nat.mul_le_mul_left o.height (by omega)
    omega
  continuation := by
    rintro depth p c ⟨hp, hdepth⟩ item hitem q hq hrule d hlt
    use hq
    have hheight := (hsuits p hp).height q.rule
      (List.mem_flatMap_of_mem (List.mem_cons_of_mem p.opening hitem) hrule)
    -- The token that was read before makes room for the whole height.
    have hmono : o.height * (c.index + 2) ≤ o.height * (d.index + 1) :=
      Nat.mul_le_mul_left o.height (by omega)
    rw [Nat.mul_succ] at hmono
    omega
  ahead _ _ := ⟨trivial, trivial⟩
  other := by
    rintro (_ | _) <;> simp [Event.IsWithin]

end Outlook

namespace Program

variable (ts : List Token) (limit : Nat)

/-- A parse of programs has the events of the evaluation of its root. -/
theorem events_fresh :
  (fresh ts limit).run.journal.events = (attempted ts limit).journal.events
  := by
  rw [run_fresh]
  cases h : (attempted ts limit).outcome with
  | ok reading =>
    simp only [Parse.runEach, evaluate_root, h, Except.mapError, Journal.events_append]
    apply List.append_nil
  | error reason =>
    simp only [Parse.runEach, evaluate_root, h, Except.mapError]
    rfl

/-- A parse of programs has no evaluation that is nested deeper than 24 levels for every token up to its
place. -/
theorem isWithin_of_mem_events {e : Event} (he : e ∈ (fresh ts limit).run.journal.events) :
  e.IsWithin 24
  := by
  have hlogs : (attempted ts limit).Logs (Event.IsWithin 24) := by
    apply (outlook.nesting suits).evaluate_logs (s := (Session.start grammar ts limit).setting)
    constructor
    · exact List.mem_cons_self
    · exact le_refl 24
  rw [events_fresh] at he
  apply hlogs.of_mem e he

variable {ts limit} in
/-- Under a limit of 24 levels for every token and the end, a parse fails only at a token or at the end. -/
theorem index?_of_run (h : 24 * (ts.length + 1) ≤ limit) {d : Diagnostic}
    (hout : (fresh ts limit).run.outcome = .error d) :
  ∃ index, d.cause.index? = some index
  := by
  cases verdict ts limit with
  | deep _ hlt => omega
  | breaks _ houtcome _ hindex =>
    rw [houtcome] at hout
    obtain rfl := Except.error.inj hout
    exact ⟨_, hindex⟩
  | settles _ houtcome =>
    rw [houtcome] at hout
    exact ⟨_, (Parse.index?_of_checkEnd hout).1⟩

/-- A parse of any tokens never fails because evaluations are nested too deeply or a nonterminal is unknown,
when the limit allows for 24 levels for every token and the end.  Whatever the limit, no evaluation is nested
deeper than 24 levels for every token up to its place, and no nonterminal opens itself, be it by way of
others. -/
theorem depth_of_run :
  (24 * (ts.length + 1) ≤ limit → ∀ d, (fresh ts limit).run.outcome = .error d →
    (∀ rule bound, d.cause ≠ .tooDeep rule bound) ∧ ∀ rule, d.cause ≠ .unknownRule rule)
  ∧ (∀ rule index depth, .entered rule index depth ∈ (fresh ts limit).run.journal.events →
    depth ≤ 24 * (index + 1))
  ∧ ∀ rule, ¬ Relation.TransGen grammar.Opens rule rule
  := by
  refine ⟨?_, ?_, ?_⟩
  · intro hle d hout
    -- Neither of the two causes arises at a token.
    obtain ⟨index, hindex⟩ := index?_of_run hle hout
    constructor
    · intro rule bound hcause
      simp [hcause, Cause.index?] at hindex
    · intro rule hcause
      simp [hcause, Cause.index?] at hindex
  · intro rule index depth he
    apply isWithin_of_mem_events ts limit he
  · apply outlook.not_transGen_opens
    intro p hp
    apply (suits p hp).rank

/-- The parenthesis that is not closed is told under the least limit that is surely high enough, and the
number in it is evaluated 47 levels deep, at the fourth token. -/
theorem depth_unclosed :
  (∃ d, (fresh unclosed 144).run.outcome = .error d ∧ (∀ rule bound, d.cause ≠ .tooDeep rule bound)
    ∧ ∀ rule, d.cause ≠ .unknownRule rule)
  ∧ .entered .primary 3 47 ∈ (fresh unclosed 144).run.journal.events ∧ 47 ≤ 24 * (3 + 1)
  := by
  obtain ⟨hcauses, hdepths, -⟩ := depth_of_run unclosed 144
  constructor
  · have hout : (fresh unclosed 144).run.outcome
        = .error ⟨.tooFew ⟨.group, "`CloseParen`", 4, "`EndOfLine`"⟩, .null⟩ := by
      decide +kernel
    exact ⟨_, hout, hcauses (by decide) _ hout⟩
  · have hmem : .entered .primary 3 47 ∈ (fresh unclosed 144).run.journal.events := by
      decide +kernel
    use hmem
    apply hdepths .primary 3 47 hmem

end Program
end LayoutGrammar
