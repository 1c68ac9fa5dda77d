import LayoutGrammar.Proofs.Evaluation.Room
import LayoutGrammar.Proofs.Program.Parse

/-!
# The limit for parentheses

How deep evaluations must be allowed to nest for a number in parentheses, exactly.  A pair of parentheses takes 23
levels more than what is in it: an expression goes down through all levels of binary operators and the unary ones to
a primary, which is the group (`Program.takes_expression`, `Program.takes_primary_of_group`).  The induction is on the
number of pairs (`Program.takes_expression_parenthesized`).  After the statement comes an attempt at a further one,
which finds the end of the text at the bottom of the same levels; it takes 24 of them, more than a number without
parentheses does (`Program.takes_root_parenthesized`).
-/

namespace LayoutGrammar

/-! ## The kinds of the next tokens -/

/-- The kinds of the tokens from a place on. -/
def Cursor.kinds (c : Cursor) : List Terminal := c.rest.map Token.kind

section

variable {c : Cursor} {kind : Terminal} {kinds others : List Terminal}

theorem Cursor.kinds_advance (c : Cursor) (count : Nat) :
  (c.advance count).kinds = c.kinds.drop count
  := List.map_drop

theorem Cursor.avoids_of_kinds (h : c.kinds = kind :: others) (hkind : kind ∉ kinds) :
  Avoids kinds c.rest
  := by
  obtain ⟨token, rest, hrest, rfl, -⟩ := List.map_eq_cons_iff.mp h
  rw [hrest, avoids_cons_iff]
  apply hkind

/-- A token of one kind is matched without any room where the kind is next. -/
theorem Target.takes_kind (s : Setting) (h : c.kinds = kind :: others) (excluded : Bool) :
  (Target.tokens (.one kind) excluded).Takes s c 0 1
  := by
  obtain ⟨token, rest, hrest, rfl, -⟩ := List.map_eq_cons_iff.mp h
  apply Target.takes_token hrest
  apply List.mem_singleton_self

end

namespace Program

/-! ## What is in parentheses -/

/-- The kinds of a number in some pairs of parentheses. -/
def parenthesized : Nat → List Terminal
  | 0 => [.number]
  | pairs + 1 => .openParen :: (parenthesized pairs ++ [.closeParen])

theorem parenthesized_eq (pairs : Nat) :
  parenthesized pairs = List.replicate pairs Terminal.openParen ++ .number :: List.replicate pairs .closeParen
  := by
  induction pairs with
  | zero => rfl
  | succ pairs ih =>
    rw [parenthesized, ih, List.append_assoc, List.cons_append, ← List.replicate_succ']
    rfl

@[simp]
theorem length_parenthesized (pairs : Nat) :
  (parenthesized pairs).length = 2 * pairs + 1
  := by
  rw [parenthesized_eq]
  simp
  omega

/-! ## Nonterminals of programs -/

/-- Whether a nonterminal of programs takes some levels to read some tokens at a place, or none of them when none of
its productions matches. -/
def Takes (s : Setting) (rule : Nonterminal) (c : Cursor) (levels tokens : Nat) : Prop :=
  ChoiceTakes s (productionsOf rule) c levels tokens

/-- The operators that are written before an operand. -/
def prefixKinds : List Terminal := UnaryOp.all.map UnaryOp.operator

/-- The operators that are written between operands. -/
def infixKinds : List Terminal := Level.all.map Level.operator

section

variable {s : Setting} (hs : s.grammar = grammar) {c : Cursor} {levels tokens : Nat}
include hs

/-- Some nonterminals take what a choice between their productions takes. -/
theorem takes_rules {heads : Choice Nonterminal}
    (h : ChoiceTakes s (heads.members.flatMap productionsOf) c levels tokens) (hoisted : Bool) :
  (Target.rules heads hoisted).Takes s c levels tokens
  := by
  apply Target.takes_of_choice _ h
  rw [hs, candidates_eq]

theorem Takes.rules {rule : Nonterminal} (h : Takes s rule c levels tokens) (hoisted : Bool) :
  (Target.rules (.one rule) hoisted).Takes s c levels tokens
  := by
  have hheads : (Choice.one rule).members.flatMap productionsOf = productionsOf rule := by
    simp [Choice.one, Choice.of]
  apply takes_rules hs
  rw [hheads]
  apply h

theorem Takes.once {rule : Nonterminal} (h : Takes s rule c levels tokens) (hoisted : Bool) :
  (Item.mk (.rules (.one rule) hoisted) .once).Takes s c levels tokens
  := Item.takes_once (h.rules hs hoisted) rfl

/-! ## Primaries -/

omit hs in
theorem takes_primary_of_number {others : List Terminal} (h : c.kinds = .number :: others) :
  Takes s .primary c 1 1
  := by
  have hnumber : (Item.token .number).Takes s c 0 1 := Item.takes_once (Target.takes_kind s h false) rfl
  apply choiceTakes_cons_of_match _ Nat.one_pos
  apply Production.takes_of_single hnumber rfl rfl

omit hs in
/-- A primary that is no token takes one level to show that for each of the tokens it may be. -/
theorem takes_tokens_of_avoids (h : Avoids [.number, .string, .identifier] c.rest) :
  ∀ p ∈ (productionsOf .primary).take 3, p.Takes s c 1 0
  := by
  simp only [productionsOf, List.take, List.forall_mem_cons]
  refine ⟨?_, ?_, ?_, List.forall_mem_nil _⟩
  · exact Production.takes_of_avoids rfl h (by decide)
  · exact Production.takes_of_avoids rfl h (by decide)
  · exact Production.takes_of_avoids rfl h (by decide)

/-- A group is an expression between parentheses. -/
theorem takes_group (hexpression : Takes s .expression (c.advance 1) levels tokens) (hpos : 0 < tokens)
    {inside after : List Terminal} (hopen : c.kinds = .openParen :: inside)
    (hclose : inside.drop tokens = .closeParen :: after) :
  Takes s .group c (levels + 1) (tokens + 2)
  := by
  have hclosing : ((c.advance 1).advance tokens).kinds = .closeParen :: after := by
    rw [Cursor.kinds_advance, Cursor.kinds_advance, hopen]
    apply hclose
  have hopening : (Item.skip .openParen).Takes s c 0 1 := Item.takes_once (Target.takes_kind s hopen true) rfl
  have hinside : (Item.nest .expression .once).Takes s (c.advance 1) levels tokens := hexpression.once hs false
  have hclosed : (Item.skip .closeParen).Takes s ((c.advance 1).advance tokens) 0 1 :=
    Item.takes_once (Target.takes_kind s hclosing true) rfl
  have hend := itemsTake_cons hclosed (fun _ => Nat.one_pos) (by decide) (itemsTake_nil s _)
  have hothers := itemsTake_cons hinside (fun _ => hpos) (by decide) hend
  let p : Production := ⟨.group, .skip .openParen, [.nest .expression .once, .skip .closeParen]⟩
  have hgroup : p.Takes s c _ _ :=
    Production.takes_of_items hopening Nat.one_pos hothers ⟨.nest .expression .once, by decide⟩
  apply choiceTakes_single
  convert hgroup using 1 <;> omega

/-- A group that is a primary is evaluated one level deeper, after it has been shown not to be a token. -/
theorem takes_primary_of_group (hgroup : Takes s .group c levels tokens) (hpos : 0 < tokens)
    (havoids : Avoids [.number, .string, .identifier] c.rest) :
  Takes s .primary c (levels + 1) tokens
  := by
  have hopening : (Item.hoist .group .once).Takes s c levels tokens := hgroup.once hs true
  have hprimary : (Production.mk .primary (.hoist .group .once) []).Takes s c (levels + 1) tokens :=
    Production.takes_of_single hopening rfl rfl
  apply choiceTakes_append_of_nothing (takes_tokens_of_avoids havoids) _ (Nat.le_add_left 1 levels)
  apply choiceTakes_cons_of_match hprimary hpos

/-- It takes two levels to show that there is no primary, since the brackets and parentheses that one may start with
are one level deeper. -/
theorem takes_primary_of_avoids (h : Avoids primaryKinds c.rest) :
  Takes s .primary c 2 0
  := by
  have hgroup : Takes s .group c 1 0 := choiceTakes_single (Production.takes_of_avoids rfl h (by decide))
  have hfloor : Takes s .floor c 1 0 := choiceTakes_single (Production.takes_of_avoids rfl h (by decide))
  have hhoisted : (Production.mk .primary (.hoist .group .once) []).Takes s c 2 0 :=
    Production.takes_of_single (hgroup.once hs true) rfl rfl
  have hnested : (Production.mk .primary (.nest .floor .once) []).Takes s c 2 0 :=
    Production.takes_of_single (hfloor.once hs false) rfl rfl
  have hothers := choiceTakes_cons_of_nothing hhoisted (choiceTakes_single hnested)
  apply choiceTakes_append_of_nothing (takes_tokens_of_avoids (h.of_subset (by decide))) hothers (by decide)

/-! ## Expressions -/

/-- Where no operator is next, an operand of the unary operators is a primary. -/
theorem takes_unary (h : Takes s .primary c levels tokens) (hpos : 0 < levels) (havoids : Avoids prefixKinds c.rest) :
  Takes s .unary c (levels + 1) tokens
  := by
  have hnone (op : UnaryOp) : (unaryOperation op).Takes s c 1 0 :=
    Production.takes_of_avoids rfl havoids (List.mem_map_of_mem op.mem_all)
  let operators : Choice Nonterminal := .of (.prefixed .minus) [.prefixed .plus, .prefixed .bitNot, .prefixed .not]
  have hoperators : ChoiceTakes s (operators.members.flatMap productionsOf) c 1 0 :=
    choiceTakes_cons_of_nothing (hnone .minus) (choiceTakes_cons_of_nothing (hnone .plus)
      (choiceTakes_cons_of_nothing (hnone .bitNot) (choiceTakes_single (hnone .not))))
  have hprefixed : (Production.mk .unary (.oneOf operators) []).Takes s c 2 0 :=
    Production.takes_of_single (Item.takes_once (takes_rules hs hoperators false) rfl) rfl rfl
  have hprimary : (Production.mk .unary (.nest .primary .once) []).Takes s c (levels + 1) tokens :=
    Production.takes_of_single (h.once hs false) rfl rfl
  have hunary := choiceTakes_cons_of_nothing hprefixed (choiceTakes_single hprimary)
  rwa [Nat.max_eq_right (by omega)] at hunary

/-- Where no operator is next, the operands of the binary operators of a level are evaluated a level deeper for it and
each tighter one. -/
theorem takes_level (hunary : Takes s .unary c levels tokens) (hpos : 0 < levels)
    (hnext : Avoids infixKinds (c.advance tokens).rest) (l : Level) :
  Takes s (.level l) c (levels + (levelsFrom l).length) tokens
  := by
  induction hn : (levelsFrom l).length using Nat.strong_induction_on generalizing l with
  | _ n ih =>
    -- The operand is of a unary operator or of the next tighter level, and takes one level less either way.
    obtain ⟨below, rfl, hoperand⟩ : ∃ below, n = below + 1 ∧ Takes s (operand l) c (levels + below) tokens := by
      obtain ⟨heq, hlength⟩ | ⟨tighter, heq, hlength⟩ := operand_cases l
      · rw [heq]
        use 0, hn.symm.trans hlength, hunary
      · rw [heq]
        use (levelsFrom tighter).length, hn.symm.trans hlength
        apply ih _ (by omega) tighter rfl
    have hsubsequent : Takes s (.subsequent l) (c.advance tokens) 1 0 :=
      choiceTakes_single (Production.takes_of_avoids rfl hnext (List.mem_map_of_mem l.mem_all))
    have hnone : (Item.hoist (.subsequent l) .zeroOrMore).Takes s (c.advance tokens) 1 0 :=
      Item.takes_none (hsubsequent.rules hs true) .zeroOrMore
    have hothers := itemsTake_cons hnone (absurd rfl) (show Repetition.zeroOrMore ≠ .atMostOnce by decide)
      (itemsTake_nil s _)
    apply choiceTakes_single
    rcases Nat.eq_zero_or_pos tokens with rfl | htokens
    · apply Production.takes_nothing (hoperand.once hs false)
    · let p : Production := .operands (.level l) (.subsequent l) (operand l)
      have hlevel : p.Takes s c _ _ :=
        Production.takes_of_items (hoperand.once hs false) htokens hothers ⟨p.opening, List.mem_cons_self, rfl⟩
      rwa [Nat.max_eq_left (by omega)] at hlevel

/-- Where no operator is next, an expression is evaluated 21 levels above the primary that it is. -/
theorem takes_expression (h : Takes s .primary c levels tokens) (hpos : 0 < levels)
    (havoids : Avoids prefixKinds c.rest) (hnext : Avoids infixKinds (c.advance tokens).rest) :
  Takes s .expression c (levels + 21) tokens
  := by
  have hunary := takes_unary hs h hpos havoids
  have hlevel := takes_level hs hunary (Nat.succ_pos levels) hnext .or
  apply choiceTakes_single
  exact Production.takes_of_single (hlevel.once hs false) rfl rfl

/-! ## Numbers in parentheses -/

/-- A number in parentheses takes 23 levels for each pair of them, and 22 for itself. -/
theorem takes_expression_parenthesized (pairs : Nat) {next : Terminal} {after : List Terminal}
    (hc : c.kinds = parenthesized pairs ++ next :: after) (hnext : next ∉ infixKinds) :
  Takes s .expression c (23 * pairs + 22) (2 * pairs + 1)
  := by
  induction pairs generalizing c next after with
  | zero =>
    have hfollow : (c.advance 1).kinds = next :: after := by
      rw [Cursor.kinds_advance, hc]
      rfl
    apply takes_expression hs (takes_primary_of_number hc) Nat.one_pos (Cursor.avoids_of_kinds hc (by decide))
    apply Cursor.avoids_of_kinds hfollow hnext
  | succ pairs ih =>
    have hopen : c.kinds = .openParen :: (parenthesized pairs ++ .closeParen :: next :: after) := by
      rw [hc, parenthesized, List.cons_append, List.append_assoc]
      rfl
    have hinside : (c.advance 1).kinds = parenthesized pairs ++ .closeParen :: next :: after := by
      rw [Cursor.kinds_advance, hopen]
      rfl
    have hfollow : (c.advance (2 * pairs + 1 + 2)).kinds = next :: after := by
      rw [Cursor.kinds_advance, hc]
      apply List.drop_left' (length_parenthesized (pairs + 1))
    have hgroup := takes_group hs (ih hinside (by decide)) (Nat.succ_pos _) hopen
      (List.drop_left' (length_parenthesized pairs))
    have hprimary := takes_primary_of_group hs hgroup (Nat.succ_pos _) (Cursor.avoids_of_kinds hopen (by decide))
    apply takes_expression hs hprimary (Nat.succ_pos _) (Cursor.avoids_of_kinds hopen (by decide))
    apply Cursor.avoids_of_kinds hfollow hnext

/-! ## Statements -/

/-- What statements open with is an expression, where none of the tokens is next that the others start with. -/
theorem takes_statement_opening (h : Takes s .expression c levels tokens) (hpos : 0 < levels)
    (havoids : Avoids [.ifWord, .identifier, .printWord] c.rest) :
  (Item.oneOf (.of .ifStatement [.assignment, .print, .expression])).Takes s c levels tokens
  := by
  let heads : Choice Nonterminal := .of .ifStatement [.assignment, .print, .expression]
  have hchoice : ChoiceTakes s (heads.members.flatMap productionsOf) c (max 1 (max 1 (max 1 levels))) tokens := by
    apply choiceTakes_cons_of_nothing (Production.takes_of_avoids rfl havoids (by decide))
    apply choiceTakes_cons_of_nothing (Production.takes_of_avoids rfl havoids (by decide))
    apply choiceTakes_cons_of_nothing (Production.takes_of_avoids rfl havoids (by decide))
    apply h
  have hlevels : max 1 (max 1 (max 1 levels)) = levels := by omega
  rw [hlevels] at hchoice
  apply Item.takes_once (takes_rules hs hchoice false) rfl

/-- A line that is an expression is a statement, evaluated a level above the expression. -/
theorem takes_statement (h : Takes s .expression c levels tokens) (hpos : 0 < levels) (htokens : 0 < tokens)
    (havoids : Avoids [.ifWord, .identifier, .printWord] c.rest) {after : List Terminal}
    (hend : (c.advance tokens).kinds = .endOfLine :: after) :
  Takes s .statement c (levels + 1) (tokens + 1)
  := by
  have hclosed : (Item.skip .endOfLine).Takes s (c.advance tokens) 0 1 :=
    Item.takes_once (Target.takes_kind s hend true) rfl
  have hothers := itemsTake_cons hclosed (fun _ => Nat.one_pos) (by decide) (itemsTake_nil s _)
  have hopening := takes_statement_opening hs h hpos havoids
  let p : Production :=
    ⟨.statement, .oneOf (.of .ifStatement [.assignment, .print, .expression]), [.skip .endOfLine]⟩
  have hstatement : p.Takes s c _ _ :=
    Production.takes_of_items hopening htokens hothers ⟨p.opening, List.mem_cons_self, rfl⟩
  apply choiceTakes_single
  convert hstatement using 1
  omega

/-- It takes 24 levels to show that there is no statement at the end of the text. -/
theorem takes_statement_of_eof {after : List Terminal} (hc : c.kinds = .eof :: after) :
  Takes s .statement c 24 0
  := by
  have havoids {kinds : List Terminal} (hkinds : .eof ∉ kinds) : Avoids kinds c.rest :=
    Cursor.avoids_of_kinds hc hkinds
  have hprimary := takes_primary_of_avoids hs (havoids (by decide))
  have hexpression := takes_expression hs hprimary Nat.two_pos (havoids (by decide)) (havoids (by decide))
  have hopening := takes_statement_opening hs hexpression (Nat.succ_pos _) (havoids (by decide))
  apply choiceTakes_single
  exact Production.takes_nothing hopening

/-- The statement of a number in parentheses, and none after it. -/
theorem takes_root_parenthesized (pairs : Nat) (hc : c.kinds = parenthesized pairs ++ [Terminal.endOfLine, .eof]) :
  rootProduction.Takes s c (max (23 * (pairs + 1)) 24 + 1) (2 * pairs + 2)
  := by
  have hline : (c.advance (2 * pairs + 1)).kinds = [.endOfLine, .eof] := by
    rw [Cursor.kinds_advance, hc]
    apply List.drop_left' (length_parenthesized pairs)
  have hover : (c.advance (2 * pairs + 1 + 1)).kinds = [.eof] := by
    rw [← Cursor.advance_advance, Cursor.kinds_advance, hline]
    rfl
  have hstart : Avoids [.ifWord, .identifier, .printWord] c.rest := by
    cases pairs with
    | zero => apply Cursor.avoids_of_kinds hc (by decide)
    | succ pairs => apply Cursor.avoids_of_kinds hc (by decide)
  have hexpression := takes_expression_parenthesized hs pairs hc (by decide)
  have hstatement := takes_statement hs hexpression (Nat.succ_pos _) (Nat.succ_pos _) hstart hline
  have hnone := takes_statement_of_eof hs hover
  have hmany : (Item.hoist .statement .atLeastOnce).Takes s c _ _ :=
    Item.takes_again rfl (hstatement.rules hs true) (Nat.succ_pos _)
      (Item.takes_none (hnone.rules hs true) .atLeastOnce)
  exact Production.takes_of_single hmany rfl rfl

end

/-! ## Parses -/

theorem isOver_of_kinds {ts : List Token} {after : List Terminal} (h : ts.map Token.kind = .eof :: after) :
  IsOver ts
  := by
  obtain ⟨token, rest, rfl, hkind, -⟩ := List.map_eq_cons_iff.mp h
  rintro _ ⟨⟩
  apply hkind

/-- A line of a number in any number of pairs of parentheses is parsed just when the limit is at least 24 and allows
for 23 levels for each pair and 23 more.  Under any lower limit the parse fails for that limit. -/
theorem run_parenthesized (pairs limit : Nat) {ts : List Token}
    (hts : ts.map Token.kind = List.replicate pairs Terminal.openParen
      ++ Terminal.number :: (List.replicate pairs Terminal.closeParen ++ [Terminal.endOfLine, Terminal.eof])) :
  ((fresh ts limit).run.outcome = .ok () ↔ max 24 (23 * (pairs + 1)) ≤ limit)
    ∧ (limit < max 24 (23 * (pairs + 1)) →
      ∃ rule position, (fresh ts limit).run.outcome = .error ⟨.tooDeep rule limit, position⟩)
  := by
  have hkinds : ts.map Token.kind = parenthesized pairs ++ [Terminal.endOfLine, .eof] := by
    rw [parenthesized_eq, List.append_assoc, hts]
    rfl
  obtain ⟨hfound, hrefused⟩ :=
    takes_root_parenthesized (s := (Session.start grammar ts limit).setting) (c := .ofIndex ts 0) rfl pairs hkinds 0
  -- The limit counts the levels below the root, which takes one level itself.
  have hdeep : limit < max 24 (23 * (pairs + 1)) →
      ∃ rule position, (fresh ts limit).run.outcome = .error ⟨.tooDeep rule limit, position⟩ := by
    intro hlt
    obtain ⟨rule, position, hout⟩ := hrefused (limit + 1) (by omega)
    use rule, position
    rw [run_of_error hout, Memory.promote_of_not_isMismatch rfl]
    rfl
  have hfits : max 24 (23 * (pairs + 1)) ≤ limit → (fresh ts limit).run.outcome = .ok () := by
    intro hle
    obtain ⟨reading, hout, hconsumed⟩ := hfound (limit + 1) (by omega)
    have hprogress := (evaluate_finds_progresses _ _ _ _ _).of_ok reading hout
    have hmatch : reading.isMatch = true := hprogress.isMatch_iff.mpr (by omega)
    rw [(run_of_ok hout).1, Parse.checkEnd_eq_ok_iff]
    have hposition : ((fresh ts limit).add reading).position = 2 * pairs + 2 := by
      simp [Parse.add, hmatch, fresh, Parse.start, Parse.withLimit, hconsumed]
    have hrest : (ts.drop (2 * pairs + 2)).map Token.kind = [.eof] := by
      rw [List.map_drop, hkinds, ← List.singleton_append, ← List.append_assoc]
      apply List.drop_left'
      simp
    rw [hposition, (add_fresh reading).1]
    apply isOver_of_kinds hrest
  refine ⟨⟨?_, hfits⟩, hdeep⟩
  intro hok
  by_contra hlt
  obtain ⟨rule, position, herror⟩ := hdeep (by omega)
  cases hok.symm.trans herror

/-- A number in one pair of parentheses. -/
def parenthesizedNumber : List Token := [.unplaced .openParen "", .unplaced .number "1", .unplaced .closeParen "",
  .unplaced .endOfLine "", .unplaced .eof ""]

/-- It is parsed under a limit of 46, and under a limit of 45 no more. -/
theorem run_parenthesizedNumber :
  parenthesizedNumber.map Token.kind = List.replicate 1 Terminal.openParen
      ++ Terminal.number :: (List.replicate 1 Terminal.closeParen ++ [Terminal.endOfLine, Terminal.eof])
    ∧ (fresh parenthesizedNumber 46).run.outcome = .ok ()
    ∧ ∃ rule position, (fresh parenthesizedNumber 45).run.outcome = .error ⟨.tooDeep rule 45, position⟩
  := by
  refine ⟨rfl, ?_, ?_⟩
  · apply (run_parenthesized 1 46 rfl).1.mpr
    decide
  · apply (run_parenthesized 1 45 rfl).2
    decide

end Program
end LayoutGrammar
