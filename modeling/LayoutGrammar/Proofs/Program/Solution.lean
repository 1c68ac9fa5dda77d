import LayoutGrammar.Proofs.Program.Meaning

/-!
# The meaning solves the grammar

The productions of each nonterminal of programs, and that they read what its trees are printed by
(`reads_iff`).  Every nonterminal reads something, so that the outlook of programs foresees what the grammar
of programs reads (`foresees`).
-/

namespace LayoutGrammar
namespace Program

/-! ## The productions of a nonterminal -/

/-- The productions of programs, one nonterminal at a time. -/
def productionsOf : Nonterminal → List Production
  | .root => [⟨.root, .hoist .statement .atLeastOnce, []⟩]
  | .statement =>
    [⟨.statement, .oneOf (.of .ifStatement [.assignment, .print, .expression]), [.skip .endOfLine]⟩]
  | .ifStatement =>
    [⟨.ifStatement, .skip .ifWord, [.nest .expression .once, .skip .thenWord, .skip .endOfLine,
      .skip .indent, .nest .statement .atLeastOnce, .skip .dedent]⟩]
  | .assignment => [⟨.assignment, .token .identifier, [.skip .assign, .nest .expression .once]⟩]
  | .print =>
    [⟨.print, .skip .printWord, [.nest .expression .once, .hoist .subsequentPrint .zeroOrMore]⟩]
  | .subsequentPrint => [⟨.subsequentPrint, .skip .comma, [.nest .expression .once]⟩]
  | .expression => [⟨.expression, .nest (.level .or) .once, []⟩]
  | .level l => [Production.operands (.level l) (.subsequent l) (operand l)]
  | .subsequent l => [Production.operation (.subsequent l) (operand l) l.operator]
  | .unary => [
      ⟨.unary, .oneOf (.of (.prefixed .minus) [.prefixed .plus, .prefixed .bitNot, .prefixed .not]), []⟩,
      ⟨.unary, .nest .primary .once, []⟩]
  | .prefixed op => [unaryOperation op]
  | .floor => [⟨.floor, .skip .openBracket, [.nest .expression .once, .skip .closeBracket]⟩]
  | .group => [⟨.group, .skip .openParen, [.nest .expression .once, .skip .closeParen]⟩]
  | .primary => [⟨.primary, .token .number, []⟩, ⟨.primary, .token .string, []⟩,
      ⟨.primary, .token .identifier, []⟩, ⟨.primary, .hoist .group .once, []⟩,
      ⟨.primary, .nest .floor .once, []⟩]

theorem alternatives_eq (rule : Nonterminal) :
  grammar.alternatives rule = productionsOf rule
  := by
  have h : ∀ rule ∈ Nonterminal.all, grammar.alternatives rule = productionsOf rule := by
    decide +kernel
  apply h rule (Nonterminal.mem_all rule)

/-- The alternatives of some nonterminals of programs, none of which is unknown. -/
theorem candidates_eq (rules : List Nonterminal) :
  grammar.candidates rules = .ok (rules.flatMap productionsOf)
  := by
  have hcontains (rule : Nonterminal) : grammar.contains rule = true := by
    rw [Grammar.contains_eq, alternatives_eq]
    cases rule <;> rfl
  rw [Grammar.candidates_eq fun rule _ => hcontains rule, funext alternatives_eq]

theorem mem_productionsOf_iff {rule : Nonterminal} {p : Production} :
  p ∈ productionsOf rule ↔ p ∈ grammar.productions ∧ p.rule = rule
  := by
  rw [← alternatives_eq, Grammar.alternatives, List.mem_filter, decide_eq_true_eq]

/-- What the productions of a nonterminal read. -/
def reads (rule : Nonterminal) : Phrase (List Tree) := fun trees ts =>
  ∃ p ∈ productionsOf rule, p.body meaning trees ts

theorem reads_of_single {rule : Nonterminal} {p : Production} (h : productionsOf rule = [p]) :
  reads rule = p.body meaning
  := by
  funext trees ts
  simp [reads, h]

/-! ## Productions around one nonterminal -/

/-- A production of excluded tokens around one nonterminal. -/
theorem body_around {rule head : Nonterminal} {kind : Terminal} (closing : List Terminal)
    (hhead : head ≠ rule ∧ head ≠ .root) :
  Production.body meaning ⟨rule, .skip kind, .nest head .once :: closing.map Item.skip⟩
    = one (IsOf head) fun tree => .mark kind :: print tree ++ closing.map Sign.mark
  := by
  have hclosing : Item.phrases meaning rule (closing.map Item.skip)
      = spelled fun trees signs => trees = [] ∧ signs = closing.map Sign.mark := by
    induction closing with
    | nil => apply nothing_eq
    | cons first others ih =>
      rw [List.map_cons, Item.phrases, ih, Item.skip, Item.phrase_once, phrase_skip, seq_spelled]
      congr 1
      funext trees signs
      simp
  rw [Production.body, Item.phrases, hclosing, Item.skip, Item.nest, Item.opening_once, Item.phrase_once,
    phrase_skip, phrase_nest hhead, one, seq_spelled, seq_spelled, one]
  congr 1
  funext trees signs
  simp

/-- A nonterminal that is read by a production of excluded tokens around another one. -/
theorem reads_around {rule head : Nonterminal} {kind : Terminal} (closing : List Terminal)
    (hproductions : productionsOf rule
      = [⟨rule, .skip kind, .nest head .once :: closing.map Item.skip⟩])
    (hhead : head ≠ rule ∧ head ≠ .root)
    (hfits : ∀ symbols, Fits rule symbols ↔ symbols = [.nonterminal head])
    (hlayOut : ∀ symbols part, layOut rule symbols [part]
      = .mark kind :: part ++ closing.map Sign.mark) :
  reads rule = spelled (script rule)
  := by
  have hsingle : ∀ symbols, Fits rule symbols
      ↔ ∃ symbol, symbol = .nonterminal head ∧ symbols = [symbol] := by
    simpa using hfits
  rw [reads_of_single hproductions, body_around closing hhead, spelled_script_of_single hsingle]
  congr 1
  funext tree
  rw [hlayOut]

/-- The operands of a level are of another nonterminal than the level, its continuations and the root. -/
theorem operand_ne (l : Level) :
  operand l ≠ .level l ∧ operand l ≠ .subsequent l ∧ operand l ≠ .root
  := by
  cases l <;> decide

theorem reads_subsequentPrint : reads .subsequentPrint = spelled (script .subsequentPrint) := by
  apply reads_around [] rfl (by decide) (fun _ => Iff.rfl)
  simp [layOut]

theorem reads_subsequent (l : Level) : reads (.subsequent l) = spelled (script (.subsequent l)) := by
  apply reads_around [] rfl (operand_ne l).2 (fun _ => Iff.rfl)
  simp [layOut]

theorem reads_prefixed (op : UnaryOp) : reads (.prefixed op) = spelled (script (.prefixed op)) := by
  apply reads_around [] rfl (by simp) (fun _ => Iff.rfl)
  simp [layOut]

theorem reads_floor : reads .floor = spelled (script .floor) := by
  apply reads_around [.closeBracket] rfl (by decide) (fun _ => Iff.rfl)
  simp [layOut]

theorem reads_group : reads .group = spelled (script .group) := by
  apply reads_around [.closeParen] rfl (by decide) (fun _ => Iff.rfl)
  simp [layOut]

/-! ## Chains -/

/-- How a node is printed that has one or more children of one nonterminal, in terms of the first of them
and of the others. -/
theorem spelled_script_of_chain {rule head : Nonterminal} {kind : Terminal} (opening : List Sign)
    (hfits : ∀ symbols, Fits rule symbols
      ↔ symbols ≠ [] ∧ ∀ symbol ∈ symbols, symbol = .nonterminal head)
    (hlayOut : ∀ symbols parts, layOut rule symbols parts = opening ++ between kind parts) :
  spelled (script rule) = spelled fun trees signs => ∃ tree others, IsOf head tree
    ∧ (∀ t ∈ others, IsOf head t) ∧ trees = tree :: others
    ∧ signs = opening ++ print tree ++ others.flatMap fun t => .mark kind :: print t
  := by
  congr 1
  ext trees signs
  rw [script, IsOf, print_node, hlayOut, wellFormed_node_iff, hfits]
  constructor
  · rintro ⟨⟨-, ⟨hne, hsymbols⟩, heach⟩, rfl⟩
    obtain ⟨tree, others, rfl⟩ := List.exists_cons_of_ne_nil (List.map_eq_nil_iff.not.mp hne)
    simp only [List.map_cons, List.forall_mem_cons, List.forall_mem_map] at hsymbols heach
    refine ⟨tree, others, ⟨hsymbols.1, heach.1⟩, fun t ht => ⟨hsymbols.2 t ht, heach.2 t ht⟩, rfl, ?_⟩
    rw [List.map_cons, between_cons, List.flatMap_map, List.append_assoc]
  · rintro ⟨tree, others, htree, hothers, rfl, rfl⟩
    refine ⟨⟨rfl, ⟨by simp, ?_⟩, ?_⟩, ?_⟩
    · simp only [List.map_cons, List.forall_mem_cons, List.forall_mem_map]
      exact ⟨htree.1, fun t ht => (hothers t ht).1⟩
    · rw [List.forall_mem_cons]
      exact ⟨htree.2, fun t ht => (hothers t ht).2⟩
    · rw [List.map_cons, between_cons, List.flatMap_map, List.append_assoc]

theorem many_hoist {rule head next : Nonterminal} {kind : Terminal} (hhead : head ≠ .root)
    (hscript : spelled (script head) = one (IsOf next) fun tree => .mark kind :: print tree) :
  Item.phrase meaning rule (.hoist head .zeroOrMore) = spelled fun trees signs =>
    (∀ tree ∈ trees, IsOf next tree) ∧ signs = trees.flatMap fun tree => .mark kind :: print tree
  := by
  rw [Item.hoist, Item.phrase_zeroOrMore, phrase_hoist hhead, hscript, many_one]

theorem reads_level (l : Level) : reads (.level l) = spelled (script (.level l)) := by
  have hsubsequent : spelled (script (.subsequent l))
      = one (IsOf (operand l)) fun tree => .mark l.operator :: print tree := by
    rw [← reads_subsequent, reads_of_single rfl]
    simpa [Production.operation] using body_around [] (operand_ne l).2
  rw [reads_of_single rfl, spelled_script_of_chain [] (fun _ => Iff.rfl) (fun _ _ => rfl),
    Production.operands, Production.body, Item.phrases, Item.phrases, many_hoist (by simp) hsubsequent,
    Item.nest, Item.opening_once, phrase_nest ⟨(operand_ne l).1, (operand_ne l).2.2⟩, nothing_eq, one,
    seq_spelled, seq_spelled]
  congr 1
  funext trees signs
  simp

theorem reads_print : reads .print = spelled (script .print) := by
  have hsubsequent : spelled (script .subsequentPrint)
      = one (IsOf .expression) fun tree => .mark .comma :: print tree := by
    rw [← reads_subsequentPrint, reads_of_single rfl]
    simpa using body_around [] (by decide)
  rw [reads_of_single rfl, spelled_script_of_chain [.mark .printWord] (fun _ => Iff.rfl) (fun _ _ => rfl),
    Production.body, Item.phrases, Item.phrases, Item.phrases, many_hoist (by simp) hsubsequent,
    Item.skip, Item.nest, Item.opening_once, Item.phrase_once, phrase_skip, phrase_nest (by decide),
    nothing_eq, one, seq_spelled, seq_spelled, seq_spelled]
  congr 1
  funext trees signs
  simp [and_assoc]

/-! ## Statements -/

theorem spelled_script_statement :
  spelled (script .statement) = one (fun tree => tree.symbol ∈ statementSymbols ∧ WellFormed tree)
    fun tree => print tree ++ [.mark .endOfLine]
  := by
  rw [spelled_script_of_single fun _ => Iff.rfl]
  simp [layOut]

theorem reads_root :
  reads .root = spelled fun trees signs => trees ≠ [] ∧ script .root trees signs
  := by
  rw [reads_of_single rfl, Production.body, Item.phrases, Item.hoist, Item.opening_atLeastOnce,
    phrase_hoist (by simp), spelled_script_statement, oneOrMore_one, nothing_eq, seq_spelled]
  congr 1
  funext trees signs
  simp [script, IsOf, layOut, print_node, wellFormed_node_iff, Fits, forall_and, List.flatMap_map,
    and_assoc]

theorem reads_statement : reads .statement = spelled (script .statement) := by
  rw [reads_of_single rfl, spelled_script_statement, Production.body, Item.phrases, Item.phrases,
    Item.oneOf, Item.skip, Item.opening_once, Item.phrase_once, phrase_nest_any (by decide), phrase_skip,
    nothing_eq, one, seq_spelled, seq_spelled, one]
  congr 1
  funext trees signs
  simp [Choice.of, statementSymbols, statementRules]

theorem reads_assignment : reads .assignment = spelled (script .assignment) := by
  rw [reads_of_single rfl, Production.body, Item.phrases, Item.phrases, Item.phrases, Item.token,
    Item.skip, Item.nest, Item.opening_once, Item.phrase_once, Item.phrase_once, phrase_keep, phrase_skip,
    phrase_nest (by decide), nothing_eq, one, one, seq_spelled, seq_spelled, seq_spelled]
  congr 1
  ext trees signs
  constructor
  · rintro ⟨_, _, _, _, ⟨name, hname, rfl, rfl⟩, ⟨_, _, _, _, ⟨rfl, rfl⟩,
      ⟨_, _, _, _, ⟨value, hvalue, rfl, rfl⟩, ⟨rfl, rfl⟩, rfl, rfl⟩, rfl, rfl⟩, rfl, rfl⟩
    refine ⟨⟨rfl, WellFormed.node ?_ ?_⟩, ?_⟩
    · simp [Fits, hname.1, hvalue.1]
    · simp [hname.2, hvalue.2]
    · simp [print_node, layOut]
  · rintro ⟨⟨-, hformed⟩, rfl⟩
    obtain ⟨hfits, heach⟩ := wellFormed_node_iff.mp hformed
    obtain ⟨name, _, rfl, hname, hrest⟩ := List.map_eq_cons_iff.mp hfits
    obtain ⟨value, rfl, hvalue⟩ := List.map_eq_singleton_iff.mp hrest
    simp only [List.forall_mem_cons] at heach
    simp [print_node, layOut, hname, hvalue, heach, IsOf]

theorem reads_ifStatement : reads .ifStatement = spelled (script .ifStatement) := by
  rw [reads_of_single rfl]
  simp only [Production.body, Item.phrases, Item.skip, Item.nest, Item.opening_once, Item.phrase_once,
    Item.phrase_atLeastOnce]
  rw [phrase_nest (by decide), phrase_nest (by decide), oneOrMore_one, one]
  simp only [phrase_skip, nothing_eq, seq_spelled]
  congr 1
  ext trees signs
  constructor
  · intro h
    obtain ⟨condition, block, ⟨hcondition, hne, hblock⟩, rfl, rfl⟩ : ∃ condition block,
        (IsOf .expression condition ∧ block ≠ [] ∧ ∀ t ∈ block, IsOf .statement t)
          ∧ trees = condition :: block
          ∧ signs = .mark .ifWord :: (print condition ++ .mark .thenWord :: .mark .endOfLine
              :: .mark .indent :: (block.flatMap print ++ [.mark .dedent])) := by
      simpa using h
    refine ⟨⟨rfl, WellFormed.node ?_ ?_⟩, ?_⟩
    · refine ⟨block.map Tree.symbol, ?_, by simpa using hne, ?_⟩
      · rw [List.map_cons, hcondition.1]
      · simpa using fun t ht => (hblock t ht).1
    · rw [List.forall_mem_cons]
      exact ⟨hcondition.2, fun t ht => (hblock t ht).2⟩
    · simp [print_node, layOut, List.flatMap_def]
  · rintro ⟨⟨-, hformed⟩, rfl⟩
    obtain ⟨⟨_, hsymbols, hne, hblock⟩, heach⟩ := wellFormed_node_iff.mp hformed
    obtain ⟨condition, block, rfl, hcondition, rfl⟩ := List.map_eq_cons_iff.mp hsymbols
    simp only [List.forall_mem_cons, List.forall_mem_map] at heach hblock
    simp [print_node, layOut, List.flatMap_def, IsOf, hcondition, heach.1, List.map_eq_nil_iff.not.mp hne]
    exact fun t ht => ⟨hblock t ht, heach.2 t ht⟩

/-! ## Expressions -/

/-- A production of one item that reads a tree. -/
theorem body_of_one {rule : Nonterminal} {target : Target} {C : Tree → Prop} {f : Tree → List Sign}
    (htarget : target.phrase meaning rule = one C f) :
  Production.body meaning ⟨rule, ⟨target, .once⟩, []⟩ = one C f
  := by
  rw [Production.body, Item.opening_once, Item.phrases, htarget, nothing_eq, one, seq_spelled]
  congr 1
  funext trees signs
  simp

theorem reads_expression : reads .expression = spelled (script .expression) := by
  have hsingle : ∀ symbols, Fits .expression symbols
      ↔ ∃ symbol, symbol = .nonterminal (.level .or) ∧ symbols = [symbol] := by
    simp [Fits]
  rw [reads_of_single rfl, Item.nest, body_of_one (phrase_nest (by decide)),
    spelled_script_of_single hsingle]
  apply one_congr (fun _ => Iff.rfl)
  simp [layOut]

theorem reads_unary : reads .unary = spelled (script .unary) := by
  rw [spelled_script_of_single fun _ => Iff.rfl]
  funext trees ts
  simp only [reads, productionsOf, List.mem_cons, List.not_mem_nil, or_false, exists_eq_or_imp,
    exists_eq_left]
  rw [Item.oneOf, Item.nest, body_of_one (phrase_nest_any (by decide)),
    body_of_one (phrase_nest (by decide)), one_or_iff]
  refine congrFun (congrFun (one_congr ?_ ?_) trees) ts
  · intro tree
    rw [IsOf, ← or_and_right]
    simp [Choice.of, unarySymbols, UnaryOp.all]
    grind
  · simp [layOut]

/-- What a primary adds to its child: parentheses around an expression. -/
theorem reads_primary : reads .primary = spelled (script .primary) := by
  have hkeep (kind : Terminal) :
      one (fun tree => tree.symbol = .terminal kind ∧ WellFormed tree) print
        = one (fun tree => tree.symbol = .terminal kind ∧ WellFormed tree)
            fun tree => layOut .primary [tree.symbol] [print tree] := by
    apply one_congr (fun _ => Iff.rfl)
    rintro tree ⟨hsymbol, -⟩
    simp [hsymbol, layOut]
  have hnest : one (IsOf .floor) print
      = one (IsOf .floor) fun tree => layOut .primary [tree.symbol] [print tree] := by
    apply one_congr (fun _ => Iff.rfl)
    rintro tree ⟨hsymbol, -⟩
    simp [hsymbol, layOut]
  have hgroup : spelled (script .group)
      = one (IsOf .expression) fun tree => layOut .primary [tree.symbol] [print tree] := by
    rw [← reads_group, reads_of_single rfl]
    apply Eq.trans (body_around [.closeParen] (by decide))
    apply one_congr (fun _ => Iff.rfl)
    rintro tree ⟨hsymbol, -⟩
    simp [hsymbol, layOut]
  rw [spelled_script_of_single fun _ => Iff.rfl]
  funext trees ts
  simp only [reads, productionsOf, List.mem_cons, List.not_mem_nil, or_false, exists_eq_or_imp,
    exists_eq_left]
  rw [Item.token, Item.token, Item.token, Item.hoist, Item.nest, body_of_one (phrase_keep _),
    body_of_one (phrase_keep _), body_of_one (phrase_keep _), body_of_one (phrase_nest (by decide)),
    body_of_one (Eq.trans (phrase_hoist (by decide)) hgroup), hkeep, hkeep, hkeep, hnest,
    one_or_iff, one_or_iff, one_or_iff, one_or_iff]
  refine congrFun (congrFun (one_congr ?_ fun _ _ => rfl) trees) ts
  intro tree
  simp only [IsOf, ← or_and_right]
  simp [primarySymbols]

/-! ## The grammar -/

/-- The productions of a nonterminal read what its well-formed nodes with children are printed by. -/
theorem reads_iff (rule : Nonterminal) {trees : List Tree} (hne : trees ≠ []) (ts : List Token) :
  reads rule trees ts ↔ spelled (script rule) trees ts
  := by
  cases rule with
  | root =>
    rw [reads_root]
    simp [spelled, hne]
  | statement => rw [reads_statement]
  | ifStatement => rw [reads_ifStatement]
  | assignment => rw [reads_assignment]
  | print => rw [reads_print]
  | subsequentPrint => rw [reads_subsequentPrint]
  | expression => rw [reads_expression]
  | level l => rw [reads_level]
  | subsequent l => rw [reads_subsequent]
  | unary => rw [reads_unary]
  | prefixed op => rw [reads_prefixed]
  | floor => rw [reads_floor]
  | group => rw [reads_group]
  | primary => rw [reads_primary]

/-- The meaning of programs solves their grammar. -/
theorem meaning_solves : meaning.Solves grammar := by
  intro rule node ts
  constructor
  · rintro ⟨rfl, hne, hformed, hspells⟩
    obtain ⟨p, hmem, hbody⟩ := (reads_iff node.rule hne ts).mpr ⟨_, ⟨⟨rfl, hformed⟩, rfl⟩, hspells⟩
    obtain ⟨hp, hrule⟩ := mem_productionsOf_iff.mp hmem
    exact ⟨p, hp, hrule, hrule.symm, hne, hbody⟩
  · rintro ⟨p, hp, rfl, hrule, hne, hbody⟩
    have hmem := mem_productionsOf_iff.mpr ⟨hp, rfl⟩
    obtain ⟨_, ⟨⟨-, hformed⟩, rfl⟩, hspells⟩ := (reads_iff p.rule hne ts).mp ⟨p, hmem, hbody⟩
    use hrule, hne
    rw [Node.tree, hrule]
    use hformed

/-- A nonterminal with one production reads what that one does. -/
theorem meaning_eq_phrase {rule : Nonterminal} {p : Production} (h : productionsOf rule = [p]) :
  meaning rule = p.phrase meaning
  := by
  have hmem (q : Production) : q ∈ productionsOf rule ↔ q = p := by
    rw [h, List.mem_singleton]
  ext node ts
  rw [meaning_solves rule node ts]
  constructor
  · rintro ⟨q, hq, hrule, hphrase⟩
    obtain rfl := (hmem q).mp (mem_productionsOf_iff.mpr ⟨hq, hrule⟩)
    apply hphrase
  · intro hphrase
    obtain ⟨hp, hrule⟩ := mem_productionsOf_iff.mp ((hmem p).mpr rfl)
    exact ⟨p, hp, hrule, hphrase⟩

/-! ## Inhabitants -/

theorem exists_spells (signs : List Sign) : ∃ ts, Spells signs ts := by
  induction signs with
  | nil => use [], List.Forall₂.nil
  | cons sign signs ih =>
    obtain ⟨ts, hts⟩ := ih
    cases sign with
    | kept token => use token :: ts, List.Forall₂.cons rfl hts
    | mark kind => use .unplaced kind "" :: ts, List.Forall₂.cons rfl hts

/-- A level and all tighter ones, from the next tighter one on. -/
theorem levelsFrom_eq (l : Level) :
  levelsFrom l = l :: l.tighter?.elim [] levelsFrom
  := by
  cases l <;> rfl

/-- The operands of the tightest level are those of a unary operator, and the operands of any other level are those of
the next tighter one. -/
theorem operand_cases (l : Level) :
  (operand l = .unary ∧ (levelsFrom l).length = 1)
    ∨ ∃ tighter, operand l = .level tighter ∧ (levelsFrom l).length = (levelsFrom tighter).length + 1
  := by
  unfold operand
  rw [levelsFrom_eq]
  cases l.tighter? with
  | none => exact Or.inl ⟨rfl, rfl⟩
  | some tighter => exact Or.inr ⟨tighter, rfl, rfl⟩

/-- Whether some trees may be the children of a node of a rule. -/
def AreChildren (rule : Nonterminal) (trees : List Tree) : Prop :=
  trees ≠ [] ∧ Fits rule (trees.map Tree.symbol) ∧ ∀ tree ∈ trees, WellFormed tree

theorem AreChildren.isOf {rule : Nonterminal} {trees : List Tree} (h : AreChildren rule trees) :
  IsOf rule (.node rule trees)
  := ⟨rfl, WellFormed.node h.2.1 h.2.2⟩

theorem areChildren_singleton {rule : Nonterminal} {tree : Tree} (hfits : Fits rule [tree.symbol])
    (htree : WellFormed tree) :
  AreChildren rule [tree]
  := by
  use List.cons_ne_nil tree [], hfits
  simpa using htree

theorem exists_children_primary : ∃ trees, AreChildren .primary trees := by
  use [.leaf (.unplaced .number "")]
  apply areChildren_singleton _ (WellFormed.leaf _)
  simp [Fits, Token.unplaced, primarySymbols]

theorem exists_children_unary : ∃ trees, AreChildren .unary trees := by
  obtain ⟨trees, htrees⟩ := exists_children_primary
  use [.node .primary trees]
  apply areChildren_singleton _ htrees.isOf.2
  simp [Fits, unarySymbols]

theorem exists_children_level (l : Level) :
  (∃ trees, AreChildren (operand l) trees) ∧ ∃ trees, AreChildren (.level l) trees
  := by
  induction hn : (levelsFrom l).length using Nat.strong_induction_on generalizing l with
  | _ n ih =>
    have hoperand : ∃ trees, AreChildren (operand l) trees := by
      obtain ⟨heq, -⟩ | ⟨tighter, heq, hlength⟩ := operand_cases l
      · rw [heq]
        apply exists_children_unary
      · rw [heq]
        apply (ih _ (by omega) tighter rfl).2
    use hoperand
    obtain ⟨trees, htrees⟩ := hoperand
    use [.node (operand l) trees]
    apply areChildren_singleton _ htrees.isOf.2
    simp [Fits]

theorem exists_children_expression : ∃ trees, AreChildren .expression trees := by
  obtain ⟨trees, htrees⟩ := (exists_children_level .or).2
  use [.node (.level .or) trees]
  apply areChildren_singleton _ htrees.isOf.2
  simp [Fits]

/-- Every nonterminal has trees with children. -/
theorem exists_children (rule : Nonterminal) : ∃ trees, AreChildren rule trees := by
  obtain ⟨parts, hparts⟩ := exists_children_expression
  have hexpression := hparts.isOf.2
  cases rule with
  | expression => use parts
  | primary => apply exists_children_primary
  | unary => apply exists_children_unary
  | level l => apply (exists_children_level l).2
  | subsequent l =>
    obtain ⟨trees, htrees⟩ := (exists_children_level l).1
    use [.node (operand l) trees]
    apply areChildren_singleton _ htrees.isOf.2
    simp [Fits]
  | prefixed op =>
    obtain ⟨trees, htrees⟩ := exists_children_unary
    use [.node .unary trees]
    apply areChildren_singleton _ htrees.isOf.2
    simp [Fits]
  | assignment =>
    use [.leaf (.unplaced .identifier ""), .node .expression parts]
    simp [AreChildren, Fits, Token.unplaced, WellFormed.leaf, hexpression]
  | ifStatement =>
    have hstatement : AreChildren .statement [.node .expression parts] :=
      areChildren_singleton (by simp [Fits, statementSymbols, statementRules]) hexpression
    use [.node .expression parts, .node .statement [.node .expression parts]]
    simp [AreChildren, Fits, hexpression, hstatement.isOf.2]
  | _ =>
    use [.node .expression parts]
    apply areChildren_singleton _ hexpression
    simp [Fits, statementSymbols, statementRules]

/-- The outlook of programs foresees what their grammar reads. -/
theorem foresees : outlook.Foresees grammar meaning where
  suits := suits
  solves := meaning_solves
  inhabited rule := by
    obtain ⟨trees, htrees⟩ := exists_children rule
    obtain ⟨ts, hts⟩ := exists_spells (print (.node rule trees))
    use ⟨rule, trees⟩, ts, rfl, htrees.1, htrees.isOf.2, hts

end Program
end LayoutGrammar
