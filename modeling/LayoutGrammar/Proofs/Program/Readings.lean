import LayoutGrammar.Proofs.Program.Language

/-!
# From words to readings

Any tokens whose kinds are a word of a category are read by its nonterminal (`language_le_readable`).  The
words of which this holds, for each category, are a solution of the equations up to inclusion, because the
productions of programs, put together from items, are put together as the equations are.
-/

namespace LayoutGrammar

open Computability Program

/-! ## Readable words -/

namespace Phrase

variable {α β : Type} {P Q : Phrase (List Tree)} {L M : Language Terminal}

/-- The words such that a phrase reads all tokens of these kinds. -/
def readable (P : Phrase α) : Language Terminal :=
  {w | ∀ ts : List Token, ts.map Token.kind = w → ∃ value, P value ts}

theorem readable_mono {P : Phrase α} {Q : Phrase β} (h : ∀ value ts, P value ts → ∃ other, Q other ts) :
  P.readable ≤ Q.readable
  := by
  intro w hw ts hts
  obtain ⟨value, hvalue⟩ := hw ts hts
  apply h value ts hvalue

theorem mul_le_readable (hL : L ≤ P.readable) (hM : M ≤ Q.readable) :
  L * M ≤ (P.seq Q).readable
  := by
  rintro _ ⟨a, ha, b, hb, rfl⟩ ts hts
  obtain ⟨us, vs, rfl, rfl, rfl⟩ := List.map_eq_append_iff.mp hts
  obtain ⟨left, hleft⟩ := hL ha us rfl
  obtain ⟨right, hright⟩ := hM hb vs rfl
  exact ⟨left ++ right, left, right, us, vs, hleft, hright, rfl, rfl⟩

theorem le_readable_seq_nothing (hL : L ≤ P.readable) :
  L ≤ (P.seq nothing).readable
  := by
  intro w hw ts hts
  obtain ⟨trees, htrees⟩ := hL hw ts hts
  exact ⟨trees, trees, [], ts, [], htrees, ⟨rfl, rfl⟩, by simp, by simp⟩

theorem kstar_le_readable (hL : L ≤ P.readable) :
  L∗ ≤ P.Many.readable
  := by
  have hnil : (1 : Language Terminal) ≤ P.Many.readable := by
    rintro _ rfl ts hts
    obtain rfl := List.map_eq_nil_iff.mp hts
    exact ⟨[], Many.nil⟩
  have hcons : L * P.Many.readable ≤ P.Many.readable := by
    apply (mul_le_readable hL (le_refl P.Many.readable)).trans
    apply readable_mono
    rintro _ _ ⟨_, _, _, _, hfirst, hmore, rfl, rfl⟩
    exact ⟨_, Many.cons hfirst hmore⟩
  apply kstar_le_of_mul_le_right hnil hcons

theorem oneOrMore_le_readable (hL : L ≤ P.readable) :
  Program.oneOrMore L ≤ P.oneOrMore.readable
  := mul_le_readable hL (kstar_le_readable hL)

end Phrase

/-! ## Productions -/

section

variable {m : Meaning} {rule : Nonterminal}

variable (m rule) in
theorem word_le_readable {kinds : Choice Terminal} {excluded : Bool} {kind : Terminal}
    (h : kind ∈ kinds.members) :
  word kind ≤ ((Target.tokens kinds excluded).phrase m rule).readable
  := by
  rintro _ rfl ts hts
  obtain ⟨t, rfl, rfl⟩ := List.map_eq_singleton_iff.mp hts
  exact ⟨_, t, h, rfl, rfl⟩

theorem opening_skip_readable (kind : Terminal) :
  word kind ≤ ((Item.skip kind).opening m rule).readable
  := word_le_readable m rule List.mem_cons_self

theorem phrase_skip_readable (kind : Terminal) :
  word kind ≤ ((Item.skip kind).phrase m rule).readable
  := word_le_readable m rule List.mem_cons_self

theorem opening_token_readable (kind : Terminal) :
  word kind ≤ ((Item.token kind).opening m rule).readable
  := word_le_readable m rule List.mem_cons_self

theorem nonterminal_le_readable {heads : Choice Nonterminal} {hoisted : Bool} {head : Nonterminal}
    (h : head ∈ heads.members) :
  (m head).readable ≤ ((Target.rules heads hoisted).phrase m rule).readable
  := by
  apply Phrase.readable_mono
  intro node ts hnode
  exact ⟨_, node, ⟨head, h, hnode⟩, rfl⟩

end

namespace Program

/-- What a production reads is read by its nonterminal. -/
theorem body_readable_le {p : Production} (hp : p ∈ grammar.productions) :
  (p.body meaning).readable ≤ (meaning p.rule).readable
  := by
  apply Phrase.readable_mono
  intro trees ts htrees
  use ⟨p.rule, trees⟩
  apply (meaning_solves p.rule _ ts).mpr
  refine ⟨p, hp, rfl, ?_⟩
  rw [foresees.phrase_eq hp]
  exact ⟨trees, htrees, rfl⟩

/-- The nonterminal of a category. -/
def Category.nonterminal : Category → Nonterminal
  | .statement => .statement
  | .ifStatement => .ifStatement
  | .assignment => .assignment
  | .print => .print
  | .expression => .expression
  | .level l => .level l
  | .unary => .unary
  | .primary => .primary

theorem Category.nonterminal_operand (l : Level) : (operand l).nonterminal = Program.operand l := by
  unfold operand Program.operand
  cases l.tighter? <;> rfl

/-- The words of which the nonterminal of a category reads all tokens. -/
def readableAs (c : Category) : Language Terminal := (meaning c.nonterminal).readable

theorem le_readable_of_body {L : Language Terminal} {rule : Nonterminal} {p : Production}
    (hp : p ∈ productionsOf rule) (h : L ≤ (p.body meaning).readable) :
  L ≤ (meaning rule).readable
  := by
  obtain ⟨hmem, rfl⟩ := mem_productionsOf_iff.mp hp
  apply h.trans (body_readable_le hmem)

/-- A nonterminal after a token. -/
theorem before_le_readable {rule head : Nonterminal} {kind : Terminal}
    (hproductions : ⟨rule, .skip kind, [.nest head .once]⟩ ∈ productionsOf rule) :
  word kind * (meaning head).readable ≤ (meaning rule).readable
  := by
  apply le_readable_of_body hproductions
  apply Phrase.mul_le_readable (opening_skip_readable _)
  apply Phrase.le_readable_seq_nothing (nonterminal_le_readable List.mem_cons_self)

/-- An expression in parentheses or brackets. -/
theorem around_le_readable {rule : Nonterminal} {first last : Terminal} (hproductions :
    ⟨rule, .skip first, [.nest .expression .once, .skip last]⟩ ∈ productionsOf rule) :
  word first * readableAs .expression * word last ≤ (meaning rule).readable
  := by
  apply le_readable_of_body hproductions
  rw [mul_assoc]
  apply Phrase.mul_le_readable (opening_skip_readable _)
  apply Phrase.mul_le_readable (nonterminal_le_readable List.mem_cons_self)
  apply Phrase.le_readable_seq_nothing (phrase_skip_readable _)

theorem prefixed_le_readable (op : UnaryOp) :
  word op.operator * readableAs .unary ≤ (meaning (.prefixed op)).readable
  := before_le_readable List.mem_cons_self

theorem subsequent_le_readable (l : Level) :
  word l.operator * readableAs (.operand l) ≤ (meaning (.subsequent l)).readable
  := by
  rw [readableAs, Category.nonterminal_operand]
  apply before_le_readable List.mem_cons_self

theorem subsequentPrint_le_readable :
  word .comma * readableAs .expression ≤ (meaning .subsequentPrint).readable
  := before_le_readable List.mem_cons_self

theorem level_le_readable (l : Level) :
  readableAs (.operand l) * (word l.operator * readableAs (.operand l))∗ ≤ readableAs (.level l)
  := by
  apply le_readable_of_body List.mem_cons_self
  have hoperand : readableAs (.operand l)
      ≤ ((Target.rules (.one (operand l)) false).phrase meaning (.level l)).readable := by
    rw [readableAs, Category.nonterminal_operand]
    apply nonterminal_le_readable List.mem_cons_self
  apply Phrase.mul_le_readable hoperand
  apply Phrase.le_readable_seq_nothing
  rw [Item.hoist, Item.phrase_zeroOrMore]
  apply Phrase.kstar_le_readable
  apply (subsequent_le_readable l).trans (nonterminal_le_readable List.mem_cons_self)

theorem print_le_readable :
  word .printWord * readableAs .expression * (word .comma * readableAs .expression)∗ ≤ readableAs .print
  := by
  apply le_readable_of_body List.mem_cons_self
  rw [mul_assoc]
  apply Phrase.mul_le_readable (opening_skip_readable _)
  apply Phrase.mul_le_readable (nonterminal_le_readable List.mem_cons_self)
  apply Phrase.le_readable_seq_nothing
  rw [Item.hoist, Item.phrase_zeroOrMore]
  apply Phrase.kstar_le_readable
  apply subsequentPrint_le_readable.trans (nonterminal_le_readable List.mem_cons_self)

theorem statement_le_readable :
  (readableAs .ifStatement + readableAs .assignment + readableAs .print + readableAs .expression)
    * word .endOfLine ≤ readableAs .statement
  := by
  apply le_readable_of_body List.mem_cons_self
  have hhead (c : Category) (hc : c.nonterminal ∈ statementRules) :
      readableAs c ≤ ((Item.oneOf (.of .ifStatement [.assignment, .print, .expression])).opening meaning
        .statement).readable := nonterminal_le_readable hc
  apply Phrase.mul_le_readable
  · refine add_le (add_le (add_le ?_ ?_) ?_) ?_ <;> apply hhead <;> decide
  · apply Phrase.le_readable_seq_nothing (phrase_skip_readable _)

theorem ifStatement_le_readable :
  word .ifWord * readableAs .expression * word .thenWord * word .endOfLine * word .indent
    * oneOrMore (readableAs .statement) * word .dedent ≤ readableAs .ifStatement
  := by
  apply le_readable_of_body List.mem_cons_self
  have hblock : oneOrMore (readableAs .statement)
      ≤ ((Item.nest .statement .atLeastOnce).phrase meaning .ifStatement).readable := by
    rw [Item.nest, Item.phrase_atLeastOnce]
    apply Phrase.oneOrMore_le_readable (nonterminal_le_readable List.mem_cons_self)
  simp only [mul_assoc]
  apply Phrase.mul_le_readable (opening_skip_readable _)
  apply Phrase.mul_le_readable (nonterminal_le_readable List.mem_cons_self)
  apply Phrase.mul_le_readable (phrase_skip_readable _)
  apply Phrase.mul_le_readable (phrase_skip_readable _)
  apply Phrase.mul_le_readable (phrase_skip_readable _)
  apply Phrase.mul_le_readable hblock
  apply Phrase.le_readable_seq_nothing (phrase_skip_readable _)

theorem assignment_le_readable :
  word .identifier * word .assign * readableAs .expression ≤ readableAs .assignment
  := by
  apply le_readable_of_body List.mem_cons_self
  rw [mul_assoc]
  apply Phrase.mul_le_readable (opening_token_readable _)
  apply Phrase.mul_le_readable (phrase_skip_readable _)
  apply Phrase.le_readable_seq_nothing (nonterminal_le_readable List.mem_cons_self)

/-- What is read by one item that is a production of its own. -/
theorem item_le_readable {L : Language Terminal} {rule : Nonterminal} {item : Item}
    (hproductions : ⟨rule, item, []⟩ ∈ productionsOf rule) (h : L ≤ (item.opening meaning rule).readable) :
  L ≤ (meaning rule).readable
  := le_readable_of_body hproductions (Phrase.le_readable_seq_nothing h)

theorem unary_le_readable :
  (word .minus + word .plus + word .not + word .bitNot) * readableAs .unary + readableAs .primary
    ≤ readableAs .unary
  := by
  have hop (op : UnaryOp) : word op.operator * readableAs .unary ≤ readableAs .unary := by
    apply (prefixed_le_readable op).trans
    apply item_le_readable List.mem_cons_self
    apply nonterminal_le_readable
    cases op <;> decide
  rw [add_mul, add_mul, add_mul]
  apply add_le
  · refine add_le (add_le (add_le ?_ ?_) ?_) ?_
    · apply hop .minus
    · apply hop .plus
    · apply hop .not
    · apply hop .bitNot
  · apply item_le_readable (List.mem_cons_of_mem _ List.mem_cons_self)
    apply nonterminal_le_readable List.mem_cons_self

theorem primary_le_readable :
  word .number + word .string + word .identifier + word .openParen * readableAs .expression * word .closeParen
    + word .openBracket * readableAs .expression * word .closeBracket ≤ readableAs .primary
  := by
  have hword {kind : Terminal} (h : ⟨.primary, .token kind, []⟩ ∈ productionsOf .primary) :
      word kind ≤ readableAs .primary := item_le_readable h (opening_token_readable kind)
  refine add_le (add_le (add_le (add_le ?_ ?_) ?_) ?_) ?_
  · apply hword
    simp [productionsOf]
  · apply hword
    simp [productionsOf]
  · apply hword
    simp [productionsOf]
  · have hgroup := around_le_readable (show _ ∈ productionsOf .group from List.mem_cons_self)
    apply hgroup.trans
    have hproduction : ⟨.primary, .hoist .group .once, []⟩ ∈ productionsOf .primary := by
      simp [productionsOf]
    apply item_le_readable hproduction (nonterminal_le_readable List.mem_cons_self)
  · have hfloor := around_le_readable (show _ ∈ productionsOf .floor from List.mem_cons_self)
    apply hfloor.trans
    have hproduction : ⟨.primary, .nest .floor .once, []⟩ ∈ productionsOf .primary := by
      simp [productionsOf]
    apply item_le_readable hproduction (nonterminal_le_readable List.mem_cons_self)

/-- All tokens whose kinds are a word of a category are read by its nonterminal. -/
theorem language_le_readable (c : Category) : language c ≤ readableAs c := by
  apply language_le
  intro c
  cases c with
  | statement => apply statement_le_readable
  | ifStatement => apply ifStatement_le_readable
  | assignment => apply assignment_le_readable
  | print => apply print_le_readable
  | expression =>
    apply item_le_readable List.mem_cons_self (nonterminal_le_readable List.mem_cons_self)
  | level l => apply level_le_readable
  | unary => apply unary_le_readable
  | primary => apply primary_le_readable

/-- Words of one or more statements are read by the root. -/
theorem oneOrMore_le_readable_root : oneOrMore (language .statement) ≤ (meaning .root).readable := by
  apply item_le_readable List.mem_cons_self
  rw [Item.hoist, Item.opening_atLeastOnce]
  apply Phrase.oneOrMore_le_readable
  apply (language_le_readable .statement).trans (nonterminal_le_readable List.mem_cons_self)

/-! ## Programs -/

/-- The trees of programs, from the tokens that they spell: well-formed trees of the root, which may have no
children. -/
def programs : Phrase Node := fun node ts =>
  node.rule = .root ∧ WellFormed node.tree ∧ Spells (print node.tree) ts

/-- The words of programs. -/
def programWords : Language Terminal := (language .statement)∗

theorem wellFormed_empty : WellFormed (Node.empty .root).tree := by
  apply WellFormed.node
  · rintro symbol ⟨⟩
  · rintro child ⟨⟩

theorem print_empty : print (Node.empty .root).tree = [] := by
  simp [Node.tree, Node.empty, print_node, layOut]

/-- A program is empty or has one or more statements. -/
theorem programs_iff {node : Node} {ts : List Token} :
  programs node ts ↔ (node = .empty .root ∧ ts = []) ∨ meaning .root node ts
  := by
  constructor
  · rintro ⟨hrule, hformed, hspells⟩
    by_cases hne : node.children = []
    · left
      obtain rfl : node = .empty .root := by
        obtain ⟨rule, children⟩ := node
        simp_all [Node.empty]
      rw [print_empty] at hspells
      use rfl, spells_nil_iff.mp hspells
    · apply Or.inr ⟨hrule, hne, hformed, hspells⟩
  · rintro (⟨rfl, rfl⟩ | ⟨hrule, -, hformed, hspells⟩)
    · use rfl, wellFormed_empty
      rw [print_empty]
      apply List.Forall₂.nil
    · use hrule, hformed

/-- Tokens are those of a program if and only if their kinds are a word of programs. -/
theorem exists_programs_iff {ts : List Token} :
  (∃ node, programs node ts) ↔ ts.map Token.kind ∈ programWords
  := by
  constructor
  · rintro ⟨node, hrule, hformed, hspells⟩
    have hmem := kinds_print_mem hformed
    rw [Node.tree, Tree.symbol_node, hrule] at hmem
    rw [hspells.map_kind_eq, Node.tree, hrule]
    apply hmem
  · intro hmem
    rw [programWords, ← Language.one_add_self_mul_kstar_eq_kstar] at hmem
    rcases hmem with hnil | hmore
    · use .empty .root
      apply programs_iff.mpr (Or.inl ⟨rfl, List.map_eq_nil_iff.mp hnil⟩)
    · obtain ⟨node, hnode⟩ := oneOrMore_le_readable_root hmore ts rfl
      exact ⟨node, programs_iff.mpr (Or.inr hnode)⟩

end Program
end LayoutGrammar
