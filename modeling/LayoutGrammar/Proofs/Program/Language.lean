import LayoutGrammar.Proofs.Program.Solution
import Mathlib.Computability.Language
import Mathlib.Order.FixedPoints
import Mathlib.Order.CompletePartialOrder

/-!
# The language of programs

The words of terminals that the grammar of programs describes when it is read without regard to the order
of alternatives: the least solution (`language`) of equations, one for each syntactic category, that are put
together from single terminals by union, concatenation and iteration.
-/

namespace LayoutGrammar
namespace Program

open Computability

/-- A syntactic category of programs. -/
inductive Category where
  | statement
  | ifStatement
  | assignment
  | print
  | expression
  /-- The operands of a level of binary operators, with the operators between them. -/
  | level (l : Level)
  | unary
  | primary
deriving DecidableEq, Repr

/-- The category of the operands of a level. -/
def Category.operand (l : Level) : Category :=
  match l.tighter? with
  | some tighter => .level tighter
  | none => .unary

/-- The language of the one word that is a terminal. -/
def word (kind : Terminal) : Language Terminal := {[kind]}

/-- One or more words of a language. -/
def oneOrMore (L : Language Terminal) : Language Terminal := L * L∗

/-- The equations of the categories: what each of them is, in terms of all of them. -/
def equations (L : Category → Language Terminal) : Category → Language Terminal
  | .statement => (L .ifStatement + L .assignment + L .print + L .expression) * word .endOfLine
  | .ifStatement =>
    word .ifWord * L .expression * word .thenWord * word .endOfLine
      * word .indent * oneOrMore (L .statement) * word .dedent
  | .assignment => word .identifier * word .assign * L .expression
  | .print => word .printWord * L .expression * (word .comma * L .expression)∗
  | .expression => L (.level .or)
  | .level l => L (.operand l) * (word l.operator * L (.operand l))∗
  | .unary => (word .minus + word .plus + word .not + word .bitNot) * L .unary + L .primary
  | .primary =>
    word .number + word .string + word .identifier
      + word .openParen * L .expression * word .closeParen
      + word .openBracket * L .expression * word .closeBracket

theorem equations_monotone : Monotone equations := by
  intro L M h c
  cases c with
  | expression => apply h
  | statement =>
    simp only [equations]
    gcongr <;> apply h
  | ifStatement =>
    have hblock : oneOrMore (L .statement) ≤ oneOrMore (M .statement) :=
      mul_le_mul' (h .statement) (kstar_mono (h .statement))
    simp only [equations]
    gcongr
    apply h
  | assignment =>
    simp only [equations]
    gcongr
    apply h
  | print =>
    have hmore : (word .comma * L .expression)∗ ≤ (word .comma * M .expression)∗ :=
      kstar_mono (mul_le_mul_right (h .expression) _)
    simp only [equations]
    gcongr
    apply h
  | level l =>
    have hmore : (word l.operator * L (.operand l))∗ ≤ (word l.operator * M (.operand l))∗ :=
      kstar_mono (mul_le_mul_right (h (.operand l)) _)
    simp only [equations]
    gcongr
    apply h
  | unary | primary =>
    simp only [equations]
    gcongr <;> apply h

/-- The words of the categories: the least languages that solve their equations. -/
def language : Category → Language Terminal := OrderHom.lfp ⟨equations, equations_monotone⟩

theorem language_eq (c : Category) : language c = equations language c :=
  (congrFun (OrderHom.map_lfp ⟨equations, equations_monotone⟩) c).symm

/-- Languages that the equations lead to nothing else from have all the words of the categories. -/
theorem language_le {L : Category → Language Terminal} (h : equations L ≤ L) (c : Category) :
  language c ≤ L c
  := OrderHom.lfp_le ⟨equations, equations_monotone⟩ h c

/-! ## From trees to words -/

/-- The words of a nonterminal. -/
def wordsOf : Nonterminal → Language Terminal
  | .root => (language .statement)∗
  | .statement => language .statement
  | .ifStatement => language .ifStatement
  | .assignment => language .assignment
  | .print => language .print
  | .subsequentPrint => word .comma * language .expression
  | .expression => language .expression
  | .level l => language (.level l)
  | .subsequent l => word l.operator * language (.operand l)
  | .unary => language .unary
  | .prefixed op => word op.operator * language .unary
  | .floor => word .openBracket * language .expression * word .closeBracket
  | .group => word .openParen * language .expression * word .closeParen
  | .primary => language .primary

/-- The words of a symbol. -/
def wordsOfSymbol : Symbol → Language Terminal
  | .terminal kind => word kind
  | .nonterminal rule => wordsOf rule

theorem wordsOf_operand (l : Level) : wordsOf (operand l) = language (.operand l) := by
  unfold operand Category.operand
  cases l.tighter? <;> rfl

/-- The kinds of some signs. -/
def kinds (signs : List Sign) : List Terminal := signs.map Sign.kind

@[simp]
theorem kinds_append (signs others : List Sign) : kinds (signs ++ others) = kinds signs ++ kinds others :=
  List.map_append

theorem kinds_cons (sign : Sign) (signs : List Sign) : kinds (sign :: signs) = [sign.kind] ++ kinds signs :=
  rfl

theorem mem_word (kind : Terminal) : [kind] ∈ word kind := rfl

theorem kinds_flatMap_mem {L : Language Terminal} {α : Type} {items : List α} {f : α → List Sign}
    (h : ∀ item ∈ items, kinds (f item) ∈ L) :
  kinds (items.flatMap f) ∈ L∗
  := by
  rw [kinds, List.map_flatMap, List.flatMap_def]
  apply Language.join_mem_kstar
  rw [List.forall_mem_map]
  apply h

section

variable {tree : Tree} {trees : List Tree}

/-- A line that is printed by a statement and the end of the line. -/
theorem kinds_line_mem (hsymbol : tree.symbol ∈ statementSymbols)
    (h : kinds (print tree) ∈ wordsOfSymbol tree.symbol) :
  kinds (print tree ++ [.mark .endOfLine]) ∈ language .statement
  := by
  rw [language_eq, kinds_append]
  apply Language.append_mem_mul _ (mem_word _)
  simp only [statementSymbols, statementRules, List.map_cons, List.map_nil, List.mem_cons,
    List.not_mem_nil, or_false] at hsymbol
  rcases hsymbol with heq | heq | heq | heq <;> rw [heq] at h
  · apply Or.inl (Or.inl (Or.inl h))
  · apply Or.inl (Or.inl (Or.inr h))
  · apply Or.inl (Or.inr h)
  · apply Or.inr h

/-- Parts of one language, with a mark between any two. -/
theorem kinds_between_mem {L : Language Terminal} {kind : Terminal} (hne : trees ≠ [])
    (h : ∀ tree ∈ trees, kinds (print tree) ∈ L) :
  kinds (between kind (trees.map print)) ∈ L * (word kind * L)∗
  := by
  obtain ⟨first, others, rfl⟩ := List.exists_cons_of_ne_nil hne
  rw [List.forall_mem_cons] at h
  rw [List.map_cons, between_cons, List.flatMap_map, kinds_append]
  apply Language.append_mem_mul h.1
  apply kinds_flatMap_mem
  intro tree htree
  apply Language.append_mem_mul (mem_word kind) (h.2 tree htree)

/-- An if-statement is printed by one of its words. -/
theorem kinds_ifStatement_mem {symbols : List Symbol} (hne : trees ≠ [])
    (hcondition : kinds (print tree) ∈ language .expression)
    (hblock : ∀ tree ∈ trees, kinds (print tree) ∈ language .statement) :
  kinds (layOut .ifStatement symbols (print tree :: trees.map print)) ∈ language .ifStatement
  := by
  obtain ⟨first, others, rfl⟩ := List.exists_cons_of_ne_nil hne
  rw [List.forall_mem_cons] at hblock
  have hstatements : kinds ((first :: others).map print).flatten ∈ oneOrMore (language .statement) := by
    rw [List.map_cons, List.flatten_cons, kinds_append, ← List.flatMap_def]
    apply Language.append_mem_mul hblock.1
    apply kinds_flatMap_mem hblock.2
  have hmarks : kinds [.mark .thenWord, .mark .endOfLine, .mark .indent]
      = [.thenWord] ++ [.endOfLine] ++ [.indent] := rfl
  rw [language_eq, layOut, kinds_append, kinds_append, kinds_append, kinds_append, hmarks,
    ← List.append_assoc, ← List.append_assoc]
  apply Language.append_mem_mul _ (mem_word _)
  apply Language.append_mem_mul _ hstatements
  apply Language.append_mem_mul _ (mem_word _)
  apply Language.append_mem_mul _ (mem_word _)
  apply Language.append_mem_mul _ (mem_word _)
  apply Language.append_mem_mul (mem_word _) hcondition

/-- A tree of a primary is printed by one of its words. -/
theorem kinds_primary_mem (hsymbol : tree.symbol ∈ primarySymbols)
    (h : kinds (print tree) ∈ wordsOfSymbol tree.symbol) :
  kinds (layOut .primary [tree.symbol] [print tree]) ∈ language .primary
  := by
  have haround (hexpression : kinds (print tree) ∈ language .expression) :
      kinds ([.mark .openParen] ++ [print tree].flatten ++ [.mark .closeParen])
        ∈ word .openParen * language .expression * word .closeParen := by
    rw [kinds_append, kinds_append, List.flatten_singleton]
    apply Language.append_mem_mul (Language.append_mem_mul (mem_word _) hexpression) (mem_word _)
  rw [language_eq, layOut_primary]
  simp only [primarySymbols, List.mem_cons, List.not_mem_nil, or_false] at hsymbol
  rcases hsymbol with heq | heq | heq | heq | heq <;> rw [heq] at h ⊢
  · rw [if_neg (by decide), List.flatten_singleton]
    apply Or.inl (Or.inl (Or.inl (Or.inl h)))
  · rw [if_neg (by decide), List.flatten_singleton]
    apply Or.inl (Or.inl (Or.inl (Or.inr h)))
  · rw [if_neg (by decide), List.flatten_singleton]
    apply Or.inl (Or.inl (Or.inr h))
  · apply Or.inl (Or.inr (haround h))
  · rw [if_neg (by decide), List.flatten_singleton]
    apply Or.inr h

/-- A tree of a unary expression is printed by one of its words. -/
theorem kinds_unary_mem (hsymbol : tree.symbol ∈ unarySymbols)
    (h : kinds (print tree) ∈ wordsOfSymbol tree.symbol) :
  kinds (print tree) ∈ language .unary
  := by
  rw [language_eq]
  rcases List.mem_cons.mp hsymbol with heq | hop
  · rw [heq] at h
    apply Or.inr h
  · obtain ⟨op, -, heq⟩ := List.mem_map.mp hop
    rw [← heq] at h
    obtain ⟨sign, hsign, rest, hrest, hprint⟩ := Language.mem_mul.mp h
    left
    rw [← hprint]
    apply Language.append_mem_mul _ hrest
    obtain rfl : sign = [op.operator] := hsign
    cases op
    · apply Or.inl (Or.inl (Or.inl rfl))
    · apply Or.inl (Or.inl (Or.inr rfl))
    · apply Or.inl (Or.inr rfl)
    · apply Or.inr rfl

end

/-- A well-formed tree is printed by a word of its symbol. -/
theorem kinds_print_mem {tree : Tree} (h : WellFormed tree) :
  kinds (print tree) ∈ wordsOfSymbol tree.symbol
  := by
  induction h with
  | leaf token => apply mem_word
  | @node rule children fits _ ih =>
    have hchild {child : Tree} {symbol : Symbol} (hmem : child ∈ children)
        (hsymbol : child.symbol = symbol) : kinds (print child) ∈ wordsOfSymbol symbol :=
      hsymbol ▸ ih child hmem
    rw [print_node, Tree.symbol_node, wordsOfSymbol]
    cases rule with
    | root =>
      rw [layOut, List.flatMap_map]
      apply kinds_flatMap_mem
      intro child hchild
      apply kinds_line_mem (fits _ (List.mem_map_of_mem hchild)) (ih child hchild)
    | statement =>
      obtain ⟨_, hsymbol, heq⟩ := fits
      obtain ⟨child, rfl, rfl⟩ := List.map_eq_singleton_iff.mp heq
      simp only [layOut, List.map_cons, List.map_nil, List.flatten_singleton]
      apply kinds_line_mem hsymbol (ih child List.mem_cons_self)
    | ifStatement =>
      obtain ⟨_, heq, hne, hblock⟩ := fits
      obtain ⟨condition, block, rfl, hcondition, rfl⟩ := List.map_eq_cons_iff.mp heq
      apply kinds_ifStatement_mem (List.map_eq_nil_iff.not.mp hne) (hchild List.mem_cons_self hcondition)
      intro child hmem
      apply hchild (List.mem_cons_of_mem condition hmem) (hblock _ (List.mem_map_of_mem hmem))
    | assignment =>
      obtain ⟨name, _, rfl, hname, hrest⟩ := List.map_eq_cons_iff.mp fits
      obtain ⟨value, rfl, hvalue⟩ := List.map_eq_singleton_iff.mp hrest
      simp only [layOut, List.map_cons, List.map_nil, List.flatten_singleton, kinds_append]
      rw [wordsOf, language_eq]
      apply Language.append_mem_mul (Language.append_mem_mul _ (mem_word _))
      · apply hchild _ hvalue
        simp
      · apply hchild _ hname
        simp
    | print =>
      rw [layOut, kinds_cons, wordsOf, language_eq, equations, mul_assoc]
      apply Language.append_mem_mul (mem_word _)
      apply kinds_between_mem (List.map_eq_nil_iff.not.mp fits.1)
      intro child hmem
      apply hchild hmem (fits.2 _ (List.mem_map_of_mem hmem))
    | level l =>
      rw [layOut, wordsOf, language_eq, equations]
      apply kinds_between_mem (List.map_eq_nil_iff.not.mp fits.1)
      intro child hmem
      rw [← wordsOf_operand]
      apply hchild hmem (fits.2 _ (List.mem_map_of_mem hmem))
    | expression =>
      obtain ⟨child, rfl, hsymbol⟩ := List.map_eq_singleton_iff.mp fits
      rw [wordsOf, language_eq]
      simp only [layOut, List.map_cons, List.map_nil, List.flatten_singleton]
      apply hchild List.mem_cons_self hsymbol
    | unary =>
      obtain ⟨_, hsymbol, heq⟩ := fits
      obtain ⟨child, rfl, rfl⟩ := List.map_eq_singleton_iff.mp heq
      simp only [layOut, List.map_cons, List.map_nil, List.flatten_singleton]
      apply kinds_unary_mem hsymbol (ih child List.mem_cons_self)
    | primary =>
      obtain ⟨_, hsymbol, heq⟩ := fits
      obtain ⟨child, rfl, rfl⟩ := List.map_eq_singleton_iff.mp heq
      apply kinds_primary_mem hsymbol (ih child List.mem_cons_self)
    | floor | group =>
      obtain ⟨child, rfl, hsymbol⟩ := List.map_eq_singleton_iff.mp fits
      simp only [layOut, List.map_cons, List.map_nil, List.flatten_singleton, kinds_append]
      apply Language.append_mem_mul (Language.append_mem_mul (mem_word _) _) (mem_word _)
      apply hchild List.mem_cons_self hsymbol
    | prefixed op | subsequentPrint =>
      obtain ⟨child, rfl, hsymbol⟩ := List.map_eq_singleton_iff.mp fits
      simp only [layOut, List.map_cons, List.map_nil, List.flatten_singleton]
      apply Language.append_mem_mul (mem_word _)
      apply hchild List.mem_cons_self hsymbol
    | subsequent l =>
      obtain ⟨child, rfl, hsymbol⟩ := List.map_eq_singleton_iff.mp fits
      simp only [layOut, List.map_cons, List.map_nil, List.flatten_singleton]
      apply Language.append_mem_mul (mem_word _)
      rw [← wordsOf_operand]
      apply hchild List.mem_cons_self hsymbol

end Program
end LayoutGrammar
