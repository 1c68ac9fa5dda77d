import LayoutGrammar.Proofs.Prediction.Production
import LayoutGrammar.Proofs.Program.Solution

/-!
# Assignments and expressions

A statement that starts with an identifier may be an assignment or an expression.  The evaluation tries the
assignment first, and when that fails, however far it got, it goes back and tries the expression.  Yet the
second token tells the two apart: it is the sign of assignment in the one, and never in the other.  So a
statement settles where one of the two does (`settles_of_assignment`, `settles_of_expression`), and when both
break, it breaks at the later place (`breaks_of_both`).
-/

namespace LayoutGrammar
namespace Program

/-! ## The second token -/

/-- Whether a symbol is one of expressions. -/
def isOperand : Symbol → Bool
  | .terminal kind => kind ∈ [.number, .string, .identifier]
  | .nonterminal rule =>
    match rule with
    | .expression | .level _ | .unary | .prefixed _ | .floor | .primary => true
    | _ => false

theorem Fits.isOperand {rule : Nonterminal} {symbols : List Symbol} (h : Fits rule symbols)
    (hrule : isOperand (.nonterminal rule) = true) :
  ∀ symbol ∈ symbols, Program.isOperand symbol = true
  := by
  have hunary : ∀ symbol ∈ unarySymbols, Program.isOperand symbol = true := by
    decide
  have hprimary : ∀ symbol ∈ primarySymbols, Program.isOperand symbol = true := by
    decide
  cases rule with
  | level l =>
    intro symbol hsymbol
    rw [h.2 symbol hsymbol]
    cases l <;> rfl
  | unary =>
    obtain ⟨symbol, hsymbol, rfl⟩ := h
    simpa using hunary symbol hsymbol
  | primary =>
    obtain ⟨symbol, hsymbol, rfl⟩ := h
    simpa using hprimary symbol hsymbol
  | expression | prefixed op | floor =>
    obtain rfl := h
    simp [Program.isOperand]
  | _ => simp [Program.isOperand] at hrule

theorem kind_of_mem_between {kind : Terminal} {parts : List (List Sign)} {sign : Sign}
    (h : sign ∈ between kind parts) :
  sign = .mark kind ∨ ∃ part ∈ parts, sign ∈ part
  := by
  cases parts with
  | nil => simp [between_nil] at h
  | cons part parts =>
    rw [between_cons] at h
    simp only [List.mem_append, List.mem_flatMap, List.mem_cons] at h ⊢
    rcases h with h | ⟨other, hother, rfl | h⟩
    · apply Or.inr ⟨part, Or.inl rfl, h⟩
    · apply Or.inl rfl
    · apply Or.inr ⟨other, Or.inr hother, h⟩

/-- What is added to the parts of an expression is never the sign of assignment. -/
theorem kind_of_mem_layOut {rule : Nonterminal} (hrule : isOperand (.nonterminal rule) = true)
    {symbols : List Symbol} {parts : List (List Sign)} {sign : Sign}
    (h : sign ∈ layOut rule symbols parts) :
  sign.kind ≠ .assign ∨ ∃ part ∈ parts, sign ∈ part
  := by
  have hflatten : sign ∈ parts.flatten → sign.kind ≠ .assign ∨ ∃ part ∈ parts, sign ∈ part := by
    intro hsign
    apply Or.inr (List.mem_flatten.mp hsign)
  have haround {opening closing : Terminal} (hopening : opening ≠ .assign) (hclosing : closing ≠ .assign)
      (hsign : sign ∈ [.mark opening] ++ parts.flatten ++ [.mark closing]) :
      sign.kind ≠ .assign ∨ ∃ part ∈ parts, sign ∈ part := by
    simp only [List.mem_append, List.mem_singleton] at hsign
    rcases hsign with (rfl | hsign) | rfl
    · apply Or.inl hopening
    · apply hflatten hsign
    · apply Or.inl hclosing
  cases rule with
  | level l =>
    rcases kind_of_mem_between h with rfl | hpart
    · left
      cases l <;> decide
    · apply Or.inr hpart
  | prefixed op =>
    rcases List.mem_cons.mp h with rfl | h
    · left
      cases op <;> decide
    · apply hflatten h
  | floor => apply haround (by decide) (by decide) h
  | primary =>
    rw [layOut_primary] at h
    split at h
    · apply haround (by decide) (by decide) h
    · apply hflatten h
  | expression | unary => apply hflatten h
  | _ => simp [Program.isOperand] at hrule

/-- No expression has a sign of assignment. -/
theorem kind_ne_assign_of_mem_print {tree : Tree} (h : WellFormed tree)
    (hsymbol : isOperand tree.symbol = true) :
  ∀ sign ∈ print tree, sign.kind ≠ .assign
  := by
  induction h with
  | leaf token =>
    rw [print, List.forall_mem_singleton]
    rintro hkind
    simp [Program.isOperand, show token.kind = .assign from hkind] at hsymbol
  | node fits _ ih =>
    intro sign hsign
    rw [print_node] at hsign
    rcases kind_of_mem_layOut hsymbol hsign with hkind | ⟨_, hpart, hsign⟩
    · apply hkind
    · obtain ⟨child, hchild, rfl⟩ := List.mem_map.mp hpart
      apply ih child hchild _ sign hsign
      apply fits.isOperand hsymbol _ (List.mem_map_of_mem hchild)

/-- The second token of an assignment is the sign of assignment. -/
theorem second_of_assignment {node : Node} {ts : List Token} (h : meaning .assignment node ts) :
  ∃ t u us, ts = t :: u :: us ∧ u.kind = .assign
  := by
  obtain ⟨rule, children⟩ := node
  obtain ⟨rfl, -, hformed, hspells⟩ := h
  obtain ⟨name, _, rfl, hname, hrest⟩ := List.map_eq_cons_iff.mp (wellFormed_node_iff.mp hformed).1
  cases name with
  | node => cases hname
  | leaf token =>
    rw [Node.tree, print_node] at hspells
    simp only [List.map_cons, layOut, print, List.cons_append, List.nil_append] at hspells
    obtain ⟨t, _, -, hmore, rfl⟩ := spells_cons_iff.mp hspells
    obtain ⟨u, us, hu, -, rfl⟩ := spells_cons_iff.mp hmore
    exact ⟨t, u, us, rfl, hu⟩

/-- None of the tokens of an expression is the sign of assignment. -/
theorem kind_ne_assign_of_expression {node : Node} {ts : List Token} (h : meaning .expression node ts) :
  ∀ t ∈ ts, t.kind ≠ .assign
  := by
  obtain ⟨hrule, -, hformed, hspells⟩ := h
  have hsigns := kind_ne_assign_of_mem_print hformed (by simp [Node.tree, hrule, isOperand])
  intro t ht hkind
  have hmem := List.mem_map_of_mem (f := Token.kind) ht
  rw [hspells.map_kind_eq, List.mem_map] at hmem
  obtain ⟨sign, hsign, heq⟩ := hmem
  apply hsigns sign hsign (heq.trans hkind)

/-! ## Lines -/

/-- The trees of a statement of a nonterminal, with the end of its line. -/
def line (head : Nonterminal) : Phrase (List Tree) :=
  ((meaning head).map (graft .statement false)).seq (Item.phrases meaning .statement [.skip .endOfLine])

/-- The production of statements. -/
def statementProduction : Production :=
  ⟨.statement, .oneOf (.of .ifStatement [.assignment, .print, .expression]), [.skip .endOfLine]⟩

theorem body_statement : statementProduction.body meaning = Phrase.any statementRules line := by
  ext trees ts
  constructor
  · rintro ⟨left, right, us, vs, ⟨node, ⟨head, hhead, hnode⟩, hleft⟩, hright, rfl, rfl⟩
    exact ⟨head, hhead, left, right, us, vs, ⟨node, hnode, hleft⟩, hright, rfl, rfl⟩
  · rintro ⟨head, hhead, left, right, us, vs, ⟨node, hnode, hleft⟩, hright, rfl, rfl⟩
    exact ⟨left, right, us, vs, ⟨node, ⟨head, hhead, hnode⟩, hleft⟩, hright, rfl, rfl⟩

/-- The end of a line is one token. -/
theorem phrases_endOfLine_iff {rule : Nonterminal} {trees : List Tree} {ts : List Token} :
  Item.phrases meaning rule [.skip .endOfLine] trees ts
    ↔ trees = [] ∧ ∃ t, t.kind = .endOfLine ∧ ts = [t]
  := by
  constructor
  · rintro ⟨_, _, _, _, ⟨t, ht, rfl, rfl⟩, ⟨rfl, rfl⟩, rfl, rfl⟩
    exact ⟨rfl, t, mem_one_iff.mp ht, rfl⟩
  · rintro ⟨rfl, t, ht, rfl⟩
    exact ⟨[], [], [t], [], ⟨t, mem_one_iff.mpr ht, rfl, rfl⟩, ⟨rfl, rfl⟩, rfl, rfl⟩

theorem second_of_line_assignment {trees : List Tree} {ts : List Token} (h : line .assignment trees ts) :
  ∃ u, ts[1]? = some u ∧ u.kind = .assign
  := by
  obtain ⟨_, _, _, vs, ⟨node, hnode, -⟩, -, -, rfl⟩ := h
  obtain ⟨t, u, us, rfl, hu⟩ := second_of_assignment hnode
  use u, rfl, hu

theorem second_of_line_expression {trees : List Tree} {ts : List Token} (h : line .expression trees ts) :
  ∃ u, ts[1]? = some u ∧ u.kind ≠ .assign
  := by
  obtain ⟨_, _, us, vs, ⟨node, hnode, -⟩, hend, -, rfl⟩ := h
  obtain ⟨-, e, he, rfl⟩ := phrases_endOfLine_iff.mp hend
  have hkinds := kind_ne_assign_of_expression hnode
  obtain ⟨t, us, rfl, -⟩ := foresees.startsIn .expression node us hnode
  cases us with
  | nil => use e, rfl, by simp [he]
  | cons u us => use u, rfl, hkinds u (by simp)

/-- A phrase whose second token has some property is not read where the second token does not have it. -/
theorem dead_of_second {P : Phrase (List Tree)} {p : Terminal → Prop}
    (hP : ∀ trees us, P trees us → ∃ u, us[1]? = some u ∧ p u.kind) {last : List Terminal}
    {ts : List Token} {u : Token} (hu : ts[1]? = some u) (hnot : ¬ p u.kind) {place : Nat}
    (hplace : 0 < place) :
  P.Dead last ts place
  := by
  intro trees us vs hus hvs hagree
  obtain ⟨v, hv, hp⟩ := hP trees us hus
  have hlt := (List.getElem?_eq_some_iff.mp hv).1
  have heq := hagree.getElem?_eq (Nat.succ_le_of_lt hplace)
  rw [List.getElem?_append_left hlt, hv, hu] at heq
  obtain rfl := Option.some.inj heq
  apply hnot hp

theorem line_startsIn (head : Nonterminal) : (line head).StartsIn (firstKinds head) := by
  apply Phrase.StartsIn.seq
  apply (foresees.startsIn head).map

/-! ## Settling and breaking -/

section

variable {ts : List Token} {trees : List Tree} {count more : Nat}

/-- A statement that starts with an identifier is an assignment or an expression. -/
theorem dead_or_eq (hstart : ¬ Avoids [.identifier] ts) (head : Nonterminal)
    (hhead : head ∈ statementRules) (place : Nat) :
  (head = .assignment ∨ head = .expression) ∨ (line head).Dead [] ts place
  := by
  cases ts with
  | nil => simp [Avoids] at hstart
  | cons t ts =>
    have ht : t.kind = .identifier := by simpa [avoids_cons_iff] using hstart
    simp only [statementRules, List.mem_cons, List.not_mem_nil, or_false] at hhead
    rcases hhead with rfl | rfl | rfl | rfl
    · right
      apply (line_startsIn .ifStatement).dead
      simp [avoids_cons_iff, ht, firstKinds]
    · simp
    · right
      apply (line_startsIn .print).dead
      simp [avoids_cons_iff, ht, firstKinds]
    · simp

/-- The second token of what reads an assignment, if two tokens have been read. -/
theorem second_of_viable (hviable : ∃ trees us, line .assignment trees (ts.take count ++ us))
    (hcount : 1 < count) (hle : count ≤ ts.length) :
  ∃ u, ts[1]? = some u ∧ u.kind = .assign
  := by
  obtain ⟨trees, us, hus⟩ := hviable
  obtain ⟨u, hu, hkind⟩ := second_of_line_assignment hus
  rw [List.getElem?_append_left (by simp; omega), List.getElem?_take_of_lt hcount] at hu
  use u, hu

/-- A line that is an assignment is a statement. -/
theorem settles_of_assignment (h : (line .assignment).Settles [] ts trees count) :
  (Phrase.any statementRules line).Settles [] ts trees count
  := by
  have hstart := h.not_avoids (line_startsIn .assignment)
  obtain ⟨u, hu, hkind⟩ := second_of_line_assignment h.reads
  have hlt := (List.getElem?_eq_some_iff.mp hu).1
  rw [List.length_take] at hlt
  rw [List.getElem?_take_of_lt (by omega)] at hu
  have hdead : (line .expression).Dead [] ts count := by
    apply dead_of_second (p := (· ≠ .assign)) (fun _ _ => second_of_line_expression) hu _ (by omega)
    simpa using hkind
  apply Phrase.Settles.any (i := Nonterminal.assignment) (by decide) h (List.Subset.refl _)
  intro head hhead
  rcases dead_or_eq hstart head hhead count with (rfl | rfl) | hother
  · apply Or.inl rfl
  · apply Or.inr hdead
  · apply Or.inr hother

/-- A line that breaks as an assignment of which the sign has been read breaks as a statement. -/
theorem breaks_of_assignment (h : (line .assignment).Breaks [] ts count) (hcount : 0 < count) {u : Token}
    (hu : ts[1]? = some u) (hkind : u.kind = .assign) :
  (Phrase.any statementRules line).Breaks [] ts count
  := by
  have hstart := h.not_avoids hcount (line_startsIn .assignment)
  have hdead : (line .expression).Dead [] ts count := by
    apply dead_of_second (p := (· ≠ .assign)) (fun _ _ => second_of_line_expression) hu _ hcount
    simpa using hkind
  apply Phrase.Breaks.any (i := Nonterminal.assignment) (by decide) h
  intro head hhead
  rcases dead_or_eq hstart head hhead count with (rfl | rfl) | hother
  · apply h.dead
  · apply hdead
  · apply hother

/-- A line that is an expression is a statement, and breaks as an assignment after the first token. -/
theorem settles_of_expression (hbreaks : (line .assignment).Breaks [] ts count) (hcount : 0 < count)
    (h : (line .expression).Settles [] ts trees more) :
  count < more ∧ (Phrase.any statementRules line).Settles [] ts trees more
  := by
  have hstart := hbreaks.not_avoids hcount (line_startsIn .assignment)
  obtain ⟨u, hu, hkind⟩ := second_of_line_expression h.reads
  have hlt := (List.getElem?_eq_some_iff.mp hu).1
  rw [List.length_take] at hlt
  rw [List.getElem?_take_of_lt (by omega)] at hu
  have hone : count ≤ 1 := by
    by_contra hnot
    obtain ⟨v, hv, hassign⟩ := second_of_viable hbreaks.viable (by omega) hbreaks.le
    rw [hu] at hv
    obtain rfl := Option.some.inj hv
    apply hkind hassign
  use by omega
  apply Phrase.Settles.any (i := Nonterminal.expression) (by decide) h (List.Subset.refl _)
  intro head hhead
  rcases dead_or_eq hstart head hhead more with (rfl | rfl) | hother
  · apply Or.inr (hbreaks.dead.of_le (by omega))
  · apply Or.inl rfl
  · apply Or.inr hother

/-- A line that breaks both as an assignment and as an expression breaks as a statement at the later place. -/
theorem breaks_of_both (hassignment : (line .assignment).Breaks [] ts count) (hcount : 0 < count)
    (hexpression : (line .expression).Breaks [] ts more) :
  (Phrase.any statementRules line).Breaks [] ts (max count more)
  := by
  have hstart := hassignment.not_avoids hcount (line_startsIn .assignment)
  have hdead : ∀ head ∈ statementRules, (line head).Dead [] ts (max count more) := by
    intro head hhead
    rcases dead_or_eq hstart head hhead (max count more) with (rfl | rfl) | hother
    · apply hassignment.dead.of_le (Nat.le_max_left count more)
    · apply hexpression.dead.of_le (Nat.le_max_right count more)
    · apply hother
  rcases Nat.le_total count more with hle | hle
  · rw [Nat.max_eq_right hle] at hdead ⊢
    apply Phrase.Breaks.any (i := Nonterminal.expression) (by decide) hexpression hdead
  · rw [Nat.max_eq_left hle] at hdead ⊢
    apply Phrase.Breaks.any (i := Nonterminal.assignment) (by decide) hassignment hdead

end

end Program
end LayoutGrammar
