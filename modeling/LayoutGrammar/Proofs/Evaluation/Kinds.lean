import LayoutGrammar.Proofs.Evaluation.Simulation

/-!
# Evaluations look at the kinds of tokens only

Whether tokens match, what tree is built of them and which failure is told is up to their kinds.  When tokens are
replaced by others of the same kinds, a session reads as many of them and builds the same tree over the others, or
fails for the same reason at the same token, with the position and the text of the other one
(`Session.evaluate_map`).  The diagnostics that are told of two lists of tokens are alike when they are put together
from the same cause at the same index (`Diagnostic.Alike`); this is all that is compared of the mismatches that are
kept on the way, so that the furthest of them are alike (`follows_map`).
-/

namespace LayoutGrammar

/-! ## Trees over other tokens -/

namespace Tree

variable (f : Token → Token)

mutual

/-- A tree with its tokens replaced. -/
def map : Tree → Tree
  | leaf token => leaf (f token)
  | node rule children => node rule (mapEach children)

/-- Trees with their tokens replaced. -/
def mapEach : List Tree → List Tree
  | [] => []
  | tree :: trees => map tree :: mapEach trees

end

theorem mapEach_eq_map (trees : List Tree) :
  mapEach f trees = trees.map (map f)
  := by
  induction trees with
  | nil => rfl
  | cons tree trees ih => rw [mapEach, ih, List.map_cons]

end Tree

/-- A node with its tokens replaced. -/
def Node.map (f : Token → Token) (node : Node) : Node := { node with children := Tree.mapEach f node.children }

/-- What is read, with the tokens replaced. -/
def Reading.map (f : Token → Token) (reading : Reading) : Reading := { reading with node := reading.node.map f }

/-- What a node adds with its tokens replaced. -/
theorem graft_map (f : Token → Token) (rule : Nonterminal) (hoisted : Bool) (node : Node) :
  graft rule hoisted (node.map f) = Tree.mapEach f (graft rule hoisted node)
  := by
  unfold graft
  have hrule : (node.map f).rule = node.rule := rfl
  rw [hrule]
  split
  · rfl
  · simp [Node.map, Node.tree, Tree.mapEach, Tree.map]

/-! ## Diagnostics of other tokens -/

/-- A cause that shows something else to have been there. -/
def Cause.withFound (found : String) : Cause → Cause
  | .tooFew m => .tooFew { m with found := found }
  | .tooMany m => .tooMany { m with found := found }
  | cause => cause

@[simp]
theorem Cause.index?_withFound (found : String) (cause : Cause) :
  (cause.withFound found).index? = cause.index?
  := by
  cases cause <;> rfl

@[simp]
theorem Cause.isMismatch_withFound (found : String) (cause : Cause) :
  (cause.withFound found).isMismatch = cause.isMismatch
  := by
  cases cause <;> rfl

namespace Diagnostic

/-- The diagnostic of a cause at the token of an index: its position is that of the token, and the token is what is
shown to have been there. -/
def ofToken (tokens : List Token) (index : Nat) (cause : Cause) : Diagnostic :=
  ⟨cause.withFound (Cursor.ofIndex tokens index).found, (Cursor.ofIndex tokens index).position (.ofEnd tokens)⟩

/-- The diagnostics that say the same of two lists of tokens when evaluations are limited. -/
inductive Alike (limit : Nat) (tokens others : List Token) : Diagnostic → Diagnostic → Prop where
  /-- The same mismatch at the same token. -/
  | mismatch {cause : Cause} {index : Nat} (isMismatch : cause.isMismatch = true)
      (index?_eq : cause.index? = some index) :
      Alike limit tokens others (.ofToken tokens index cause) (.ofToken others index cause)
  /-- The limit reached by the same rule at the same token. -/
  | tooDeep (rule : Nonterminal) (index : Nat) :
      Alike limit tokens others (.ofToken tokens index (.tooDeep rule limit))
        (.ofToken others index (.tooDeep rule limit))
  /-- The same rule without productions. -/
  | unknownRule (rule : Nonterminal) : Alike limit tokens others (Grammar.unknown rule) (Grammar.unknown rule)

variable {limit : Nat} {tokens others : List Token} {d e d' e' : Diagnostic}

theorem Alike.index?_eq (h : Alike limit tokens others d e) :
  e.cause.index? = d.cause.index?
  := by
  cases h <;> simp [ofToken]

theorem Alike.isMismatch_eq (h : Alike limit tokens others d e) :
  e.isMismatch = d.isMismatch
  := by
  cases h <;> simp [isMismatch, ofToken]

theorem Alike.isFurther_eq (h : Alike limit tokens others d e) (h' : Alike limit tokens others d' e') :
  e.isFurther e' = d.isFurther d'
  := by
  unfold isFurther
  rw [h.index?_eq, h'.index?_eq]

end Diagnostic

/-! ## Evaluations of other tokens -/

/-- Evaluations of some tokens and of others in their place. -/
def Correspondence.replaced (limit : Nat) (tokens : List Token) (f : Token → Token) : Correspondence where
  allows _ := True
  target := Eq
  place c d := ∃ index, c = .ofIndex tokens index ∧ d = .ofIndex (tokens.map f) index
  trees a b := b = Tree.mapEach f a
  told := Diagnostic.Alike limit tokens (tokens.map f)
  shift := 0
  edge := none

section

variable {tokens : List Token} {f : Token → Token} (hf : ∀ token, (f token).kind = token.kind)
include hf

theorem follows_map (g : Grammar) (limit : Nat) :
  (Correspondence.replaced limit tokens f).Follows (Session.start g tokens limit).setting
    (Session.start g (tokens.map f) limit).setting
  where
  inside _ := Correspondence.not_isBeyond_of_edge rfl _
  index_eq := by
    rintro _ _ ⟨index, rfl, rfl⟩
    rfl
  head := by
    rintro _ _ ⟨index, rfl, rfl⟩
    rw [Cursor.ofIndex, Cursor.ofIndex, ← List.map_drop]
    cases tokens.drop index with
    | nil => exact .none
    | cons token rest => exact .some ⟨hf token, rfl⟩
  advance := by
    rintro _ _ count ⟨index, rfl, rfl⟩ - -
    rw [Cursor.advance_ofIndex, Cursor.advance_ofIndex]
    use index + count
  mismatch := by
    rintro _ _ ⟨target, _⟩ ⟨_, _⟩ cause rule ⟨index, rfl, rfl⟩ ⟨⟨⟩, -⟩ (rfl | rfl)
    · let m : Mismatch := ⟨rule, target.shown, index, ""⟩
      exact @Diagnostic.Alike.mismatch limit tokens (tokens.map f) (.tooFew m) index rfl rfl
    · let m : Mismatch := ⟨rule, target.shown, index, ""⟩
      exact @Diagnostic.Alike.mismatch limit tokens (tokens.map f) (.tooMany m) index rfl rfl
  tooDeep := by
    rintro _ _ rule ⟨index, rfl, rfl⟩
    exact .tooDeep rule index
  isMismatch_eq := Diagnostic.Alike.isMismatch_eq
  isFurther_eq := Diagnostic.Alike.isFurther_eq
  edge := nofun

theorem relates_map (g : Grammar) (limit : Nat) :
  (Correspondence.replaced limit tokens f).Relates (Session.start g tokens limit).setting
    (Session.start g (tokens.map f) limit).setting
  where
  toFollows := follows_map hf g limit
  tokens := Eq.symm
  rules := by
    rintro heads hoisted _ rfl
    use hoisted
  candidates := by
    intro heads _ _ _
    apply Correspondence.candidates_refl
    · intro p _ _
      apply Correspondence.productions_refl trivial
      intro item _
      exact ⟨rfl, rfl⟩
    · intro rule _ _
      exact .unknownRule rule
  graft := by
    rintro heads hoisted _ a ⟨_, _⟩ rule ⟨⟩ rfl - hchildren
    obtain rfl := hchildren
    apply graft_map
  nil := rfl
  append := by
    rintro a _ a' _ rfl rfl
    simp only [Correspondence.replaced, Tree.mapEach_eq_map, List.map_append]
  isEmpty_eq := by
    rintro a _ rfl
    rw [Tree.mapEach_eq_map, List.isEmpty_map]

end

/-- When tokens are replaced by others of the same kinds, a session of any grammar and limit reads as many of them
from any place on and builds the same tree over the others, or what it tells is alike: the same mismatch, rule too
deep, or unknown rule, at the same token. -/
theorem Session.evaluate_map (g : Grammar) (p : Production) (tokens : List Token) (limit start : Nat)
    {f : Token → Token} (hf : ∀ token, (f token).kind = token.kind) :
  let outcome := ((Session.start g tokens limit).evaluate p start).1.outcome
  let outcome' := ((Session.start g (tokens.map f) limit).evaluate p start).1.outcome
  (∃ reading, outcome = .ok reading ∧ outcome' = .ok (reading.map f))
    ∨ ∃ d e, outcome = .error d ∧ outcome' = .error e ∧ Diagnostic.Alike limit tokens (tokens.map f) d e
  := by
  intro outcome outcome'
  let r := Correspondence.replaced limit tokens f
  have hp : r.Productions p p := Correspondence.productions_refl trivial fun _ _ => ⟨rfl, rfl⟩
  have hplace : r.place (.ofIndex tokens start) (.ofIndex (tokens.map f) start) := ⟨start, rfl, rfl⟩
  obtain ⟨⟨houtcome, -⟩, -⟩ := (relates_map hf g limit).session r.memories_fresh rfl rfl hp hplace
  obtain ⟨⟨⟨rule, children⟩, consumed⟩, ⟨⟨_, _⟩, _⟩, hout, hout', hread⟩ | ⟨d, e, hout, hout', htold⟩ :=
    houtcome.ok_or_error
  · obtain ⟨⟨⟩, hchildren, ⟨⟩⟩ := hread
    obtain rfl := hchildren
    exact Or.inl ⟨_, hout, hout'⟩
  · exact Or.inr ⟨d, e, hout, hout', htold⟩

/-- Numbers with commas between them. -/
def commaSeparated : Production := ⟨.print, .token .number, [.nest .subsequentPrint .zeroOrMore]⟩

/-- What numbers with commas between them refer to. -/
def commaGrammar : Grammar := ⟨[⟨.subsequentPrint, .skip .comma, [.token .number]⟩]⟩

/-- A number, a comma, and a name where another number is asked for. -/
def nameAfterComma : List Token := [.unplaced .number "1", .unplaced .comma "", .unplaced .identifier "x"]

/-- Under another name, elsewhere, the same number is missed at the same token. -/
theorem evaluate_map_nameAfterComma :
  let f (token : Token) : Token := ⟨token.kind, "y", ⟨⟨7, "other"⟩, ⟨8, "other"⟩⟩⟩
  (∀ token, (f token).kind = token.kind)
    ∧ ((Session.start commaGrammar nameAfterComma 10).evaluate commaSeparated 0).1.outcome
      = .error ⟨.tooFew ⟨.subsequentPrint, "`Number`", 2, "`Identifier(x)`"⟩, .null⟩
    ∧ ((Session.start commaGrammar (nameAfterComma.map f) 10).evaluate commaSeparated 0).1.outcome
      = .error ⟨.tooFew ⟨.subsequentPrint, "`Number`", 2, "`Identifier(y)`"⟩, ⟨7, "other"⟩⟩
  := by
  intro f
  have hf : ∀ token, (f token).kind = token.kind := fun _ => rfl
  have hout : ((Session.start commaGrammar nameAfterComma 10).evaluate commaSeparated 0).1.outcome
      = .error ⟨.tooFew ⟨.subsequentPrint, "`Number`", 2, "`Identifier(x)`"⟩, .null⟩ := by
    decide +kernel
  use hf, hout
  obtain ⟨reading, h, -⟩ | ⟨d, e, h, h', halike⟩ :=
    Session.evaluate_map commaGrammar commaSeparated nameAfterComma 10 0 hf
  · cases hout.symm.trans h
  · obtain rfl := Except.error.inj (hout.symm.trans h)
    rw [h']
    generalize hd : Diagnostic.mk _ _ = d at halike
    cases halike with
    | @mismatch cause index isMismatch index?_eq =>
      obtain ⟨hcause, -⟩ := Diagnostic.mk.inj hd
      cases cause with
      | tooFew m =>
        obtain ⟨rule, element, _, found⟩ := m
        obtain ⟨rfl, rfl, rfl, -⟩ := Mismatch.mk.inj (Cause.tooFew.inj hcause)
        obtain rfl : 2 = index := Option.some.inj index?_eq
        rfl
      | _ => cases hcause
    | tooDeep rule index => cases hd
    | unknownRule rule => cases hd

end LayoutGrammar
