import LayoutGrammar.Evaluation.Attempt
import LayoutGrammar.Evaluation.Cursor
import LayoutGrammar.Grammar.Basic
import LayoutGrammar.Tree.Basic

/-!
# Evaluation

How a production reads tokens.

The opening item of a production decides whether it applies: when it matches nothing, neither does the
production.  Otherwise every continuation must match as often as its repetition asks for, and one that may
match at most once must not be able to match a second time.  An item repeats greedily.  An item that names
nonterminals tries all their alternatives in order and takes the first that matches; an alternative that
fails in a continuation leaves the next ones to be tried, and if none matches the mismatch that got
furthest is the outcome.  A production that matched without keeping anything counts as one that did not.

The functions before `evaluate` take as `inner` the evaluation one level deeper; `evaluate` ties the knot
and refuses to go deeper than a limit.
-/

namespace LayoutGrammar

/-- What evaluations share. -/
structure Setting where
  /-- The productions of nonterminals. -/
  grammar : Grammar
  /-- The greatest depth of nested evaluations. -/
  limit : Nat
  /-- The place past the last token. -/
  ending : Position

/-- What a production read: the node that was built, empty if nothing matched, and the number of tokens. -/
structure Reading where
  /-- The node that was built. -/
  node : Node
  /-- The number of tokens that were read. -/
  consumed : Nat
deriving DecidableEq

namespace Reading

/-- Whether something matched. -/
def isMatch (reading : Reading) : Bool := !reading.node.isEmpty

/-- What a production of a rule reads when it does not match. -/
def nothing (rule : Nonterminal) : Reading := ⟨.empty rule, 0⟩

end Reading

/-- What part of a production read: the trees that were built and the place after it. -/
structure Piece where
  /-- The trees that were built. -/
  trees : List Tree
  /-- The place after the tokens that were read. -/
  cursor : Cursor

/-- What an item read: a piece, and the number of its matches. -/
structure Matches extends Piece where
  /-- The number of matches. -/
  count : Nat

/-- The evaluation of a production at a place. -/
abbrev Evaluator : Type := Production → Cursor → Attempt Reading

/-! ## Choice -/

/-- The first of some productions that matches, with `failure` as the furthest mismatch so far. -/
def tryEach (inner : Evaluator) : List Production → Option Diagnostic → Cursor →
    Attempt (Option Reading)
  | [], none, _ => .succeed none
  | [], some mismatch, _ => .fail mismatch
  | p :: others, failure, c =>
    let first := inner p c
    match first.outcome with
    | .ok reading =>
      if reading.isMatch then
        ⟨.ok (some reading), first.journal⟩
      else
        (tryEach inner others failure c).after first.journal
    | .error reason =>
      if reason.isMismatch then
        (tryEach inner others (some (reason.keepFurther failure)) c).after
          (first.journal ++ .event (.discarded reason))
      else
        ⟨.error reason, first.journal⟩

/-- The first alternative of some nonterminals that matches. -/
def tryRules (s : Setting) (inner : Evaluator) (rules : List Nonterminal) (c : Cursor) :
    Attempt (Option Reading) :=
  match s.grammar.candidates rules with
  | .ok productions => tryEach inner productions none c
  | .error reason => .fail reason

/-! ## Items -/

/-- The trees that a node adds to a node of a rule: its children if it is hoisted or of the same rule,
itself otherwise. -/
def graft (rule : Nonterminal) (hoisted : Bool) (node : Node) : List Tree :=
  if hoisted || node.rule = rule then node.children else [node.tree]

/-- One match of a target in a production of a rule. -/
def matchOnce (s : Setting) (inner : Evaluator) (rule : Nonterminal) (target : Target) (c : Cursor) :
    Attempt (Option Piece) :=
  match target with
  | .tokens kinds excluded =>
    match c.rest with
    | token :: _ =>
      if token.kind ∈ kinds.members then
        pure (some ⟨if excluded then [] else [.leaf token], c.advance 1⟩)
      else
        pure none
    | [] => pure none
  | .rules heads hoisted => do
    match ← tryRules s inner heads.members c with
    | some reading => pure (some ⟨graft rule hoisted reading.node, c.advance reading.consumed⟩)
    | none => pure none

/-- Matches one after the other, until one fails.  A match that reads no token would be the last. -/
def matchMany (once : Cursor → Attempt (Option Piece)) (c : Cursor) : Attempt Matches := do
  match ← once c with
  | none => pure ⟨⟨[], c⟩, 0⟩
  | some piece =>
    if piece.cursor.rest.length < c.rest.length then
      let others ← matchMany once piece.cursor
      pure ⟨⟨piece.trees ++ others.trees, others.cursor⟩, others.count + 1⟩
    else
      pure ⟨piece, 1⟩
termination_by c.rest.length

/-- The matches of an item in a production of a rule. -/
def matchItem (s : Setting) (inner : Evaluator) (rule : Nonterminal) (item : Item) (c : Cursor) :
    Attempt Matches := do
  if item.repetition.isRepeated then
    matchMany (matchOnce s inner rule item.target) c
  else
    match ← matchOnce s inner rule item.target c with
    | some piece => pure ⟨piece, 1⟩
    | none => pure ⟨⟨[], c⟩, 0⟩

/-- Whether a target matches at a place.  Nothing is read; a failure means that it does not. -/
def lookAhead (s : Setting) (inner : Evaluator) (target : Target) (c : Cursor) : Attempt Bool :=
  match target with
  | .tokens kinds _ =>
    match c.rest with
    | token :: _ => pure (decide (token.kind ∈ kinds.members))
    | [] => pure false
  | .rules heads _ =>
    let found := tryRules s inner heads.members c
    let answer := match found.outcome with
      | .ok (some _) => true
      | _ => false
    ⟨.ok answer, .event .lookAheadOpened ++ found.journal ++ .event .lookAheadClosed⟩

/-! ## Productions -/

/-- The mismatch of an item of a production of a rule at a place. -/
def mismatchAt (s : Setting) (rule : Nonterminal) (item : Item) (c : Cursor)
    (cause : Mismatch → Cause) : Diagnostic :=
  ⟨cause ⟨rule, item.target.shown, c.index, c.found⟩, c.position s.ending⟩

/-- The continuations of a production of a rule, after what was read before them. -/
def matchAll (s : Setting) (inner : Evaluator) (rule : Nonterminal) : List Item → Piece →
    Attempt Piece
  | [], before => pure before
  | item :: items, before => do
    let found ← matchItem s inner rule item before.cursor
    if found.count < item.repetition.minimum then
      .raise (mismatchAt s rule item found.cursor .tooFew)
    else if item.repetition = .atMostOnce ∧ found.count = 1 then
      if ← lookAhead s inner item.target found.cursor then
        .raise (mismatchAt s rule item found.cursor .tooMany)
      else
        matchAll s inner rule items ⟨before.trees ++ found.trees, found.cursor⟩
    else
      matchAll s inner rule items ⟨before.trees ++ found.trees, found.cursor⟩

/-- A production at a place, at a depth. -/
def matchProduction (s : Setting) (inner : Evaluator) (depth : Nat) (p : Production) (c : Cursor) :
    Attempt Reading := do
  Attempt.note (.entered p.rule c.index depth)
  let opening ← matchItem s inner p.rule p.opening c
  if opening.count = 0 then
    pure (.nothing p.rule)
  else
    let whole ← matchAll s inner p.rule p.continuations opening.toPiece
    if whole.trees.isEmpty then
      pure (.nothing p.rule)
    else
      let consumed := whole.cursor.index - c.index
      Attempt.note (.matched p.rule consumed depth)
      pure ⟨⟨p.rule, whole.trees⟩, consumed⟩

/-- A production at a place, at a depth below which `room` levels, this one included, are left before the
limit. -/
def evaluate (s : Setting) : (room depth : Nat) → Evaluator
  | 0, _, p, c => .fail ⟨.tooDeep p.rule s.limit, c.position s.ending⟩
  | room + 1, depth, p, c => matchProduction s (evaluate s room (depth + 1)) depth p c

/-- A production at a place, as the outermost evaluation. -/
def evaluateTop (s : Setting) : Evaluator := evaluate s (s.limit + 1) 0

/-- A choice at a place, as the outermost evaluation. -/
def tryRulesTop (s : Setting) (rules : List Nonterminal) (c : Cursor) : Attempt (Option Reading) :=
  tryRules s (evaluateTop s) rules c

end LayoutGrammar
