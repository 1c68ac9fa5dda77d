import LayoutGrammar.Evaluation.Basic

/-!
# Session

A session evaluates productions of one grammar on one list of tokens, and remembers the furthest mismatch
that any of its evaluations discarded.
-/

namespace LayoutGrammar

/-- The greatest depth of nested evaluations, unless another is asked for. -/
def defaultLimit : Nat := 200

/-- A grammar and tokens, with what is kept of the evaluations so far. -/
structure Session where
  /-- The grammar. -/
  grammar : Grammar
  /-- The tokens. -/
  tokens : List Token
  /-- The greatest depth of nested evaluations. -/
  limit : Nat
  /-- What is kept of the evaluations so far. -/
  memory : Memory

namespace Session

/-- A session before any evaluation. -/
def start (grammar : Grammar) (tokens : List Token) (limit : Nat) : Session :=
  ⟨grammar, tokens, limit, .fresh⟩

/-- What the evaluations of a session share. -/
def setting (s : Session) : Setting := ⟨s.grammar, s.limit, .ofEnd s.tokens⟩

/-- The place after a number of tokens. -/
def cursor (s : Session) (index : Nat) : Cursor := .ofIndex s.tokens index

/-- Where the token of an index is in the source. -/
def position (s : Session) (index : Nat) : Position := (s.cursor index).position s.setting.ending

/-- The token of an index, as it is shown. -/
def found (s : Session) (index : Nat) : String := (s.cursor index).found

/-- The answer of a session to an attempt, and the session after it. -/
def conclude {α : Type} (s : Session) (attempt : Attempt α) : Attempt α × Session :=
  let memory := s.memory.follow attempt.journal
  (⟨attempt.outcome.mapError memory.promote, attempt.journal⟩, { s with memory := memory })

/-- Evaluates a production at the token of an index. -/
def evaluate (s : Session) (p : Production) (index : Nat) : Attempt Reading × Session :=
  s.conclude (evaluateTop s.setting p (s.cursor index))

/-- Evaluates the alternatives of some nonterminals at the token of an index, up to the first that
matches. -/
def tryRules (s : Session) (rules : List Nonterminal) (index : Nat) :
    Attempt (Option Reading) × Session :=
  s.conclude (tryRulesTop s.setting rules (s.cursor index))

end Session

/-- Evaluates a production at the first of some tokens, with the default limit. -/
def Production.evaluate (p : Production) (grammar : Grammar) (tokens : List Token) :
    Attempt Reading :=
  ((Session.start grammar tokens defaultLimit).evaluate p 0).1

end LayoutGrammar
