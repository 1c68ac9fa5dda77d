import LayoutGrammar.Evaluation.Session

/-!
# Parse

A parse runs the productions of the root of a grammar over a list of tokens, each from where the one
before it stopped, and puts what they read into one tree.  Tokens left over after that are an error,
unless the first of them is the end of the text.
-/

namespace LayoutGrammar

/-- A parse of a list of tokens. -/
structure Parse where
  /-- The grammar. -/
  grammar : Grammar
  /-- The tokens. -/
  tokens : List Token
  /-- The greatest depth of nested evaluations. -/
  limit : Nat
  /-- The number of tokens that were read. -/
  position : Nat
  /-- What was read. -/
  tree : Node

namespace Parse

/-- A parse that has read nothing. -/
def start (grammar : Grammar) (tokens : List Token) : Parse :=
  ⟨grammar, tokens, defaultLimit, 0, .empty .root⟩

/-- A parse with another limit. -/
def withLimit (parse : Parse) (limit : Nat) : Parse := { parse with limit := limit }

/-- A parse after a reading of a production of the root: the first that matched is the tree, those after
it become children. -/
def add (parse : Parse) (reading : Reading) : Parse :=
  if reading.isMatch then
    { parse with
      tree := if parse.tree.isEmpty then reading.node else parse.tree.append [reading.node.tree]
      position := parse.position + reading.consumed }
  else
    parse

/-- What came of running a parse, and the parse after it. -/
structure Run where
  /-- Whether all tokens were read, or why not. -/
  outcome : Except Diagnostic Unit
  /-- What happened. -/
  journal : Journal
  /-- The parse after the run. -/
  parse : Parse

/-- Whether a parse has read all tokens. -/
def checkEnd (parse : Parse) : Except Diagnostic Unit :=
  match parse.tokens.drop parse.position with
  | token :: _ =>
    if token.kind = .eof then
      .ok ()
    else
      .error ⟨.unexpected token.shown parse.position, token.span.start⟩
  | [] => .ok ()

/-- Runs some productions one after the other, up to the first that fails, and checks that all tokens
were read. -/
def runEach : List Production → Session → Parse → Run
  | [], _, parse => ⟨parse.checkEnd, .empty, parse⟩
  | p :: others, session, parse =>
    let (attempt, session) := session.evaluate p parse.position
    match attempt.outcome with
    | .ok reading =>
      let run := runEach others session (parse.add reading)
      { run with journal := attempt.journal ++ run.journal }
    | .error reason => ⟨.error reason, attempt.journal, parse⟩

/-- Runs the productions of the root from where a parse is. -/
def run (parse : Parse) : Run :=
  runEach (parse.grammar.alternatives .root) (.start parse.grammar parse.tokens parse.limit) parse

end Parse

end LayoutGrammar
