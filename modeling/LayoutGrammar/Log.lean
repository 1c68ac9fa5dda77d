import LayoutGrammar.Evaluation.Parse

/-!
# Log

The records that tell, one line each, what was done: at the debug level what was made, at the trace level
also every step of an evaluation, indented by its depth.
-/

namespace LayoutGrammar
namespace Log

/-- How much is told. -/
inductive Verbosity where
  | debug
  | trace
deriving DecidableEq

/-- The name of a verbosity. -/
def Verbosity.name : Verbosity → String
  | debug => "DEBUG"
  | trace => "TRACE"

/-- Something that was done. -/
inductive Record where
  /-- A grammar was made. -/
  | grammar (rules : Nat)
  /-- A grammar was found valid. -/
  | validation (rules : Nat)
  /-- The tokens of a text were read. -/
  | tokens (file : String) (count : Nat)
  /-- The evaluation of a production started. -/
  | entry (rule : Nonterminal) (index depth : Nat)
  /-- A production matched. -/
  | completion (rule : Nonterminal) (consumed depth : Nat)
  /-- A parse ran to its end. -/
  | parse (position count : Nat)
deriving DecidableEq

namespace Record

/-- The least verbosity at which a record is told. -/
def verbosity : Record → Verbosity
  | entry .. | completion .. => .trace
  | _ => .debug

/-- A text indented by a depth. -/
def indented (depth : Nat) (text : String) : String :=
  String.ofList (List.replicate depth ' ') ++ text

/-- A record in words. -/
def text : Record → String
  | grammar rules => s!"created grammar with {rules} rules"
  | validation rules => s!"validated {rules} rules"
  | tokens file count => s!"tokenized {file} into {count} tokens"
  | entry rule index depth => indented depth s!"{rule.name} at {index}"
  | completion rule consumed depth => indented depth s!"{rule.name} matched {consumed} tokens"
  | parse position count => s!"parsed {position} of {count} tokens"

/-- A record as a line of a log. -/
def line (record : Record) : String := record.verbosity.name ++ " " ++ record.text

/-- Whether a record is told at a verbosity. -/
def isTold (record : Record) (verbosity : Verbosity) : Bool :=
  verbosity = .trace || record.verbosity = .debug

end Record

/-- The lines of the records that are told at a verbosity. -/
def lines (verbosity : Verbosity) (records : List Record) : List String :=
  (records.filter fun record => record.isTold verbosity).map Record.line

/-- The record of an event, if it is told. -/
def ofEvent? : Event → Option Record
  | .entered rule index depth => some (.entry rule index depth)
  | .matched rule consumed depth => some (.completion rule consumed depth)
  | _ => none

/-- The records of a journal. -/
def ofJournal (journal : Journal) : List Record := journal.events.filterMap ofEvent?

/-- The records of making a grammar. -/
def ofGrammar (grammar : Grammar) : List Record := [.grammar grammar.size]

/-- The records of checking a grammar. -/
def ofValidation (grammar : Grammar) : List Record :=
  match grammar.validate with
  | .ok _ => [.validation grammar.size]
  | .error _ => []

/-- The records of reading the tokens of a text. -/
def ofTokens (file : String) (outcome : Except Diagnostic (List Token)) : List Record :=
  match outcome with
  | .ok tokens => [.tokens file tokens.length]
  | .error _ => []

/-- The records of running a parse. -/
def ofRun (run : Parse.Run) : List Record :=
  ofJournal run.journal ++
    match run.outcome with
    | .ok _ => [.parse run.parse.position run.parse.tokens.length]
    | .error _ => []

end Log
end LayoutGrammar
