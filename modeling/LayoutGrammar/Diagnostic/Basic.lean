import LayoutGrammar.Grammar.Nonterminal
import LayoutGrammar.Text.Quoted
import LayoutGrammar.Token.Position

/-!
# Diagnostic

A diagnostic says what is wrong with a text or a grammar, by its cause, and where.  A cause has a name, a
message, and for most causes a tip for the reader.

The causes that are mismatches arise while alternatives are tried: they count only once no other
alternative is left, and of several the furthest is told.
-/

namespace LayoutGrammar

/-- What an item of a production asked for and what was there. -/
structure Mismatch where
  /-- The rule of the production. -/
  rule : Nonterminal
  /-- The item, as it is shown. -/
  element : String
  /-- The number of tokens before the place. -/
  index : Nat
  /-- What was there, as it is shown. -/
  found : String
deriving DecidableEq

/-- What is wrong. -/
inductive Cause where
  /-- No token starts with the given text. -/
  | unrecognised (text : String)
  /-- A line is indented as no enclosing block is. -/
  | indentation (width : Nat)
  /-- A token is left over after the last statement. -/
  | unexpected (token : String) (index : Nat)
  /-- An item matched too few times. -/
  | tooFew (mismatch : Mismatch)
  /-- An item matched too many times. -/
  | tooMany (mismatch : Mismatch)
  /-- A rule has no production. -/
  | unknownRule (rule : Nonterminal)
  /-- Evaluations are nested too deeply. -/
  | tooDeep (rule : Nonterminal) (limit : Nat)
deriving DecidableEq

namespace Cause

/-- The name of a cause. -/
def name : Cause → String
  | unrecognised _ => "UnrecognisedToken"
  | indentation _ => "InconsistentIndentation"
  | unexpected .. => "UnexpectedToken"
  | tooFew _ => "UnderMatch"
  | tooMany _ => "OverMatch"
  | unknownRule _ => "UnknownRule"
  | tooDeep .. => "RecursionLimit"

/-- A cause in one line. -/
def message : Cause → String
  | unrecognised text => s!"unrecognised token: {Text.quote text}"
  | indentation width => s!"inconsistent indentation of width {width}"
  | unexpected token index => s!"unexpected token {Text.quote token} at index {index}"
  | tooFew m =>
    s!"rule {m.rule.name} matched less than once: {m.element} at index {m.index}, found {m.found}"
  | tooMany m =>
    s!"rule {m.rule.name} matched more than once: {m.element} at index {m.index}, found {m.found}"
  | unknownRule rule => s!"rule {rule.name} is not registered"
  | tooDeep rule limit => s!"recursion limit of {limit} reached while evaluating {rule.name}"

/-- What a cause means for the reader. -/
def tip? : Cause → Option String
  | unrecognised _ => none
  | indentation width => s!"Indentation of {width} does not match any enclosing block"
  | unexpected token _ => s!"Unexpected token: `{token}`, is a statement left unfinished?"
  | tooFew m => s!"{m.rule.name} expected {m.element}, found {m.found}"
  | tooMany m => s!"{m.rule.name} allows {m.element} at most once, found another {m.found}"
  | unknownRule rule => s!"Rule `{rule.name}` has no registered production"
  | tooDeep rule limit => s!"Evaluating `{rule.name}` exceeded the nesting limit of {limit}"

/-- The number of tokens before the place where a cause arose, if it arose among tokens. -/
def index? : Cause → Option Nat
  | unexpected _ index => some index
  | tooFew m | tooMany m => some m.index
  | _ => none

/-- Whether a cause is a mismatch. -/
def isMismatch : Cause → Bool
  | tooFew _ | tooMany _ => true
  | _ => false

end Cause

/-- What is wrong and where. -/
structure Diagnostic where
  /-- What is wrong. -/
  cause : Cause
  /-- Where it is. -/
  position : Position
deriving DecidableEq

namespace Diagnostic

/-- Whether the cause of a diagnostic is a mismatch. -/
def isMismatch (d : Diagnostic) : Bool := d.cause.isMismatch

/-- Whether a diagnostic arose at a later token than another; one that did not arise among tokens is
before all that did. -/
def isFurther (d other : Diagnostic) : Bool :=
  match d.cause.index?, other.cause.index? with
  | some i, some j => j < i
  | some _, none => true
  | none, _ => false

/-- The further of a diagnostic that is kept and a new one; of two at the same token, the one kept. -/
def keepFurther (new : Diagnostic) (kept : Option Diagnostic) : Diagnostic :=
  match kept with
  | some d => if new.isFurther d then new else d
  | none => new

end Diagnostic
end LayoutGrammar
