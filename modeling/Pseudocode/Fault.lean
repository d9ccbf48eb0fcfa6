import Pseudocode.Arity
import Pseudocode.Block
import Pseudocode.Source

/-! # Faults

What can be wrong with a line, and the words in which it is reported. -/
namespace Pseudocode

/-- Why a statement may not stand where it stands. -/
inductive Misplacement
  | notInSwitch
  | notInIf
  | notInFunction
  | withinProcedure
  deriving DecidableEq, Repr

namespace Misplacement

def describe : Misplacement → Text
  | notInSwitch => "outside of a 'switch'"
  | notInIf => "outside of an 'if'"
  | notInFunction => "outside of a function"
  | withinProcedure => "in a procedure"

end Misplacement

inductive Cause
  | argumentCount (head : Text) (expected : Arity) (got : Nat)
  | misplaced (head : Text) (reason : Misplacement)
  | incomplete (head : Text) (reason : Text)
  | openQuote
  | unknownHead (word : Text)
  | strayEnd
  | openBlock (kind : BlockKind)
  | noWindow (head : Text)
  deriving DecidableEq, Repr

namespace Cause

def describe : Cause → Text
  | argumentCount head expected got =>
    head ++ " requires " ++ expected.describe ++ " params, got " ++ Text.number got
  | misplaced head reason => "'" ++ head ++ "' statement " ++ reason.describe ++ "."
  | incomplete head reason => "'" ++ head ++ "' statement " ++ reason
  | openQuote => "unterminated string literal"
  | unknownHead word => "unknown instruction `" ++ word ++ "`"
  | strayEnd => "'end' statement does not close any block."
  | openBlock kind => "'" ++ kind.tag ++ "' block is never closed."
  | noWindow head => "Called " ++ head ++ " method before winit."

/-- Stable name of the kind of fault. -/
def code : Cause → Text
  | argumentCount .. => "analyze::param_count"
  | misplaced .. => "analyze::scope"
  | incomplete .. => "analyze::arity"
  | openQuote => "lex::unterminated_string"
  | unknownHead _ => "analyze::unknown_instruction"
  | strayEnd => "analyze::unmatched_end"
  | openBlock _ => "analyze::unclosed_block"
  | noWindow _ => "analyze::window_not_open"

/-- Advice on how to mend the fault. -/
def help? : Cause → Option Text
  | incomplete .. => some "`arr <type> <name> <dimension1> [dimension2] ...`"
  | unknownHead _ =>
    some "unknown lines are only passed through when compiling in loose mode"
  | openBlock _ => some "add a matching `end` line"
  | noWindow _ => some "open the window with `winit \"<title>\" <width> <height>` first"
  | _ => none

/-- Remark at the place of the fault. -/
def label : Cause → Text
  | argumentCount .. => "wrong number of parameters"
  | misplaced .. => "not allowed here"
  | incomplete .. => "incomplete statement"
  | openQuote => "this quote is never closed"
  | unknownHead _ => "not an instruction"
  | strayEnd => "nothing to close"
  | openBlock _ => "opened here"
  | noWindow _ => "no window yet"

end Cause

/-- A cause, with the number of the line and the bytes of the source that it is about. -/
structure Fault where
  line : Nat
  range : ByteRange
  cause : Cause
  deriving DecidableEq, Repr

namespace Fault

def message (f : Fault) : Text :=
  "Error on line " ++ Text.number f.line ++ " : " ++ f.cause.describe

end Fault

end Pseudocode
