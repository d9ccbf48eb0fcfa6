import Pseudocode.Fault
import Pseudocode.Form
import Pseudocode.Program
import Pseudocode.Target
import Pseudocode.Usage

/-! # Progress through a source text

What the earlier lines of a source text leave behind is the progress: the open blocks, whether the
window is open, and the features in use. It decides where the output of a line is put. -/
namespace Pseudocode

/-- The target language, one unit of its indentation, and whether lines that are no instructions
are refused. -/
structure Setup where
  target : Target
  unit : Text
  strict : Bool
  deriving DecidableEq, Repr

structure Progress where
  nesting : Nesting := []
  /-- The kind of the block that the latest `end` closed. -/
  closed? : Option BlockKind := none
  hasWindow : Bool := false
  usage : Usage := {}
  deriving DecidableEq, Repr, Inhabited

/-- What one line gives: its output, and the fault for which it was refused. -/
structure Outcome where
  line : OutputLine
  fault? : Option Fault
  deriving DecidableEq, Repr

namespace Progress

/-- Whether the statement before this progress closed a function or a procedure. -/
def endsRoutine (p : Progress) (form : Form) : Bool :=
  form = .blockEnd && p.closed?.any BlockKind.isRoutine

/-- The number of blocks that a line is moved out of. A record definition leaves all of them, and so
does the end of an outermost function. A line of a function leaves those around the function. -/
def leftBlocks (p : Progress) (form : Form) : Nat :=
  if form = .record || (p.endsRoutine form && !p.nesting.inRoutine) then p.nesting.length
  else p.nesting.outerBlocks?.getD 0

/-- Depth of a statement in its part of the program. A statement that opens a block stands outside
of that block. -/
def depth (p : Progress) (form : Form) : Nat :=
  p.nesting.length - (if form.opensBlock then 1 else 0) - p.leftBlocks form

def part (p : Progress) (form : Form) : Part :=
  if form = .record then .declarations
  else if p.endsRoutine form || p.nesting.inRoutine then .functions
  else .main

/-- The output of a statement, where `p` is the progress behind it. -/
def place (setup : Setup) (p : Progress) (form : Form) (text : Text) (range : ByteRange) :
    OutputLine :=
  { text := Text.indent (p.depth form) setup.unit (setup.target.rename text)
    part := p.part form
    endsRoutine := p.endsRoutine form
    range := range }

/-- At the end of the text no block may be open. The fault is about the line that opened the
innermost one, whose place is looked up in the output so far. -/
def unclosed? (p : Progress) (lines : List OutputLine) : Option Fault :=
  p.nesting.top?.map fun b =>
    ⟨b.line + 1, (lines[b.line]?.map OutputLine.range).getD ⟨0, 0⟩, .openBlock b.kind⟩

end Progress

end Pseudocode
