import Pseudocode.Layout
import Pseudocode.Source
import Pseudocode.Usage

/-! # Programs

Every source line gives one output line, which belongs to a part of the program: the record
definitions, the functions, or the main algorithm. The program gathers the lines by part. -/
namespace Pseudocode

inductive Part
  | declarations
  | functions
  | main
  deriving DecidableEq, Repr

namespace Part

def name : Part → Text
  | declarations => "declarations"
  | functions => "functions"
  | main => "main"

end Part

/-- The output of one source line, and the bytes of the source that it comes from. -/
structure OutputLine where
  text : Text
  part : Part
  endsRoutine : Bool
  range : ByteRange
  deriving DecidableEq, Repr

namespace OutputLine

def empty (range : ByteRange) : OutputLine := ⟨[], .main, false, range⟩

end OutputLine

structure Program where
  declarations : List Text
  functions : List (List Text)
  main : List Text
  usage : Usage
  deriving DecidableEq, Repr

namespace Program

/-- The texts of one part, in order and without the empty ones. -/
def textsOf (part : Part) (lines : List OutputLine) : List Text :=
  (lines.filter fun l => l.part == part && !l.text.isEmpty).map OutputLine.text

/-- Adds a finished group of lines, unless it is empty. -/
def addGroup (group : List Text) (groups : List (List Text)) : List (List Text) :=
  if group.isEmpty then groups else group :: groups

/-- Parts the function lines into one group for each function, where `current` is the group that
has been begun. A line that closes a function ends the group. -/
def groupFunctions (current : List Text) : List OutputLine → List (List Text)
  | [] => addGroup current []
  | l :: ls =>
    let grown := current ++ textsOf .functions [l]
    if l.endsRoutine then addGroup grown (groupFunctions [] ls) else groupFunctions grown ls

def ofLines (lines : List OutputLine) (usage : Usage) : Program :=
  { declarations := textsOf .declarations lines
    functions := groupFunctions [] lines
    main := textsOf .main lines
    usage := usage }

def size (p : Program) : Nat :=
  p.declarations.length + p.functions.flatten.length + p.main.length

/-- The record definitions and the functions, each with an empty line behind it. -/
def definitions (p : Program) : Text :=
  (p.declarations ++ p.functions.map Text.unlines).flatMap fun t => t ++ ['\n', '\n']

/-- The lines of the main algorithm, one level deep. -/
def body (p : Program) (unit : Text) : Text :=
  p.main.flatMap fun t => Text.shift unit t ++ ['\n']

end Program

end Pseudocode
