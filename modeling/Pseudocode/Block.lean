import Pseudocode.Text

/-! # Blocks and their nesting

The blocks that are open at a line form a stack. It is kept as a list whose head is the innermost
block. -/
namespace Pseudocode

inductive BlockKind
  | forRange
  | forEach
  | whileCond
  | ifElse
  | switch
  | case
  | default
  | function
  | procedure
  deriving DecidableEq, Repr

namespace BlockKind

def all : List BlockKind :=
  [forRange, forEach, whileCond, ifElse, switch, case, default, function, procedure]

/-- The word by which messages name a block. -/
def tag : BlockKind → Text
  | forRange => "for"
  | forEach => "foreach"
  | whileCond => "while"
  | ifElse => "if"
  | switch => "switch"
  | case => "case"
  | default => "default"
  | function => "fx"
  | procedure => "proc"

def ofTag? (t : Text) : Option BlockKind := all.find? (·.tag == t)

/-- Functions and procedures are called, all other blocks are run where they stand. -/
def isRoutine : BlockKind → Bool
  | function | procedure => true
  | _ => false

end BlockKind

/-- An open block: its kind, the index of the line that opened it, and whether its current branch
holds a statement. -/
structure Block where
  kind : BlockKind
  line : Nat
  hasBody : Bool
  deriving DecidableEq, Repr

/-- The open blocks, from the innermost outwards. -/
abbrev Nesting := List Block

namespace Nesting

def push (kind : BlockKind) (line : Nat) (n : Nesting) : Nesting := ⟨kind, line, false⟩ :: n

def top? (n : Nesting) : Option Block := n.head?

def topKind? (n : Nesting) : Option BlockKind := n.head?.map Block.kind

def giveBody : Nesting → Nesting
  | [] => []
  | b :: outer => { b with hasBody := true } :: outer

def startBranch : Nesting → Nesting
  | [] => []
  | b :: outer => { b with hasBody := false } :: outer

/-- Whether the current branch holds a statement. Outside of all blocks there is no branch to
fill. -/
def hasBody (n : Nesting) : Bool := n.head?.all Block.hasBody

def contains (kind : BlockKind) (n : Nesting) : Bool := n.any fun b => b.kind == kind

def inRoutine (n : Nesting) : Bool := n.any fun b => b.kind.isRoutine

/-- The number of blocks around the outermost function or procedure. -/
def outerBlocks? : Nesting → Option Nat
  | [] => none
  | b :: outer =>
    match outerBlocks? outer with
    | some base => some base
    | none => if b.kind.isRoutine then some outer.length else none

end Nesting

end Pseudocode
