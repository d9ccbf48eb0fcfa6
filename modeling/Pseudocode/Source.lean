import Pseudocode.Text

/-! # Source lines

A source text is read line by line. Every line knows its place: its index, and the bytes of the
source that it covers, without the newline. -/
namespace Pseudocode

/-- The bytes from `start` up to, and without, `stop`. -/
structure ByteRange where
  start : Nat
  stop : Nat
  deriving DecidableEq, Repr, Inhabited

namespace ByteRange

/-- A range that stops before it starts is empty. -/
def length (r : ByteRange) : Nat := r.stop - r.start

def isEmpty (r : ByteRange) : Bool := r.length == 0

/-- The part between two offsets that count from the start of the range. -/
def slice (r : ByteRange) (lo hi : Nat) : ByteRange := ⟨r.start + lo, r.start + hi⟩

end ByteRange

structure SourceLine where
  index : Nat
  text : Text
  range : ByteRange
  deriving DecidableEq, Repr

namespace SourceLine

/-- Lines are counted from one in messages. -/
def number (line : SourceLine) : Nat := line.index + 1

/-- The line of a text that starts at byte `start`. -/
def placed (index start : Nat) (text : Text) : SourceLine :=
  ⟨index, text, ⟨start, start + text.bytes⟩⟩

/-- Places consecutive lines, each one byte behind the one before it. -/
def placeAll (index start : Nat) : List Text → List SourceLine
  | [] => []
  | t :: ts => placed index start t :: placeAll (index + 1) (start + t.bytes + 1) ts

/-- The lines of a source text. A newline at the end is followed by one more, empty, line. -/
def ofSource (source : Text) : List SourceLine := placeAll 0 0 source.lines

end SourceLine

end Pseudocode
