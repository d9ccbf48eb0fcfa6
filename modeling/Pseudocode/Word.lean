import Pseudocode.Pattern

/-! # Words of a line

A line is cut into pieces, each the longest that can start where the last one ends: gaps, quotes and
plain runs of characters. Gaps are dropped, and pieces without a gap between them make up a word. A
line cannot be read on where no piece starts. -/
namespace Pseudocode

/-- The characters that part words: space, tab, carriage return and form feed. -/
def Word.isSeparator (c : Char) : Bool := c == ' ' || c == '\t' || c == '\r' || c == '\x0c'

inductive PieceKind
  | gap
  | quote
  | plain
  deriving DecidableEq, Repr

namespace PieceKind

def all : List PieceKind := [gap, quote, plain]

/-- The characters of plain pieces. -/
def isPlain (c : Char) : Bool := !Word.isSeparator c && c != '\n' && c != '"'

/-- A quote ends at the first quotation mark behind its own, unless a backslash takes the mark along.
It holds no newline. -/
def pattern : PieceKind → Pattern
  | gap => .oneOrMore (.char Word.isSeparator)
  | quote =>
    let mark := Pattern.char (· == '"')
    let ordinary := Pattern.char fun c => c != '"' && c != '\\' && c != '\n'
    let escape := Pattern.seq (.char (· == '\\')) (.char (· != '\n'))
    .seq mark (.seq (.many (.either ordinary escape)) mark)
  | plain => .oneOrMore (.char isPlain)

def longest? (t : Text) : List PieceKind → Option (PieceKind × Nat)
  | [] => none
  | kind :: kinds =>
    match kind.pattern.longest? t, longest? t kinds with
    | none, best => best
    | some n, none => some (kind, n)
    | some n, some best => if best.2 ≤ n then some (kind, n) else some best

end PieceKind

/-- A piece of a line, which starts at a byte of the line. -/
structure Piece where
  kind : PieceKind
  text : Text
  start : Nat
  deriving DecidableEq, Repr

namespace Piece

def stop (p : Piece) : Nat := p.start + p.text.bytes

/-- Cuts a text that stands at offset `pos` into pieces and leaves out the gaps. The first `skip`
characters belong to a piece that has been cut off already. An error is the offset at which no piece
starts. -/
def cut (skip pos : Nat) : Text → Except Nat (List Piece)
  | [] => .ok []
  | c :: cs =>
    let next := pos + c.utf8Size
    match skip with
    | skip + 1 => cut skip next cs
    | 0 =>
      match PieceKind.longest? (c :: cs) PieceKind.all with
      | none => .error pos
      | some (kind, n) =>
        match cut (n - 1) next cs with
        | .error offset => .error offset
        | .ok pieces =>
          if kind = .gap then .ok pieces else .ok (⟨kind, (c :: cs).take n, pos⟩ :: pieces)

end Piece

/-- A word, the bytes it covers, and whether any of its pieces is a quote. -/
structure Word where
  text : Text
  start : Nat
  stop : Nat
  quoted : Bool
  deriving DecidableEq, Repr

namespace Word

/-- Whether the word starts and ends as a string literal does. -/
def isLiteral (w : Word) : Bool :=
  w.quoted && w.text.head? == some '"' && w.text.getLast? == some '"'

def ofPiece (p : Piece) : Word := ⟨p.text, p.start, p.stop, p.kind == .quote⟩

def extend (w : Word) (p : Piece) : Word :=
  ⟨w.text ++ p.text, w.start, p.stop, w.quoted || p.kind == .quote⟩

/-- Adds a piece to the words in front of it: to the last one if that ends where the piece starts,
and as a word of its own otherwise. -/
def attach (words : List Word) (p : Piece) : List Word :=
  match words.getLast? with
  | none => [ofPiece p]
  | some last =>
    if last.stop = p.start then words.dropLast ++ [last.extend p] else words ++ [ofPiece p]

def ofText (t : Text) : Except Nat (List Word) :=
  match Piece.cut 0 0 t with
  | .error offset => .error offset
  | .ok pieces => .ok (pieces.foldl attach [])

end Word

end Pseudocode
