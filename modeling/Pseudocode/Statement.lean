import Pseudocode.Fault
import Pseudocode.Text.Blank
import Pseudocode.Word

/-! # Statements

A line is read into a statement: a head word and its arguments. A line that starts with two slashes
is a comment, whose only argument is the text behind them. -/
namespace Pseudocode

structure Statement where
  line : SourceLine
  head : Text
  args : List Text
  isComment : Bool
  deriving DecidableEq, Repr

namespace Statement

/-- The mark at the front of a comment, which is also its head. -/
def commentMark : Text := "//"

def ofWords (line : SourceLine) : List Word → Statement
  | [] => ⟨line, [], [], false⟩
  | w :: ws => ⟨line, w.text, ws.map Word.text, false⟩

/-- Reads a line. The only fault is a string literal that is left open. It covers the line from the
opening quote on. -/
def ofLine (line : SourceLine) : Except Fault Statement :=
  match commentMark.isPrefixOf? line.text.trimStart with
  | some comment => .ok ⟨line, commentMark, [Text.trim comment], true⟩
  | none =>
    match Word.ofText line.text with
    | .ok words => .ok (ofWords line words)
    | .error offset =>
      .error ⟨line.number, line.range.slice offset line.text.bytes, .openQuote⟩

/-- The line without the blanks around it. -/
def text (s : Statement) : Text := s.line.text.trim

/-- The arguments, with one space between neighbours. -/
def argText (s : Statement) : Text := Text.unwords s.args

def isBlank (s : Statement) : Bool := s.head.isEmpty

/-- Whether the first argument ends with an equals sign, as in `x = 1` and `n += 2`. -/
def isAssignment (s : Statement) : Bool :=
  match s.args with
  | [] => false
  | arg :: _ => arg.getLast? == some '='

end Statement

end Pseudocode
