import Pseudocode.Text.Quoted

/-! # Text for a terminal

A terminal must not act on what a log line holds. The characters that start a terminal command, or
are one, are written by their code points. Tabs and ends of lines are not among them. -/
namespace Pseudocode.Text

/-- Bell, backspace, form feed, escape and delete. -/
def commandCodes : List Nat := [0x07, 0x08, 0x0C, 0x1B, 0x7F]

/-- A character as it is shown. The control characters beyond ASCII are commands too. -/
def terminalChar (c : Char) : Text :=
  if commandCodes.contains c.toNat then ['\\', 'x'] ++ hex 2 c.toNat
  else if inRanges [(0x80, 0x9F)] c then codePoint c
  else [c]

def forTerminal (t : Text) : Text := t.flatMap terminalChar

end Pseudocode.Text
