import Pseudocode.Text

/-! # Indentation

The text of a statement may have several lines. Tabs at the front of a line place it that many
levels below the statement. They are replaced by units of indentation once the depth of the
statement is known. -/
namespace Pseudocode.Text

def deeper (t : Text) : Text := unlines (t.lines.map ('\t' :: ·))

/-- The number of tabs at the front of a line. -/
def leadingTabs (line : Text) : Nat := (line.takeWhile (· == '\t')).length

def indentLine (depth : Nat) (unit line : Text) : Text :=
  times (depth + leadingTabs line) unit ++ line.dropWhile (· == '\t')

/-- Indents the lines of a statement by `depth` units, and by one more for every leading tab. A
statement without text stays so. -/
def indent (depth : Nat) (unit t : Text) : Text :=
  if t.isEmpty then [] else unlines (t.lines.map (indentLine depth unit))

/-- Puts one unit before every line. -/
def shift (unit t : Text) : Text := unlines (t.lines.map (unit ++ ·))

end Pseudocode.Text
