import Pseudocode.Program
import Pseudocode.Text.Quoted

/-! # Listing of output lines

The output lines as a JSON document, two spaces for each level. -/
namespace Pseudocode.Listing

def truth (b : Bool) : Text := if b then "true" else "false"

def item (l : OutputLine) : List Text :=
  ["  \x7b",
   "    \"text\": " ++ l.text.json ++ ",",
   "    \"section\": " ++ l.part.name.json ++ ",",
   "    \"closes_function\": " ++ truth l.endsRoutine ++ ",",
   "    \"span\": \x7b",
   "      \"start\": " ++ Text.number l.range.start ++ ",",
   "      \"end\": " ++ Text.number l.range.stop,
   "    \x7d",
   "  \x7d"]

def document (lines : List OutputLine) : Text :=
  if lines.isEmpty then "[]"
  else "[\n" ++ List.intercalate ",\n" (lines.map fun l => Text.unlines (item l)) ++ "\n]"

end Pseudocode.Listing
