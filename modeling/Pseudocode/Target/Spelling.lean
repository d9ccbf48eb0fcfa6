import Pseudocode.Target.Cpp
import Pseudocode.Target.French
import Pseudocode.Target.Python

/-! # Spelling in a target language

The choice of the language, over the phrases, the drawing operations and the whole program. -/
namespace Pseudocode.Target

def spell : Target → Phrase → Text
  | python => Python.spell
  | cpp => Cpp.spell
  | algorithmic => French.spell

/-- The body of a block without a statement, in a language that needs one. -/
def emptyBody? : Target → BlockKind → Option Text
  | python, kind => some (Python.emptyBody kind)
  | cpp, _ | algorithmic, _ => none

/-- A drawing operation, in a language that has them. -/
def drawing? : Target → Drawing → List Text → Option Text
  | python, _, _ => none
  | cpp, op, args => some (Cpp.drawing op args)
  | algorithmic, op, args => some (French.drawing op args)

def compose : Target → Program → Text → Text
  | python => Python.compose
  | cpp => Cpp.compose
  | algorithmic => French.compose

end Pseudocode.Target
