import Pseudocode.Text

/-! # Type names of a target language -/
namespace Pseudocode

/-- The types that can be declared, in the words of a target language, beside its words for the
value of an unset variable, for a sequence, and for the result of a procedure. -/
structure Vocabulary where
  entries : List (Text × Text)
  unset : Text
  sequence : Text
  noResult : Text
  deriving DecidableEq, Repr

namespace Vocabulary

def declares (v : Vocabulary) (name : Text) : Bool := v.entries.any fun entry => entry.1 == name

/-- The target's word for a type. A name that is not declared stands for itself. -/
def spell (v : Vocabulary) (name : Text) : Text := (v.entries.lookup name).getD name

end Vocabulary

end Pseudocode
