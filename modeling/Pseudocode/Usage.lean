import Pseudocode.Text

/-! # Features in use

The output program starts with the imports that its text needs. -/
namespace Pseudocode

structure Usage where
  sqrt : Bool := false
  pow : Bool := false
  random : Bool := false
  records : Bool := false
  window : Bool := false
  deriving DecidableEq, Repr, Inhabited

namespace Usage

/-- The mathematical functions that a source text mentions. -/
def ofSource (source : Text) : Usage :=
  { sqrt := Text.includes "racine(" source
    pow := Text.includes "puissance(" source
    random := Text.includes "aleatoire(" source }

def union (u v : Usage) : Usage :=
  { sqrt := u.sqrt || v.sqrt
    pow := u.pow || v.pow
    random := u.random || v.random
    records := u.records || v.records
    window := u.window || v.window }

def needsMath (u : Usage) : Bool := u.sqrt || u.pow

end Usage

end Pseudocode
