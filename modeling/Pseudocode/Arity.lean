import Pseudocode.Text

/-! # Numbers of arguments -/
namespace Pseudocode

/-- How many arguments a statement takes: at least `least`, and at most `most` if there is one. -/
structure Arity where
  least : Nat
  most : Option Nat
  deriving DecidableEq, Repr

namespace Arity

def exactly (n : Nat) : Arity := ⟨n, some n⟩

def between (lo hi : Nat) : Arity := ⟨lo, some hi⟩

def atLeast (n : Nat) : Arity := ⟨n, none⟩

def any : Arity := atLeast 0

def accepts (a : Arity) (n : Nat) : Bool := a.least ≤ n && a.most.all (n ≤ ·)

def describe (a : Arity) : Text :=
  match a.most with
  | none => "at least " ++ Text.number a.least
  | some most =>
    if most = a.least then Text.number most
    else Text.number a.least ++ "/" ++ Text.number most

end Arity

end Pseudocode
