import Pseudocode.Text

/-! # Patterns

A pattern matches some texts and not others. What is left to match behind a character is a pattern
again, so a text is matched one character at a time. -/
namespace Pseudocode

inductive Pattern
  | nothing
  | empty
  | char (isIn : Char → Bool)
  | seq (first second : Pattern)
  | either (first second : Pattern)
  | many (each : Pattern)

namespace Pattern

def oneOrMore (each : Pattern) : Pattern := seq each (many each)

/-- The sequence of two patterns, written without parts that match nothing or only the empty
text. -/
def before : Pattern → Pattern → Pattern
  | nothing, _ => nothing
  | empty, second => second
  | first, second => seq first second

/-- The choice of two patterns, written without one that matches nothing. -/
def orElse : Pattern → Pattern → Pattern
  | nothing, second => second
  | first, nothing => first
  | first, second => either first second

def isNothing : Pattern → Bool
  | nothing => true
  | _ => false

def matchesEmpty : Pattern → Bool
  | nothing | char _ => false
  | empty | many _ => true
  | seq first second => first.matchesEmpty && second.matchesEmpty
  | either first second => first.matchesEmpty || second.matchesEmpty

/-- What is left to match behind a character. -/
def behind (c : Char) : Pattern → Pattern
  | nothing | empty => nothing
  | char isIn => if isIn c then empty else nothing
  | seq first second =>
    let later := (first.behind c).before second
    if first.matchesEmpty then later.orElse (second.behind c) else later
  | either first second => (first.behind c).orElse (second.behind c)
  | many each => (each.behind c).before (many each)

/-- The length of the longest match at the front of a text. -/
def longest? (p : Pattern) : Text → Option Nat
  | [] => if p.matchesEmpty then some 0 else none
  | c :: cs =>
    let rest := p.behind c
    -- nothing further can match, so the text is not read to its end
    let further := if rest.isNothing then none else rest.longest? cs
    match further with
    | some n => some (n + 1)
    | none => if p.matchesEmpty then some 0 else none

end Pattern

end Pseudocode
