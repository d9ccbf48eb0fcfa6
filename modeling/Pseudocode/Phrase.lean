import Pseudocode.Form
import Pseudocode.TypeTerm

/-! # Phrases

A phrase is what one statement says, in the parts that every target language puts into words of its
own. -/
namespace Pseudocode

inductive Phrase
  | nothing
  | comment (text : Text)
  | declare (type : Text) (names : List Text) (value : Option Text)
  | forRange (var first limit : Text) (step : Option Text)
  | forEach (item : Parameter) (source : Text)
  | whileCond (condition : Text)
  | ifCond (condition : Text)
  | elseIf (condition : Text)
  | otherwise
  | switch (value : Text)
  | case (value : Text)
  | default
  | blockEnd (kind : BlockKind)
  | print (args : List Text)
  | input (var : Text)
  | function (name : Text) (result : Option TypeTerm) (params : List Parameter)
  | returns (value : Text)
  | array (element name : Text) (dims : List Text)
  | record (name : Text) (fields : List Parameter)
  | init (record var : Text) (fields : List (Text × Text))
  | quit (code : Text)
  | note (kind : NoteKind) (text : Text)
  | verbatim (text : Text)
  deriving DecidableEq, Repr

/-- The newline token, which may stand inside a string literal as well as alone. -/
def newlineToken : Text := "(ENDL)"

/-- The values that a `print` statement shows. Ampersands part them, and empty ones are dropped. -/
def printItems (words : List Text) : List Text :=
  ((pieces ("&" : Text) words).filter (!·.isEmpty)).map Text.unwords

/-- How a language writes "and", "or" and "not". -/
structure Connectives where
  conj : Text
  disj : Text
  neg : Text
  deriving DecidableEq, Repr

namespace Connectives

def source : Connectives := ⟨"ET", "OU", "NON"⟩

/-- The spelling of a connective of the pseudocode. -/
def spelling? (c : Connectives) (word : Text) : Option Text :=
  if word = source.conj then some c.conj
  else if word = source.disj then some c.disj
  else if word = source.neg then some c.neg
  else none

/-- Respells a word that is a connective, apart from parentheses around it, which stay. -/
def respell (c : Connectives) (word : Text) : Text :=
  let opening := word.takeWhile (· == '(')
  let rest := word.dropWhile (· == '(')
  let core := (rest.reverse.dropWhile (· == ')')).reverse
  let closing := rest.reverse.takeWhile (· == ')')
  match c.spelling? core with
  | some spelling => opening ++ spelling ++ closing
  | none => word

def condition (c : Connectives) (words : List Text) : Text := Text.unwords (words.map c.respell)

end Connectives

namespace Drawing

/-- The path and the variable of an `img` statement that stores the image: an arrow stands before
the last argument. -/
def imageTarget? (args : List Text) : Option (List Text × Text) :=
  match args.reverse with
  | var :: arrow :: path =>
    if (arrow = ("->" : Text) ∨ arrow = ("<-" : Text)) ∧ path ≠ [] then some (path.reverse, var)
    else none
  | _ => none

end Drawing

end Pseudocode
