import Pseudocode.Phrase
import Pseudocode.Vocabulary

/-! # Target languages -/
namespace Pseudocode

inductive Target
  | python
  | cpp
  | algorithmic
  deriving DecidableEq, Repr, Inhabited

/-- A name that no target has, in lower case. -/
structure UnknownTarget where
  name : Text
  deriving DecidableEq, Repr

namespace UnknownTarget

def message (e : UnknownTarget) : Text := "unknown target `" ++ e.name ++ "`"

end UnknownTarget

namespace Target

def all : List Target := [python, cpp, algorithmic]

def name : Target → Text
  | python => "python"
  | cpp => "cpp"
  | algorithmic => "algorithmic"

def extension : Target → Text
  | python => "py"
  | cpp => "cpp"
  | algorithmic => "algo"

/-- Names and short names of the targets. -/
def names : List (Text × Target) :=
  [("python", python), ("py", python), ("cpp", cpp), ("c++", cpp),
   ("algorithmic", algorithmic), ("algo", algorithmic)]

/-- Reads a name in any mixture of upper and lower case. -/
def ofName (name : Text) : Except UnknownTarget Target :=
  match names.lookup name.lower with
  | some target => .ok target
  | none => .error ⟨name.lower⟩

/-- Whether lines that are no instructions are refused unless an option says otherwise. -/
def usuallyStrict : Target → Bool
  | cpp => true
  | python | algorithmic => false

def hasDrawing : Target → Bool
  | cpp | algorithmic => true
  | python => false

def vocabulary : Target → Vocabulary
  | python =>
    { entries := [("int", "int"), ("float", "float"), ("string", "str"), ("bool", "bool"),
        ("char", "str")]
      unset := "None", sequence := "list", noResult := "None" }
  | cpp =>
    { entries := [("int", "int"), ("float", "float"), ("string", "string"), ("bool", "bool"),
        ("char", "char"), ("image", "Image")]
      unset := "\x7b\x7d", sequence := "auto", noResult := "void" }
  | algorithmic =>
    { entries := [("int", "entier"), ("float", "réel"), ("string", "chaîne de caractères"),
        ("bool", "booléen"), ("char", "caractère"), ("image", "Image")]
      unset := "", sequence := "Tableau", noResult := "" }

def connectives : Target → Connectives
  | python => ⟨"and", "or", "not"⟩
  | cpp => ⟨"&&", "||", "!"⟩
  | algorithmic => .source

/-- Calls that have another name in the target language, in the order of their replacement. -/
def renamedCalls : Target → List (Text × Text)
  | python => [("puissance(", "pow("), ("racine(", "sqrt("), ("aleatoire(", "random(")]
  | cpp =>
    [("puissance(", "pow("), ("racine(", "sqrt("),
     ("aleatoire(", "((double) rand() / RAND_MAX"), ("wdisplay(", "winDisplay("),
     ("etime(", "elapsedTime(")]
  | algorithmic => [("wdisplay(", "AfficherFenêtre("), ("etime(", "TempsÉcoulé(")]

/-- What stands for the newline token in the output. -/
def newlineSpelling : Target → Text
  | _ => ['\\', 'n']

/-- Replaces the renamed calls, one after the other, and then the newline tokens. -/
def rename (t : Target) (text : Text) : Text :=
  let renamed := t.renamedCalls.foldl (fun text entry => Text.replace entry.1 entry.2 text) text
  Text.replace newlineToken t.newlineSpelling renamed

end Target

end Pseudocode
