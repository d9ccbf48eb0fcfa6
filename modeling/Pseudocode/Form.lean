import Pseudocode.Arity
import Pseudocode.Block

/-! # Forms of statements

The first word of a line says of which form the statement is. -/
namespace Pseudocode

inductive NoteKind
  | preconditions
  | data
  | dataResults
  | results
  | description
  | locals
  | constants
  deriving DecidableEq, Repr

namespace NoteKind

def label : NoteKind → Text
  | preconditions => "Préconditions"
  | data => "Données"
  | dataResults => "Données/Résultats"
  | results => "Résultats"
  | description => "Description"
  | locals => "Variables locales"
  | constants => "Constantes"

end NoteKind

inductive Drawing
  | openWindow
  | clearWindow
  | showWindow
  | quitWindow
  | color
  | background
  | waitSpace
  | circle
  | disc
  | line
  | rectangle
  | filledRectangle
  | pixel
  | delay
  | image
  deriving DecidableEq, Repr

namespace Drawing

/-- Name of the function of the drawing library. -/
def libraryCall : Drawing → Text
  | openWindow => "winInit"
  | clearWindow => "winClear"
  | showWindow => "winDisplay"
  | quitWindow => "winQuit"
  | color => "color"
  | background => "backgroundColor"
  | waitSpace => "pressSpace"
  | circle => "circle"
  | disc => "circleFill"
  | line => "line"
  | rectangle => "rectangle"
  | filledRectangle => "rectangleFill"
  | pixel => "put_pixel"
  | delay => "delay"
  | image => "image"

def arity : Drawing → Arity
  | openWindow => .exactly 3
  | clearWindow | showWindow | quitWindow | waitSpace => .any
  | color | background => .exactly 3
  | circle | disc => .exactly 3
  | line | rectangle | filledRectangle => .exactly 4
  | pixel => .between 5 6
  | delay => .exactly 1
  | image => .atLeast 1

end Drawing

inductive Form
  | blank
  | comment
  | declaration
  | forRange
  | forEach
  | whileCond
  | ifCond
  | elseIf
  | otherwise
  | switch
  | case
  | default
  | blockEnd
  | print
  | input
  | function
  | functionBody
  | returns
  | array
  | record
  | init
  | quit
  | note (kind : NoteKind)
  | draw (op : Drawing)
  | other
  deriving DecidableEq, Repr

namespace Form

def blockKeywords : List (Text × Form) :=
  [("for", forRange), ("foreach", forEach), ("while", whileCond), ("if", ifCond),
   ("elif", elseIf), ("else", otherwise), ("switch", switch), ("case", case),
   ("default", default), ("end", blockEnd)]

def dataKeywords : List (Text × Form) :=
  [("print", print), ("input", input), ("fx", function), ("fx_start", functionBody),
   ("return", returns), ("arr", array), ("struct", record), ("init", init),
   ("CODE_RETOUR", quit)]

def noteKeywords : List (Text × Form) :=
  [("precond", note .preconditions), ("data", note .data), ("datar", note .dataResults),
   ("result", note .results), ("desc", note .description), ("vars", note .locals),
   ("const", note .constants)]

def drawKeywords : List (Text × Form) :=
  [("winit", draw .openWindow), ("wclear", draw .clearWindow), ("wdisplay", draw .showWindow),
   ("wquit", draw .quitWindow), ("color", draw .color), ("bcolor", draw .background),
   ("pspace", draw .waitSpace), ("circle", draw .circle), ("circlef", draw .disc),
   ("line", draw .line), ("rect", draw .rectangle), ("rectf", draw .filledRectangle),
   ("ppixel", draw .pixel), ("delay", draw .delay), ("img", draw .image)]

/-- The keywords and their forms, in the order in which they are listed to the user. -/
def keywords : List (Text × Form) := blockKeywords ++ dataKeywords ++ noteKeywords ++ drawKeywords

def ofKeyword? (word : Text) : Option Form := keywords.lookup word

def keywordIndex? (word : Text) : Option Nat := keywords.findIdx? fun entry => entry.1 == word

/-- Whether the lines that follow are one level deeper than the statement. -/
def opensBlock : Form → Bool
  | forRange | forEach | whileCond | ifCond | elseIf | otherwise | switch | case | default
  | function => true
  | _ => false

/-- Whether the statement gives the block around it a body. Remarks do not, definitions stand
outside of the block, and a branch or an `end` belongs to the block itself. -/
def givesBody : Form → Bool
  | blank | comment | note _ | functionBody | record | function | elseIf | otherwise
  | blockEnd => false
  | _ => true

end Form

end Pseudocode
