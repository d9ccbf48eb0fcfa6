import Pseudocode.Statement
import Pseudocode.Target

/-! # Reading a statement

What form a statement has, and what it says. Both depend on the target language only through the
types that it knows, its connectives, and whether it can draw. -/
namespace Pseudocode.Statement

/-- The form of a statement. An assignment may have a keyword on its left. A drawing keyword means
nothing to a language without drawing, and a type name starts a declaration. -/
def form (t : Target) (s : Statement) : Form :=
  if s.isComment then .comment
  else if s.isBlank then .blank
  else if s.isAssignment then .other
  else
    match Form.ofKeyword? s.head with
    | some (.draw op) => if t.hasDrawing then .draw op else .other
    | some form => form
    | none => if t.vocabulary.declares s.head then .declaration else .other

def declaration (type : Text) : List Text → Phrase
  | name :: ['='] :: value => .declare type [name] (some (Text.unwords value))
  | names => .declare type names none

/-- The phrase of a statement of the given form. A statement whose arguments do not fit its form is
left as it stands. The phrase of `end` is that of the block it closes, which is not known here. -/
def phrase (t : Target) (s : Statement) : Form → Phrase
  | .blank | .functionBody | .blockEnd => .nothing
  | .comment => .comment s.argText
  | .declaration => declaration (t.vocabulary.spell s.head) s.args
  | .forRange =>
    match s.args with
    | [var, first, limit] => .forRange var first limit none
    | [var, first, limit, step] => .forRange var first limit (some step)
    | _ => .verbatim s.text
  | .forEach =>
    match s.args with
    | [type, name, source] => .forEach (.ofPair type name) source
    | _ => .verbatim s.text
  | .whileCond => .whileCond (t.connectives.condition s.args)
  | .ifCond => .ifCond (t.connectives.condition s.args)
  | .elseIf => .elseIf (t.connectives.condition s.args)
  | .otherwise => .otherwise
  | .switch => .switch s.argText
  | .case => .case s.argText
  | .default => .default
  | .print => .print (printItems s.args)
  | .input => .input s.argText
  | .function =>
    match s.args with
    | result :: name :: params =>
      .function name (if result = ("void" : Text) then none else some (.ofWord result))
        (Parameter.readAll params)
    | _ => .verbatim s.text
  | .returns => .returns s.argText
  | .array =>
    match s.args with
    | element :: name :: dims => .array element name dims
    | _ => .verbatim s.text
  | .record =>
    match s.args with
    | name :: fields => .record name (Parameter.readAll fields)
    | [] => .verbatim s.text
  | .init =>
    match s.args with
    | record :: var :: fields => .init record var (pairUp fields)
    | _ => .verbatim s.text
  | .quit => .quit s.argText
  | .note kind => .note kind s.argText
  | .draw _ | .other => .verbatim s.text

end Pseudocode.Statement
