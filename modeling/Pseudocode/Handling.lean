import Pseudocode.Progress
import Pseudocode.Reading
import Pseudocode.Target.Spelling

/-! # Handling of lines

Lines are taken in one at a time. Every form of statement has a handler, which checks the statement
and changes the progress as it goes along. A check that fails ends the handling of the line, and the
progress stays as the handler has left it by then. -/
namespace Pseudocode

/-- Whether a line that is no instruction is passed on even in strict mode: assignments are, and
calls. -/
def Statement.isPlain (s : Statement) : Bool := s.isAssignment || s.head.contains '('

/-- The handling of a statement. It changes the progress, and a cause ends it. -/
abbrev Handling := EStateM Cause Progress

namespace Handling

def require (holds : Bool) (cause : Cause) : Handling Unit :=
  if holds then pure () else throw cause

def requireCount (s : Statement) (arity : Arity) : Handling Unit :=
  require (arity.accepts s.args.length) (.argumentCount s.head arity s.args.length)

/-- A branch belongs to the innermost block. -/
def requireIf (s : Statement) : Handling Unit := do
  let p ← get
  require (p.nesting.topKind? == some .ifElse) (.misplaced s.head .notInIf)

/-- A case may be anywhere inside a `switch`. -/
def requireSwitch (s : Statement) : Handling Unit := do
  let p ← get
  require (p.nesting.contains .switch) (.misplaced s.head .notInSwitch)

def giveBody : Handling Unit := modify fun p => { p with nesting := p.nesting.giveBody }

def openBlock (s : Statement) (kind : BlockKind) : Handling Unit :=
  modify fun p => { p with nesting := p.nesting.push kind s.line.index }

def closeBlock : Handling (Option Block) :=
  modifyGet fun p =>
    match p.nesting with
    | [] => (none, p)
    | b :: outer => (some b, { p with nesting := outer })

/-- Starts another branch of the innermost block, and tells whether the last one had a body. -/
def startBranch : Handling Bool :=
  modifyGet fun p => (p.nesting.hasBody, { p with nesting := p.nesting.startBranch })

section Handlers

variable (setup : Setup) (s : Statement)

def spelled (form : Form) : Text := setup.target.spell (s.phrase setup.target form)

/-- The handler of the forms that are only counted. -/
def counted (form : Form) (arity : Arity) : Handling Text := do
  requireCount s arity
  return spelled setup s form

/-- The handler of the forms that are counted and open a block. -/
def opening (form : Form) (arity : Arity) (kind : BlockKind) : Handling Text := do
  requireCount s arity
  openBlock s kind
  return spelled setup s form

/-- Behind an equals sign a declaration has a value. -/
def declaration : Handling Text := do
  requireCount s (.atLeast 1)
  if s.args[1]? = some ['='] then
    requireCount s (.atLeast 3)
  return spelled setup s .declaration

/-- The header of a branch. In a language where a branch needs a statement, one is put in front of
the header, a level deeper, if the branch before it has none. -/
def branch (header : Text) : Handling Text := do
  if ← startBranch then
    return header
  match setup.target.emptyBody? .ifElse with
  | some body => return body.deeper ++ "\n" ++ header
  | none => return header

def elseIf : Handling Text := do
  requireIf s
  requireCount s (.atLeast 1)
  branch setup (spelled setup s .elseIf)

def otherwise : Handling Text := do
  requireIf s
  branch setup (spelled setup s .otherwise)

def case : Handling Text := do
  requireSwitch s
  opening setup s .case (.atLeast 1) .case

def default : Handling Text := do
  requireSwitch s
  openBlock s .default
  return spelled setup s .default

/-- A block without a statement gets one if the language needs it. -/
def blockEnd : Handling Text := do
  match ← closeBlock with
  | none => throw .strayEnd
  | some b =>
    modify fun p => { p with closed? := some b.kind }
    let text := setup.target.spell (.blockEnd b.kind)
    if b.hasBody then
      return text
    match setup.target.emptyBody? b.kind with
    | none => return text
    | some body => return if text.isEmpty then body.deeper else body.deeper ++ "\n" ++ text

/-- A function without a result is a procedure. -/
def function : Handling Text := do
  let kind := if s.args.head? = some ("void" : Text) then BlockKind.procedure else .function
  opening setup s .function (.atLeast 2) kind

def returns : Handling Text := do
  let p ← get
  require (!p.nesting.contains .procedure) (.misplaced s.head .withinProcedure)
  require (p.nesting.contains .function) (.misplaced s.head .notInFunction)
  return spelled setup s .returns

def array : Handling Text := do
  require (3 ≤ s.args.length) (.incomplete s.head "does not have all its parameters set")
  return spelled setup s .array

def record : Handling Text := do
  requireCount s (.atLeast 1)
  modify fun p => { p with usage := { p.usage with records := true } }
  return spelled setup s .record

def other : Handling Text := do
  require (s.isPlain || !setup.strict) (.unknownHead s.head)
  return spelled setup s .other

/-- A drawing that the language does not have is a line like any other. -/
def draw (op : Drawing) : Handling Text := do
  let p ← get
  require (op == .openWindow || p.hasWindow) (.noWindow s.head)
  requireCount s op.arity
  if op = .openWindow then
    modify fun p => { p with hasWindow := true, usage := { p.usage with window := true } }
  match setup.target.drawing? op s.args with
  | some text => return text
  | none => other setup s

def handle (form : Form) : Handling Text :=
  match form with
  | .blank | .functionBody | .comment | .print | .note _ => return spelled setup s form
  | .declaration => declaration setup s
  | .forRange => opening setup s form (.between 3 4) .forRange
  | .forEach => opening setup s form (.exactly 3) .forEach
  | .whileCond => opening setup s form (.atLeast 1) .whileCond
  | .ifCond => opening setup s form (.atLeast 1) .ifElse
  | .switch => opening setup s form (.atLeast 1) .switch
  | .elseIf => elseIf setup s
  | .otherwise => otherwise setup s
  | .case => case setup s
  | .default => default setup s
  | .blockEnd => blockEnd setup
  | .input | .quit => counted setup s form (.exactly 1)
  | .init => counted setup s form (.atLeast 2)
  | .function => function setup s
  | .returns => returns setup s
  | .array => array setup s
  | .record => record setup s
  | .draw op => draw setup s op
  | .other => other setup s

/-- Handles a statement and puts its text where the progress behind it says. A statement counts for
the block around it before anything is checked. -/
def line : Handling OutputLine := do
  let form := s.form setup.target
  if form.givesBody then
    giveBody
  let text ← handle setup s form
  let p ← get
  return p.place setup form text s.line.range

end Handlers

end Handling

namespace Progress

def step (setup : Setup) (p : Progress) (line : SourceLine) : Progress × Outcome :=
  match Statement.ofLine line with
  | .error fault => (p, ⟨.empty line.range, some fault⟩)
  | .ok s =>
    match (Handling.line setup s).run p with
    | .ok output q => (q, ⟨output, none⟩)
    | .error cause q => (q, ⟨.empty line.range, some ⟨line.number, line.range, cause⟩⟩)

def run (setup : Setup) (p : Progress) : List SourceLine → Progress × List Outcome
  | [] => (p, [])
  | line :: lines =>
    let (p₁, outcome) := p.step setup line
    let (p₂, outcomes) := p₁.run setup lines
    (p₂, outcome :: outcomes)

end Progress

end Pseudocode
