import Pseudocode.Handling

/-! # Compilation

A source text is compiled line by line. All faults are collected, and the program is written if
there is none. -/
namespace Pseudocode

/-- Choices of the user: one unit of indentation, and whether lines that are no instructions are
refused. Without a choice the target language decides. -/
structure Options where
  unit : Text := "    "
  strict? : Option Bool := none
  deriving DecidableEq, Repr

namespace Setup

def ofOptions (target : Target) (options : Options) : Setup :=
  ⟨target, options.unit, options.strict?.getD target.usuallyStrict⟩

end Setup

/-- The output of every source line, the faults in the order of their discovery, and the features
that the program uses. -/
structure Compilation where
  lines : List OutputLine
  faults : List Fault
  usage : Usage
  deriving DecidableEq, Repr

namespace Compilation

def ofSource (setup : Setup) (source : Text) : Compilation :=
  let (p, outcomes) := Progress.run setup {} (SourceLine.ofSource source)
  let lines := outcomes.map Outcome.line
  { lines := lines
    faults := outcomes.filterMap Outcome.fault? ++ (p.unclosed? lines).toList
    usage := (Usage.ofSource source).union p.usage }

def program (c : Compilation) : Program := .ofLines c.lines c.usage

/-- The program text, or the first fault. -/
def result (setup : Setup) (c : Compilation) : Except Fault Text :=
  match c.faults with
  | fault :: _ => .error fault
  | [] => .ok (setup.target.compose c.program setup.unit)

end Compilation

def compile (target : Target) (options : Options) (source : Text) : Except Fault Text :=
  let setup := Setup.ofOptions target options
  (Compilation.ofSource setup source).result setup

/-- A compilation under way, to which lines are given one by one. -/
structure Session where
  setup : Setup
  progress : Progress := {}
  lines : List OutputLine := []
  faults : List Fault := []
  deriving DecidableEq, Repr

namespace Session

def feed (s : Session) (line : SourceLine) : Session :=
  let (p, outcome) := s.progress.step s.setup line
  { s with
    progress := p
    lines := s.lines ++ [outcome.line]
    faults := s.faults ++ outcome.fault?.toList }

/-- Reports a block that is still open. The session can go on, and report it again. -/
def finish (s : Session) : Session :=
  { s with faults := s.faults ++ (s.progress.unclosed? s.lines).toList }

def reset (s : Session) : Session := { setup := s.setup }

def compose (s : Session) : Text :=
  s.setup.target.compose (.ofLines s.lines s.progress.usage) s.setup.unit

end Session

end Pseudocode
