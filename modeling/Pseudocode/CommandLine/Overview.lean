import Pseudocode.CommandLine.Arguments

/-! # Version, overview and help -/
namespace Pseudocode.CommandLine

def version : Text := "0.4.0"

def versionLine : Text := "alc " ++ version ++ "\n"

/-- A target, with the types that can be declared in it. -/
def targetLines (t : Target) : List Text :=
  ("  " ++ t.name ++ " (." ++ t.extension ++ ", " ++
    (if t.usuallyStrict then ("strict" : Text) else "loose") ++
    Text.when t.hasDrawing ", graphics" ++ ")") ::
  t.vocabulary.entries.map fun entry => "    " ++ entry.1.padRight 8 ++ " -> " ++ entry.2

def overview : Text :=
  let head : List Text := ["Algoline compiler v" ++ version, "", "Targets:"]
  let instructions : List Text :=
    ["", "Instructions:", "  " ++ Text.unwords (Form.keywords.map fun entry => entry.1)]
  (head ++ Target.all.flatMap targetLines ++ instructions).flatMap fun line => line ++ "\n"

def Switch.describe : Switch → Text
  | .verbose => "Enable verbose output"
  | .help => "Print help"
  | .version => "Print version"
  | .target => "Target language: python, cpp or algo"
  | .output => "Output file (stdout when absent)"
  | .emit => "Emit an intermediate form instead of the program: lines"
  | .strict => "Reject lines that are not instructions"
  | .loose => "Pass unknown lines through unchanged"
  | .settings => "Configuration file"

def Verb.describe : Verb → Text
  | .compile => "Compile a DSL source file"
  | .check => "Check a DSL source file without writing output"
  | .info => "Show information about the compiler"

def switchLine (s : Switch) : Text :=
  let short : Text := s.short?.elim "    " fun c => ['-', c, ',', ' ']
  "  " ++ short ++ "--" ++ s.long.padRight 8 ++ "  " ++ s.describe

def verbLine (v : Verb) : Text := "  " ++ v.name.padRight 7 ++ "  " ++ v.describe

/-- The lines above the list of options. -/
def helpHead : Option Verb → List Text
  | none =>
    let head : List Text := ["Compiler for the algorithmic pseudocode DSL", "",
      "Usage: alc [OPTIONS] <COMMAND>", "", "Commands:"]
    head ++ Verb.all.map verbLine
  | some v =>
    [v.describe, "", "Usage: alc " ++ v.name ++ " [OPTIONS]" ++ Text.when (0 < v.files) " <FILE>"]

def help (verb? : Option Verb) : Text :=
  let switches := verb?.elim Grammar.top.switches Verb.switches
  let options : List Text := ["", "Options:"]
  (helpHead verb? ++ options ++ switches.map switchLine).flatMap fun line => line ++ "\n"

end Pseudocode.CommandLine
