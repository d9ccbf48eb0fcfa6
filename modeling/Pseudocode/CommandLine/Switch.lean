import Pseudocode.Text

/-! # Commands and their options -/
namespace Pseudocode.CommandLine

/-- The options, of which some take a value. -/
inductive Switch
  | verbose
  | help
  | version
  | target
  | output
  | emit
  | strict
  | loose
  | settings
  deriving DecidableEq, Repr

namespace Switch

def long : Switch → Text
  | verbose => "verbose"
  | help => "help"
  | version => "version"
  | target => "target"
  | output => "output"
  | emit => "emit"
  | strict => "strict"
  | loose => "loose"
  | settings => "config"

def short? : Switch → Option Char
  | verbose => some 'v'
  | help => some 'h'
  | version => some 'V'
  | target => some 't'
  | output => some 'o'
  | emit | strict | loose | settings => none

def takesValue : Switch → Bool
  | target | output | emit | settings => true
  | verbose | help | version | strict | loose => false

end Switch

inductive Verb
  | compile
  | check
  | info
  deriving DecidableEq, Repr

namespace Verb

def all : List Verb := [compile, check, info]

def name : Verb → Text
  | compile => "compile"
  | check => "check"
  | info => "info"

def switches : Verb → List Switch
  | compile => [.target, .output, .emit, .strict, .loose, .settings, .verbose, .help]
  | check => [.target, .settings, .verbose, .help]
  | info => [.verbose, .help]

/-- The number of file names that the command takes, all of which are needed. -/
def files : Verb → Nat
  | compile | check => 1
  | info => 0

end Verb

end Pseudocode.CommandLine
