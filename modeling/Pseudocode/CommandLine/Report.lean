import Pseudocode.CommandLine.Folder
import Pseudocode.CommandLine.Overview
import Pseudocode.Listing
import Pseudocode.Settings
import Pseudocode.Text.Terminal

/-! # Running a command

What a command prints, logs and saves is a function of its arguments and of the files it sees. -/
namespace Pseudocode.CommandLine

inductive Problem
  | usage (e : UsageError)
  | settingsUnreadable (path : Text)
  | settingsInvalid (path : Text)
  | sourceUnreadable (path : Text)
  | outputUnwritable (path : Text)
  | fault (f : Fault)
  deriving DecidableEq, Repr

namespace Problem

def message : Problem → Text
  | usage e => e.message
  | settingsUnreadable path => "cannot read config file " ++ path
  | settingsInvalid path => "invalid config file " ++ path
  | sourceUnreadable path => "Failed to read input file: " ++ path
  | outputUnwritable path => "cannot write " ++ path
  | fault f => f.message

/-- A command line that cannot be read ends with another code than a command that fails. -/
def exitCode : Problem → Nat
  | usage _ => 2
  | _ => 1

end Problem

structure Report where
  stdout : Text := []
  log : List Text := []
  problem? : Option Problem := none
  /-- The path and the content of the file that is saved. -/
  saved? : Option (Text × Text) := none
  deriving DecidableEq, Repr

namespace Report

def exitCode (r : Report) : Nat := r.problem?.elim 0 Problem.exitCode

def failure (log : List Text) (problem : Problem) : Report :=
  { log := log, problem? := some problem }

def filesAfter (r : Report) (folder : Folder) : Folder :=
  r.saved?.elim folder fun file => folder.write file.1 file.2

end Report

/-- The settings file that is looked for if none is named. -/
def settingsFile : Text := "algoline.toml"

def loadSettings (folder : Folder) (path : Text) : Except Problem Settings :=
  match folder.read? path with
  | none => .error (.settingsUnreadable path)
  | some content =>
    match Settings.ofText? content with
    | some settings => .ok settings
    | none => .error (.settingsInvalid path)

/-- The settings from the file that is named, or else from the usual file if it is there. -/
def findSettings (folder : Folder) : Option Text → Except Problem Settings
  | some path => loadSettings folder path
  | none => if folder.hasFile settingsFile then loadSettings folder settingsFile else .ok {}

/-- The setup of a compilation: options on the command line come before settings. -/
def chooseSetup (target? : Option Target) (strict? : Option Bool) (settings : Settings) : Setup :=
  let options := settings.options
  .ofOptions (target?.getD settings.target) { options with strict? := strict?.or options.strict? }

/-- The outcome of a compilation without faults. -/
def deliver (folder : Folder) (log : List Text) (text : Text) : Option Text → Report
  | none => { stdout := text, log := log }
  | some path =>
    if folder.canWrite path then { log := log ++ ["Wrote " ++ path], saved? := some (path, text) }
    else .failure log (.outputUnwritable path)

def runCompile (folder : Folder) (r : CompileRequest) : Report :=
  match findSettings folder r.settings? with
  | .error problem => .failure [] problem
  | .ok settings =>
    let setup := chooseSetup r.target? r.strict? settings
    let log : List Text := ["Compiling " ++ r.input.quotedName ++ " to " ++ setup.target.name]
    match folder.read? r.input with
    | none => .failure log (.sourceUnreadable r.input)
    | some source =>
      let compilation := Compilation.ofSource setup source
      if r.emitLines then { stdout := Listing.document compilation.lines ++ "\n", log := log }
      else
        match compilation.result setup with
        | .error fault => .failure log (.fault fault)
        | .ok text => deliver folder log text r.output?

def furtherFaults (n : Nat) : List Text :=
  if n = 0 then [] else [Text.number n ++ " more error(s) after the first"]

def runCheck (folder : Folder) (r : CheckRequest) : Report :=
  match findSettings folder r.settings? with
  | .error problem => .failure [] problem
  | .ok settings =>
    let setup := chooseSetup r.target? none settings
    let log : List Text := ["Checking " ++ r.input.quotedName ++ " for " ++ setup.target.name]
    match folder.read? r.input with
    | none => .failure log (.sourceUnreadable r.input)
    | some source =>
      let compilation := Compilation.ofSource setup source
      match compilation.result setup with
      | .error fault =>
        .failure (log ++ furtherFaults (compilation.faults.length - 1)) (.fault fault)
      | .ok _ => { stdout := "All checks passed: " ++ r.input ++ "\n", log := log }

def runCommand (folder : Folder) : Command → Report
  | .compile request => runCompile folder request
  | .check request => runCheck folder request
  | .info => { stdout := overview }

/-- Runs a command. Its log is kept only if it is asked for, as text for a terminal. -/
def runInvocation (folder : Folder) (i : Invocation) : Report :=
  let report := runCommand folder i.command
  let log : List Text := "Verbose mode enabled" :: report.log
  { report with log := if i.verbose then log.map Text.forTerminal else [] }

def runStop : Stop → Report
  | .usage e => .failure [] (.usage e)
  | .help verb? => { stdout := help verb? }
  | .version => { stdout := versionLine }

def run (folder : Folder) (words : List Text) : Report :=
  match Invocation.ofWords words with
  | .ok invocation => runInvocation folder invocation
  | .error stop => runStop stop

/-- The files that a command line may read. -/
def inputs (words : List Text) : List Text :=
  match Invocation.ofWords words with
  | .ok ⟨_, .compile r⟩ => [r.settings?.getD settingsFile, r.input]
  | .ok ⟨_, .check r⟩ => [r.settings?.getD settingsFile, r.input]
  | _ => []

def output? (words : List Text) : Option Text :=
  match Invocation.ofWords words with
  | .ok ⟨_, .compile r⟩ => r.output?
  | _ => none

end Pseudocode.CommandLine
