import Pseudocode.CommandLine.Report

/-! # The command

Reads the files that the command line asks for, runs it, and carries out its report. -/
namespace Pseudocode.CommandLine

/-- The content of a file, under its plain path. A file that may not be read is there all the
same. -/
def loadFile (path : Text) : IO (List (Text × Content)) := do
  let named := fun content => (Folder.resolve? path).toList.map fun name => (name, content)
  try
    return named (.ofBytes (← IO.FS.readBinFile (String.ofList path)))
  catch
    | .permissionDenied .. => return named .unreadable
    | _ => return []

/-- The files that a command line may read. Whether its output can be written is found out by
writing it. -/
def loadFolder (words : List Text) : IO Folder := do
  let files ← (inputs words).mapM loadFile
  return ⟨files.flatten, (output? words).toList.map Folder.parent⟩

def printProblem (problem : Problem) : IO UInt32 := do
  IO.eprintln ("Error: " ++ String.ofList problem.message)
  return problem.exitCode.toUInt32

def save : Option (Text × Text) → IO (Option Problem)
  | none => return none
  | some (path, content) => do
    try
      IO.FS.writeFile (String.ofList path) (String.ofList content)
      return none
    catch _ => return some (.outputUnwritable path)

def printLog (log : List Text) : IO Unit :=
  log.forM fun line => IO.eprintln (" INFO alc: " ++ String.ofList line)

/-- Carries out a report. The last line of its log says that the file is saved, if there is one to
save, and is left out when that fails. -/
def carryOut (report : Report) : IO UInt32 := do
  match ← save report.saved? with
  | some problem =>
    printLog report.log.dropLast
    printProblem problem
  | none =>
    printLog report.log
    IO.print (String.ofList report.stdout)
    match report.problem? with
    | some problem => printProblem problem
    | none => return 0

end Pseudocode.CommandLine

def main (args : List String) : IO UInt32 := do
  let words := args.map String.toList
  let folder ← Pseudocode.CommandLine.loadFolder words
  Pseudocode.CommandLine.carryOut (Pseudocode.CommandLine.run folder words)
