import Pseudocode.Text

/-! # Files

The files that a command can see, by their paths from the working directory. -/
namespace Pseudocode

inductive Content
  | text (t : Text)
  | unreadable
  deriving DecidableEq, Repr

namespace Content

def ofBytes (bytes : ByteArray) : Content :=
  match String.fromUTF8? bytes with
  | some s => .text s.toList
  | none => .unreadable

def text? : Content → Option Text
  | text t => some t
  | unreadable => none

end Content

/-- The files and their contents, and the directories beside the working directory in which files
can be made. -/
structure Folder where
  files : List (Text × Content)
  directories : List Text := []
  deriving DecidableEq, Repr

namespace Folder

/-- The parts of a path, without those that lead nowhere. -/
def steps (path : Text) : List Text :=
  (pieces '/' path).filter fun step => step ≠ [] ∧ step ≠ ['.']

/-- The plain spelling of a path, from the root if it starts with a slash. -/
def plain (path : Text) : Text :=
  let rest := List.intercalate ['/'] (steps path)
  if path.head? = some '/' then '/' :: rest else rest

/-- The plain spelling of the path of a file. A path whose last part is empty or made of dots is
that of a directory. -/
def resolve? (path : Text) : Option Text :=
  match (pieces '/' path).getLast? with
  | none | some [] | some ['.'] | some ['.', '.'] => none
  | some _ => some (plain path)

/-- The directory of a file, which is empty for the working directory. -/
def parent (path : Text) : Text := plain (List.intercalate ['/'] (pieces '/' path).dropLast)

/-- The directories on the way to a file. -/
def ancestors (path : Text) : List Text :=
  let way := (steps path).dropLast
  (List.range way.length).map fun n => List.intercalate ['/'] (way.take (n + 1))

def ofFiles (files : List (Text × Text)) : Folder :=
  ⟨files.map fun file => (plain file.1, .text file.2), files.flatMap fun file => ancestors file.1⟩

def find? (f : Folder) (path : Text) : Option Content :=
  (resolve? path).bind fun name => f.files.lookup name

def hasFile (f : Folder) (path : Text) : Bool := (f.find? path).isSome

def read? (f : Folder) (path : Text) : Option Text := (f.find? path).bind Content.text?

/-- Whether a file can be made, or written over. -/
def canWrite (f : Folder) (path : Text) : Bool :=
  match resolve? path with
  | none => false
  | some name =>
    !f.directories.contains name && (parent name == [] || f.directories.contains (parent name))

def write (f : Folder) (path t : Text) : Folder :=
  match resolve? path with
  | none => f
  | some name => { f with files := (name, .text t) :: f.files.filter fun file => file.1 ≠ name }

end Folder

end Pseudocode
