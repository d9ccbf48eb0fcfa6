import Pseudocode.Compilation
import Pseudocode.Settings.Value

/-! # Settings

The settings file gives the target language, the indentation and the strictness. Every setting may
be left out, none may be given twice, and nothing else may be in the file. -/
namespace Pseudocode

structure Settings where
  target : Target := .python
  indentWidth : Nat := 4
  useTabs : Bool := false
  strict? : Option Bool := none
  deriving DecidableEq, Repr

namespace Settings

def unit (s : Settings) : Text := if s.useTabs then ['\t'] else List.replicate s.indentWidth ' '

def options (s : Settings) : Options := { unit := s.unit, strict? := s.strict? }

/-- A line of the file: a value for a name or for a name inside of a table, or the header of a table
or of a table inside of it. -/
inductive Entry
  | assign (name : Text) (inner : Option Text) (value : Value)
  | header (name : Text) (inner : Option Text)
  deriving DecidableEq, Repr

/-- The text behind the end of a line, which may have a comment. -/
def lineEnd? (t : Text) : Option Text :=
  let rest :=
    match skipSpace t with
    | '#' :: comment => comment.dropWhile isPrintable
    | rest => rest
  if rest.isEmpty then some [] else lineBreak? rest

/-- Reads a name, and the name inside of it that follows a dot. -/
def path? (t : Text) : Option (Text × Option Text × Text) := do
  let (name, rest) ← name? (skipSpace t)
  match skipSpace rest with
  | '.' :: rest =>
    let (inner, rest) ← name? (skipSpace rest)
    some (name, some inner, skipSpace rest)
  | rest => some (name, none, rest)

def entry? (t : Text) : Option (Entry × Text) := do
  match t with
  | '[' :: rest =>
    match ← path? rest with
    | (name, inner, ']' :: rest) => some (.header name inner, ← lineEnd? rest)
    | _ => none
  | _ =>
    match ← path? t with
    | (name, inner, '=' :: rest) =>
      let (value, rest) ← value? (skipSpace rest)
      some (.assign name inner value, ← lineEnd? rest)
    | _ => none

/-- Reads entries and the blank lines between them. Every one of them takes up a character at
least, so that the length of the text is enough `fuel`. -/
def entries? : Nat → Text → Option (List Entry)
  | 0, _ => none
  | fuel + 1, t =>
    match skipSpace t with
    | [] => some []
    | '#' :: rest => do entries? fuel (← lineEnd? ('#' :: rest))
    | '\n' :: rest => entries? fuel rest
    | '\r' :: '\n' :: rest => entries? fuel rest
    | rest => do
      let (entry, rest) ← entry? rest
      some (entry :: (← entries? fuel rest))

/-- The part of the file to which a line belongs: the settings, the table of the target, or a table
in which nothing may stand. -/
inductive Place
  | top
  | target
  | closed
  deriving DecidableEq, Repr

/-- The settings that have been read so far. -/
structure Draft where
  place : Place := .top
  target? : Option Target := none
  /-- Whether the target has been given by the header of a table inside of its table. -/
  byHeader : Bool := false
  /-- Whether the header of the table of the target has been read. -/
  tableSeen : Bool := false
  width? : Option Nat := none
  tabs? : Option Bool := none
  strict? : Option Bool := none
  deriving DecidableEq, Repr

namespace Draft

def setTarget (d : Draft) (name : Text) : Option Draft :=
  if d.target?.isSome then none
  else
    match Target.all.find? (·.name == name) with
    | some t => some { d with target? := some t }
    | none => none

def setWidth (d : Draft) (width : Int) : Option Draft :=
  if d.width?.isSome ∨ width < 0 then none else some { d with width? := some width.toNat }

def setTabs (d : Draft) (tabs : Bool) : Option Draft :=
  if d.tabs?.isSome then none else some { d with tabs? := some tabs }

def setStrict (d : Draft) (strict : Bool) : Option Draft :=
  if d.strict?.isSome then none else some { d with strict? := some strict }

def assign (d : Draft) (name : Text) : Value → Option Draft
  | .text value => if name = ("target" : Text) then d.setTarget value else none
  | .tagged value => if name = ("target" : Text) then d.setTarget value else none
  | .integer value => if name = ("indent_width" : Text) then d.setWidth value else none
  | .truth value =>
    if name = ("use_tabs" : Text) then d.setTabs value
    else if name = ("strict" : Text) then d.setStrict value
    else none
  | .empty => none

/-- Takes in one entry. The target may also be given as the name of the only, empty, entry of its
table. -/
def add (d : Draft) : Entry → Option Draft
  | .assign name none value =>
    match d.place, value with
    | .top, _ => d.assign name value
    | .target, .empty => d.setTarget name
    | _, _ => none
  | .assign name (some inner) value =>
    if d.place = .top ∧ name = ("target" : Text) ∧ value = .empty then d.setTarget inner else none
  | .header name none =>
    if name = ("target" : Text) ∧ !d.tableSeen ∧ (d.target?.isNone ∨ d.byHeader) then
      some { d with place := .target, tableSeen := true }
    else none
  | .header name (some inner) =>
    if name = ("target" : Text) then
      (d.setTarget inner).map fun d => { d with place := .closed, byHeader := true }
    else none

/-- The settings, with the usual value for what has been left out. The table of the target may not
be empty. -/
def settings (d : Draft) : Option Settings :=
  if d.tableSeen ∧ d.target?.isNone then none
  else
    let usual : Settings := {}
    some {
      target := d.target?.getD usual.target
      indentWidth := d.width?.getD usual.indentWidth
      useTabs := d.tabs?.getD usual.useTabs
      strict? := d.strict? }

end Draft

/-- A mark of the byte order at the start of the file is ignored. -/
def dropMark : Text → Text
  | '\ufeff' :: rest => rest
  | t => t

def ofText? (t : Text) : Option Settings := do
  let text := dropMark t
  let entries ← entries? (text.length + 1) text
  let draft ← entries.foldlM Draft.add {}
  draft.settings

end Settings

end Pseudocode
