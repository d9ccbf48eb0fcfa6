import Pseudocode.Program
import Pseudocode.Target
import Pseudocode.Text.Blank

/-! # Python

Blocks are told by their indentation, so a block without a statement is given one, and `end` leaves
no trace. -/
namespace Pseudocode.Python

def vocabulary : Vocabulary := Target.python.vocabulary

def spellType : TypeTerm → Text
  | .named name => vocabulary.spell name
  | .array .. => vocabulary.sequence
  | .record name => name

/-- A parameter with its type. There is no passing by reference. -/
def spellParameter (p : Parameter) : Text := p.name ++ ": " ++ spellType p.type

def declaration (type : Text) : List Text → Option Text → Text
  | name :: _, some value => name ++ ": " ++ type ++ " = " ++ value
  | [name], none => name ++ ": " ++ type ++ " = " ++ vocabulary.unset
  | names, _ => List.intercalate " = " names ++ " = " ++ vocabulary.unset

/-- A list of zeros, nested once for every dimension, the first one outermost. -/
def zeros : List Text → Text
  | [] => "0"
  | dim :: dims => "[" ++ zeros dims ++ " for _ in range(" ++ dim ++ ")]"

def printed (arg : Text) : Text := if arg = newlineToken then "\"" ++ arg ++ "\"" else arg

def field (p : Parameter) : Text := "\n\t" ++ spellParameter p ++ " = " ++ vocabulary.unset

def spell : Phrase → Text
  | .nothing => []
  | .comment text => "# " ++ text
  | .declare type names value => declaration type names value
  | .forRange var first limit none =>
    "for " ++ var ++ " in range(" ++ first ++ ", " ++ limit ++ "):"
  | .forRange var first limit (some step) =>
    "for " ++ var ++ " in range(" ++ first ++ ", " ++ limit ++ ", " ++ step ++ "):"
  | .forEach item source => "for " ++ item.name ++ " in " ++ source ++ ":"
  | .whileCond condition => "while " ++ condition ++ ":"
  | .ifCond condition => "if " ++ condition ++ ":"
  | .elseIf condition => "elif " ++ condition ++ ":"
  | .otherwise => "else:"
  | .switch value => "match " ++ value ++ ":"
  | .case value => "case " ++ value ++ ":"
  | .default => "case _:"
  | .blockEnd _ => []
  | .print [] => "print(end='')"
  | .print args => "print(" ++ Text.commaList (args.map printed) ++ ", end='', sep='')"
  | .input var =>
    var ++ " = input('')\ntry:\n\t" ++ var ++ " = eval(" ++ var ++ ")\nexcept Exception:\n\tpass"
  | .function name result params =>
    "def " ++ name ++ "(" ++ Text.commaList (params.map spellParameter) ++ ") -> " ++
      (result.elim vocabulary.noResult spellType) ++ ":"
  | .returns value => if value.isEmpty then "return" else "return " ++ value
  | .array _ name dims => name ++ " = " ++ zeros dims
  | .record name [] => "@dataclass\nclass " ++ name ++ ":\n\tpass"
  | .record name fields => "@dataclass\nclass " ++ name ++ ":" ++ fields.flatMap field
  | .init record var fields =>
    var ++ " = " ++ record ++ "(" ++
      Text.commaList (fields.map fun f => f.1 ++ "=" ++ f.2) ++ ")"
  | .quit code => "raise SystemExit(" ++ code ++ ")"
  | .note kind text => "# " ++ kind.label ++ " : " ++ text
  | .verbatim text => text

/-- A statement for a block that has none. A `match` needs a case. -/
def emptyBody : BlockKind → Text
  | .switch => "case _:\n\tpass"
  | _ => "pass"

/-- Whether a text holds more than comments. -/
def holdsStatement (text : Text) : Bool :=
  text.lines.any fun line =>
    match Text.trimStart line with
    | [] => false
    | c :: _ => c != '#'

/-- The imports, each on a line, and an empty line behind them if there are any. -/
def header (u : Usage) : Text :=
  Text.when u.records "from dataclasses import dataclass\n" ++
    Text.when u.sqrt "from math import sqrt\n" ++
    Text.when u.random "from random import random\n" ++
    Text.when (u.records || u.sqrt || u.random) "\n"

/-- The main algorithm needs a statement too. -/
def compose (p : Program) (unit : Text) : Text :=
  header p.usage ++ p.definitions ++ "if __name__ == '__main__':\n" ++
    Text.when (!p.main.any holdsStatement) (unit ++ "pass\n") ++ p.body unit

end Pseudocode.Python
