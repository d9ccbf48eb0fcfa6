import Pseudocode.Program
import Pseudocode.Target

/-! # C++

Blocks stand between braces, and every statement ends with a semicolon. -/
namespace Pseudocode.Cpp

def vocabulary : Vocabulary := Target.cpp.vocabulary

def spellType : TypeTerm → Text
  | .named name => vocabulary.spell name
  | .array .. => vocabulary.sequence
  | .record name => name

def reference (p : Parameter) : Text := Text.when p.byRef "&"

def bounds (dims : List Text) : Text := dims.flatMap fun dim => "[" ++ dim ++ "]"

/-- A parameter with its type. An array of known dimensions has them behind its name. -/
def spellParameter (p : Parameter) : Text :=
  match p.type with
  | .array (some element) (dim :: dims) =>
    vocabulary.spell element ++ " " ++ p.name ++ bounds (dim :: dims)
  | type => spellType type ++ reference p ++ " " ++ p.name

def declaration (type : Text) : List Text → Option Text → Text
  | name :: _, some value => type ++ " " ++ name ++ " = " ++ value ++ ";"
  | names, _ => type ++ " " ++ Text.commaList (names.map fun n => n ++ vocabulary.unset) ++ ";"

def member (p : Parameter) : Text := "\n\t" ++ spellParameter p ++ ";"

def fieldAssignment (var : Text) (f : Text × Text) : Text :=
  "\n" ++ var ++ "." ++ f.1 ++ " = " ++ f.2 ++ ";"

def printed (arg : Text) : Text := if arg = newlineToken then "endl" else arg

def advance (var : Text) : Option Text → Text
  | none => var ++ "++"
  | some step => var ++ " += " ++ step

/-- Ends a statement, unless it ends already or is about a block. -/
def terminate (text : Text) : Text :=
  match text.getLast? with
  | some ';' | some '\x7b' | some '\x7d' => text
  | _ => text ++ ";"

def spell : Phrase → Text
  | .nothing => []
  | .comment text => "// " ++ text
  | .declare type names value => declaration type names value
  | .forRange var first limit step =>
    "for (int " ++ var ++ " = " ++ first ++ "; " ++ var ++ " < " ++ limit ++ "; " ++
      advance var step ++ ") \x7b"
  | .forEach item source =>
    "for (" ++ spellType item.type ++ reference item ++ " " ++ item.name ++ " : " ++ source ++
      ") \x7b"
  | .whileCond condition => "while (" ++ condition ++ ") \x7b"
  | .ifCond condition => "if (" ++ condition ++ ") \x7b"
  | .elseIf condition => "\x7d else if (" ++ condition ++ ") \x7b"
  | .otherwise => "\x7d else \x7b"
  | .switch value => "switch (" ++ value ++ ") \x7b"
  | .case value => "case " ++ value ++ ": \x7b"
  | .default => "default: \x7b"
  | .blockEnd .case | .blockEnd .default => "\tbreak;\n\x7d"
  | .blockEnd _ => "\x7d"
  | .print [] => "cout << flush;"
  | .print args => "cout << " ++ List.intercalate " << " (args.map printed) ++ ";"
  | .input var => "cin >> " ++ var ++ ";"
  | .function name result params =>
    (result.elim vocabulary.noResult spellType) ++ " " ++ name ++ "(" ++
      Text.commaList (params.map spellParameter) ++ ") \x7b"
  | .returns value => if value.isEmpty then "return;" else "return " ++ value ++ ";"
  | .array element name dims =>
    vocabulary.spell element ++ " " ++ name ++ bounds dims ++ " = \x7b\x7d;"
  | .record name fields =>
    "struct " ++ name ++ " \x7b" ++ fields.flatMap member ++ "\n\x7d;"
  | .init record var fields =>
    record ++ " " ++ var ++ ";" ++ fields.flatMap (fieldAssignment var)
  | .quit code => "return " ++ code ++ ";"
  | .note kind text => "// " ++ kind.label ++ " : " ++ text
  | .verbatim text => terminate text

def drawing (op : Drawing) (args : List Text) : Text :=
  match op with
  | .image =>
    match Drawing.imageTarget? args with
    | some (path, var) => "Image " ++ var ++ " = image(" ++ Text.unwords path ++ ");"
    | none => "image(" ++ Text.unwords args ++ ");"
  | _ => op.libraryCall ++ "(" ++ Text.commaList args ++ ");"

def header (u : Usage) : Text :=
  "#include <iostream>\n#include <string>\n" ++
    Text.when u.needsMath "#include <cmath>\n" ++
    Text.when u.random "#include <cstdlib>\n" ++
    Text.when u.window "#include <Grapic.h>\n" ++
    "\nusing namespace std;\n" ++
    Text.when u.window "using namespace grapic;\n" ++ "\n"

def compose (p : Program) (unit : Text) : Text :=
  header p.usage ++ p.definitions ++ "int main() \x7b\n" ++ p.body unit ++
    unit ++ "return 0;\n\x7d\n"

end Pseudocode.Cpp
