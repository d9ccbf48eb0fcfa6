import Pseudocode.CommandLine.Switch
import Pseudocode.Target

/-! # Arguments of the command

The words of the command line, read from left to right. The first word that is wrong decides, and so
does the first request for help or for the version. -/
namespace Pseudocode.CommandLine

inductive UsageError
  | unknownOption (word : Text)
  | repeatedOption (s : Switch)
  | missingValue (s : Switch)
  | unexpectedValue (s : Switch)
  | invalidValue (s : Switch) (value : Text)
  | unexpectedWord (word : Text)
  | unknownCommand (word : Text)
  | missingCommand
  | missingFile
  | strictAndLoose
  deriving DecidableEq, Repr

namespace UsageError

def message : UsageError → Text
  | unknownOption word => "unexpected option '" ++ word ++ "'"
  | repeatedOption s => "the option '--" ++ s.long ++ "' cannot be used multiple times"
  | missingValue s => "a value is required for '--" ++ s.long ++ "'"
  | unexpectedValue s => "the option '--" ++ s.long ++ "' takes no value"
  | invalidValue s value => "invalid value '" ++ value ++ "' for '--" ++ s.long ++ "'"
  | unexpectedWord word => "unexpected argument '" ++ word ++ "'"
  | unknownCommand word => "unrecognized command '" ++ word ++ "'"
  | missingCommand => "a command is required"
  | missingFile => "a file is required"
  | strictAndLoose => "the option '--strict' cannot be used with '--loose'"

end UsageError

inductive Stop
  | usage (e : UsageError)
  | help (verb? : Option Verb)
  | version
  deriving DecidableEq, Repr

/-- The options that have been given, with their values, and the other words. -/
structure Given where
  options : List (Switch × Text) := []
  words : List Text := []
  deriving DecidableEq, Repr

namespace Given

def has (g : Given) (s : Switch) : Bool := g.options.any fun o => o.1 == s

def value? (g : Given) (s : Switch) : Option Text := g.options.lookup s

end Given

/-- Names of the targets on the command line. -/
def targetNames : List (Text × Target) :=
  [("python", .python), ("cpp", .cpp), ("algo", .algorithmic)]

/-- Whether an option may have a value. File names are not empty. -/
def acceptsValue (s : Switch) (value : Text) : Bool :=
  match s with
  | .target => (targetNames.lookup value).isSome
  | .emit => value == ("lines" : Text)
  | _ => !value.isEmpty

/-- Where the words of one command are read: the options it has, and the number of other words. -/
structure Grammar where
  verb? : Option Verb
  switches : List Switch
  words : Nat
  deriving DecidableEq, Repr

namespace Grammar

def ofVerb (v : Verb) : Grammar := ⟨some v, v.switches, v.files⟩

/-- Before the command stand only the options that are common to all of them. -/
def top : Grammar := ⟨none, [.verbose, .help, .version], 0⟩

def addFlag (g : Grammar) (given : Given) (s : Switch) : Except Stop Given :=
  if s = .help then .error (.help g.verb?)
  else if s = .version then .error .version
  else if given.has s then .error (.usage (.repeatedOption s))
  else .ok { given with options := given.options ++ [(s, [])] }

def addValue (given : Given) (s : Switch) (value : Text) : Except Stop Given :=
  if !acceptsValue s value then .error (.usage (.invalidValue s value))
  else if given.has s then .error (.usage (.repeatedOption s))
  else .ok { given with options := given.options ++ [(s, value)] }

def addWord (g : Grammar) (given : Given) (word : Text) : Except Stop Given :=
  if given.words.length < g.words ∧ word ≠ [] then
    .ok { given with words := given.words ++ [word] }
  else .error (.usage (.unexpectedWord word))

/-- Reads the letters of a word such as `-vt`. An option that takes a value has the rest of the word
as its value, or it waits for the next word. -/
def readLetters (g : Grammar) (given : Given) : Text → Except Stop (Given × Option Switch)
  | [] => .ok (given, none)
  | c :: rest =>
    match g.switches.find? fun s => s.short? = some c with
    | none => .error (.usage (.unknownOption ['-', c]))
    | some s =>
      if s.takesValue then
        match rest with
        | [] => .ok (given, some s)
        | '=' :: value => (addValue given s value).map fun given => (given, none)
        | value => (addValue given s value).map fun given => (given, none)
      else
        match g.addFlag given s with
        | .error stop => .error stop
        | .ok given => readLetters g given rest

/-- Reads a word such as `--target` or `--target=cpp`, behind the hyphens. -/
def readLong (g : Grammar) (given : Given) (word : Text) : Except Stop (Given × Option Switch) :=
  let name := word.takeWhile (· != '=')
  match g.switches.find? fun s => s.long = name, word.dropWhile (· != '=') with
  | none, _ => .error (.usage (.unknownOption ("--" ++ name)))
  | some s, [] =>
    if s.takesValue then .ok (given, some s)
    else (g.addFlag given s).map fun given => (given, none)
  | some s, _ :: value =>
    if s.takesValue then (addValue given s value).map fun given => (given, none)
    else .error (.usage (.unexpectedValue s))

/-- Whether a word is read as options. A hyphen alone is not. -/
def isOption : Text → Bool
  | '-' :: _ :: _ => true
  | _ => false

/-- Reads one word that is not the value of an option before it. -/
def readWord (g : Grammar) (given : Given) : Text → Except Stop (Given × Option Switch)
  | '-' :: '-' :: word => g.readLong given word
  | '-' :: c :: rest => g.readLetters given (c :: rest)
  | word => (g.addWord given word).map fun given => (given, none)

/-- Reads the words behind `--`, none of which is an option. -/
def readPlain (g : Grammar) (given : Given) : List Text → Except Stop Given
  | [] => .ok given
  | word :: words =>
    match g.addWord given word with
    | .error stop => .error stop
    | .ok given => readPlain g given words

/-- Reads the words of a command, where an option may be waiting for its value. -/
def read (g : Grammar) (given : Given) (waiting : Option Switch) :
    List Text → Except Stop Given
  | [] =>
    match waiting with
    | some s => .error (.usage (.missingValue s))
    | none => .ok given
  | word :: words =>
    match waiting with
    | some s =>
      if isOption word then .error (.usage (.missingValue s))
      else
        match addValue given s word with
        | .error stop => .error stop
        | .ok given => read g given none words
    | none =>
      if word = ("--" : Text) then g.readPlain given words
      else
        match g.readWord given word with
        | .error stop => .error stop
        | .ok (given, waiting) => read g given waiting words

end Grammar

structure CompileRequest where
  input : Text
  target? : Option Target := none
  output? : Option Text := none
  emitLines : Bool := false
  strict? : Option Bool := none
  settings? : Option Text := none
  deriving DecidableEq, Repr

structure CheckRequest where
  input : Text
  target? : Option Target := none
  settings? : Option Text := none
  deriving DecidableEq, Repr

inductive Command
  | compile (request : CompileRequest)
  | check (request : CheckRequest)
  | info
  deriving DecidableEq, Repr

/-- A command, and whether it reports its progress. -/
structure Invocation where
  verbose : Bool
  command : Command
  deriving DecidableEq, Repr

namespace Command

def targetOf (given : Given) : Option Target :=
  (given.value? .target).bind fun name => targetNames.lookup name

/-- The choice between strict and loose, if one of them is given. -/
def strictnessOf (given : Given) : Option Bool :=
  if given.has .strict then some true else if given.has .loose then some false else none

def ofGiven (given : Given) : Verb → Except Stop Command
  | .compile =>
    if given.has .strict ∧ given.has .loose then .error (.usage .strictAndLoose)
    else
      match given.words with
      | [] => .error (.usage .missingFile)
      | input :: _ =>
        .ok (.compile {
          input := input
          target? := targetOf given
          output? := given.value? .output
          emitLines := given.has .emit
          strict? := strictnessOf given
          settings? := given.value? .settings })
  | .check =>
    match given.words with
    | [] => .error (.usage .missingFile)
    | input :: _ =>
      .ok (.check {
        input := input, target? := targetOf given, settings? := given.value? .settings })
  | .info => .ok .info

end Command

namespace Invocation

/-- What a word behind `help` is about: one command, or all of them if the word is `help` again. -/
def helpTopic? (word : Text) : Option (Option Verb) :=
  if word = ("help" : Text) then some none
  else (Verb.all.find? fun v => v.name = word).map some

/-- What `help` and the words behind it ask for. Options have no meaning here. A second word would
name a command inside of the first, and no command has others inside. -/
def readHelp : List Text → Stop
  | [] => .help none
  | word :: words =>
    match helpTopic? word, words with
    | none, _ => .usage (.unknownCommand word)
    | some topic, [] => .help topic
    | some _, inner :: _ => .usage (.unknownCommand inner)

/-- Reads the options before the command, and then the command with its own words. -/
def readTop (given : Given) : List Text → Except Stop Invocation
  | [] => .error (.usage .missingCommand)
  | word :: words =>
    match Verb.all.find? fun v => v.name = word with
    | some verb =>
      match (Grammar.ofVerb verb).read {} none words with
      | .error stop => .error stop
      | .ok own =>
        match Command.ofGiven own verb with
        | .error stop => .error stop
        | .ok command => .ok ⟨given.has .verbose || own.has .verbose, command⟩
    | none =>
      if word = ("help" : Text) then .error (readHelp words)
      else if word = ("--" : Text) then
        match words with
        | [] => .error (.usage .missingCommand)
        | word :: _ => .error (.usage (.unknownCommand word))
      else if Grammar.isOption word then
        match Grammar.top.readWord given word with
        | .error stop => .error stop
        | .ok (given, _) => readTop given words
      else .error (.usage (.unknownCommand word))

def ofWords (words : List Text) : Except Stop Invocation := readTop {} words

end Invocation

end Pseudocode.CommandLine
