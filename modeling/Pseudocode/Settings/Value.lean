import Pseudocode.Text

/-! # Values in a settings file

A settings file is written in TOML. Only the values that some setting can have are read: strings,
integers, truth values, empty lists and tables, and tables with one empty entry. Every other value
is refused, as a malformed one is. A reader returns the value and the text behind it. -/
namespace Pseudocode.Settings

inductive Value
  | text (value : Text)
  | integer (value : Int)
  | truth (value : Bool)
  /-- A list or a table without entries. -/
  | empty
  /-- A table whose one entry has this name, and is empty. -/
  | tagged (name : Text)
  deriving DecidableEq, Repr

def isSpace (c : Char) : Bool := c == ' ' || c == '\t'

def skipSpace (t : Text) : Text := t.dropWhile isSpace

/-- The characters of strings and comments: no control characters but the tab. -/
def isPrintable (c : Char) : Bool := c == '\t' || (0x20 ≤ c.toNat && c.toNat != 0x7F)

def lineBreak? : Text → Option Text
  | '\n' :: rest => some rest
  | '\r' :: '\n' :: rest => some rest
  | _ => none

/-- Skips spaces, line breaks and comments. -/
def skipGaps (inComment : Bool) : Text → Text
  | [] => []
  | '\n' :: rest => skipGaps false rest
  | '\r' :: '\n' :: rest => skipGaps false rest
  | c :: rest =>
    if inComment then if isPrintable c then skipGaps true rest else c :: rest
    else if isSpace c then skipGaps false rest
    else if c = '#' then skipGaps true rest
    else c :: rest

/-! ## Strings -/

def digitValue? (c : Char) : Option Nat :=
  if '0' ≤ c ∧ c ≤ '9' then some (c.toNat - '0'.toNat)
  else if 'a' ≤ c ∧ c ≤ 'f' then some (c.toNat - 'a'.toNat + 10)
  else if 'A' ≤ c ∧ c ≤ 'F' then some (c.toNat - 'A'.toNat + 10)
  else none

/-- The number that a row of digits writes in a base. -/
def digitsValue? (base : Nat) (digits : Text) : Option Nat :=
  digits.foldlM (fun n c =>
    match digitValue? c with
    | some d => if d < base then some (n * base + d) else none
    | none => none) 0

/-- The character with a code point given in base sixteen. Surrogates are no characters. -/
def codePoint? (digits : Text) : Option Char := do
  let n ← digitsValue? 16 digits
  if n.isValidChar then some (Char.ofNat n) else none

def escape? : Char → Option Char
  | 'b' => some '\x08'
  | 't' => some '\t'
  | 'n' => some '\n'
  | 'f' => some '\x0c'
  | 'r' => some '\r'
  | '"' => some '"'
  | '\\' => some '\\'
  | _ => none

/-- Puts a character in front of the string that is read from the rest. -/
def prepend (c : Option Char) (tail : Option (Text × Text)) : Option (Text × Text) := do
  let c ← c
  let (value, rest) ← tail
  some (c :: value, rest)

/-- Reads a string up to its closing quote. -/
def quoted? : Text → Option (Text × Text)
  | [] => none
  | '"' :: rest => some ([], rest)
  | '\\' :: 'u' :: a :: b :: c :: d :: rest => prepend (codePoint? [a, b, c, d]) (quoted? rest)
  | '\\' :: 'U' :: a :: b :: c :: d :: e :: f :: g :: h :: rest =>
    prepend (codePoint? [a, b, c, d, e, f, g, h]) (quoted? rest)
  | '\\' :: c :: rest => prepend (escape? c) (quoted? rest)
  | c :: rest => if isPrintable c then prepend (some c) (quoted? rest) else none

/-- Reads a string without escapes up to its closing apostrophe. -/
def literal? : Text → Option (Text × Text)
  | [] => none
  | '\'' :: rest => some ([], rest)
  | c :: rest => if isPrintable c then prepend (some c) (literal? rest) else none

/-- Whether a backslash in front of the text hides a line break. -/
def hidesBreak (t : Text) : Bool := (lineBreak? (skipSpace t)).isSome

/-- Reads a string over several lines up to three quotes. Up to two more quotes belong to the
string. A backslash at the end of a line hides the blanks up to the next character. -/
def quotedLines? (hidden : Bool) : Text → Option (Text × Text)
  | [] => none
  | '"' :: '"' :: '"' :: '"' :: '"' :: rest => some (['"', '"'], rest)
  | '"' :: '"' :: '"' :: '"' :: rest => some (['"'], rest)
  | '"' :: '"' :: '"' :: rest => some ([], rest)
  | '\n' :: rest =>
    if hidden then quotedLines? true rest else prepend (some '\n') (quotedLines? false rest)
  | '\r' :: '\n' :: rest =>
    if hidden then quotedLines? true rest else prepend (some '\n') (quotedLines? false rest)
  | '\\' :: 'u' :: a :: b :: c :: d :: rest =>
    prepend (codePoint? [a, b, c, d]) (quotedLines? false rest)
  | '\\' :: 'U' :: a :: b :: c :: d :: e :: f :: g :: h :: rest =>
    prepend (codePoint? [a, b, c, d, e, f, g, h]) (quotedLines? false rest)
  | '\\' :: c :: rest =>
    if hidesBreak (c :: rest) then quotedLines? true (c :: rest)
    else prepend (escape? c) (quotedLines? false rest)
  | c :: rest =>
    if hidden && isSpace c then quotedLines? true rest
    else if isPrintable c then prepend (some c) (quotedLines? false rest)
    else none

def literalLines? : Text → Option (Text × Text)
  | [] => none
  | '\'' :: '\'' :: '\'' :: '\'' :: '\'' :: rest => some (['\'', '\''], rest)
  | '\'' :: '\'' :: '\'' :: '\'' :: rest => some (['\''], rest)
  | '\'' :: '\'' :: '\'' :: rest => some ([], rest)
  | '\n' :: rest => prepend (some '\n') (literalLines? rest)
  | '\r' :: '\n' :: rest => prepend (some '\n') (literalLines? rest)
  | c :: rest => if isPrintable c then prepend (some c) (literalLines? rest) else none

/-- A line break right behind the opening quotes does not belong to the string. -/
def dropBreak (t : Text) : Text := (lineBreak? t).getD t

def string? : Text → Option (Text × Text)
  | '"' :: '"' :: '"' :: rest => quotedLines? false (dropBreak rest)
  | '"' :: rest => quoted? rest
  | '\'' :: '\'' :: '\'' :: rest => literalLines? (dropBreak rest)
  | '\'' :: rest => literal? rest
  | _ => none

/-! ## Numbers and truth values -/

/-- Digits in groups, with one underscore between neighbours. -/
def grouped? (base : Nat) (t : Text) : Option Nat :=
  let groups := pieces '_' t
  if groups.any List.isEmpty then none else digitsValue? base groups.flatten

/-- A decimal number has no leading zero. -/
def decimal? : Text → Option Nat
  | ['0'] => some 0
  | '0' :: _ => none
  | t => grouped? 10 t

def integer? : Text → Option Int
  | '0' :: 'x' :: digits => (grouped? 16 digits).map Int.ofNat
  | '0' :: 'o' :: digits => (grouped? 8 digits).map Int.ofNat
  | '0' :: 'b' :: digits => (grouped? 2 digits).map Int.ofNat
  | '+' :: digits => (decimal? digits).map Int.ofNat
  | '-' :: digits => (decimal? digits).map fun n => -Int.ofNat n
  | digits => (decimal? digits).map Int.ofNat

/-- Integers have 64 bits. -/
def inRange (n : Int) : Bool := -9223372036854775808 ≤ n && n ≤ 9223372036854775807

/-- Characters of numbers, dates and truth values. -/
def isWordChar (c : Char) : Bool := c.isAlphanum || c == '_' || c == '+' || c == '-' || c == '.' ||
  c == ':'

def wordValue? (word : Text) : Option Value :=
  if word = ("true" : Text) then some (.truth true)
  else if word = ("false" : Text) then some (.truth false)
  else
    match integer? word with
    | some n => if inRange n then some (.integer n) else none
    | none => none

/-! ## Keys and tables -/

def isBareKeyChar (c : Char) : Bool := c.isAlphanum || c == '_' || c == '-'

/-- Reads a name: bare, or a string on one line. -/
def name? (t : Text) : Option (Text × Text) :=
  match t with
  | '"' :: rest => quoted? rest
  | '\'' :: rest => literal? rest
  | _ =>
    let name := t.takeWhile isBareKeyChar
    if name.isEmpty then none else some (name, t.dropWhile isBareKeyChar)

/-- The text behind an empty list or an empty table. -/
def empty? : Text → Option Text
  | '[' :: rest =>
    match skipGaps false rest with
    | ']' :: rest => some rest
    | _ => none
  | '\x7b' :: rest =>
    match skipSpace rest with
    | '\x7d' :: rest => some rest
    | _ => none
  | _ => none

/-- Reads a table with one empty entry, behind its opening brace. -/
def tagged? (t : Text) : Option (Value × Text) := do
  let (name, rest) ← name? (skipSpace t)
  match skipSpace rest with
  | '=' :: rest =>
    match skipSpace (← empty? (skipSpace rest)) with
    | '\x7d' :: rest => some (.tagged name, rest)
    | _ => none
  | _ => none

def value? (t : Text) : Option (Value × Text) :=
  match empty? t with
  | some rest => some (.empty, rest)
  | none =>
    match t with
    | '\x7b' :: rest => tagged? rest
    | '"' :: _ | '\'' :: _ => (string? t).map fun p => (.text p.1, p.2)
    | _ => (wordValue? (t.takeWhile isWordChar)).map fun v => (v, t.dropWhile isWordChar)

end Pseudocode.Settings
