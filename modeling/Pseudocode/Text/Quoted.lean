import Pseudocode.Text.Attached
import Pseudocode.Text.Unprinted

/-! # Quoted text

Text between double quotes, for a JSON document and for a log line. -/
namespace Pseudocode.Text

/-- Numeral in base sixteen, with small letters and at least `width` digits. -/
def hex (width n : Nat) : Text :=
  let digits := Nat.toDigits 16 n
  List.replicate (width - digits.length) '0' ++ digits

/-- A character inside of a JSON string. Control characters are escaped, and nothing beyond ASCII
is. -/
def jsonChar (c : Char) : Text :=
  match c with
  | '"' => ['\\', '"']
  | '\\' => ['\\', '\\']
  | '\n' => ['\\', 'n']
  | '\r' => ['\\', 'r']
  | '\t' => ['\\', 't']
  | '\x08' => ['\\', 'b']
  | '\x0c' => ['\\', 'f']
  | _ => if c.toNat < 0x20 then ['\\', 'u'] ++ hex 4 c.toNat else [c]

def json (t : Text) : Text := ['"'] ++ t.flatMap jsonChar ++ ['"']

/-- What would not be seen on its own: a mark on the character before it, or no mark at all. -/
def isHidden (c : Char) : Bool := isAttached c || isUnprinted c

def codePoint (c : Char) : Text := ['\\', 'u', '\x7b'] ++ hex 1 c.toNat ++ ['\x7d']

/-- A character inside of a quoted name. What cannot be seen is given by its code point, and
an apostrophe stands for itself. -/
def nameChar (c : Char) : Text :=
  match c with
  | '"' => ['\\', '"']
  | '\\' => ['\\', '\\']
  | '\n' => ['\\', 'n']
  | '\r' => ['\\', 'r']
  | '\t' => ['\\', 't']
  | '\x00' => ['\\', '0']
  | _ => if isHidden c then codePoint c else [c]

def quotedName (t : Text) : Text := ['"'] ++ t.flatMap nameChar ++ ['"']

end Pseudocode.Text
