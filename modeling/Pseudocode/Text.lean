/-! # Text

Text is a list of characters, so that every scan is a recursion on the text itself. Offsets into a
text count the bytes of its UTF-8 encoding, never its characters. -/
namespace Pseudocode

abbrev Text := List Char

instance : Coe String Text := ⟨String.toList⟩

/-- Cuts a list at every `sep`, which belongs to no piece. There is one piece more than there are
cuts, so the empty list is one empty piece. -/
def pieces {α : Type} [DecidableEq α] (sep : α) (xs : List α) : List (List α) :=
  xs.foldr (fun x ps => if x = sep then [] :: ps else ps.modifyHead (x :: ·)) [[]]

@[simp] theorem pieces_nil {α : Type} [DecidableEq α] (sep : α) : pieces sep [] = [[]] := rfl

theorem pieces_cons {α : Type} [DecidableEq α] (sep x : α) (xs : List α) :
    pieces sep (x :: xs) =
      if x = sep then [] :: pieces sep xs else (pieces sep xs).modifyHead (x :: ·) := rfl

namespace Text

/-- Length of the UTF-8 encoding. -/
def bytes : Text → Nat
  | [] => 0
  | c :: cs => c.utf8Size + bytes cs

def lines (t : Text) : List Text := pieces '\n' t

def unlines (ts : List Text) : Text := List.intercalate ['\n'] ts

def unwords (ts : List Text) : Text := List.intercalate [' '] ts

def commaList (ts : List Text) : Text := List.intercalate [',', ' '] ts

/-- Whether `part` stands somewhere in the text. -/
def includes (part : Text) : Text → Bool
  | [] => part.isEmpty
  | c :: cs => part.isPrefixOf (c :: cs) || includes part cs

/-- Replacement of `old` by `new`, where the next `skip` characters belong to an occurrence that has
been replaced already. -/
def replaceAfter (old new : Text) : Nat → Text → Text
  | _, [] => []
  | skip + 1, _ :: cs => replaceAfter old new skip cs
  | 0, c :: cs =>
    if old.isPrefixOf (c :: cs) then new ++ replaceAfter old new (old.length - 1) cs
    else c :: replaceAfter old new 0 cs

/-- Replaces the occurrences of `old`, from left to right and without overlap. -/
def replace (old new t : Text) : Text := replaceAfter old new 0 t

def number (n : Nat) : Text := Nat.toDigits 10 n

/-- The text if the condition holds, and nothing otherwise. -/
def when (b : Bool) (t : Text) : Text := if b then t else []

def times (n : Nat) (t : Text) : Text := (List.replicate n t).flatten

/-- Lower case of the letters `A` to `Z`; all other characters stay. -/
def lower (t : Text) : Text := t.map Char.toLower

/-- Appends blanks up to `width` characters. -/
def padRight (width : Nat) (t : Text) : Text := t ++ List.replicate (width - t.length) ' '

end Text

end Pseudocode
