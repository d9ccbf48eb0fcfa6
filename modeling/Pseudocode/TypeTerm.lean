import Pseudocode.Text

/-! # Types and parameters

A type is one word. `arr_int_10_20` is an array of integers with two dimensions, `struct_point` a
record, and any other word names a type. A parameter is a type word followed by a name, and an
ampersand at the front of either of them passes it by reference. -/
namespace Pseudocode

inductive TypeTerm
  | named (name : Text)
  | array (element : Option Text) (dims : List Text)
  | record (name : Text)
  deriving DecidableEq, Repr

namespace TypeTerm

/-- The parts that follow `arr`: the element type, if there is any, and the dimensions. -/
def ofParts : List Text → TypeTerm
  | [] => array none []
  | element :: dims => array (some element) dims

/-- Reads what follows `arr`. The word goes on with an underscore, or it is an ordinary name. -/
def arrayTail? : Text → Option TypeTerm
  | [] => some (ofParts [])
  | '_' :: rest => some (ofParts ((pieces '_' rest).filter (!·.isEmpty)))
  | _ :: _ => none

def ofWord (word : Text) : TypeTerm :=
  match (("arr" : Text).isPrefixOf? word).bind arrayTail? with
  | some term => term
  | none =>
    match ("struct_" : Text).isPrefixOf? word with
    | some name => record name
    | none => named word

end TypeTerm

/-- A type, and whether a value of it is passed by reference. -/
structure ParameterType where
  byRef : Bool
  type : TypeTerm
  deriving DecidableEq, Repr

namespace ParameterType

def ofWord : Text → ParameterType
  | '&' :: word => ⟨true, .ofWord word⟩
  | word => ⟨false, .ofWord word⟩

end ParameterType

structure Parameter where
  name : Text
  byRef : Bool
  type : TypeTerm
  deriving DecidableEq, Repr

namespace Parameter

def ofPair (typeWord name : Text) : Parameter :=
  let type := ParameterType.ofWord typeWord
  match name with
  | '&' :: name => ⟨name, true, type.type⟩
  | name => ⟨name, type.byRef, type.type⟩

end Parameter

/-- Takes a list two by two. A last one without a partner is left out. -/
def pairUp {α : Type} : List α → List (α × α)
  | a :: b :: rest => (a, b) :: pairUp rest
  | _ => []

namespace Parameter

/-- Parameters from a flat list of type words and names. -/
def readAll (words : List Text) : List Parameter := (pairUp words).map fun p => ofPair p.1 p.2

end Parameter

end Pseudocode
