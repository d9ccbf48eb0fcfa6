import Pseudocode.Proofs.Lines
import Pseudocode.TypeTerm

/-!
# Parameters in words

A type is written as one word (`TypeTerm.toWord`), and a parameter as two (`Parameter.words`). A word
is read as a type in normal form (`TypeTerm.isNormal_ofWord`), and a type in normal form is read back
from its word (`TypeTerm.ofWord_toWord`), so that reading, writing and reading again is reading once.
Words such as `arr__int` write a type in another way than `toWord` does, and `arrow` is no array.
-/
namespace Pseudocode

namespace TypeTerm

/-- The word that writes a type. Every part of an array has an underscore in front. -/
def toWord : TypeTerm → Text
  | named name => name
  | array element dims => "arr" ++ (element.toList ++ dims).flatMap ('_' :: ·)
  | record name => "struct_" ++ name

/-- A name that is not read as another type, an array whose parts can be told apart, or a record.
Only an array with an element has dimensions. -/
def IsNormal : TypeTerm → Prop
  | named name =>
    name ≠ ("arr" : Text) ∧ ¬ ("arr_" : Text) <+: name ∧ ¬ ("struct_" : Text) <+: name
  | array none dims => dims = []
  | array (some element) dims => ∀ part ∈ element :: dims, part ≠ [] ∧ '_' ∉ part
  | record _ => True

instance decidableIsNormal : (type : TypeTerm) → Decidable type.IsNormal
  | named name => inferInstanceAs (Decidable (name ≠ ("arr" : Text) ∧ ¬ ("arr_" : Text) <+: name ∧
      ¬ ("struct_" : Text) <+: name))
  | array none dims => inferInstanceAs (Decidable (dims = []))
  | array (some element) dims =>
    inferInstanceAs (Decidable (∀ part ∈ element :: dims, part ≠ [] ∧ '_' ∉ part))
  | record _ => inferInstanceAs (Decidable True)

/-! ### Arrays -/

theorem intercalate_parts (first : Text) (rest : List Text) :
    ['_'].intercalate (first :: rest) = first ++ rest.flatMap ('_' :: ·) := by
  induction rest generalizing first with
  | nil => simp
  | cons second rest ih =>
    rw [List.intercalate_cons_cons, ih, List.flatMap_cons]
    simp

theorem pieces_parts {first : Text} {rest : List Text}
    (h : ∀ part ∈ first :: rest, '_' ∉ part) :
    pieces '_' (first ++ rest.flatMap ('_' :: ·)) = first :: rest := by
  rw [← intercalate_parts, pieces_eq_splitOn]
  exact List.splitOn_intercalate _ h (by simp)

/-- The parts behind `arr` are read back if each of them can be seen. -/
theorem arrayTail_parts {parts : List Text} (h : ∀ part ∈ parts, part ≠ [] ∧ '_' ∉ part) :
    arrayTail? (parts.flatMap ('_' :: ·)) = some (ofParts parts) := by
  cases parts with
  | nil => rfl
  | cons first rest =>
    have hkept : (first :: rest).filter (!·.isEmpty) = first :: rest := by
      refine List.filter_eq_self.mpr fun part hpart => ?_
      simp [(h part hpart).1]
    rw [List.flatMap_cons, List.cons_append, arrayTail?, pieces_parts fun part hp => (h part hp).2,
      hkept]

theorem isNormal_ofParts {parts : List Text} (h : ∀ part ∈ parts, part ≠ [] ∧ '_' ∉ part) :
    (ofParts parts).IsNormal := by
  cases parts with
  | nil => rfl
  | cons element dims => exact h

theorem isNormal_arrayTail {t : Text} {type : TypeTerm} (h : arrayTail? t = some type) :
    type.IsNormal := by
  unfold arrayTail? at h
  split at h
  · cases h
    exact isNormal_ofParts (by simp)
  · cases h
    refine isNormal_ofParts fun part hpart => ?_
    obtain ⟨hpiece, hne⟩ := List.mem_filter.mp hpart
    exact ⟨by simpa using hne, notMem_of_mem_pieces hpiece⟩
  · cases h

theorem arrayTail_front {t : Text} {type : TypeTerm} (h : arrayTail? t = some type) :
    t = [] ∨ ['_'] <+: t := by
  unfold arrayTail? at h
  split at h
  · exact .inl rfl
  · exact .inr (by simp)
  · cases h

/-! ### Words and types -/

theorem isNormal_ofWord (word : Text) : (ofWord word).IsNormal := by
  unfold ofWord
  split
  · next type harray =>
    obtain ⟨tail, -, htail⟩ := Option.bind_eq_some_iff.mp harray
    exact isNormal_arrayTail htail
  · next harray =>
    split
    · trivial
    · next hrecord =>
      -- a name that began as one of the others would have been found by one of the two readings
      refine ⟨?_, ?_, ?_⟩
      · rintro rfl
        cases harray
      · rintro ⟨rest, rfl⟩
        cases harray
      · rintro ⟨rest, rfl⟩
        cases hrecord

theorem ofWord_array {t : Text} {type : TypeTerm} (h : arrayTail? t = some type) :
    ofWord ("arr" ++ t) = type := by
  have hp : ("arr" : Text).isPrefixOf? ("arr" ++ t) = some t :=
    List.isPrefixOf?_eq_some_iff_append_eq.mpr rfl
  rw [ofWord, hp, Option.bind_some, h]

theorem ofWord_named {name : Text} (h : (named name).IsNormal) : ofWord name = named name := by
  obtain ⟨harr, harray, hrecord⟩ := h
  unfold ofWord
  split
  · next type hfound =>
    obtain ⟨tail, hp, htail⟩ := Option.bind_eq_some_iff.mp hfound
    rw [List.isPrefixOf?_eq_some_iff_append_eq] at hp
    rcases arrayTail_front htail with rfl | hfront
    · exact absurd hp.symm harr
    · rw [← List.prefix_append_right_inj ("arr" : Text), hp] at hfront
      exact absurd hfront harray
  · split
    · next rest hp =>
      rw [List.isPrefixOf?_eq_some_iff_append_eq] at hp
      exact absurd ⟨rest, hp⟩ hrecord
    · rfl

/-- A type in normal form is read back from its word. -/
theorem ofWord_toWord {type : TypeTerm} (h : type.IsNormal) : ofWord type.toWord = type := by
  cases type with
  | named name => exact ofWord_named h
  | array element dims =>
    cases element with
    | none =>
      obtain rfl : dims = [] := h
      rfl
    | some element => exact ofWord_array (arrayTail_parts h)
  | record name => rfl

end TypeTerm

/-! ### Parameters -/

/-- Where the ampersands of a parameter that is passed by reference stand. -/
inductive RefPlace
  | onType
  | onName
  | onBoth
  deriving DecidableEq, Repr

namespace Parameter

def words (p : Parameter) (place : RefPlace) : List Text :=
  [Text.when (p.byRef && place ≠ .onName) "&" ++ p.type.toWord,
   Text.when (p.byRef && place ≠ .onType) "&" ++ p.name]

/-- Neither the type nor the name can be taken for a parameter that is passed by reference. -/
structure IsWritable (p : Parameter) : Prop where
  type : p.type.IsNormal
  front : p.type.toWord.head? ≠ some '&'
  name : p.name.head? ≠ some '&'

instance (p : Parameter) : Decidable p.IsWritable :=
  decidable_of_iff (p.type.IsNormal ∧ p.type.toWord.head? ≠ some '&' ∧ p.name.head? ≠ some '&')
    ⟨fun h => ⟨h.1, h.2.1, h.2.2⟩, fun h => ⟨h.type, h.front, h.name⟩⟩

end Parameter

theorem ParameterType.ofWord_marked {word : Text} (h : word.head? ≠ some '&') (marked : Bool) :
    ofWord (Text.when marked "&" ++ word) = ⟨marked, .ofWord word⟩ := by
  cases marked with
  | true => rfl
  | false =>
    change ofWord word = _
    unfold ofWord
    split
    · exact absurd rfl h
    · rfl

namespace Parameter

theorem ofPair_marked {name : Text} (h : name.head? ≠ some '&') (typeWord : Text) (marked : Bool) :
    ofPair typeWord (Text.when marked "&" ++ name) =
      ⟨name, marked || (ParameterType.ofWord typeWord).byRef,
        (ParameterType.ofWord typeWord).type⟩ := by
  cases marked with
  | true => rfl
  | false =>
    change ofPair typeWord name = _
    unfold ofPair
    dsimp only
    split
    · exact absurd rfl h
    · rfl

/-- A parameter is read back from its two words, wherever the ampersands stand. -/
theorem readAll_words_append {p : Parameter} (h : p.IsWritable) (place : RefPlace)
    (rest : List Text) : readAll (p.words place ++ rest) = p :: readAll rest := by
  have hpair : readAll (p.words place ++ rest) =
      ofPair (Text.when (p.byRef && place ≠ .onName) "&" ++ p.type.toWord)
        (Text.when (p.byRef && place ≠ .onType) "&" ++ p.name) :: readAll rest := rfl
  have hmark : (p.byRef && place ≠ .onType || p.byRef && place ≠ .onName) = p.byRef := by
    cases p.byRef <;> cases place <;> rfl
  rw [hpair, ofPair_marked h.name, ParameterType.ofWord_marked h.front,
    TypeTerm.ofWord_toWord h.type, hmark]

theorem readAll_flatMap_words {ps : List (Parameter × RefPlace)} (h : ∀ p ∈ ps, p.1.IsWritable)
    (rest : List Text) :
    readAll (ps.flatMap (fun p => p.1.words p.2) ++ rest) = ps.map Prod.fst ++ readAll rest := by
  induction ps with
  | nil => rfl
  | cons p ps ih =>
    rw [List.flatMap_cons, List.append_assoc, readAll_words_append (h p (by simp)),
      ih fun q hq => h q (by simp [hq])]
    rfl

/-- A list of parameters is read back from its words, and so it is if one more word stands behind
them. What a word is read as is written by a word that is read in the same way. -/
theorem readAll_written (ps : List (Parameter × RefPlace)) (h : ∀ p ∈ ps, p.1.IsWritable)
    (extra : Text) :
    readAll (ps.flatMap fun p => p.1.words p.2) = ps.map Prod.fst ∧
      readAll (ps.flatMap (fun p => p.1.words p.2) ++ [extra]) = ps.map Prod.fst ∧
      ∀ word, TypeTerm.ofWord (TypeTerm.ofWord word).toWord = TypeTerm.ofWord word := by
  refine ⟨?_, ?_, fun word => TypeTerm.ofWord_toWord (TypeTerm.isNormal_ofWord word)⟩
  · have hread := readAll_flatMap_words h []
    rwa [List.append_nil, show readAll [] = [] from rfl, List.append_nil] at hread
  · have hread := readAll_flatMap_words h [extra]
    rwa [show readAll [extra] = [] from rfl, List.append_nil] at hread

/-- A type whose name only begins as that of an array, and an ampersand in each of the three
places. -/
theorem readAll_written_arrow :
    let ps : List (Parameter × RefPlace) :=
      [(⟨"a", true, .named "arrow"⟩, .onName), (⟨"m", true, .array (some "int") ["3", "4"]⟩, .onType),
       (⟨"f", true, .record "Flower"⟩, .onBoth), (⟨"xs", false, .array none []⟩, .onBoth)]
    (∀ p ∈ ps, p.1.IsWritable) ∧
      readAll ["arrow", "&a", "&arr_int_3_4", "m", "&struct_Flower", "&f", "arr", "xs", "char"] =
        ps.map Prod.fst ∧
      TypeTerm.ofWord (TypeTerm.ofWord "arr__int_").toWord = TypeTerm.ofWord "arr__int_" := by
  intro ps
  have h : ∀ p ∈ ps, p.1.IsWritable := by decide
  obtain ⟨-, hread, hword⟩ := readAll_written ps h "char"
  exact ⟨h, hread, hword "arr__int_"⟩

end Parameter

end Pseudocode
