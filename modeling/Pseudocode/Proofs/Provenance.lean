import Pseudocode.Proofs.Acceptance
import Pseudocode.Proofs.Conditions
import Pseudocode.Proofs.Words

/-!
# Where the texts of a phrase come from

A phrase has no texts of its own: each one is a part of the line that was read, or a word that the
target language has for a type or a connective, or is made of such texts with spaces between them.
So what a text passes on to its parts, and joining does not undo, holds of every text of the phrase
(`Statement.forall_texts_phrase`). In particular it holds of the characters
(`Statement.forall_mem_phrase`).
-/
namespace Pseudocode

namespace Text

theorem trimStart_suffix (t : Text) : t.trimStart <:+ t := List.dropWhile_suffix _

theorem isInfix_trim (t : Text) : t.trim <:+: t := by
  have h := (List.dropWhile_suffix (l := t.trimStart.reverse) isBlank).reverse
  rw [List.reverse_reverse] at h
  exact h.isInfix.trans t.trimStart_suffix.isInfix

/-- What a text passes on to its parts, and what is kept where texts are joined by a space or are
put between brackets. -/
structure Hereditary (P : Text → Prop) : Prop where
  nil : P []
  part : ∀ {t u : Text}, t <:+: u → P u → P t
  space : ∀ {t u : Text}, P t → P u → P (t ++ ' ' :: u)
  bracket : ∀ {l t r : Text}, (∀ c ∈ l, c = '(') → (∀ c ∈ r, c = ')') → P l → P t → P r →
    P (l ++ t ++ r)

theorem hereditary_forall_mem {P : Char → Prop} (hs : P ' ') :
    Hereditary fun t => ∀ c ∈ t, P c where
  nil := by simp
  part h hu c hc := hu c (h.subset hc)
  space ht hu := List.forall_mem_append.mpr ⟨ht, List.forall_mem_cons.mpr ⟨hs, hu⟩⟩
  bracket _ _ hl ht hr := List.forall_mem_append.mpr ⟨List.forall_mem_append.mpr ⟨hl, ht⟩, hr⟩

variable {P : Text → Prop}

theorem Hereditary.unwords (hP : Hereditary P) {ts : List Text} (h : ∀ t ∈ ts, P t) :
    P (unwords ts) := by
  induction ts with
  | nil => exact hP.nil
  | cons first rest ih =>
    have hf := h first (by simp)
    have hr := ih fun t ht => h t (by simp [ht])
    cases rest with
    | nil => simpa [Text.unwords] using hf
    | cons second rest =>
      rw [Text.unwords, List.intercalate_cons_cons, List.append_assoc]
      exact hP.space hf hr

end Text

section Chars

variable {P : Char → Prop}

theorem forall_mem_flatten {parts : List Text} (hp : ∀ part ∈ parts, ∀ c ∈ part, P c) :
    ∀ c ∈ parts.flatten, P c := by
  intro c hc
  obtain ⟨part, hm, hc⟩ := List.mem_flatten.mp hc
  exact hp part hm c hc

theorem forall_mem_intercalate {sep : Text} {parts : List Text} (hs : ∀ c ∈ sep, P c)
    (hp : ∀ part ∈ parts, ∀ c ∈ part, P c) : ∀ c ∈ sep.intercalate parts, P c := by
  induction parts with
  | nil => simp [List.intercalate_nil]
  | cons first rest ih =>
    have hf := hp first (by simp)
    have hr := ih fun part h => hp part (by simp [h])
    cases rest with
    | nil => simpa using hf
    | cons second rest =>
      simp only [List.intercalate_cons_cons, List.forall_mem_append]
      exact ⟨⟨hf, hs⟩, hr⟩

end Chars

open Text

variable {P : Text → Prop}

namespace Statement

variable {line : SourceLine} {s : Statement}

theorem infix_words (h : Statement.ofLine line = .ok s) :
    s.head <:+: line.text ∧ ∀ arg ∈ s.args, arg <:+: line.text := by
  unfold Statement.ofLine at h
  split at h
  · next comment hc =>
    cases h
    have hsplit := List.append_eq_of_isPrefixOf?_eq_some hc
    have htrim := (Text.trimStart_suffix line.text).isInfix
    rw [← hsplit] at htrim
    refine ⟨(List.prefix_append _ _).isInfix.trans htrim, fun arg ha => ?_⟩
    rw [List.mem_singleton.mp ha]
    exact (isInfix_trim comment).trans ((List.suffix_append _ _).isInfix.trans htrim)
  · split at h
    · next ws hw =>
      cases h
      cases ws with
      | nil => simp [ofWords]
      | cons w ws =>
        refine ⟨Word.infix_of_mem_ofText hw (by simp), fun arg ha => ?_⟩
        obtain ⟨v, hv, rfl⟩ := List.mem_map.mp ha
        exact Word.infix_of_mem_ofText hw (by simp [hv])
    · cases h

theorem infix_text (h : Statement.ofLine line = .ok s) : s.text <:+: line.text := by
  rw [Statement.text, line_of_ofLine h]
  exact isInfix_trim _

end Statement

/-! ### The texts in types, parameters and phrases -/

namespace TypeTerm

def texts : TypeTerm → List Text
  | named name => [name]
  | array element dims => element.toList ++ dims
  | record name => [name]

def chars (type : TypeTerm) : Text := type.texts.flatten

theorem chars_named (name : Text) : (named name).chars = name := List.flatten_singleton

theorem chars_record (name : Text) : (record name).chars = name := List.flatten_singleton

theorem chars_array (element : Option Text) (dims : List Text) :
    (array element dims).chars = element.getD [] ++ dims.flatten := by
  cases element <;> simp [chars, texts]

theorem infix_arrayTail {t part : Text} {term : TypeTerm} (h : arrayTail? t = some term)
    (hp : part ∈ term.texts) : part <:+: t := by
  unfold arrayTail? at h
  split at h
  · cases h
    simp [ofParts, texts] at hp
  · next rest =>
    cases h
    have hpiece : part ∈ (pieces '_' rest).filter (!·.isEmpty) := by
      cases hps : (pieces '_' rest).filter (!·.isEmpty) with
      | nil => simp [hps, ofParts, texts] at hp
      | cons element dims => simpa [hps, ofParts, texts] using hp
    exact (infix_of_mem_pieces (List.mem_filter.mp hpiece).1).trans (List.suffix_cons _ _).isInfix
  · cases h

theorem infix_ofWord {word part : Text} (h : part ∈ (ofWord word).texts) : part <:+: word := by
  unfold ofWord at h
  split at h
  · next term ht =>
    obtain ⟨tail, hp, ht⟩ := Option.bind_eq_some_iff.mp ht
    rw [← List.append_eq_of_isPrefixOf?_eq_some hp]
    exact (infix_arrayTail ht h).trans (List.suffix_append _ _).isInfix
  · split at h
    · next name hp =>
      rw [← List.append_eq_of_isPrefixOf?_eq_some hp, List.mem_singleton.mp h]
      exact (List.suffix_append _ _).isInfix
    · rw [List.mem_singleton.mp h]

end TypeTerm

namespace Parameter

def texts (p : Parameter) : List Text := p.name :: p.type.texts

def chars (p : Parameter) : Text := p.texts.flatten

theorem chars_eq (p : Parameter) : p.chars = p.name ++ p.type.chars := List.flatten_cons

theorem flatten_texts (params : List Parameter) :
    (params.flatMap texts).flatten = params.flatMap chars := by
  rw [List.flatten_eq_flatMap, List.flatMap_assoc]
  simp only [← List.flatten_eq_flatMap]
  rfl

theorem forall_texts_ofPair (hP : Hereditary P) {typeWord name : Text} (ht : P typeWord)
    (hn : P name) : ∀ t ∈ (ofPair typeWord name).texts, P t := by
  have htype : ∀ t ∈ (ParameterType.ofWord typeWord).type.texts, P t := by
    unfold ParameterType.ofWord
    intro t hmem
    split at hmem
    · exact hP.part ((TypeTerm.infix_ofWord hmem).trans (List.suffix_cons _ _).isInfix) ht
    · exact hP.part (TypeTerm.infix_ofWord hmem) ht
  unfold ofPair
  dsimp only
  split <;> simp only [texts, List.forall_mem_cons]
  · exact ⟨hP.part (List.suffix_cons _ _).isInfix hn, htype⟩
  · exact ⟨hn, htype⟩

end Parameter

theorem mem_of_mem_pairUp {α : Type} {as : List α} {p : α × α} (h : p ∈ pairUp as) :
    p.1 ∈ as ∧ p.2 ∈ as := by
  fun_induction pairUp as with
  | case1 a b rest ih =>
    rcases List.mem_cons.mp h with rfl | h
    · simp
    · simp [ih h]
  | case2 => cases h

theorem Parameter.forall_texts_readAll (hP : Hereditary P) {ws : List Text} (h : ∀ w ∈ ws, P w) :
    ∀ t ∈ (readAll ws).flatMap texts, P t := by
  intro t ht
  obtain ⟨param, hp, ht⟩ := List.mem_flatMap.mp ht
  rw [readAll, List.mem_map] at hp
  obtain ⟨pair, hp, rfl⟩ := hp
  have hm := mem_of_mem_pairUp hp
  exact forall_texts_ofPair hP (h _ hm.1) (h _ hm.2) t ht

namespace Phrase

def texts : Phrase → List Text
  | nothing | otherwise | default | blockEnd _ => []
  | comment t | whileCond t | ifCond t | elseIf t | switch t | case t | input t | returns t
  | quit t | note _ t | verbatim t => [t]
  | declare type names value => type :: (names ++ value.toList)
  | forRange var first limit step => var :: first :: limit :: step.toList
  | forEach item source => item.texts ++ [source]
  | print args => args
  | function name result params =>
    name :: ((result.map TypeTerm.texts).getD [] ++ params.flatMap Parameter.texts)
  | array element name dims => element :: name :: dims
  | record name fields => name :: fields.flatMap Parameter.texts
  | init type var fields => type :: var :: fields.flatMap fun f => [f.1, f.2]

def chars (phrase : Phrase) : Text := phrase.texts.flatten

theorem chars_of_texts {phrase : Phrase} {t : Text} (h : phrase.texts = [t]) : phrase.chars = t := by
  rw [chars, h, List.flatten_singleton]

theorem chars_declare (type : Text) (names : List Text) (value : Option Text) :
    (declare type names value).chars = type ++ names.flatten ++ value.getD [] := by
  cases value <;> simp [chars, texts]

theorem chars_forRange (var first limit : Text) (step : Option Text) :
    (forRange var first limit step).chars = var ++ first ++ limit ++ step.getD [] := by
  cases step <;> simp [chars, texts]

theorem chars_forEach (item : Parameter) (source : Text) :
    (forEach item source).chars = item.chars ++ source := by
  simp [chars, texts, Parameter.chars]

theorem chars_function (name : Text) (result : Option TypeTerm) (params : List Parameter) :
    (function name result params).chars =
      name ++ (result.map TypeTerm.chars).getD [] ++ params.flatMap Parameter.chars := by
  cases result <;> simp [chars, texts, TypeTerm.chars, Parameter.flatten_texts]

theorem chars_array (element name : Text) (dims : List Text) :
    (array element name dims).chars = element ++ name ++ dims.flatten := by
  simp [chars, texts]

theorem chars_record (name : Text) (fields : List Parameter) :
    (record name fields).chars = name ++ fields.flatMap Parameter.chars := by
  simp [chars, texts, Parameter.flatten_texts]

theorem chars_init (type var : Text) (fields : List (Text × Text)) :
    (init type var fields).chars = type ++ var ++ fields.flatMap fun f => f.1 ++ f.2 := by
  simp [chars, texts, List.flatten_eq_flatMap, List.flatMap_assoc]

end Phrase

theorem Drawing.eq_append_of_imageTarget {args path : List Text} {var : Text}
    (h : imageTarget? args = some (path, var)) : ∃ arrow, args = path ++ [arrow, var] := by
  unfold imageTarget? at h
  split at h
  · next v arrow rest hr =>
    split_ifs at h
    cases h
    have ha := congrArg List.reverse hr
    exact ⟨arrow, by simpa using ha⟩
  · cases h

/-! ### The words of the target language -/

namespace Target

def ownWords (t : Target) : List Text :=
  t.connectives.conj :: t.connectives.disj :: t.connectives.neg ::
    t.vocabulary.entries.map Prod.snd

/-- The characters of these words, and the space. -/
def ownChars (t : Target) : Text :=
  ' ' :: (t.connectives.conj ++ t.connectives.disj ++ t.connectives.neg ++
    t.vocabulary.entries.flatMap Prod.snd)

end Target

theorem Connectives.respell_hereditary (hP : Hereditary P) {k : Connectives} {word : Text}
    (hw : P word) (hconj : P k.conj) (hdisj : P k.disj) (hneg : P k.neg) : P (k.respell word) := by
  have hword : k.Respelled word (k.respell word) := respelled_iff.mpr rfl
  generalize k.respell word = word' at hword
  cases hword with
  | connective connective opening closing =>
    have hspelling : P (k.spelling connective) := by cases connective <;> assumption
    have hopening : P (List.replicate opening '(') :=
      hP.part ((List.prefix_append _ _).trans (List.prefix_append _ _)).isInfix hw
    have hclosing : P (List.replicate closing ')') := hP.part (List.suffix_append _ _).isInfix hw
    exact hP.bracket (fun _ => List.eq_of_mem_replicate) (fun _ => List.eq_of_mem_replicate)
      hopening hspelling hclosing
  | other _ => exact hw

theorem Vocabulary.spell_cases (v : Vocabulary) (name : Text) :
    v.spell name = name ∨ v.spell name ∈ v.entries.map Prod.snd := by
  unfold spell
  cases hl : v.entries.lookup name with
  | none => exact .inl rfl
  | some word =>
    rw [List.lookup_eq_some_iff] at hl
    obtain ⟨before, behind, he, -⟩ := hl
    exact .inr (by simp [he])

theorem Vocabulary.forall_mem_spell {P : Char → Prop} {v : Vocabulary} {name : Text}
    (hn : ∀ c ∈ name, P c) (hv : ∀ c ∈ v.entries.flatMap Prod.snd, P c) :
    ∀ c ∈ v.spell name, P c := by
  rcases v.spell_cases name with h | h
  · rwa [h]
  · intro c hc
    obtain ⟨entry, hm, he⟩ := List.mem_map.mp h
    exact hv c (List.mem_flatMap.mpr ⟨entry, hm, he ▸ hc⟩)

namespace Statement

variable {line : SourceLine} {s : Statement}

theorem forall_texts_declaration (hP : Hereditary P) {type : Text} {args : List Text}
    (ht : P type) (ha : ∀ arg ∈ args, P arg) : ∀ t ∈ (declaration type args).texts, P t := by
  unfold declaration
  split
  · next name value =>
    simp only [Phrase.texts, Option.toList_some, List.singleton_append, List.forall_mem_cons]
    exact ⟨ht, ha name (by simp), hP.unwords fun arg hm => ha arg (by simp [hm]), by simp⟩
  · simp only [Phrase.texts, Option.toList_none, List.append_nil, List.forall_mem_cons]
    exact ⟨ht, ha⟩

theorem forall_printItems (hP : Hereditary P) {ws : List Text} (hw : ∀ w ∈ ws, P w) :
    ∀ item ∈ printItems ws, P item := by
  intro item hi
  rw [printItems, List.mem_map] at hi
  obtain ⟨piece, hp, rfl⟩ := hi
  exact hP.unwords fun w hm => hw w (mem_of_mem_pieces (List.mem_filter.mp hp).1 hm)

/-- What a line and the words of the target pass on holds of every text of the phrase. -/
theorem forall_texts_phrase (hP : Hereditary P) {target : Target}
    (h : Statement.ofLine line = .ok s) (hl : P line.text) (hown : ∀ w ∈ target.ownWords, P w)
    (form : Form) : ∀ t ∈ (s.phrase target form).texts, P t := by
  have hhead : P s.head := hP.part (infix_words h).1 hl
  have hargs : ∀ arg ∈ s.args, P arg := fun arg ha => hP.part ((infix_words h).2 arg ha) hl
  have htext : ∀ t ∈ (Phrase.verbatim s.text).texts, P t := by
    simpa [Phrase.texts] using hP.part (infix_text h) hl
  have hjoin : P s.argText := hP.unwords hargs
  simp only [Target.ownWords, List.forall_mem_cons] at hown
  obtain ⟨hconj, hdisj, hneg, hv⟩ := hown
  have hcond : P (target.connectives.condition s.args) := by
    refine hP.unwords fun t ht => ?_
    obtain ⟨w, hw, rfl⟩ := List.mem_map.mp ht
    exact Connectives.respell_hereditary hP (hargs w hw) hconj hdisj hneg
  cases form with
  | declaration =>
    refine forall_texts_declaration hP ?_ hargs
    rcases target.vocabulary.spell_cases s.head with heq | hmem
    · rwa [heq]
    · exact hv _ hmem
  | print => exact forall_printItems hP hargs
  | comment | switch | case | input | returns | quit | note =>
    simpa [phrase, Phrase.texts] using hjoin
  | whileCond | ifCond | elseIf => simpa [phrase, Phrase.texts] using hcond
  | draw | other => exact htext
  | blank | functionBody | blockEnd | otherwise | default => simp [phrase, Phrase.texts]
  | forRange =>
    unfold phrase
    dsimp only
    split
    · next ha => simp_all [Phrase.texts]
    · next ha => simp_all [Phrase.texts]
    · exact htext
  | forEach =>
    unfold phrase
    dsimp only
    split
    · next type name source ha =>
      rw [ha] at hargs
      simp only [Phrase.texts, List.forall_mem_append]
      exact ⟨Parameter.forall_texts_ofPair hP (hargs type (by simp)) (hargs name (by simp)),
        by simpa using hargs source (by simp)⟩
    · exact htext
  | function =>
    unfold phrase
    dsimp only
    split
    · next result name params ha =>
      rw [ha] at hargs
      simp only [Phrase.texts, List.forall_mem_cons, List.forall_mem_append]
      refine ⟨hargs name (by simp), ?_,
        Parameter.forall_texts_readAll hP fun w hm => hargs w (by simp [hm])⟩
      split
      · simp
      · exact fun t ht => hP.part (TypeTerm.infix_ofWord ht) (hargs result (by simp))
    · exact htext
  | array =>
    unfold phrase
    dsimp only
    split
    · next element name dims ha =>
      rw [ha] at hargs
      exact hargs
    · exact htext
  | record =>
    unfold phrase
    dsimp only
    split
    · next name fields ha =>
      rw [ha] at hargs
      simp only [Phrase.texts, List.forall_mem_cons]
      exact ⟨hargs name (by simp),
        Parameter.forall_texts_readAll hP fun w hm => hargs w (by simp [hm])⟩
    · exact htext
  | init =>
    unfold phrase
    dsimp only
    split
    · next type var fields ha =>
      rw [ha] at hargs
      simp only [Phrase.texts, List.forall_mem_cons]
      refine ⟨hargs type (by simp), hargs var (by simp), fun t ht => ?_⟩
      obtain ⟨f, hf, ht⟩ := List.mem_flatMap.mp ht
      have hm := mem_of_mem_pairUp hf
      rcases List.mem_pair.mp ht with rfl | rfl
      · exact hargs f.1 (by simp [hm.1])
      · exact hargs f.2 (by simp [hm.2])
    · exact htext

theorem forall_mem_phrase {P : Char → Prop} {target : Target} (h : Statement.ofLine line = .ok s)
    (hl : ∀ c ∈ line.text, P c) (ht : ∀ c ∈ target.ownChars, P c) (form : Form) :
    ∀ c ∈ (s.phrase target form).chars, P c := by
  have hs := ht ' ' (by simp [Target.ownChars])
  have hown : ∀ w ∈ target.ownWords, ∀ c ∈ w, P c := by
    intro w hw c hc
    refine ht c (List.mem_cons_of_mem _ ?_)
    simp only [Target.ownWords, List.mem_cons, List.mem_map] at hw
    rcases hw with rfl | rfl | rfl | ⟨entry, hm, rfl⟩
    · simp [hc]
    · simp [hc]
    · simp [hc]
    · exact List.mem_append_right _ (List.mem_flatMap.mpr ⟨entry, hm, hc⟩)
  exact forall_mem_flatten (forall_texts_phrase (hereditary_forall_mem hs) h hl hown form)

theorem forall_mem_args {P : Char → Prop} (h : Statement.ofLine line = .ok s)
    (hl : ∀ c ∈ line.text, P c) : ∀ arg ∈ s.args, ∀ c ∈ arg, P c := by
  intro arg ha c hc
  exact hl c (((infix_words h).2 arg ha).subset hc)

end Statement

end Pseudocode
