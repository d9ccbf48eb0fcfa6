import Pseudocode.Proofs.Indentation

/-!
# Lines of Python

A statement starts at the margin: its first line that speaks has neither a space nor a tab in front,
because words start with no separator. The header of a block is one line, and speaks.
-/
namespace Pseudocode

open Text

namespace Word

/-- Only a word that goes on from a quote before it can start with a separator. -/
theorem flush_gather {state : QuoteState} {pos : Nat} {t : Text} {ms : List Mark}
    (h : state.marks pos t = .ok ms) :
    (∀ w ∈ (gather pos ms).tail, Flush w.text) ∧
      ∀ w ∈ (gather pos ms).head?, Flush w.text ∨ (state ≠ .outside ∧ w.start = pos) := by
  induction t generalizing state pos ms with
  | nil =>
    have : ms = [] := by simpa using QuoteState.map_char_marks h
    simp [this, gather]
  | cons c cs ih =>
    unfold QuoteState.marks at h
    split at h
    · cases h
    · next m state' hnext =>
      obtain ⟨hc, hout, hin⟩ := QuoteState.next_eq hnext
      split at h
      · cases h
      · next ms' hs =>
        cases h
        obtain ⟨htail, hhead⟩ := ih hs
        rw [← hc] at htail hhead
        unfold gather
        dsimp only
        split_ifs with hw
        · have hnew : ∀ u, Flush (m.char :: u) ∨ state ≠ .outside := by
            intro u
            by_cases ho : state = .outside
            · exact .inl ⟨m.char, u, rfl, hc ▸ hin hw ho⟩
            · exact .inr ho
          cases hws : gather (pos + m.char.utf8Size) ms' with
          | nil => simpa [glue, ofMarks] using hnew []
          | cons w rest =>
            simp only [hws, List.tail_cons, List.head?_cons, Option.mem_some_iff,
              forall_eq'] at htail hhead
            simp only [glue]
            split_ifs with hst
            · simpa [ofMarks] using ⟨htail, hnew w.text⟩
            · have hwf : Flush w.text := hhead.resolve_right fun h => hst h.2
              simpa [ofMarks, hwf] using ⟨htail, hnew []⟩
        · -- a separator stands outside of quotes, and so does what follows it
          have ho := hout (by simpa using hw)
          exact ⟨htail, fun w hw => .inl ((hhead w hw).resolve_right fun h => h.1 ho)⟩

theorem flush_ofText {t : Text} {ws : List Word} (h : ofText t = .ok ws) :
    ∀ w ∈ ws, Flush w.text := by
  obtain ⟨ms, hm, rfl⟩ := ofText_eq_ok_iff.mp h
  obtain ⟨htail, hhead⟩ := flush_gather hm
  cases hws : gather 0 ms with
  | nil => simp
  | cons w rest =>
    rw [hws] at htail hhead
    have hw : Flush w.text := by simpa using hhead w rfl
    simpa [hw] using htail

end Word

theorem Statement.flush_args {line : SourceLine} {s : Statement} (h : Statement.ofLine line = .ok s)
    (hc : s.isComment = false) : ∀ arg ∈ s.args, Flush arg := by
  unfold Statement.ofLine at h
  split at h
  · cases h
    cases hc
  · split at h
    · next ws hws =>
      cases h
      have hf := Word.flush_ofText hws
      cases ws with
      | nil => simp [ofWords]
      | cons w ws =>
        intro arg ha
        obtain ⟨v, hv, rfl⟩ := List.mem_map.mp ha
        exact hf v (by simp [hv])
    · cases h

theorem Text.flush_trim (t : Text) : t.trim = [] ∨ Flush t.trim := by
  have hp : t.trim <+: t.trimStart := by
    have h := List.dropWhile_suffix (l := t.trimStart.reverse) isBlank
    rwa [← List.reverse_prefix, List.reverse_reverse] at h
  cases ht : t.trimStart with
  | nil =>
    rw [ht] at hp
    exact .inl (List.prefix_nil.mp hp)
  | cons c cs =>
    have hc : isBlank c = false := by
      have := List.head?_dropWhile_not isBlank t
      rwa [show t.dropWhile isBlank = c :: cs from ht] at this
    rw [ht, List.prefix_cons_iff] at hp
    rcases hp with hn | ⟨u, hu, -⟩
    · exact .inl hn
    · refine .inr ⟨c, u, hu, ?_, ?_⟩
      · rintro rfl
        simp [isBlank_space] at hc
      · rintro rfl
        simp [isBlank_tab] at hc

namespace Phrase

/-- A phrase in which the word that comes first in Python starts at the margin. -/
def Fronted : Phrase → Prop
  | declare _ names _ => ∃ name rest, names = name :: rest ∧ Flush name
  | array _ name _ => Flush name
  | init _ var _ => Flush var
  | input var => Flush var
  | verbatim text => text = [] ∨ Flush text
  | _ => True

def opensBlock : Phrase → Bool
  | forRange .. | forEach .. | whileCond _ | ifCond _ | elseIf _ | otherwise | switch _ | case _
  | default | function .. => true
  | _ => false

end Phrase

namespace Accepted

variable {setup : Setup} {p : Progress} {line : SourceLine} {s : Statement}

theorem opensBlock_phrase (h : Accepted setup p line s)
    (hf : (s.form setup.target).opensBlock = true) :
    (s.phrase setup.target (s.form setup.target)).opensBlock = true := by
  cases hform : s.form setup.target with
  | forRange =>
    obtain ⟨var, first, limit, step, hp⟩ := h.forRange_phrase hform
    rw [hp]
    rfl
  | forEach =>
    obtain ⟨item, source, hp⟩ := h.forEach_phrase hform
    rw [hp]
    rfl
  | function =>
    obtain ⟨name, result, params, hp⟩ := h.function_phrase hform
    rw [hp]
    rfl
  | whileCond | ifCond | elseIf | otherwise | switch | case | default => rfl
  | _ => simp [hform, Form.opensBlock] at hf

theorem isComment_eq_false (hf : s.form setup.target ≠ .comment) : s.isComment = false := by
  by_contra hc
  simp only [Bool.not_eq_false] at hc
  exact hf (by simp [Statement.form, hc])

theorem fronted_phrase (h : Accepted setup p line s) :
    (s.phrase setup.target (s.form setup.target)).Fronted := by
  have hargs : s.form setup.target ≠ .comment → ∀ arg ∈ s.args, Flush arg :=
    fun hf => Statement.flush_args h.read (isComment_eq_false hf)
  have htext : (Phrase.verbatim s.text).Fronted := Text.flush_trim s.line.text
  cases hf : s.form setup.target with
  | declaration =>
    have hc := h.count_accepted (by simp [hf]) (by simp [hf]) (by simp [hf])
    obtain ⟨name, rest, ha⟩ : ∃ name rest, s.args = name :: rest := by
      refine List.exists_cons_of_ne_nil fun hn => ?_
      rw [hf, hn] at hc
      cases hc
    have hname : Flush name := hargs (by simp [hf]) name (by simp [ha])
    unfold Statement.phrase Statement.declaration
    dsimp only
    split
    · next n value hn =>
      rw [ha] at hn
      cases hn
      exact ⟨name, [], rfl, hname⟩
    · exact ⟨name, rest, ha, hname⟩
  | input =>
    have hc := h.count_accepted (by simp [hf]) (by simp [hf]) (by simp [hf])
    simp only [hf, Form.arity, Arity.exactly, Arity.accepts, Option.all_some, Bool.and_eq_true,
      decide_eq_true_eq] at hc
    obtain ⟨var, ha⟩ := List.length_eq_one_iff.mp (show s.args.length = 1 by omega)
    change Flush (Text.unwords s.args)
    rw [ha]
    simpa [Text.unwords] using hargs (by simp [hf]) var (by simp [ha])
  | array =>
    unfold Statement.phrase
    dsimp only
    split
    · next element name dims ha => exact hargs (by simp [hf]) name (by simp [ha])
    · exact htext
  | init =>
    unfold Statement.phrase
    dsimp only
    split
    · next type var fields ha => exact hargs (by simp [hf]) var (by simp [ha])
    · exact htext
  | forRange | forEach | function | record =>
    unfold Statement.phrase
    dsimp only
    split <;> trivial
  | draw | other => exact htext
  | _ => trivial

end Accepted

namespace Python

theorem isMultiline_spellType {type : TypeTerm} (h : isMultiline type.chars = false) :
    isMultiline (spellType type) = false := by
  cases type with
  | named name =>
    rw [TypeTerm.chars_named] at h
    exact Target.isMultiline_vocabulary h .python
  | array element dims => rfl
  | record name => rwa [TypeTerm.chars_record] at h

theorem isMultiline_spellParameter {param : Parameter} (h : isMultiline param.chars = false) :
    isMultiline (spellParameter param) = false := by
  rw [Parameter.chars_eq, isMultiline_append, Bool.or_eq_false_iff] at h
  simp only [spellParameter, isMultiline_append, h.1, isMultiline_spellType h.2]
  rfl

theorem isMultiline_zeros {dims : List Text} (h : isMultiline dims.flatten = false) :
    isMultiline (zeros dims) = false := by
  induction dims with
  | nil => rfl
  | cons dim dims ih =>
    rw [List.flatten_cons, isMultiline_append, Bool.or_eq_false_iff] at h
    simp only [zeros, isMultiline_append, ih h.2, h.1]
    rfl

theorem isMultiline_declaration {type : Text} {names : List Text} {value : Option Text}
    (ht : isMultiline type = false) (hn : isMultiline names.flatten = false)
    (hv : isMultiline (value.getD []) = false) :
    isMultiline (declaration type names value) = false := by
  have hnames := fun name hm => isMultiline_of_mem (t := name) hn hm
  unfold declaration
  split
  · next name names value =>
    rw [Option.getD_some] at hv
    simp only [isMultiline_append, ht, hnames name (by simp), hv]
    rfl
  · next name =>
    simp only [isMultiline_append, ht, hnames name (by simp)]
    rfl
  · rw [isMultiline_append, isMultiline_append, isMultiline_intercalate rfl hnames]
    rfl

/-- Only an input and a record take more than one line. -/
theorem isMultiline_spell {phrase : Phrase} (h : isMultiline phrase.chars = false)
    (hi : ∀ var, phrase ≠ .input var) (hr : ∀ name fields, phrase ≠ .record name fields) :
    isMultiline (spell phrase) = false := by
  cases phrase with
  | input var => exact absurd rfl (hi var)
  | record name fields => exact absurd rfl (hr name fields)
  | nothing | otherwise | default | blockEnd => rfl
  | verbatim t => rwa [Phrase.chars_of_texts rfl] at h
  | comment t | whileCond t | ifCond t | elseIf t | switch t | case t | quit t =>
    rw [Phrase.chars_of_texts rfl] at h
    unfold spell
    simp only [isMultiline_append, h]
    rfl
  | note kind t =>
    rw [Phrase.chars_of_texts rfl] at h
    unfold spell
    simp only [isMultiline_append, h]
    cases kind <;> rfl
  | returns value =>
    rw [Phrase.chars_of_texts rfl] at h
    unfold spell
    dsimp only
    split_ifs
    · rfl
    · simp only [isMultiline_append, h]
      rfl
  | declare type names value =>
    simp only [Phrase.chars_declare, isMultiline_append, Bool.or_eq_false_iff] at h
    exact isMultiline_declaration h.1.1 h.1.2 h.2
  | forRange var first limit step =>
    simp only [Phrase.chars_forRange, isMultiline_append, Bool.or_eq_false_iff] at h
    obtain ⟨⟨⟨hv, hf⟩, hl⟩, hs⟩ := h
    unfold spell
    cases step with
    | none =>
      simp only [isMultiline_append, hv, hf, hl]
      rfl
    | some step =>
      rw [Option.getD_some] at hs
      simp only [isMultiline_append, hv, hf, hl, hs]
      rfl
  | forEach item source =>
    simp only [Phrase.chars_forEach, Parameter.chars_eq, isMultiline_append, Bool.or_eq_false_iff] at h
    unfold spell
    simp only [isMultiline_append, h.1.1, h.2]
    rfl
  | print args =>
    have ha : isMultiline (commaList (args.map printed)) = false := by
      refine isMultiline_intercalate rfl fun t ht => ?_
      obtain ⟨arg, hm, rfl⟩ := List.mem_map.mp ht
      have harg := isMultiline_of_mem h hm
      unfold printed
      split_ifs with he
      · rw [he]
        rfl
      · exact harg
    cases args with
    | nil => rfl
    | cons arg args =>
      unfold spell
      simp only [isMultiline_append, ha]
      rfl
  | function name result params =>
    simp only [Phrase.chars_function, isMultiline_append, Bool.or_eq_false_iff] at h
    obtain ⟨⟨hn, hr⟩, hp⟩ := h
    have hparams : isMultiline (commaList (params.map spellParameter)) = false := by
      refine isMultiline_intercalate rfl fun t ht => ?_
      obtain ⟨param, hm, rfl⟩ := List.mem_map.mp ht
      exact isMultiline_spellParameter (isMultiline_of_mem hp (List.mem_map_of_mem hm))
    have hresult : isMultiline (result.elim vocabulary.noResult spellType) = false := by
      cases result with
      | none => rfl
      | some type => exact isMultiline_spellType hr
    unfold spell
    simp only [isMultiline_append, hn, hparams, hresult]
    rfl
  | array element name dims =>
    simp only [Phrase.chars_array, isMultiline_append, Bool.or_eq_false_iff] at h
    unfold spell
    simp only [isMultiline_append, h.1.2, isMultiline_zeros h.2]
    rfl
  | init type var fields =>
    simp only [Phrase.chars_init, isMultiline_append, Bool.or_eq_false_iff] at h
    obtain ⟨⟨ht, hv⟩, hf⟩ := h
    have hfields : isMultiline (commaList (fields.map fun f => f.1 ++ "=" ++ f.2)) = false := by
      refine isMultiline_intercalate rfl fun t ht => ?_
      obtain ⟨field, hm, rfl⟩ := List.mem_map.mp ht
      have h := isMultiline_of_mem hf (List.mem_map_of_mem hm)
      rw [isMultiline_append, Bool.or_eq_false_iff] at h
      simp only [isMultiline_append, h.1, h.2]
      rfl
    unfold spell
    simp only [isMultiline_append, ht, hv, hfields]
    rfl

/-- The header of a block speaks, and starts at the margin. -/
theorem speaks_spell {phrase : Phrase} (h : phrase.opensBlock = true) :
    speaks (spell phrase) = true ∧ Flush (spell phrase) := by
  cases phrase with
  | forRange var first limit step =>
    cases step <;> exact ⟨rfl, 'f', _, rfl, by decide, by decide⟩
  | forEach item source => exact ⟨rfl, 'f', _, rfl, by decide, by decide⟩
  | whileCond condition => exact ⟨rfl, 'w', _, rfl, by decide, by decide⟩
  | ifCond condition => exact ⟨rfl, 'i', _, rfl, by decide, by decide⟩
  | elseIf condition => exact ⟨rfl, 'e', _, rfl, by decide, by decide⟩
  | otherwise => exact ⟨rfl, 'e', _, rfl, by decide, by decide⟩
  | switch value => exact ⟨rfl, 'm', _, rfl, by decide, by decide⟩
  | case value => exact ⟨rfl, 'c', _, rfl, by decide, by decide⟩
  | default => exact ⟨rfl, 'c', _, rfl, by decide, by decide⟩
  | function name result params => exact ⟨rfl, 'd', _, rfl, by decide, by decide⟩
  | _ => cases h

theorem flush_declaration {name : Text} (h : Flush name) (type : Text) (rest : List Text)
    (value : Option Text) : Flush (declaration type (name :: rest) value) := by
  cases value with
  | some value => exact (((h.append _).append _).append _).append _
  | none =>
    cases rest with
    | nil => exact (((h.append _).append _).append _).append _
    | cons second rest =>
      change Flush (List.intercalate _ _ ++ _ ++ _)
      rw [List.intercalate_cons_cons]
      exact (((h.append _).append _).append _).append _

/-- A phrase that is spelled on one line starts at the margin if it speaks. -/
theorem flush_spell_of_speaks {phrase : Phrase} (hp : phrase.Fronted)
    (hi : ∀ var, phrase ≠ .input var) (hr : ∀ name fields, phrase ≠ .record name fields)
    (hs : speaks (spell phrase) = true) : Flush (spell phrase) := by
  cases phrase with
  | input var => exact absurd rfl (hi var)
  | record name fields => exact absurd rfl (hr name fields)
  | nothing | comment | blockEnd | note => cases hs
  | declare type names value =>
    obtain ⟨name, rest, rfl, hn⟩ := hp
    exact flush_declaration hn type rest value
  | array element name dims => exact (Flush.append hp _).append _
  | init type var fields => exact ((((Flush.append hp _).append _).append _).append _).append _
  | verbatim text =>
    rcases hp with rfl | hp
    · cases hs
    · exact hp
  | print args => cases args <;> exact ⟨'p', _, rfl, by decide, by decide⟩
  | returns value =>
    unfold spell
    dsimp only
    split_ifs <;> exact ⟨'r', _, rfl, by decide, by decide⟩
  | quit code => exact ⟨'r', _, rfl, by decide, by decide⟩
  | _ => exact (speaks_spell rfl).2

theorem lines_spell_input {var : Text} (h : isMultiline var = false) :
    ∃ rest, (spell (.input var)).lines = (var ++ " = input('')") :: "try:" :: rest := by
  have hfirst : isMultiline (var ++ " = input('')") = false := by
    rw [isMultiline_append, h]
    rfl
  have hsplit : ∃ u, spell (.input var) =
      (var ++ " = input('')") ++ '\n' :: ("try:" ++ '\n' :: u) := by
    refine ⟨"\t" ++ var ++ " = eval(" ++ var ++ ")\nexcept Exception:\n\tpass", ?_⟩
    unfold spell
    simp
  obtain ⟨u, hu⟩ := hsplit
  rw [hu, lines_append_newline, lines_append_newline, lines_of_not_isMultiline hfirst]
  exact ⟨Text.lines u, rfl⟩

theorem lines_spell_record (name : Text) (fields : List Parameter) :
    ∃ rest, (spell (.record name fields)).lines = ("@dataclass" : Text) :: rest := by
  have hsplit : ∃ u, spell (.record name fields) = "@dataclass" ++ '\n' :: u := by
    cases fields with
    | nil => exact ⟨"class " ++ name ++ ":\n\tpass", rfl⟩
    | cons f fields => exact ⟨"class " ++ name ++ ":" ++ (f :: fields).flatMap field, rfl⟩
  obtain ⟨u, hu⟩ := hsplit
  rw [hu, lines_append_newline]
  exact ⟨Text.lines u, rfl⟩

/-- The first line of a statement that speaks starts at the margin. -/
theorem flush_spell {phrase : Phrase} (hp : phrase.Fronted)
    (h : isMultiline phrase.chars = false) {line : Text}
    (hl : (spell phrase).lines.find? speaks = some line) : Flush line := by
  by_cases hi : ∃ var, phrase = .input var
  · obtain ⟨var, rfl⟩ := hi
    rw [Phrase.chars_of_texts rfl] at h
    obtain ⟨rest, hlines⟩ := lines_spell_input h
    rw [hlines, List.find?_cons] at hl
    split at hl
    · cases hl
      exact Flush.append hp _
    · cases hl
      exact ⟨'t', _, rfl, by decide, by decide⟩
  by_cases hr : ∃ name fields, phrase = .record name fields
  · obtain ⟨name, fields, rfl⟩ := hr
    obtain ⟨rest, hlines⟩ := lines_spell_record name fields
    rw [hlines] at hl
    cases hl
    exact ⟨'@', _, rfl, by decide, by decide⟩
  simp only [not_exists] at hi hr
  rw [lines_of_not_isMultiline (isMultiline_spell h hi hr)] at hl
  obtain ⟨hs, rfl⟩ : speaks (spell phrase) = true ∧ spell phrase = line := by
    simpa using hl
  exact flush_spell_of_speaks hp hi hr hs

end Python

end Pseudocode
