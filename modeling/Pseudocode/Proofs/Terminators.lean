import Pseudocode.Proofs.Braces
import Pseudocode.Proofs.Hoisting
import Pseudocode.Proofs.OutputLines

/-!
# Ends of lines in C++

A statement in C++ ends with a semicolon, and a block with a brace, whatever the words in it are.
Some statements take several lines, each of which ends so. Renaming and indentation change the front
of a line and its middle, but never its end. So in a program every line ends with a semicolon or a
brace, if it is not empty, not an include and not a remark (`compile_cpp_terminated`).
-/
namespace Pseudocode

open Text

namespace Text

def isTerminator (c : Char) : Bool := c == ';' || c == '\x7b' || c == '\x7d'

def isClosed (line : Text) : Bool := line.getLast?.any isTerminator

def Terminated (t : Text) : Prop := ∀ line ∈ t.lines, line.isClosed = true

theorem isTerminator_iff {c : Char} :
    isTerminator c = true ↔ c = ';' ∨ c = '\x7b' ∨ c = '\x7d' := by
  simp [isTerminator, or_assoc]

theorem isClosed_iff {line : Text} :
    line.isClosed = true ↔ ∃ c, line.getLast? = some c ∧ isTerminator c = true :=
  Option.any_eq_true _ _

theorem isClosed_append_of_ne_nil (t : Text) {u : Text} (h : u ≠ []) :
    isClosed (t ++ u) = isClosed u := by
  rw [isClosed, List.getLast?_append_of_ne_nil t h, isClosed]

theorem ne_nil_of_isClosed {t : Text} (h : t.isClosed = true) : t ≠ [] := by
  rintro rfl
  cases h

theorem isClosed_append (t : Text) {u : Text} (h : u.isClosed = true) :
    isClosed (t ++ u) = true := by
  rw [isClosed_append_of_ne_nil t (ne_nil_of_isClosed h), h]

theorem isClosed_replace {old new t : Text} (ho : old ≠ []) (hc : old.any isTerminator = false)
    (h : t.isClosed = true) : (replace old new t).isClosed = true := by
  induction t using replace_induction old ho with
  | nil => cases h
  | found t ih =>
    rw [replace_append_self ho]
    refine isClosed_append new (ih ?_)
    by_cases ht : t = []
    · -- the occurrence would end the line, but none of its characters can
      obtain ⟨c, hl, hterm⟩ := isClosed_iff.mp h
      rw [ht, List.append_nil] at hl
      have hnone := List.any_eq_false.mp hc c (List.mem_of_getLast? hl)
      exact absurd hterm hnone
    · rwa [isClosed_append_of_ne_nil old ht] at h
  | kept c cs hp ih =>
    rw [replace_cons hp]
    by_cases hcs : cs = []
    · rwa [hcs] at h ⊢
    · refine isClosed_append [c] (ih ?_)
      rwa [← List.singleton_append, isClosed_append_of_ne_nil [c] hcs] at h

/-- Indentation takes tabs off the front of a line, and not all of a closed line is tabs. -/
theorem isClosed_indentLine {line : Text} (h : line.isClosed = true) (depth : Nat) (unit : Text) :
    (indentLine depth unit line).isClosed = true := by
  refine isClosed_append _ ?_
  rw [← List.takeWhile_append_dropWhile (p := (· == '\t')) (l := line)] at h
  by_cases hd : line.dropWhile (· == '\t') = []
  · obtain ⟨c, hl, hterm⟩ := isClosed_iff.mp h
    rw [hd, List.append_nil] at hl
    have htab := List.mem_takeWhile_imp (List.mem_of_getLast? hl)
    rw [beq_iff_eq] at htab
    rw [htab] at hterm
    cases hterm
  · rwa [isClosed_append_of_ne_nil _ hd] at h

namespace Terminated

variable {t u : Text}

theorem of_line (h : isMultiline t = false) (hc : t.isClosed = true) : Terminated t := by
  intro line hl
  rw [lines_of_not_isMultiline h, List.mem_singleton] at hl
  rwa [hl]

theorem newline (ht : Terminated t) (hu : Terminated u) : Terminated (t ++ '\n' :: u) := by
  intro line hl
  rw [lines_append_newline, List.mem_append] at hl
  exact hl.elim (ht line) (hu line)

theorem flatMap_newline {α : Type} {f : α → Text} {xs : List α} (ht : Terminated t)
    (hf : ∀ x ∈ xs, Terminated (f x)) : Terminated (t ++ xs.flatMap fun x => '\n' :: f x) := by
  induction xs generalizing t with
  | nil => rwa [List.flatMap_nil, List.append_nil]
  | cons x xs ih =>
    rw [List.flatMap_cons, ← List.append_assoc]
    exact ih (ht.newline (hf x (by simp))) fun y hy => hf y (by simp [hy])

end Terminated

end Text

/-! ### The lines of a statement -/

namespace Cpp

theorem isMultiline_spellType {type : TypeTerm} (h : isMultiline type.chars = false) :
    isMultiline (spellType type) = false := by
  cases type with
  | named name =>
    rw [TypeTerm.chars_named] at h
    exact Target.isMultiline_vocabulary h .cpp
  | array element dims => rfl
  | record name => rwa [TypeTerm.chars_record] at h

theorem isMultiline_bounds {dims : List Text} (h : isMultiline dims.flatten = false) :
    isMultiline (bounds dims) = false := by
  induction dims with
  | nil => rfl
  | cons dim dims ih =>
    rw [List.flatten_cons, isMultiline_append, Bool.or_eq_false_iff] at h
    rw [bounds, List.flatMap_cons, ← bounds]
    simp only [isMultiline_append, h.1, ih h.2]
    rfl

theorem isMultiline_reference (param : Parameter) : isMultiline (reference param) = false := by
  unfold reference
  cases param.byRef <;> rfl

theorem isMultiline_spellParameter {param : Parameter} (h : isMultiline param.chars = false) :
    isMultiline (spellParameter param) = false := by
  rw [Parameter.chars_eq, isMultiline_append, Bool.or_eq_false_iff] at h
  unfold spellParameter
  split
  · next element dim dims ht =>
    rw [ht, TypeTerm.chars_array, Option.getD_some, isMultiline_append, Bool.or_eq_false_iff] at h
    have hv : isMultiline (vocabulary.spell element) = false :=
      Target.isMultiline_vocabulary h.2.1 .cpp
    simp only [isMultiline_append, h.1, hv, isMultiline_bounds h.2.2]
    rfl
  · simp only [isMultiline_append, h.1, isMultiline_spellType h.2, isMultiline_reference]
    rfl

theorem isMultiline_parameters {params : List Parameter}
    (h : isMultiline (params.flatMap Parameter.chars) = false) :
    ∀ param ∈ params, isMultiline (spellParameter param) = false := by
  intro param hp
  exact isMultiline_spellParameter (isMultiline_of_mem h (List.mem_map_of_mem hp))

theorem terminated_declaration {type : Text} {names : List Text} {value : Option Text}
    (ht : isMultiline type = false) (hn : isMultiline names.flatten = false)
    (hv : isMultiline (value.getD []) = false) : Terminated (declaration type names value) := by
  have hnames := fun name hm => isMultiline_of_mem (t := name) hn hm
  unfold declaration
  split
  · next name names value =>
    refine .of_line ?_ (isClosed_append _ rfl)
    rw [Option.getD_some] at hv
    simp only [isMultiline_append, ht, hnames name (by simp), hv]
    rfl
  · refine .of_line ?_ (isClosed_append _ rfl)
    have hlist : isMultiline (commaList (names.map fun n => n ++ vocabulary.unset)) = false := by
      refine isMultiline_intercalate rfl fun t ht => ?_
      obtain ⟨name, hm, rfl⟩ := List.mem_map.mp ht
      rw [isMultiline_append, hnames name hm]
      rfl
    simp only [isMultiline_append, ht, hlist]
    rfl

theorem terminated_print {args : List Text} (h : isMultiline args.flatten = false) :
    Terminated (spell (.print args)) := by
  have hargs : isMultiline (List.intercalate " << " (args.map printed)) = false := by
    refine isMultiline_intercalate rfl fun t ht => ?_
    obtain ⟨arg, hm, rfl⟩ := List.mem_map.mp ht
    unfold printed
    split_ifs
    · rfl
    · exact isMultiline_of_mem h hm
  cases args with
  | nil => exact .of_line rfl rfl
  | cons arg args =>
    unfold spell
    refine .of_line ?_ (isClosed_append _ rfl)
    simp only [isMultiline_append, hargs]
    rfl

theorem terminated_function {name : Text} {result : Option TypeTerm} {params : List Parameter}
    (hn : isMultiline name = false)
    (hr : isMultiline ((result.map TypeTerm.chars).getD []) = false)
    (hp : isMultiline (params.flatMap Parameter.chars) = false) :
    Terminated (spell (.function name result params)) := by
  have hparams : isMultiline (commaList (params.map spellParameter)) = false := by
    refine isMultiline_intercalate rfl fun t ht => ?_
    obtain ⟨param, hm, rfl⟩ := List.mem_map.mp ht
    exact isMultiline_parameters hp param hm
  have hresult : isMultiline (result.elim vocabulary.noResult spellType) = false := by
    cases result with
    | none => rfl
    | some type => exact isMultiline_spellType hr
  unfold spell
  refine .of_line ?_ (isClosed_append _ rfl)
  simp only [isMultiline_append, hn, hparams, hresult]
  rfl

theorem terminated_record {name : Text} {fields : List Parameter} (hn : isMultiline name = false)
    (hf : isMultiline (fields.flatMap Parameter.chars) = false) :
    Terminated (spell (.record name fields)) := by
  have hhead : Terminated ("struct " ++ name ++ " \x7b") := by
    refine .of_line ?_ (isClosed_append _ rfl)
    simp only [isMultiline_append, hn]
    rfl
  have hmembers : ∀ field ∈ fields, Terminated ("\t" ++ spellParameter field ++ ";") := by
    intro field hm
    refine .of_line ?_ (isClosed_append _ rfl)
    simp only [isMultiline_append, isMultiline_parameters hf field hm]
    rfl
  have hend : Terminated ("\x7d;" : Text) := .of_line rfl rfl
  exact (hhead.flatMap_newline hmembers).newline hend

theorem terminated_init {record var : Text} {fields : List (Text × Text)}
    (hr : isMultiline record = false) (hv : isMultiline var = false)
    (hf : isMultiline (fields.flatMap fun f => f.1 ++ f.2) = false) :
    Terminated (spell (.init record var fields)) := by
  have hhead : Terminated (record ++ " " ++ var ++ ";") := by
    refine .of_line ?_ (isClosed_append _ rfl)
    simp only [isMultiline_append, hr, hv]
    rfl
  have hfields : ∀ field ∈ fields,
      Terminated (var ++ "." ++ field.1 ++ " = " ++ field.2 ++ ";") := by
    intro field hm
    refine .of_line ?_ (isClosed_append _ rfl)
    have hfield := isMultiline_of_mem hf (List.mem_map_of_mem hm)
    rw [isMultiline_append, Bool.or_eq_false_iff] at hfield
    simp only [isMultiline_append, hv, hfield.1, hfield.2]
    rfl
  exact hhead.flatMap_newline hfields

theorem terminated_terminate {t : Text} (h : isMultiline t = false) :
    Terminated (terminate t) := by
  unfold terminate
  split
  · next hl => exact .of_line h (isClosed_iff.mpr ⟨_, hl, rfl⟩)
  · next hl => exact .of_line h (isClosed_iff.mpr ⟨_, hl, rfl⟩)
  · next hl => exact .of_line h (isClosed_iff.mpr ⟨_, hl, rfl⟩)
  · refine .of_line ?_ (isClosed_append _ rfl)
    rw [isMultiline_append, h]
    rfl

end Cpp

/-- Whether a phrase is put into words that are more than a remark. -/
def Phrase.isStatement : Phrase → Bool
  | nothing | comment _ | note .. => false
  | _ => true

theorem Cpp.terminated_spell {phrase : Phrase} (h : isMultiline phrase.chars = false)
    (hs : phrase.isStatement = true) : Terminated (spell phrase) := by
  cases phrase with
  | nothing | comment | note => cases hs
  | declare type names value =>
    simp only [Phrase.chars_declare, isMultiline_append, Bool.or_eq_false_iff] at h
    exact terminated_declaration h.1.1 h.1.2 h.2
  | forRange var first limit step =>
    simp only [Phrase.chars_forRange, isMultiline_append, Bool.or_eq_false_iff] at h
    obtain ⟨⟨⟨hv, hf⟩, hl⟩, hs⟩ := h
    have hstep : isMultiline (advance var step) = false := by
      cases step with
      | none =>
        rw [advance, isMultiline_append, hv]
        rfl
      | some step =>
        rw [Option.getD_some] at hs
        simp only [advance, isMultiline_append, hv, hs]
        rfl
    unfold spell
    refine .of_line ?_ (isClosed_append _ rfl)
    simp only [isMultiline_append, hv, hf, hl, hstep]
    rfl
  | forEach item source =>
    simp only [Phrase.chars_forEach, Parameter.chars_eq, isMultiline_append, Bool.or_eq_false_iff] at h
    unfold spell
    refine .of_line ?_ (isClosed_append _ rfl)
    simp only [isMultiline_append, isMultiline_spellType h.1.2, isMultiline_reference, h.1.1, h.2]
    rfl
  | whileCond t | ifCond t | elseIf t | switch t | case t | input t | quit t =>
    rw [Phrase.chars_of_texts rfl] at h
    unfold spell
    refine .of_line ?_ (isClosed_append _ rfl)
    simp only [isMultiline_append, h]
    rfl
  | otherwise | default => exact .of_line rfl rfl
  | blockEnd kind =>
    have hbreak : Terminated ("\tbreak;\n\x7d" : Text) := by
      unfold Terminated
      decide
    cases kind with
    | case | default => exact hbreak
    | _ => exact .of_line rfl rfl
  | print args => exact terminated_print h
  | function name result params =>
    simp only [Phrase.chars_function, isMultiline_append, Bool.or_eq_false_iff] at h
    exact terminated_function h.1.1 h.1.2 h.2
  | returns value =>
    rw [Phrase.chars_of_texts rfl] at h
    unfold spell
    dsimp only
    split_ifs
    · exact .of_line rfl rfl
    · refine .of_line ?_ (isClosed_append _ rfl)
      simp only [isMultiline_append, h]
      rfl
  | array element name dims =>
    simp only [Phrase.chars_array, isMultiline_append, Bool.or_eq_false_iff] at h
    have hv : isMultiline (vocabulary.spell element) = false :=
      Target.isMultiline_vocabulary h.1.1 .cpp
    unfold spell
    refine .of_line ?_ (isClosed_append _ rfl)
    simp only [isMultiline_append, hv, h.1.2, isMultiline_bounds h.2]
    rfl
  | record name fields =>
    simp only [Phrase.chars_record, isMultiline_append, Bool.or_eq_false_iff] at h
    exact terminated_record h.1 h.2
  | init record var fields =>
    simp only [Phrase.chars_init, isMultiline_append, Bool.or_eq_false_iff] at h
    exact terminated_init h.1.1 h.1.2 h.2
  | verbatim t =>
    rw [Phrase.chars_of_texts rfl] at h
    exact terminated_terminate h

theorem Cpp.terminated_drawing {args : List Text} (h : ∀ arg ∈ args, isMultiline arg = false)
    (op : Drawing) : Terminated (drawing op args) := by
  have hcall : Terminated (op.libraryCall ++ "(" ++ commaList args ++ ");") := by
    refine .of_line ?_ (isClosed_append _ rfl)
    have hname : isMultiline op.libraryCall = false := by cases op <;> rfl
    have hargs : isMultiline (commaList args) = false := isMultiline_intercalate rfl h
    simp only [isMultiline_append, hname, hargs]
    rfl
  cases op with
  | image =>
    unfold drawing
    dsimp only
    split
    · next path var ht =>
      obtain ⟨arrow, rfl⟩ := Drawing.eq_append_of_imageTarget ht
      have hpath : isMultiline (unwords path) = false :=
        isMultiline_intercalate rfl fun t hm => h t (by simp [hm])
      refine .of_line ?_ (isClosed_append _ rfl)
      simp only [isMultiline_append, hpath, h var (by simp)]
      rfl
    · have hargs : isMultiline (unwords args) = false := isMultiline_intercalate rfl h
      refine .of_line ?_ (isClosed_append _ rfl)
      simp only [isMultiline_append, hargs]
      rfl
  | _ => exact hcall

def Form.isRemark : Form → Bool
  | comment | note _ => true
  | _ => false

theorem Cpp.spell_remark {s : Statement} {form : Form} (hf : form.isRemark = true)
    (h : isMultiline (s.phrase .cpp form).chars = false) :
    isMultiline (spell (s.phrase .cpp form)) = false ∧
      ("//" : Text) <+: spell (s.phrase .cpp form) := by
  cases form with
  | comment =>
    rw [Phrase.chars_of_texts (t := s.argText) rfl] at h
    change isMultiline ("// " ++ s.argText) = false ∧ ("//" : Text) <+: "// " ++ s.argText
    refine ⟨?_, " " ++ s.argText, rfl⟩
    rw [isMultiline_append, h]
    rfl
  | note kind =>
    rw [Phrase.chars_of_texts (t := s.argText) rfl] at h
    change isMultiline ("// " ++ kind.label ++ " : " ++ s.argText) = false ∧
      ("//" : Text) <+: "// " ++ kind.label ++ " : " ++ s.argText
    refine ⟨?_, " " ++ kind.label ++ " : " ++ s.argText, rfl⟩
    simp only [isMultiline_append, h]
    cases kind <;> rfl
  | _ => cases hf

/-- A statement says nothing, or is a remark, or has a phrase that is more than that. -/
theorem Statement.phrase_cases (target : Target) (s : Statement) (form : Form) :
    s.phrase target form = .nothing ∨ form.isRemark = true ∨
      (s.phrase target form).isStatement = true := by
  cases form with
  | blank | functionBody | blockEnd => exact .inl rfl
  | comment | note => exact .inr (.inl rfl)
  | declaration =>
    refine .inr (.inr ?_)
    unfold phrase declaration
    dsimp only
    split <;> rfl
  | forRange | forEach | function | array | record | init =>
    refine .inr (.inr ?_)
    unfold phrase
    dsimp only
    split <;> rfl
  | _ => exact .inr (.inr rfl)

/-- The wording of a line is nothing, or a remark, or has closed lines only. -/
theorem Accepted.wording_cases {unit : Text} {strict : Bool} {p : Progress} {line : SourceLine}
    {s : Statement} (h : Accepted ⟨.cpp, unit, strict⟩ p line s) (hl : '\n' ∉ line.text)
    {n : Nesting} {t : Text} (ht : t = Target.cpp.wording n s (s.form .cpp)) :
    t = [] ∨
      ((s.form .cpp).isRemark = true ∧ isMultiline t = false ∧ ("//" : Text) <+: t) ∨
      Terminated t := by
  subst ht
  have hwords : isMultiline (s.phrase .cpp (s.form .cpp)).chars = false :=
    h.isMultiline_phrase hl (s.form .cpp)
  by_cases he : s.form .cpp = .blockEnd
  · rw [he]
    cases n with
    | nil => exact .inl rfl
    | cons b outer =>
      refine .inr (.inr ?_)
      change Terminated (Target.cpp.endBranch b (Cpp.spell (.blockEnd b.kind)))
      rw [Target.endBranch_cpp]
      exact Cpp.terminated_spell rfl rfl
  by_cases hd : ∃ op, s.form .cpp = .draw op
  · obtain ⟨op, hd⟩ := hd
    rw [hd]
    exact .inr (.inr (Cpp.terminated_drawing (h.isMultiline_args hl) op))
  rw [Target.wording_cpp n he (not_exists.mp hd)]
  rcases s.phrase_cases .cpp (s.form .cpp) with hp | hr | hp
  · rw [hp]
    exact .inl rfl
  · exact .inr (.inl ⟨hr, Cpp.spell_remark hr hwords⟩)
  · exact .inr (.inr (Cpp.terminated_spell hwords hp))

/-! ### Renaming and indentation -/

namespace Target

theorem replacements_cpp :
    ∀ e ∈ Target.cpp.replacements,
      e.1 ≠ [] ∧ e.1.any isTerminator = false ∧ e.1.head? ≠ some '/' := by
  decide

theorem terminated_rename {t : Text} (h : Terminated t) : Terminated (Target.cpp.rename t) := by
  have hline : ∀ line : Text, line.isClosed = true → (Target.cpp.rename line).isClosed = true := by
    refine rename_induction
      (motive := fun f => ∀ line, isClosed line = true → isClosed (f line) = true) .cpp
      (fun _ hc => hc) (fun f e he hf line hc => ?_)
    obtain ⟨hne, ho, -⟩ := replacements_cpp e he
    exact isClosed_replace hne ho (hf line hc)
  intro line hl
  rw [lines_rename, List.mem_map] at hl
  obtain ⟨l, hm, rfl⟩ := hl
  exact hline l (h l hm)

theorem slashes_rename {t : Text} (h : ("//" : Text) <+: t) :
    ("//" : Text) <+: Target.cpp.rename t := by
  refine rename_induction (motive := fun f => ("//" : Text) <+: f t) .cpp h (fun f e he hf => ?_)
  obtain ⟨hne, -, hs⟩ := replacements_cpp e he
  obtain ⟨rest, hrest⟩ := hf
  have hfront : ∀ c ∈ ("//" : Text), e.1.head? ≠ some c := by
    simpa using hs
  dsimp only
  rw [← hrest, replace_append_left hne hfront]
  exact List.prefix_append _ _

end Target

namespace Text

def IsPadding (t : Text) : Prop := ∀ c ∈ t, c = ' ' ∨ c = '\t'

theorem IsPadding.append {t u : Text} (ht : IsPadding t) (hu : IsPadding u) : IsPadding (t ++ u) :=
  List.forall_mem_append.mpr ⟨ht, hu⟩

theorem IsPadding.notMem_newline {t : Text} (h : IsPadding t) : '\n' ∉ t := by
  intro hm
  rcases h _ hm with hc | hc <;> cases hc

theorem IsPadding.times {unit : Text} (h : IsPadding unit) (n : Nat) :
    IsPadding (times n unit) := by
  refine forall_mem_flatten fun part hp => ?_
  rw [List.eq_of_mem_replicate hp]
  exact h

/-- A remark has no tab in front, so it is put behind the units of its depth. -/
theorem indentLine_remark {t : Text} (h : ("//" : Text) <+: t) (depth : Nat) (unit : Text) :
    indentLine depth unit t = Text.times depth unit ++ t := by
  obtain ⟨rest, rfl⟩ := h
  rfl

end Text

/-! ### The lines of a program -/

/-- The remark on the line at an index of the source, with some padding in front. -/
structure RemarkAt (setup : Setup) (source : Text) (k : Nat) (pad remark : Text) : Prop where
  form : ∃ form, formAt? setup.target source k = some form ∧ form.isRemark = true
  wording : ∃ t, wordingAt? setup source k = some t ∧ remark = setup.target.rename t
  slashes : ("//" : Text) <+: remark
  padding : IsPadding pad

def Complete (setup : Setup) (source line : Text) : Prop :=
  line.isClosed = true ∨ ∃ k pad remark, RemarkAt setup source k pad remark ∧ line = pad ++ remark

theorem Complete.shift {setup : Setup} {source line unit : Text} (hu : IsPadding unit)
    (h : Complete setup source line) : Complete setup source (unit ++ line) := by
  rcases h with h | ⟨k, pad, remark, hr, rfl⟩
  · exact .inl (isClosed_append unit h)
  · refine .inr ⟨k, unit ++ pad, remark, ?_, (List.append_assoc ..).symm⟩
    exact { hr with padding := hu.append hr.padding }

section Wording

variable {unit : Text} {strict : Bool} {source t : Text} {k : Nat}

theorem wordingAt_cases (h : wordingAt? ⟨.cpp, unit, strict⟩ source k = some t) :
    t = [] ∨
      ((∃ form, formAt? .cpp source k = some form ∧ form.isRemark = true) ∧
        isMultiline t = false ∧ ("//" : Text) <+: t) ∨
      Terminated t := by
  obtain ⟨line, hl, hw⟩ := Option.bind_eq_some_iff.mp h
  obtain ⟨s, hs, rfl⟩ := Progress.exists_of_wording hw
  have hnewline : '\n' ∉ line.text :=
    notMem_of_mem_lines (SourceLine.text_mem_lines (List.mem_of_getElem? hl))
  have hform : formAt? .cpp source k = some (s.form .cpp) := by
    rw [formAt?_of_getElem? .cpp hl, SourceLine.form_of_ofLine hs.read]
  rcases hs.wording_cases hnewline rfl with hnil | ⟨hr, hremark⟩ | hterm
  · exact .inl hnil
  · exact .inr (.inl ⟨⟨_, hform, hr⟩, hremark⟩)
  · exact .inr (.inr hterm)

theorem complete_indent (hu : IsPadding unit)
    (h : wordingAt? ⟨.cpp, unit, strict⟩ source k = some t) {depth : Nat}
    (hne : indent depth unit (Target.cpp.rename t) ≠ []) :
    ∀ line ∈ (indent depth unit (Target.cpp.rename t)).lines,
      Complete ⟨.cpp, unit, strict⟩ source line := by
  have ht : Target.cpp.rename t ≠ [] := by
    intro ht
    rw [ht] at hne
    exact hne rfl
  intro line hline
  rw [lines_indent hu.notMem_newline ht] at hline
  obtain ⟨l, hl, rfl⟩ := List.mem_map.mp hline
  rcases wordingAt_cases h with rfl | ⟨hform, hone, hslashes⟩ | hterm
  · exact absurd rfl ht
  · rw [Target.lines_rename, lines_of_not_isMultiline hone, List.map_singleton,
      List.mem_singleton] at hl
    have hremark := Target.slashes_rename hslashes
    rw [hl]
    exact .inr ⟨k, times depth unit, _, ⟨hform, ⟨t, h, rfl⟩, hremark, hu.times depth⟩,
      indentLine_remark hremark depth unit⟩
  · exact .inl (isClosed_indentLine (Target.terminated_rename hterm l hl) depth unit)

end Wording

/-- The lines of every part of a program in C++ are complete. -/
theorem complete_textsOf {unit : Text} {strict : Bool} {source : Text} (hu : IsPadding unit)
    (hfine : (Compilation.ofSource ⟨.cpp, unit, strict⟩ source).faults = []) {part : Part}
    {t : Text}
    (ht : t ∈ Program.textsOf part (Compilation.ofSource ⟨.cpp, unit, strict⟩ source).lines) :
    ∀ line ∈ t.lines, Complete ⟨.cpp, unit, strict⟩ source line := by
  obtain ⟨l, hl, rfl⟩ := List.mem_map.mp ht
  rw [List.mem_filter, Bool.and_eq_true] at hl
  obtain ⟨hmem, -, hne⟩ := hl
  have htext : l.text ≠ [] := by simpa using hne
  obtain ⟨k, hk⟩ := List.mem_iff_getElem?.mp hmem
  obtain ⟨t, depth, hw, heq⟩ := wording_at hfine hk
  rw [heq] at htext ⊢
  exact complete_indent hu hw htext

namespace Cpp

theorem exists_header (u : Usage) :
    ∃ front : Text, header u = front ++ ['\n'] ∧
      ∀ line ∈ front.lines, line = [] ∨ ("#include" : Text) <+: line ∨ line.isClosed = true := by
  refine ⟨(header u).dropLast, ?_⟩
  unfold header
  cases u.needsMath <;> cases u.random <;> cases u.window <;> decide

/-- What holds of empty lines, includes and closed lines, and of the lines of the parts where they
are put, holds of every line of a program. -/
theorem forall_lines_compose {P : Text → Prop} {p : Program} {unit : Text} (hu : '\n' ∉ unit)
    (empty : P []) (included : ∀ line, ("#include" : Text) <+: line → P line)
    (closed : ∀ line : Text, line.isClosed = true → P line)
    (defined : ∀ t ∈ p.declarations ++ p.functions.flatten, ∀ line ∈ t.lines, P line)
    (main : ∀ t ∈ p.main, ∀ line ∈ t.lines, P (unit ++ line)) :
    ∀ line ∈ (compose p unit).lines, P line := by
  obtain ⟨front, hfront, hlines⟩ := exists_header p.usage
  have hcompose : compose p unit = front ++ '\n' :: (p.definitions ++ ("int main() \x7b" ++ '\n' ::
      (p.body unit ++ ((unit ++ "return 0;") ++ '\n' :: ("\x7d" ++ '\n' :: []))))) := by
    rw [compose, hfront]
    simp only [List.append_assoc]
    rfl
  have hmain : Text.lines "int main() \x7b" = [("int main() \x7b" : Text)] := rfl
  have hreturn : Text.lines (unit ++ "return 0;") = [unit ++ "return 0;"] := by
    refine lines_of_notMem ?_
    rw [List.mem_append, not_or]
    exact ⟨hu, by decide⟩
  have hend : Text.lines "\x7d" = [("\x7d" : Text)] := rfl
  intro line h
  rw [hcompose, lines_append_newline, Program.lines_definitions, lines_append_newline,
    Program.lines_body_append hu, lines_append_newline, lines_append_newline, hmain, hreturn, hend,
    lines_nil] at h
  simp only [List.mem_append, List.mem_flatMap, List.mem_map, List.mem_singleton] at h
  rcases h with h | ⟨t, ht, h | rfl⟩ | rfl | ⟨l, ⟨t, ht, hl⟩, rfl⟩ | rfl | rfl | rfl
  · rcases hlines line h with rfl | h | h
    · exact empty
    · exact included line h
    · exact closed line h
  · rcases ht with ht | ⟨group, hg, rfl⟩
    · exact defined t (List.mem_append_left _ ht) line h
    · by_cases hne : group = []
      · -- no group is without lines, but one would be an empty line
        rw [hne, unlines, List.intercalate_nil, lines_nil, List.mem_singleton] at h
        rw [h]
        exact empty
      · rw [lines_unlines_eq_flatMap hne] at h
        obtain ⟨t, ht, hl⟩ := List.mem_flatMap.mp h
        exact defined t (List.mem_append_right _ (List.mem_flatten.mpr ⟨group, hg, ht⟩)) line hl
  · exact empty
  · exact closed _ rfl
  · exact main t ht l hl
  · exact closed _ (isClosed_append unit rfl)
  · exact closed _ rfl
  · exact empty

end Cpp

/-- In a program in C++ every line is empty, or an include, or ends with a semicolon or a brace, or
is a remark behind its indentation: the wording of a comment or of a documentation line. -/
theorem compile_cpp_terminated {options : Options} {source text : Text}
    (hu : ∀ c ∈ options.unit, c = ' ' ∨ c = '\t')
    (h : compile .cpp options source = .ok text) :
    ∀ line ∈ text.lines,
      line = [] ∨ ("#include" : Text) <+: line ∨
        (∃ k pad remark, RemarkAt (.ofOptions .cpp options) source k pad remark ∧
          line = pad ++ remark) ∨
        ∃ c, line.getLast? = some c ∧ (c = ';' ∨ c = '\x7b' ∨ c = '\x7d') := by
  have hfine := Compilation.faults_of_compile h
  have htext := Except.ok.inj (h.symm.trans (compile_eq_ok hfine))
  have hpart : ∀ part,
      ∀ t ∈ Program.textsOf part (Compilation.ofSource (.ofOptions .cpp options) source).lines,
        ∀ line ∈ t.lines, Complete (.ofOptions .cpp options) source line :=
    fun part t ht => complete_textsOf hu hfine ht
  have hcomplete : ∀ line ∈ text.lines, line = [] ∨ ("#include" : Text) <+: line ∨
      Complete (.ofOptions .cpp options) source line := by
    rw [htext]
    refine Cpp.forall_lines_compose (IsPadding.notMem_newline hu) (.inl rfl)
      (fun line hi => .inr (.inl hi)) (fun line hc => .inr (.inr (.inl hc))) ?_ ?_
    · intro t ht line hl
      change t ∈ Program.textsOf _ _ ++ (Program.groupFunctions [] _).flatten at ht
      rw [Program.flatten_groupFunctions, List.nil_append] at ht
      rcases List.mem_append.mp ht with ht | ht
      · exact .inr (.inr (hpart .declarations t ht line hl))
      · exact .inr (.inr (hpart .functions t ht line hl))
    · intro t ht line hl
      exact .inr (.inr (.shift hu (hpart .main t ht line hl)))
  intro line hl
  rcases hcomplete line hl with hnil | hinclude | hclosed | hremark
  · exact .inl hnil
  · exact .inr (.inl hinclude)
  · obtain ⟨c, hlast, hc⟩ := isClosed_iff.mp hclosed
    exact .inr (.inr (.inr ⟨c, hlast, isTerminator_iff.mp hc⟩))
  · exact .inr (.inr (.inl hremark))

/-- A record, a remark with a call in it, and a value of the record inside of a case. -/
def remarkedCase : Text :=
  "struct point int x\nint n\n// racine(4)\nswitch n\ncase 1\ninit point p x racine(4)\nend\nend"

/-- The line in front of the `switch` ends with a bracket, so it is the wording of a remark, in
which the call has been renamed. -/
theorem compile_cpp_terminated_remark :
    let options : Options := ⟨"\t", none⟩
    let setup := Setup.ofOptions .cpp options
    let text := Target.cpp.compose (Compilation.ofSource setup remarkedCase).program "\t"
    compile .cpp options remarkedCase = .ok text ∧ ("\t// sqrt(4)" : Text) ∈ text.lines ∧
      ∃ k pad remark, RemarkAt setup remarkedCase k pad remark ∧
        ("\t// sqrt(4)" : Text) = pad ++ remark := by
  intro options setup text
  have h : compile .cpp options remarkedCase = .ok text :=
    compile_eq_ok (show (Compilation.ofSource setup remarkedCase).faults = [] by decide +kernel)
  have hmem : ("\t// sqrt(4)" : Text) ∈ text.lines := by decide +kernel
  refine ⟨h, hmem, ?_⟩
  have hu : ∀ c ∈ ("\t" : Text), c = ' ' ∨ c = '\t' := by simp
  rcases compile_cpp_terminated hu h _ hmem with hnil | hinclude | hremark | ⟨c, hlast, hc⟩
  · cases hnil
  · exact absurd hinclude (by decide)
  · exact hremark
  · cases hlast
    exact absurd hc (by decide)

end Pseudocode
