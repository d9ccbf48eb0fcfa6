import Pseudocode.Proofs.Replacement
import Pseudocode.Proofs.Zones

/-!
# Balance of braces

The C++ text of a program closes every brace that it opens, in each part of the program and as a
whole (`compile_cpp_balanced`), if the source brings in no braces of its own. Behind each line, the
braces that a part has left open are as many as its open blocks (`Accepted.openBraces_output`).
-/
namespace Pseudocode

namespace Text

def isBrace (c : Char) : Bool := c == '\x7b' || c == '\x7d'

def braces (t : Text) : Text := t.filter isBrace

/-- As many braces are closed as opened, and never more of them at any point on the way. -/
def Balanced (t : Text) : Prop :=
  t.count '\x7b' = t.count '\x7d' ∧ ∀ u, u <+: t → u.count '\x7d' ≤ u.count '\x7b'

/-- The number of braces that are open behind a text, where `depth` are open in front of it. There
is none if the text closes a brace that is not open. -/
def openBraces? (depth : Nat) : Text → Option Nat
  | [] => some depth
  | c :: cs =>
    if c = '\x7b' then openBraces? (depth + 1) cs
    else if c = '\x7d' then
      match depth with
      | 0 => none
      | depth + 1 => openBraces? depth cs
    else openBraces? depth cs

theorem braces_append (t u : Text) : braces (t ++ u) = braces t ++ braces u :=
  List.filter_append ..

theorem braces_eq_nil_iff {t : Text} : braces t = [] ↔ '\x7b' ∉ t ∧ '\x7d' ∉ t := by
  simp only [braces, List.filter_eq_nil_iff, isBrace, Bool.or_eq_true, beq_iff_eq, not_or]
  constructor
  · exact fun h => ⟨fun ho => (h _ ho).1 rfl, fun hc => (h _ hc).2 rfl⟩
  · rintro ⟨ho, hc⟩ c hm
    exact ⟨fun he => ho (he ▸ hm), fun he => hc (he ▸ hm)⟩

theorem braces_flatten (ts : List Text) : braces ts.flatten = (ts.map braces).flatten :=
  List.filter_flatten ..

theorem braces_flatten_eq_nil {ts : List Text} (h : ∀ t ∈ ts, braces t = []) :
    braces ts.flatten = [] := by
  rw [braces_flatten]
  simpa using h

theorem braces_of_mem {ts : List Text} {t : Text} (h : braces ts.flatten = []) (ht : t ∈ ts) :
    braces t = [] := by
  refine List.eq_nil_of_sublist_nil ?_
  rw [← h]
  exact (List.sublist_flatten_of_mem ht).filter _

theorem braces_intercalate {sep : Text} (hs : braces sep = []) (ts : List Text) :
    braces (sep.intercalate ts) = braces ts.flatten := filter_intercalate hs ts

theorem braces_unlines (ts : List Text) : braces (unlines ts) = braces ts.flatten :=
  braces_intercalate rfl ts

theorem braces_when (b : Bool) (t : Text) : braces (when b t) = when b (braces t) := by
  cases b <;> rfl

theorem braces_indentLine {unit : Text} (hu : braces unit = []) (depth : Nat) (line : Text) :
    braces (indentLine depth unit line) = braces line := by
  have htimes : braces (times (depth + leadingTabs line) unit) = [] :=
    braces_flatten_eq_nil fun t ht => List.eq_of_mem_replicate ht ▸ hu
  have htabs : braces (line.takeWhile (· == '\t')) = [] := by
    rw [braces, List.filter_eq_nil_iff]
    intro c hc
    have := List.mem_takeWhile_imp hc
    simp_all [isBrace]
  rw [indentLine, braces_append, htimes, List.nil_append]
  conv_rhs => rw [← List.takeWhile_append_dropWhile (p := (· == '\t')) (l := line), braces_append,
    htabs, List.nil_append]

theorem braces_unlines_map {f : Text → Text} (hf : ∀ line, braces (f line) = braces line)
    (t : Text) : braces (unlines (t.lines.map f)) = braces t := by
  rw [braces_unlines, braces_flatten, List.map_map, show braces ∘ f = braces from funext hf,
    ← braces_flatten, ← braces_unlines, unlines_lines]

theorem braces_indent {unit : Text} (hu : braces unit = []) (depth : Nat) (t : Text) :
    braces (indent depth unit t) = braces t := by
  by_cases ht : t = []
  · simp [ht, indent]
  · rw [indent_of_ne_nil ht]
    exact braces_unlines_map (braces_indentLine hu depth) t

theorem braces_shift {unit : Text} (hu : braces unit = []) (t : Text) :
    braces (shift unit t) = braces t :=
  braces_unlines_map (fun line => by rw [braces_append, hu, List.nil_append]) t

/-! ### Open braces -/

theorem openBraces_append (depth : Nat) (t u : Text) :
    openBraces? depth (t ++ u) = (openBraces? depth t).bind (openBraces? · u) := by
  induction t generalizing depth with
  | nil => rfl
  | cons c t ih =>
    simp only [List.cons_append, openBraces?]
    split_ifs
    · exact ih _
    · cases depth with
      | zero => rfl
      | succ depth => exact ih _
    · exact ih _

theorem openBraces_braces (depth : Nat) (t : Text) :
    openBraces? depth (braces t) = openBraces? depth t := by
  induction t generalizing depth with
  | nil => rfl
  | cons c t ih =>
    by_cases ho : c = '\x7b'
    · simp [braces, isBrace, openBraces?, ho, ← ih]
    · by_cases hc : c = '\x7d'
      · cases depth <;> simp [braces, isBrace, openBraces?, hc, ← ih]
      · simp [braces, isBrace, openBraces?, ho, hc, ← ih]

theorem openBraces_congr {t u : Text} (h : braces t = braces u) (depth : Nat) :
    openBraces? depth t = openBraces? depth u := by
  rw [← openBraces_braces, h, openBraces_braces]

theorem openBraces_of_braces_eq_nil {t : Text} (h : braces t = []) (depth : Nat) :
    openBraces? depth t = some depth :=
  openBraces_congr (u := []) h depth

theorem openBraces_add {depth left : Nat} {t : Text} (h : openBraces? depth t = some left)
    (outer : Nat) : openBraces? (depth + outer) t = some (left + outer) := by
  induction t generalizing depth with
  | nil => simp_all [openBraces?]
  | cons c t ih =>
    simp only [openBraces?] at h ⊢
    split_ifs at h ⊢
    · rw [show depth + outer + 1 = depth + 1 + outer by omega]
      exact ih h
    · cases depth with
      | zero => cases h
      | succ depth =>
        rw [show depth + 1 + outer = depth + outer + 1 by omega]
        exact ih h
    · exact ih h

theorem openBraces_count {depth left : Nat} {t : Text} (h : openBraces? depth t = some left) :
    depth + t.count '\x7b' = left + t.count '\x7d' := by
  induction t generalizing depth with
  | nil => simp_all [openBraces?]
  | cons c t ih =>
    simp only [openBraces?] at h
    split_ifs at h with ho hc
    · have := ih h
      simp only [ho, List.count_cons_self, List.count_cons_of_ne (show '\x7b' ≠ '\x7d' by decide)]
      omega
    · cases depth with
      | zero => cases h
      | succ depth =>
        have := ih h
        simp only [hc, List.count_cons_self, List.count_cons_of_ne (show '\x7d' ≠ '\x7b' by decide)]
        omega
    · rw [List.count_cons_of_ne ho, List.count_cons_of_ne hc]
      exact ih h

theorem balanced_of_openBraces {t : Text} (h : openBraces? 0 t = some 0) : Balanced t := by
  refine ⟨by simpa using openBraces_count h, ?_⟩
  rintro u ⟨rest, rfl⟩
  rw [openBraces_append] at h
  obtain ⟨left, hu, -⟩ := Option.bind_eq_some_iff.mp h
  have := openBraces_count hu
  omega

end Text

/-- The braces that the C++ spelling of a phrase has, apart from balanced ones. -/
def Phrase.frame : Phrase → Text
  | forRange .. | forEach .. | whileCond _ | ifCond _ | switch _ | case _ | default | function .. =>
    ['\x7b']
  | elseIf _ | otherwise => ['\x7d', '\x7b']
  | blockEnd _ => ['\x7d']
  | _ => []

namespace Cpp

open Text

theorem braces_vocabulary {name : Text} (h : braces name = []) :
    braces (vocabulary.spell name) = [] := by
  have hv : braces (vocabulary.entries.flatMap Prod.snd) = [] := rfl
  rw [braces, List.filter_eq_nil_iff] at h hv ⊢
  exact Vocabulary.forall_mem_spell h hv

theorem braces_spellType {type : TypeTerm} (h : braces type.chars = []) :
    braces (spellType type) = [] := by
  cases type with
  | named name =>
    rw [TypeTerm.chars_named] at h
    exact braces_vocabulary h
  | array element dims => rfl
  | record name => rwa [TypeTerm.chars_record] at h

theorem braces_bounds {dims : List Text} (h : braces dims.flatten = []) :
    braces (bounds dims) = [] := by
  induction dims with
  | nil => rfl
  | cons dim dims ih =>
    rw [List.flatten_cons, braces_append, List.append_eq_nil_iff] at h
    rw [bounds, List.flatMap_cons, braces_append, braces_append, braces_append, h.1,
      ← bounds, ih h.2]
    rfl

theorem braces_reference (param : Parameter) : braces (reference param) = [] := by
  unfold reference
  cases param.byRef <;> rfl

theorem braces_spellParameter {param : Parameter} (h : braces param.chars = []) :
    braces (spellParameter param) = [] := by
  rw [Parameter.chars_eq, braces_append, List.append_eq_nil_iff] at h
  unfold spellParameter
  split
  · next element dim dims ht =>
    rw [ht, TypeTerm.chars_array, Option.getD_some, braces_append, List.append_eq_nil_iff] at h
    simp only [braces_append, h.1, braces_vocabulary h.2.1, braces_bounds h.2.2]
    rfl
  · simp only [braces_append, h.1, braces_spellType h.2, braces_reference]
    rfl

theorem braces_parameters {params : List Parameter}
    (h : braces (params.flatMap Parameter.chars) = []) :
    ∀ param ∈ params, braces (spellParameter param) = [] := by
  intro param hp
  exact braces_spellParameter (braces_of_mem h (List.mem_map_of_mem hp))

theorem openBraces_declaration {type : Text} {names : List Text} {value : Option Text}
    (ht : braces type = []) (hn : braces names.flatten = []) (hv : braces (value.getD []) = [])
    (depth : Nat) : openBraces? depth (declaration type names value) = some depth := by
  unfold declaration
  split
  · next name names value =>
    rw [List.flatten_cons, braces_append, List.append_eq_nil_iff] at hn
    refine openBraces_of_braces_eq_nil ?_ depth
    simp only [braces_append, ht, hn.1, Option.getD_some ▸ hv]
    rfl
  · -- every name has a pair of braces behind it
    clear * - ht hn
    have hnames : openBraces? depth (names.map fun n => n ++ vocabulary.unset).flatten =
        some depth := by
      induction names with
      | nil => rfl
      | cons name names ih =>
        rw [List.flatten_cons, braces_append, List.append_eq_nil_iff] at hn
        rw [List.map_cons, List.flatten_cons, openBraces_append, openBraces_append,
          openBraces_of_braces_eq_nil hn.1]
        exact ih hn.2
    refine (openBraces_congr ?_ depth).trans hnames
    rw [braces_append, braces_append, braces_append, ht, commaList, braces_intercalate rfl]
    simp only [show braces (" " : Text) = [] from rfl, show braces (";" : Text) = [] from rfl,
      List.nil_append, List.append_nil]

theorem openBraces_record {name : Text} {fields : List Parameter} (hn : braces name = [])
    (hf : braces (fields.flatMap Parameter.chars) = []) (depth : Nat) :
    openBraces? depth (spell (.record name fields)) = some depth := by
  have hm : braces (fields.flatMap member) = [] := by
    refine braces_flatten_eq_nil fun t ht => ?_
    obtain ⟨field, hfield, rfl⟩ := List.mem_map.mp ht
    rw [member, braces_append, braces_append, braces_parameters hf field hfield]
    rfl
  have h : braces (spell (.record name fields)) = ['\x7b', '\x7d'] := by
    unfold spell
    simp only [braces_append, hn, hm]
    rfl
  rw [← openBraces_braces, h]
  rfl

theorem openBraces_array {element name : Text} {dims : List Text} (he : braces element = [])
    (hn : braces name = []) (hd : braces dims.flatten = []) (depth : Nat) :
    openBraces? depth (spell (.array element name dims)) = some depth := by
  have h : braces (spell (.array element name dims)) = ['\x7b', '\x7d'] := by
    unfold spell
    simp only [braces_append, braces_vocabulary he, hn, braces_bounds hd]
    rfl
  rw [← openBraces_braces, h]
  rfl

theorem braces_terminate {t : Text} (h : braces t = []) : braces (terminate t) = [] := by
  unfold terminate
  split
  · exact h
  · exact h
  · exact h
  · rw [braces_append, h]
    rfl

theorem braces_printed {arg : Text} (h : braces arg = []) : braces (printed arg) = [] := by
  unfold printed
  split
  · rfl
  · exact h

/-- Without braces in its words, a phrase is spelled with the braces of its frame, and with others
that are balanced. -/
theorem openBraces_spell {phrase : Phrase} (h : braces phrase.chars = []) (depth : Nat) :
    openBraces? depth (spell phrase) = openBraces? depth phrase.frame := by
  cases phrase with
  | declare type names value =>
    simp only [Phrase.chars_declare, braces_append, List.append_eq_nil_iff] at h
    exact openBraces_declaration h.1.1 h.1.2 h.2 depth
  | array element name dims =>
    simp only [Phrase.chars_array, braces_append, List.append_eq_nil_iff] at h
    exact openBraces_array h.1.1 h.1.2 h.2 depth
  | record name fields =>
    simp only [Phrase.chars_record, braces_append, List.append_eq_nil_iff] at h
    exact openBraces_record h.1 h.2 depth
  | nothing | otherwise | default => exact openBraces_congr rfl depth
  | blockEnd kind => cases kind <;> exact openBraces_congr rfl depth
  | verbatim t =>
    rw [Phrase.chars_of_texts rfl] at h
    exact openBraces_of_braces_eq_nil (braces_terminate h) depth
  | comment t | whileCond t | ifCond t | elseIf t | switch t | case t | input t | quit t =>
    refine openBraces_congr ?_ depth
    rw [Phrase.chars_of_texts rfl] at h
    unfold spell
    simp only [braces_append, h]
    rfl
  | note kind t =>
    refine openBraces_congr ?_ depth
    rw [Phrase.chars_of_texts rfl] at h
    unfold spell
    simp only [braces_append, h]
    cases kind <;> rfl
  | returns value =>
    refine openBraces_congr ?_ depth
    rw [Phrase.chars_of_texts rfl] at h
    unfold spell
    dsimp only
    split_ifs
    · rfl
    · simp only [braces_append, h]
      rfl
  | forRange var first limit step =>
    refine openBraces_congr ?_ depth
    simp only [Phrase.chars_forRange, braces_append, List.append_eq_nil_iff] at h
    obtain ⟨⟨⟨hv, hf⟩, hl⟩, hs⟩ := h
    unfold spell
    cases step with
    | none =>
      simp only [advance, braces_append, hv, hf, hl]
      rfl
    | some step =>
      rw [Option.getD_some] at hs
      simp only [advance, braces_append, hv, hf, hl, hs]
      rfl
  | forEach item source =>
    refine openBraces_congr ?_ depth
    simp only [Phrase.chars_forEach, Parameter.chars_eq, braces_append, List.append_eq_nil_iff] at h
    unfold spell
    simp only [braces_append, braces_spellType h.1.2, braces_reference, h.1.1, h.2]
    rfl
  | print args =>
    refine openBraces_congr ?_ depth
    have ha : braces (args.map printed).flatten = [] := by
      refine braces_flatten_eq_nil fun t ht => ?_
      obtain ⟨arg, hm, rfl⟩ := List.mem_map.mp ht
      exact braces_printed (braces_of_mem h hm)
    cases args with
    | nil => rfl
    | cons arg args =>
      unfold spell
      simp only [braces_append, braces_intercalate (show braces (" << " : Text) = [] from rfl), ha]
      rfl
  | function name result params =>
    refine openBraces_congr ?_ depth
    simp only [Phrase.chars_function, braces_append, List.append_eq_nil_iff] at h
    obtain ⟨⟨hn, hr⟩, hp⟩ := h
    have hparams : braces (commaList (params.map spellParameter)) = [] := by
      rw [commaList, braces_intercalate rfl]
      refine braces_flatten_eq_nil fun t ht => ?_
      obtain ⟨param, hm, rfl⟩ := List.mem_map.mp ht
      exact braces_parameters hp param hm
    have hresult : braces (result.elim vocabulary.noResult spellType) = [] := by
      cases result with
      | none => rfl
      | some type => exact braces_spellType hr
    unfold spell
    simp only [braces_append, hn, hparams, hresult]
    rfl
  | init type var fields =>
    refine openBraces_congr ?_ depth
    simp only [Phrase.chars_init, braces_append, List.append_eq_nil_iff] at h
    obtain ⟨⟨ht, hv⟩, hf⟩ := h
    have hfields : braces (fields.flatMap (fieldAssignment var)) = [] := by
      refine braces_flatten_eq_nil fun t ht => ?_
      obtain ⟨field, hm, rfl⟩ := List.mem_map.mp ht
      have h := braces_of_mem hf (List.mem_map_of_mem hm)
      rw [braces_append, List.append_eq_nil_iff] at h
      simp only [fieldAssignment, braces_append, hv, h.1, h.2]
      rfl
    unfold spell
    simp only [braces_append, ht, hv, hfields]
    rfl

theorem braces_drawing {args : List Text} (h : braces args.flatten = []) (op : Drawing) :
    braces (drawing op args) = [] := by
  have hcall : braces (op.libraryCall ++ "(" ++ commaList args ++ ");") = [] := by
    rw [braces_append, braces_append, braces_append, commaList, braces_intercalate rfl, h]
    cases op <;> rfl
  cases op with
  | image =>
    unfold drawing
    dsimp only
    split
    · next path var ht =>
      obtain ⟨arrow, rfl⟩ := Drawing.eq_append_of_imageTarget ht
      simp only [List.flatten_append, List.flatten_cons, braces_append, List.append_eq_nil_iff] at h
      simp only [braces_append, unwords, braces_intercalate (show braces [' '] = [] from rfl), h.1,
        h.2.2.1]
      rfl
    · rw [braces_append, braces_append, unwords, braces_intercalate rfl, h]
      rfl
  | _ => exact hcall

end Cpp

namespace Target

open Text

theorem braces_rename (text : Text) : braces (Target.cpp.rename text) = braces text := by
  have hr : ∀ e ∈ Target.cpp.replacements, e.1 ≠ [] ∧ braces e.1 = [] ∧ braces e.2 = [] := by
    decide
  refine rename_induction (motive := fun f => ∀ text, braces (f text) = braces text) .cpp
    (fun _ => rfl) (fun f e he hf text => ?_) text
  obtain ⟨hne, ho, hn⟩ := hr e he
  exact (filter_replace hne ho hn _).trans (hf text)

end Target

theorem Statement.frame_stays {s : Statement} {form : Form} (hf : form.opensBlock = false)
    (target : Target) : (s.phrase target form).frame = [] := by
  cases form with
  | declaration =>
    unfold Statement.phrase Statement.declaration
    dsimp only
    split <;> rfl
  | array | record | init =>
    unfold Statement.phrase
    dsimp only
    split <;> rfl
  | forRange | forEach | whileCond | ifCond | elseIf | otherwise | switch | case | default
  | function => cases hf
  | _ => rfl

theorem Target.endBranch_cpp (b : Block) (text : Text) : Target.cpp.endBranch b text = text := by
  unfold endBranch
  split <;> rfl

theorem Target.wording_cpp {s : Statement} {form : Form} (n : Nesting) (he : form ≠ .blockEnd)
    (hd : ∀ op, form ≠ .draw op) :
    Target.cpp.wording n s form = Cpp.spell (s.phrase .cpp form) := by
  unfold wording
  split
  · exact absurd rfl he
  · exact endBranch_cpp ..
  · exact endBranch_cpp ..
  · exact absurd rfl (hd _)
  · rfl

namespace Accepted

open Text

section Opening

variable {setup : Setup} {p : Progress} {line : SourceLine} {s : Statement}

theorem frame_opens (h : Accepted setup p line s) {kind : BlockKind}
    (ho : (s.form setup.target).opens? s.args = some kind) :
    (s.phrase setup.target (s.form setup.target)).frame = ['\x7b'] := by
  cases hf : s.form setup.target with
  | forRange =>
    obtain ⟨var, first, limit, step, hp⟩ := h.forRange_phrase hf
    rw [hp]
    rfl
  | forEach =>
    obtain ⟨item, source, hp⟩ := h.forEach_phrase hf
    rw [hp]
    rfl
  | function =>
    obtain ⟨name, result, params, hp⟩ := h.function_phrase hf
    rw [hp]
    rfl
  | whileCond | ifCond | switch | case | default => rfl
  | _ => simp [hf, Form.opens?] at ho

end Opening

variable {unit : Text} {strict : Bool} {p : Progress} {line : SourceLine} {s : Statement}

theorem braces_words (h : Accepted ⟨.cpp, unit, strict⟩ p line s) (hl : braces line.text = [])
    (form : Form) :
    braces (s.phrase .cpp form).chars = [] ∧ braces s.args.flatten = [] := by
  have hown : braces Target.cpp.ownChars = [] := rfl
  simp only [braces, List.filter_eq_nil_iff] at hl hown ⊢
  exact ⟨Statement.forall_mem_phrase h.read hl hown form,
    forall_mem_flatten (Statement.forall_mem_args h.read hl)⟩

/-- The text of a line opens a brace for a block that it opens, and closes one for a block that it
closes. -/
theorem openBraces_wording (h : Accepted ⟨.cpp, unit, strict⟩ p line s)
    (hl : braces line.text = []) :
    openBraces? (p.nesting.openIn (p.output ⟨.cpp, unit, strict⟩ s).part)
        (Target.cpp.wording (p.enter (s.form .cpp)).nesting s (s.form .cpp)) =
      some ((p.behind ⟨.cpp, unit, strict⟩ s).nesting.openIn
        (p.output ⟨.cpp, unit, strict⟩ s).part) := by
  have hcount := h.openIn_behind (p.output ⟨.cpp, unit, strict⟩ s).part
  have hpos := h.openIn_pos
  have hspell := fun depth => Cpp.openBraces_spell (h.braces_words hl (s.form .cpp)).1 depth
  simp only [and_true] at hcount
  generalize (p.behind ⟨.cpp, unit, strict⟩ s).nesting.openIn _ = left at hcount hpos ⊢
  generalize p.nesting.openIn _ = depth at hcount ⊢
  cases h.turn with
  | opens kind ho _ =>
    have he := Form.not_blockEnd_of_opens ho
    have hd : ∀ op, s.form .cpp ≠ .draw op := fun op hd => by simp [hd, Form.opens?] at ho
    obtain rfl : left = depth + 1 := by simpa [he, ho] using hcount
    rw [Target.wording_cpp _ he hd, hspell, h.frame_opens ho]
    rfl
  | branches b outer hf _ _ _ =>
    obtain ⟨hopen, -, ho, he, -⟩ := Form.branch_spec hf
    have hd : ∀ op, s.form .cpp ≠ .draw op := by rcases hf with hf | hf <;> simp [hf]
    have hframe : (s.phrase .cpp (s.form .cpp)).frame = ['\x7d', '\x7b'] := by
      rcases hf with hf | hf <;> rw [hf] <;> rfl
    obtain rfl : left = depth := by simpa [he, ho] using hcount
    obtain ⟨inner, rfl⟩ : ∃ inner, left = inner + 1 :=
      Nat.exists_eq_add_one.mpr (hpos hopen)
    rw [Target.wording_cpp _ he hd, hspell, hframe]
    rfl
  | closes b outer he hn _ =>
    obtain rfl : left + 1 = depth := by simpa [he, Form.opens?] using hcount
    rw [he] at hn ⊢
    rw [hn]
    change openBraces? (left + 1) (Target.cpp.endBranch b (Cpp.spell (.blockEnd b.kind))) = _
    rw [Target.endBranch_cpp]
    have hend : braces (Phrase.blockEnd b.kind).chars = [] := rfl
    exact Cpp.openBraces_spell hend (left + 1)
  | stays hf he _ =>
    obtain rfl : left = depth := by simpa [he, Form.opens_eq_none hf] using hcount
    by_cases hd : ∃ op, s.form .cpp = .draw op
    · obtain ⟨op, hd⟩ := hd
      rw [hd]
      exact openBraces_of_braces_eq_nil (Cpp.braces_drawing (h.braces_words hl .blank).2 op) left
    · rw [Target.wording_cpp _ he (not_exists.mp hd), hspell, Statement.frame_stays hf]
      rfl

/-- The text of a part has as many open braces as the part has open blocks, before and behind the
line. -/
theorem openBraces_output (h : Accepted ⟨.cpp, unit, strict⟩ p line s) (hu : braces unit = [])
    (hl : braces line.text = []) (part : Part) :
    openBraces? (p.nesting.openIn part)
        (Program.textsOf part [p.output ⟨.cpp, unit, strict⟩ s]).flatten =
      some ((p.behind ⟨.cpp, unit, strict⟩ s).nesting.openIn part) := by
  by_cases hp : part = (p.output ⟨.cpp, unit, strict⟩ s).part
  · subst hp
    have ht : (Program.textsOf (p.output ⟨.cpp, unit, strict⟩ s).part
        [p.output ⟨.cpp, unit, strict⟩ s]).flatten = (p.output ⟨.cpp, unit, strict⟩ s).text := by
      by_cases he : (p.output ⟨.cpp, unit, strict⟩ s).text = [] <;> simp [Program.textsOf, he]
    rw [ht, ← h.openBraces_wording hl]
    refine openBraces_congr ?_ _
    exact (braces_indent hu _ _).trans (Target.braces_rename _)
  · -- the line belongs to another part, whose blocks alone it changes
    have hcount := h.openIn_behind part
    simp only [hp, and_false, if_false, Nat.add_zero] at hcount
    simp [Program.textsOf, Ne.symm hp, hcount, openBraces?]

end Accepted

open Text

theorem Reads.openBraces_textsOf {unit : Text} {strict : Bool} {p q : Progress}
    {lines : List SourceLine} {outs : List OutputLine}
    (h : Reads ⟨.cpp, unit, strict⟩ p lines q outs) (hu : braces unit = [])
    (hl : ∀ line ∈ lines, braces line.text = []) (part : Part) :
    openBraces? (p.nesting.openIn part) (Program.textsOf part outs).flatten =
      some (q.nesting.openIn part) := by
  induction h with
  | nil p => rfl
  | cons head tail ih =>
    have hs := head.openBraces_output hu (hl _ (by simp)) part
    rw [← List.singleton_append, Program.textsOf_append, List.flatten_append, openBraces_append, hs]
    exact ih fun line hm => hl line (by simp [hm])

namespace Program

theorem flatten_addGroup (group : List Text) (groups : List (List Text)) :
    (addGroup group groups).flatten = group ++ groups.flatten := by
  unfold addGroup
  split_ifs with h
  · rw [List.isEmpty_iff.mp h, List.nil_append]
  · rfl

theorem flatten_groupFunctions (current : List Text) (lines : List OutputLine) :
    (groupFunctions current lines).flatten = current ++ textsOf .functions lines := by
  induction lines generalizing current with
  | nil => simp [groupFunctions, flatten_addGroup, textsOf]
  | cons l lines ih =>
    rw [← List.singleton_append, textsOf_append, List.singleton_append, groupFunctions]
    split_ifs
    · rw [flatten_addGroup, ih, List.nil_append, List.append_assoc]
    · rw [ih, List.append_assoc]

theorem braces_definitions (p : Program) :
    braces p.definitions = braces p.declarations.flatten ++ braces p.functions.flatten.flatten := by
  have hgap : ∀ ts : List Text,
      braces (ts.flatMap fun t => t ++ ['\n', '\n']) = braces ts.flatten := by
    intro ts
    rw [List.flatMap_def, braces_flatten, braces_flatten, List.map_map]
    congr 2
    funext t
    rw [Function.comp_apply, braces_append]
    exact List.append_nil _
  have hgroups : braces (p.functions.map unlines).flatten = braces p.functions.flatten.flatten := by
    rw [braces_flatten, List.map_map, show braces ∘ unlines = braces ∘ List.flatten from
      funext braces_unlines, ← List.map_map, ← braces_flatten, List.flatten_flatten]
  rw [definitions, hgap, List.flatten_append, braces_append, hgroups]

theorem braces_body {unit : Text} (hu : braces unit = []) (p : Program) :
    braces (p.body unit) = braces p.main.flatten := by
  rw [body, List.flatMap_def, braces_flatten, braces_flatten, List.map_map]
  congr 2
  funext t
  rw [Function.comp_apply, braces_append, braces_shift hu]
  exact List.append_nil _

end Program

theorem Cpp.braces_compose {unit : Text} (hu : braces unit = []) (p : Program) :
    braces (Cpp.compose p unit) = braces p.declarations.flatten ++
      braces p.functions.flatten.flatten ++ ['\x7b'] ++ braces p.main.flatten ++ ['\x7d'] := by
  have hheader : braces (Cpp.header p.usage) = [] := by
    unfold Cpp.header
    simp only [braces_append, braces_when]
    cases p.usage.needsMath <;> cases p.usage.random <;> cases p.usage.window <;> rfl
  unfold Cpp.compose
  simp only [braces_append, hheader, p.braces_definitions, p.braces_body hu, hu, List.nil_append,
    List.append_nil]
  rfl

/-- A program in C++ closes every brace that it opens, and so does each part of it, wherever in the
blocks of the source its functions and records were written. -/
theorem compile_cpp_balanced {options : Options} {source text : Text}
    (hs : '\x7b' ∉ source ∧ '\x7d' ∉ source)
    (hu : '\x7b' ∉ options.unit ∧ '\x7d' ∉ options.unit)
    (h : compile .cpp options source = .ok text) :
    let program := (Compilation.ofSource (.ofOptions .cpp options) source).program
    text = Target.cpp.compose program options.unit ∧ Balanced text ∧
      Balanced program.declarations.flatten ∧ Balanced program.functions.flatten.flatten ∧
      Balanced program.main.flatten := by
  intro program
  obtain ⟨q, outs, hr, hn, htext⟩ := compile_eq_ok_iff.mp h
  have hprogram : program = .ofLines outs ((Usage.ofSource source).union q.usage) :=
    congrArg Compilation.program (Compilation.ofSource_of_reads hr)
  rw [← braces_eq_nil_iff] at hs hu
  have hlines : ∀ line ∈ SourceLine.ofSource source, braces line.text = [] := by
    intro line hl
    rw [braces, List.filter_eq_nil_iff] at hs ⊢
    exact fun c hc => hs c (mem_of_mem_pieces (SourceLine.text_mem_lines hl) hc)
  -- no block is open in front of the lines or behind them, so no brace is
  have hpart : ∀ part, openBraces? 0 (Program.textsOf part outs).flatten = some 0 := by
    intro part
    have hb := hr.openBraces_textsOf hu hlines part
    rwa [hn, Nesting.openIn_nil] at hb
  have hd : openBraces? 0 program.declarations.flatten = some 0 := by
    rw [hprogram]
    exact hpart .declarations
  have hf : openBraces? 0 program.functions.flatten.flatten = some 0 := by
    rw [hprogram, Program.ofLines, Program.flatten_groupFunctions]
    exact hpart .functions
  have hm : openBraces? 0 program.main.flatten = some 0 := by
    rw [hprogram]
    exact hpart .main
  have hall : openBraces? 0 (Cpp.compose program options.unit) = some 0 := by
    rw [← openBraces_braces, Cpp.braces_compose hu]
    simp only [openBraces_append, openBraces_braces, hd, hf, Option.bind_some]
    rw [show openBraces? 0 ['\x7b'] = some (0 + 1) from rfl, Option.bind_some, openBraces_add hm 1]
    rfl
  have htext : text = Target.cpp.compose program options.unit := by rw [htext, hprogram]
  refine ⟨htext, balanced_of_openBraces ?_, balanced_of_openBraces hd, balanced_of_openBraces hf,
    balanced_of_openBraces hm⟩
  rw [htext]
  exact hall

/-- A function inside of a `switch`, with a record inside of it. -/
theorem compile_cpp_balanced_switch :
    let source : Text :=
      "int n\nswitch n\ncase 1\nfx void f\nif n\nstruct p int x\nelse\nend\nend\nend\nend"
    let program := (Compilation.ofSource (.ofOptions .cpp {}) source).program
    compile .cpp {} source = .ok (Target.cpp.compose program "    ") ∧
      Balanced (Target.cpp.compose program "    ") ∧ Balanced program.functions.flatten.flatten ∧
      Balanced program.main.flatten := by
  intro source program
  have h : compile .cpp {} source = .ok (Target.cpp.compose program "    ") := compile_eq_ok rfl
  have hb := compile_cpp_balanced (by decide) (by decide) h
  exact ⟨h, hb.2.1, hb.2.2.2⟩

end Pseudocode
