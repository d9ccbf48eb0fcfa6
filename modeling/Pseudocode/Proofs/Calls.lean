import Pseudocode.Proofs.Provenance
import Pseudocode.Target.Spelling

/-!
# Where a mathematical call can begin

A text that a target language puts together from texts without a call is without that call
(`Python.lacks_spell`, `Cpp.lacks_spell`), because what stands between these texts can neither end
nor go on a call. The one exception is a bracket right behind a name, which makes a call of it. So
the wording of a statement is without the call if its line is (`Target.lacks_wording`).
-/
namespace Pseudocode

/-- The mathematical functions of the pseudocode that have other names in the target languages. -/
inductive MathCall
  | sqrt
  | pow
  | random
  deriving DecidableEq, Repr

namespace MathCall

def name : MathCall → Text
  | sqrt => "racine"
  | pow => "puissance"
  | random => "aleatoire"

def opening (call : MathCall) : Text := call.name ++ ['(']

def all : List MathCall := [sqrt, pow, random]

theorem mem_all (call : MathCall) : call ∈ all := by cases call <;> decide

theorem isAlpha_of_mem_name {call : MathCall} {c : Char} (h : c ∈ call.name) :
    c.isAlpha = true := by
  have hall : call.name.all Char.isAlpha = true := by cases call <;> decide
  exact List.all_eq_true.mp hall c h

end MathCall

def Lacks (call : MathCall) (t : Text) : Prop := ¬ call.opening <:+: t

namespace Text

theorem includes_iff {part t : Text} : includes part t = true ↔ part <:+: t := by
  induction t with
  | nil => simp [includes, List.isEmpty_iff]
  | cons c t ih =>
    rw [includes, Bool.or_eq_true, ih, List.isPrefixOf_iff_prefix, List.infix_cons_iff]

def lacksCalls (t : Text) : Bool := MathCall.all.all fun call => !includes call.opening t

/-- Whether no call begins in the text, whatever stands behind it. -/
def isLead (t : Text) : Bool := t.lacksCalls && t.getLast?.all fun c => !c.isAlpha

/-- Whether no call begins in the text, and none goes on in it from what stands in front. -/
def isTail (t : Text) : Bool :=
  t.lacksCalls && t.head?.any fun c => c != '(' && !c.isAlpha

end Text

/-! ### Texts side by side -/

section Seams

variable {call : MathCall} {t u lit : Text}

theorem lacks_of_lacksCalls (h : lit.lacksCalls = true) (call : MathCall) : Lacks call lit := by
  have hno := List.all_eq_true.mp h call call.mem_all
  rw [Bool.not_eq_true', ← Bool.not_eq_true, Text.includes_iff] at hno
  exact hno

/-- A call that begins in one text and goes on in the next has a letter at the end of the first, and
one of its other characters at the front of the second. -/
theorem lacks_append_iff
    (h : (∀ c ∈ t.getLast?, c ∉ call.name) ∨ ∀ c ∈ u.head?, c ∉ call.opening) :
    Lacks call (t ++ u) ↔ Lacks call t ∧ Lacks call u := by
  rw [Lacks, Lacks, Lacks, List.infix_append_iff, not_or, not_or, ← and_assoc, and_iff_left_iff_imp]
  rintro ⟨ht, hu⟩ ⟨front, back, hsplit, hfront, hback⟩
  rcases List.eq_nil_or_concat front with rfl | ⟨front, c, rfl⟩
  · rw [List.nil_append] at hsplit
    exact hu (hsplit ▸ hback.isInfix)
  · cases back with
    | nil =>
      rw [List.append_nil] at hsplit
      exact ht (hsplit ▸ hfront.isInfix)
    | cons d back =>
      have hname : call.name = front ++ c :: (d :: back).dropLast := by
        have hdrop := congrArg List.dropLast hsplit
        simpa [MathCall.opening] using hdrop
      obtain ⟨before, rfl⟩ := hfront
      obtain ⟨behind, rfl⟩ := hback
      rcases h with hlast | hhead
      · exact hlast c (by simp) (by simp [hname])
      · exact hhead d rfl (by simp [hsplit])

/-- A bracket behind a name makes a call only if the name ends with that of the call. -/
theorem lacks_callee {name : Text} (h : ¬ call.name <:+ name) :
    Lacks call (name ++ (("(" : Text) ++ u)) ↔ Lacks call name ∧ Lacks call u := by
  have hbracket : Lacks call (name ++ ['(']) ↔ Lacks call name := by
    rw [Lacks, Lacks, List.infix_concat_iff, not_or, and_iff_right_iff_imp]
    rintro - ⟨before, hsuffix⟩
    rw [MathCall.opening, ← List.append_assoc] at hsuffix
    exact h ⟨before, List.append_cancel_right hsuffix⟩
  have hlast : ∀ c ∈ (name ++ ['(']).getLast?, c ∉ call.name := by
    intro c hc
    rw [List.getLast?_concat] at hc
    cases hc
    cases call <;> decide
  rw [← hbracket, ← lacks_append_iff (.inl hlast), List.append_assoc]
  rfl

theorem notMem_name_of_isLead (h : lit.isLead = true) : ∀ c ∈ lit.getLast?, c ∉ call.name := by
  intro c hc hmem
  rw [Text.isLead, Bool.and_eq_true, Option.all_eq_true] at h
  have hno := h.2 c hc
  simp [MathCall.isAlpha_of_mem_name hmem] at hno

theorem notMem_opening_of_isTail (h : lit.isTail = true) : ∀ c ∈ lit.head?, c ∉ call.opening := by
  intro c hc hmem
  rw [Text.isTail, Bool.and_eq_true, Option.any_eq_true] at h
  obtain ⟨-, d, hd, hno⟩ := h
  obtain rfl : c = d := Option.some.inj (hc.symm.trans hd)
  rcases List.mem_append.mp hmem with hname | hbracket
  · simp [MathCall.isAlpha_of_mem_name hname] at hno
  · simp [List.mem_singleton.mp hbracket] at hno

theorem lacks_lead (h : lit.isLead = true) : Lacks call (lit ++ u) ↔ Lacks call u := by
  rw [lacks_append_iff (.inl (notMem_name_of_isLead h)), and_iff_right_iff_imp]
  exact fun _ => lacks_of_lacksCalls (Bool.and_eq_true_iff.mp h).1 call

theorem lacks_tail (h : lit.isTail = true) : Lacks call (t ++ lit) ↔ Lacks call t := by
  rw [lacks_append_iff (.inr (notMem_opening_of_isTail h)), and_iff_left_iff_imp]
  exact fun _ => lacks_of_lacksCalls (Bool.and_eq_true_iff.mp h).1 call

theorem lacks_seam (h : (lit.isLead && lit.isTail) = true) :
    Lacks call (t ++ (lit ++ u)) ↔ Lacks call t ∧ Lacks call u := by
  obtain ⟨hlead, htail⟩ := Bool.and_eq_true_iff.mp h
  have hne : lit ≠ [] := by
    rintro rfl
    simp [Text.isTail] at htail
  have hlast : ∀ c ∈ (t ++ lit).getLast?, c ∉ call.name := by
    rw [List.getLast?_append_of_ne_nil t hne]
    exact notMem_name_of_isLead hlead
  rw [← List.append_assoc, lacks_append_iff (.inl hlast), lacks_tail htail]

theorem lacks_intercalate {sep : Text} (hsep : (sep.isLead && sep.isTail) = true) {ts : List Text}
    (h : ∀ t ∈ ts, Lacks call t) : Lacks call (sep.intercalate ts) := by
  induction ts with
  | nil => exact lacks_of_lacksCalls rfl call
  | cons first rest ih =>
    have hf := h first (by simp)
    have hr := ih fun t ht => h t (by simp [ht])
    cases rest with
    | nil => simpa using hf
    | cons second rest =>
      rw [List.intercalate_cons_cons, List.append_assoc, lacks_seam hsep]
      exact ⟨hf, hr⟩

theorem lacks_commaList {ts : List Text} (h : ∀ t ∈ ts, Lacks call t) :
    Lacks call (Text.commaList ts) := lacks_intercalate (by decide) h

/-- The text can stand behind any other one without a call. -/
structure Detached (call : MathCall) (t : Text) : Prop where
  lacks : Lacks call t
  head : ∀ c ∈ t.head?, c ∉ call.opening

theorem Detached.append (ht : Detached call t) (hu : Detached call u) : Detached call (t ++ u) := by
  refine ⟨(lacks_append_iff (.inr hu.head)).mpr ⟨ht.lacks, hu.lacks⟩, ?_⟩
  cases t with
  | nil => exact hu.head
  | cons c t => exact ht.head

theorem lacks_append_detached (hu : Detached call u) : Lacks call (t ++ u) ↔ Lacks call t := by
  rw [lacks_append_iff (.inr hu.head), and_iff_left hu.lacks]

theorem detached_of_lead (h : (lit.isLead && lit.isTail) = true) (hu : Lacks call u) :
    Detached call (lit ++ u) := by
  obtain ⟨hlead, htail⟩ := Bool.and_eq_true_iff.mp h
  refine ⟨(lacks_lead hlead).mpr hu, ?_⟩
  cases lit with
  | nil => simp [Text.isTail] at htail
  | cons c lit => exact fun d hd => notMem_opening_of_isTail htail d hd

theorem detached_flatMap {α : Type} {f : α → Text} {xs : List α}
    (h : ∀ x ∈ xs, Detached call (f x)) : Detached call (xs.flatMap f) := by
  induction xs with
  | nil => exact ⟨lacks_of_lacksCalls rfl call, by simp⟩
  | cons x xs ih =>
    rw [List.flatMap_cons]
    exact (h x (by simp)).append (ih fun y hy => h y (by simp [hy]))

theorem hereditary_lacks (call : MathCall) : Text.Hereditary (Lacks call) where
  nil := lacks_of_lacksCalls rfl call
  part h hu ht := hu (ht.trans h)
  space {t u} ht hu := by
    change Lacks call (t ++ ([' '] ++ u))
    rw [lacks_seam (by decide)]
    exact ⟨ht, hu⟩
  bracket {l t r} hopening hclosing hl ht hr := by
    have hfirst : ∀ c ∈ l.getLast?, c ∉ call.name := by
      intro c hc
      rw [hopening c (List.mem_of_getLast? hc)]
      cases call <;> decide
    have hlast : ∀ c ∈ r.head?, c ∉ call.opening := by
      intro c hc
      rw [hclosing c (List.mem_of_head? hc)]
      cases call <;> decide
    rw [lacks_append_iff (.inr hlast), lacks_append_iff (.inl hfirst)]
    exact ⟨⟨hl, ht⟩, hr⟩

end Seams

/-! ### Texts that a target language puts together -/

def Phrase.callee? : Phrase → Option Text
  | function name _ _ => some name
  | init type _ _ => some type
  | _ => none

section Words

variable {call : MathCall}

theorem Target.lacks_own (t : Target) : ∀ w ∈ t.ownWords, Lacks call w := by
  have hall : ∀ w ∈ t.ownWords, Text.lacksCalls w = true := by cases t <;> decide
  exact fun w hw => lacks_of_lacksCalls (hall w hw) call

theorem Target.lacks_vocabulary (t : Target) {name : Text} (h : Lacks call name) :
    Lacks call (t.vocabulary.spell name) := by
  rcases t.vocabulary.spell_cases name with heq | hmem
  · rwa [heq]
  · exact t.lacks_own _ (by simp only [ownWords, List.mem_cons, hmem, or_true])

theorem Target.lacks_type (t : Target) {f : TypeTerm → Text}
    (hnamed : ∀ name, f (.named name) = t.vocabulary.spell name)
    (harray : ∀ element dims, f (.array element dims) = t.vocabulary.sequence)
    (hrecord : ∀ name, f (.record name) = name) {type : TypeTerm}
    (h : ∀ u ∈ type.texts, Lacks call u) : Lacks call (f type) := by
  cases type with
  | named name =>
    rw [hnamed]
    exact t.lacks_vocabulary (h name (by simp [TypeTerm.texts]))
  | array element dims =>
    have hsequence : Text.lacksCalls t.vocabulary.sequence = true := by cases t <;> decide
    rw [harray]
    exact lacks_of_lacksCalls hsequence call
  | record name =>
    rw [hrecord]
    exact h name (by simp [TypeTerm.texts])

theorem Target.lacks_result (t : Target) {f : TypeTerm → Text} {result : Option TypeTerm}
    (hf : ∀ type : TypeTerm, (∀ u ∈ type.texts, Lacks call u) → Lacks call (f type))
    (h : ∀ u ∈ (result.map TypeTerm.texts).getD [], Lacks call u) :
    Lacks call (result.elim t.vocabulary.noResult f) := by
  cases result with
  | none =>
    have hnone : Text.lacksCalls t.vocabulary.noResult = true := by cases t <;> decide
    exact lacks_of_lacksCalls hnone call
  | some type => exact hf type h

theorem lacks_parameters {f : Parameter → Text} {params : List Parameter}
    (hf : ∀ p : Parameter, (∀ t ∈ p.texts, Lacks call t) → Lacks call (f p))
    (h : ∀ t ∈ params.flatMap Parameter.texts, Lacks call t) :
    Lacks call (Text.commaList (params.map f)) := by
  refine lacks_commaList (List.forall_mem_map.mpr fun p hp => hf p fun t ht => ?_)
  exact h t (List.mem_flatMap.mpr ⟨p, hp, ht⟩)

theorem detached_parameters {f : Parameter → Text} {params : List Parameter}
    (hf : ∀ p : Parameter, (∀ t ∈ p.texts, Lacks call t) → Detached call (f p))
    (h : ∀ t ∈ params.flatMap Parameter.texts, Lacks call t) :
    Detached call (params.flatMap f) := by
  refine detached_flatMap fun p hp => hf p fun t ht => ?_
  exact h t (List.mem_flatMap.mpr ⟨p, hp, ht⟩)

end Words

namespace Python

variable {call : MathCall}

theorem lacks_spellType {type : TypeTerm} (h : ∀ t ∈ type.texts, Lacks call t) :
    Lacks call (spellType type) :=
  Target.python.lacks_type (fun _ => rfl) (fun _ _ => rfl) (fun _ => rfl) h

theorem lacks_spellParameter {p : Parameter} (h : ∀ t ∈ p.texts, Lacks call t) :
    Lacks call (spellParameter p) := by
  simp only [Parameter.texts, List.forall_mem_cons] at h
  unfold spellParameter
  simp (disch := decide) only [List.append_assoc, lacks_seam, h.1, lacks_spellType h.2,
    and_self]

theorem lacks_declaration {type : Text} {names : List Text} {value : Option Text}
    (ht : Lacks call type) (hn : ∀ name ∈ names, Lacks call name) (hv : ∀ v ∈ value, Lacks call v) :
    Lacks call (declaration type names value) := by
  have hunset : Text.lacksCalls vocabulary.unset = true := by decide
  unfold declaration
  split
  · next name rest value =>
    simp (disch := decide) only [List.append_assoc, lacks_seam, ht, hn name (by simp),
      hv value rfl, and_self]
  · next name =>
    simp (disch := decide) only [List.append_assoc, lacks_seam, ht, hn name (by simp),
      lacks_of_lacksCalls hunset call, and_self]
  · simp (disch := decide) only [List.append_assoc, lacks_seam,
      lacks_of_lacksCalls hunset call, and_true]
    exact lacks_intercalate (by decide) hn

theorem lacks_zeros {dims : List Text} (h : ∀ dim ∈ dims, Lacks call dim) :
    Lacks call (zeros dims) := by
  induction dims with
  | nil => exact lacks_of_lacksCalls (by decide) call
  | cons dim dims ih =>
    have hz := ih fun d hd => h d (by simp [hd])
    unfold zeros
    simp (disch := decide) only [List.append_assoc, lacks_lead, lacks_seam, lacks_tail, hz,
      h dim (by simp), and_self]

theorem lacks_printed {arg : Text} (h : Lacks call arg) : Lacks call (printed arg) := by
  unfold printed
  split_ifs with heq
  · rw [heq]
    exact lacks_of_lacksCalls (by decide) call
  · exact h

theorem detached_field {p : Parameter} (h : ∀ t ∈ p.texts, Lacks call t) :
    Detached call (field p) := by
  have hp := lacks_spellParameter h
  have hunset : Text.lacksCalls vocabulary.unset = true := by decide
  unfold field
  rw [List.append_assoc, List.append_assoc]
  refine detached_of_lead (by decide) ?_
  rw [lacks_seam (by decide)]
  exact ⟨hp, lacks_of_lacksCalls hunset call⟩

/-- A phrase is spelled without a call if its texts are without it, and no name with a bracket
behind it ends with the name of the call. -/
theorem lacks_spell {phrase : Phrase} (h : ∀ t ∈ phrase.texts, Lacks call t)
    (hc : ∀ name ∈ phrase.callee?, ¬ call.name <:+ name) : Lacks call (spell phrase) := by
  cases phrase with
  | nothing | otherwise | default => exact lacks_of_lacksCalls (by decide) call
  | blockEnd kind => exact lacks_of_lacksCalls rfl call
  | verbatim t => exact h t (by simp [Phrase.texts])
  | declare type names value =>
    simp only [Phrase.texts, List.forall_mem_cons, List.forall_mem_append, Option.mem_toList] at h
    exact lacks_declaration h.1 h.2.1 h.2.2
  | comment t | whileCond t | ifCond t | elseIf t | switch t | case t | input t | quit t =>
    have ht := h t (by simp [Phrase.texts])
    unfold spell
    simp (disch := decide) only [List.append_assoc, lacks_lead, lacks_seam, lacks_tail, ht,
      and_self]
  | note kind t =>
    have hlabel : Text.isLead ("# " ++ kind.label ++ " : ") = true := by cases kind <;> decide
    exact (lacks_lead hlabel).mpr (h t (by simp [Phrase.texts]))
  | returns t =>
    unfold spell
    dsimp only
    split_ifs
    · exact lacks_of_lacksCalls (by decide) call
    · rw [lacks_lead (by decide)]
      exact h t (by simp [Phrase.texts])
  | forRange var first limit step =>
    simp only [Phrase.texts, List.forall_mem_cons, Option.mem_toList] at h
    obtain ⟨hv, hf, hl, hs⟩ := h
    cases step with
    | none =>
      unfold spell
      simp (disch := decide) only [List.append_assoc, lacks_lead, lacks_seam, lacks_tail, hv,
        hf, hl, and_self]
    | some step =>
      unfold spell
      simp (disch := decide) only [List.append_assoc, lacks_lead, lacks_seam, lacks_tail, hv,
        hf, hl, hs step rfl, and_self]
  | forEach item source =>
    have hn := h item.name (by simp [Phrase.texts, Parameter.texts])
    have hs := h source (by simp [Phrase.texts])
    unfold spell
    simp (disch := decide) only [List.append_assoc, lacks_lead, lacks_seam, lacks_tail, hn, hs,
      and_self]
  | print args =>
    cases args with
    | nil => exact lacks_of_lacksCalls (by decide) call
    | cons arg args =>
      unfold spell
      dsimp only
      rw [List.append_assoc, lacks_lead (by decide), lacks_tail (by decide)]
      exact lacks_commaList (List.forall_mem_map.mpr fun t ht => lacks_printed (h t ht))
  | function name result params =>
    simp only [Phrase.texts, List.forall_mem_cons, List.forall_mem_append] at h
    obtain ⟨hn, hr, hp⟩ := h
    have hresult : Lacks call (result.elim vocabulary.noResult spellType) :=
      Target.python.lacks_result (fun type => lacks_spellType) hr
    have hparams := lacks_parameters (fun p => lacks_spellParameter) hp
    unfold spell
    simp (disch := decide) only [List.append_assoc, lacks_lead, lacks_seam, lacks_tail,
      lacks_callee (hc name rfl), hn, hresult, hparams, and_self]
  | array element name dims =>
    simp only [Phrase.texts, List.forall_mem_cons] at h
    unfold spell
    simp (disch := decide) only [List.append_assoc, lacks_seam, h.2.1, lacks_zeros h.2.2,
      and_self]
  | record name fields =>
    simp only [Phrase.texts, List.forall_mem_cons] at h
    cases fields with
    | nil =>
      unfold spell
      simp (disch := decide) only [List.append_assoc, lacks_lead, lacks_tail, h.1]
    | cons first rest =>
      have hfields := detached_parameters (fun p => detached_field) h.2
      unfold spell
      dsimp only
      rw [lacks_append_detached hfields]
      simp (disch := decide) only [List.append_assoc, lacks_lead, lacks_tail, h.1]
  | init type var fields =>
    simp only [Phrase.texts, List.forall_mem_cons] at h
    obtain ⟨ht, hv, hf⟩ := h
    have hfields :
        Lacks call (Text.commaList (fields.map fun f => f.1 ++ (("=" : Text) ++ f.2))) := by
      refine lacks_commaList (List.forall_mem_map.mpr fun f hm => ?_)
      have hmem : ∀ t ∈ [f.1, f.2], Lacks call t := fun t hm' =>
        hf t (List.mem_flatMap.mpr ⟨f, hm, hm'⟩)
      rw [lacks_seam (by decide)]
      exact ⟨hmem _ (by simp), hmem _ (by simp)⟩
    unfold spell
    simp (disch := decide) only [List.append_assoc, lacks_seam, lacks_tail,
      lacks_callee (hc type rfl), ht, hv, hfields, and_self]

end Python

namespace Cpp

variable {call : MathCall}

theorem lacks_spellType {type : TypeTerm} (h : ∀ t ∈ type.texts, Lacks call t) :
    Lacks call (spellType type) :=
  Target.cpp.lacks_type (fun _ => rfl) (fun _ _ => rfl) (fun _ => rfl) h

theorem detached_bounds {dims : List Text} (h : ∀ dim ∈ dims, Lacks call dim) :
    Detached call (bounds dims) := by
  refine detached_flatMap fun dim hm => ?_
  rw [List.append_assoc]
  refine detached_of_lead (by decide) ?_
  rw [lacks_tail (by decide)]
  exact h dim hm

theorem lacks_reference {p : Parameter} {t u : Text} :
    Lacks call (t ++ (reference p ++ (" " ++ u))) ↔ Lacks call t ∧ Lacks call u := by
  have hsign : (Text.isLead (reference p ++ " ") && Text.isTail (reference p ++ " ")) = true := by
    unfold reference
    cases p.byRef <;> decide
  rw [← List.append_assoc (reference p), lacks_seam hsign]

theorem lacks_spellParameter {p : Parameter} (h : ∀ t ∈ p.texts, Lacks call t) :
    Lacks call (spellParameter p) := by
  simp only [Parameter.texts, List.forall_mem_cons] at h
  obtain ⟨hn, ht⟩ := h
  unfold spellParameter
  split
  · next element dim dims heq =>
    rw [heq] at ht
    simp only [TypeTerm.texts, Option.toList_some, List.singleton_append,
      List.forall_mem_cons] at ht
    have hdims := List.forall_mem_cons.mpr ht.2
    rw [lacks_append_detached (detached_bounds hdims), List.append_assoc,
      lacks_seam (by decide)]
    exact ⟨Target.cpp.lacks_vocabulary ht.1, hn⟩
  · rw [List.append_assoc, List.append_assoc, lacks_reference]
    exact ⟨lacks_spellType ht, hn⟩

theorem lacks_declaration {type : Text} {names : List Text} {value : Option Text}
    (ht : Lacks call type) (hn : ∀ name ∈ names, Lacks call name) (hv : ∀ v ∈ value, Lacks call v) :
    Lacks call (declaration type names value) := by
  unfold declaration
  split
  · next name rest value =>
    simp (disch := decide) only [List.append_assoc, lacks_seam, lacks_tail, ht,
      hn name (by simp), hv value rfl, and_self]
  · have hnames : Lacks call (Text.commaList (names.map fun n => n ++ vocabulary.unset)) := by
      refine lacks_commaList (List.forall_mem_map.mpr fun name hm => ?_)
      rw [lacks_tail (by decide)]
      exact hn name hm
    simp (disch := decide) only [List.append_assoc, lacks_seam, lacks_tail, ht, hnames,
      and_self]

theorem detached_member {p : Parameter} (h : ∀ t ∈ p.texts, Lacks call t) :
    Detached call (member p) := by
  unfold member
  rw [List.append_assoc]
  refine detached_of_lead (by decide) ?_
  rw [lacks_tail (by decide)]
  exact lacks_spellParameter h

theorem detached_fieldAssignment {var : Text} {f : Text × Text} (hv : Lacks call var)
    (hf : ∀ t ∈ [f.1, f.2], Lacks call t) : Detached call (fieldAssignment var f) := by
  unfold fieldAssignment
  simp only [List.append_assoc]
  refine detached_of_lead (by decide) ?_
  simp (disch := decide) only [lacks_seam, lacks_tail, hv, hf f.1 (by simp),
    hf f.2 (by simp), and_self]

theorem lacks_printed {arg : Text} (h : Lacks call arg) : Lacks call (printed arg) := by
  unfold printed
  split_ifs
  · exact lacks_of_lacksCalls (by decide) call
  · exact h

theorem lacks_advance {var : Text} {step : Option Text} (hv : Lacks call var)
    (hs : ∀ t ∈ step, Lacks call t) : Lacks call (advance var step) := by
  cases step with
  | none =>
    unfold advance
    simp (disch := decide) only [lacks_tail, hv]
  | some step =>
    unfold advance
    simp (disch := decide) only [List.append_assoc, lacks_seam, hv, hs step rfl, and_self]

theorem lacks_terminate {t : Text} (h : Lacks call t) : Lacks call (terminate t) := by
  unfold terminate
  split
  · exact h
  · exact h
  · exact h
  · rwa [lacks_tail (by decide)]

/-- A phrase is spelled without a call if its texts are without it, and no name with a bracket
behind it ends with the name of the call. -/
theorem lacks_spell {phrase : Phrase} (h : ∀ t ∈ phrase.texts, Lacks call t)
    (hc : ∀ name ∈ phrase.callee?, ¬ call.name <:+ name) : Lacks call (spell phrase) := by
  cases phrase with
  | nothing | otherwise | default => exact lacks_of_lacksCalls (by decide) call
  | blockEnd kind => cases kind <;> exact lacks_of_lacksCalls (by decide) call
  | verbatim t => exact lacks_terminate (h t (by simp [Phrase.texts]))
  | declare type names value =>
    simp only [Phrase.texts, List.forall_mem_cons, List.forall_mem_append, Option.mem_toList] at h
    exact lacks_declaration h.1 h.2.1 h.2.2
  | comment t | whileCond t | ifCond t | elseIf t | switch t | case t | input t | quit t =>
    have ht := h t (by simp [Phrase.texts])
    unfold spell
    simp (disch := decide) only [List.append_assoc, lacks_lead, lacks_tail, ht]
  | note kind t =>
    have hlabel : Text.isLead ("// " ++ kind.label ++ " : ") = true := by
      cases kind <;> decide
    exact (lacks_lead hlabel).mpr (h t (by simp [Phrase.texts]))
  | returns t =>
    unfold spell
    dsimp only
    split_ifs
    · exact lacks_of_lacksCalls (by decide) call
    · rw [List.append_assoc, lacks_lead (by decide), lacks_tail (by decide)]
      exact h t (by simp [Phrase.texts])
  | forRange var first limit step =>
    simp only [Phrase.texts, List.forall_mem_cons, Option.mem_toList] at h
    obtain ⟨hv, hf, hl, hs⟩ := h
    unfold spell
    simp (disch := decide) only [List.append_assoc, lacks_lead, lacks_seam, lacks_tail, hv, hf,
      hl, lacks_advance hv hs, and_self]
  | forEach item source =>
    simp only [Phrase.texts, Parameter.texts, List.forall_mem_append, List.forall_mem_cons] at h
    obtain ⟨⟨hn, ht⟩, hs, -⟩ := h
    unfold spell
    simp (disch := decide) only [List.append_assoc, lacks_lead, lacks_reference, lacks_seam,
      lacks_tail, lacks_spellType ht, hn, hs, and_self]
  | print args =>
    cases args with
    | nil => exact lacks_of_lacksCalls (by decide) call
    | cons arg args =>
      unfold spell
      dsimp only
      rw [List.append_assoc, lacks_lead (by decide), lacks_tail (by decide)]
      refine lacks_intercalate (by decide) ?_
      exact List.forall_mem_map.mpr fun t ht => lacks_printed (h t ht)
  | function name result params =>
    simp only [Phrase.texts, List.forall_mem_cons, List.forall_mem_append] at h
    obtain ⟨hn, hr, hp⟩ := h
    have hresult : Lacks call (result.elim vocabulary.noResult spellType) :=
      Target.cpp.lacks_result (fun type => lacks_spellType) hr
    have hparams := lacks_parameters (fun p => lacks_spellParameter) hp
    unfold spell
    simp (disch := decide) only [List.append_assoc, lacks_seam, lacks_tail,
      lacks_callee (hc name rfl), hn, hresult, hparams, and_self]
  | array element name dims =>
    simp only [Phrase.texts, List.forall_mem_cons] at h
    unfold spell
    simp (disch := decide) only [lacks_tail, lacks_append_detached (detached_bounds h.2.2)]
    rw [List.append_assoc, lacks_seam (by decide)]
    exact ⟨Target.cpp.lacks_vocabulary h.1, h.2.1⟩
  | record name fields =>
    simp only [Phrase.texts, List.forall_mem_cons] at h
    have hfields := detached_parameters (fun p => detached_member) h.2
    unfold spell
    simp (disch := decide) only [lacks_tail, lacks_append_detached hfields, lacks_lead, h.1]
  | init type var fields =>
    simp only [Phrase.texts, List.forall_mem_cons] at h
    obtain ⟨ht, hv, hf⟩ := h
    have hfields : Detached call (fields.flatMap (fieldAssignment var)) := by
      refine detached_flatMap fun f hm => detached_fieldAssignment hv fun t hm' => ?_
      exact hf t (List.mem_flatMap.mpr ⟨f, hm, hm'⟩)
    unfold spell
    simp (disch := decide) only [lacks_append_detached hfields, lacks_tail]
    rw [List.append_assoc, lacks_seam (by decide)]
    exact ⟨ht, hv⟩

theorem lacks_drawing {op : Drawing} {args : List Text} (h : ∀ arg ∈ args, Lacks call arg) :
    Lacks call (drawing op args) := by
  have hcall : Lacks call (op.libraryCall ++ "(" ++ Text.commaList args ++ ");") := by
    have hlead : Text.isLead (op.libraryCall ++ "(") = true := by cases op <;> decide
    rw [lacks_tail (by decide), lacks_lead hlead]
    exact lacks_commaList h
  cases op with
  | image =>
    unfold drawing
    dsimp only
    split
    · next path var ht =>
      obtain ⟨arrow, rfl⟩ := Drawing.eq_append_of_imageTarget ht
      have hpath := (hereditary_lacks call).unwords fun t hm => h t (List.mem_append_left _ hm)
      simp (disch := decide) only [List.append_assoc, lacks_lead, lacks_seam, lacks_tail,
        h var (by simp), hpath, and_self]
    · rw [lacks_tail (by decide), lacks_lead (by decide)]
      exact (hereditary_lacks call).unwords h
  | _ => exact hcall

end Cpp

/-! ### The wording of a statement -/

/-- The name that a statement puts in front of a bracket: that of a function, or of the record of a
new value. -/
def Statement.callee? (s : Statement) : Form → Option Text
  | .function => s.args[1]?
  | .init => s.args[0]?
  | _ => none

theorem Statement.callee_of_phrase {target : Target} {s : Statement} {form : Form} {name : Text}
    (h : (s.phrase target form).callee? = some name) : s.callee? form = some name := by
  cases form with
  | function | init =>
    unfold phrase at h
    dsimp only at h
    split at h
    · next ha =>
      rw [callee?, ha]
      exact h
    · cases h
  | forRange | forEach | array | record =>
    unfold phrase at h
    dsimp only at h
    split at h <;> cases h
  | declaration =>
    unfold phrase declaration at h
    dsimp only at h
    split at h <;> cases h
  | _ => cases h

namespace Target

variable {call : MathCall} {target : Target}

theorem lacks_spell (htarget : target = python ∨ target = cpp) {phrase : Phrase}
    (h : ∀ t ∈ phrase.texts, Lacks call t) (hc : ∀ name ∈ phrase.callee?, ¬ call.name <:+ name) :
    Lacks call (target.spell phrase) := by
  rcases htarget with rfl | rfl
  · exact Python.lacks_spell h hc
  · exact Cpp.lacks_spell h hc

theorem lacks_endBranch {b : Block} {t : Text} (h : Lacks call t) :
    Lacks call (target.endBranch b t) := by
  have hfiller : ∀ body ∈ target.emptyBody? b.kind,
      Text.lacksCalls body.deeper = true ∧ Text.isLead (body.deeper ++ "\n") = true := by
    intro body hbody
    cases target with
    | python =>
      cases hbody
      cases b.kind <;> decide
    | cpp | algorithmic => cases hbody
  unfold endBranch
  split_ifs
  · exact h
  · split
    · exact h
    · next body hbody => exact lacks_of_lacksCalls (hfiller body hbody).1 call
  · split
    · exact h
    · next body hbody => exact (lacks_lead (hfiller body hbody).2).mpr h

/-- A statement is worded without a call if its line is without it, unless its callee makes one. -/
theorem lacks_wording (htarget : target = python ∨ target = cpp) {line : SourceLine} {s : Statement}
    (h : Statement.ofLine line = .ok s) (hl : Lacks call line.text) {form : Form}
    (hc : ∀ name ∈ s.callee? form, ¬ call.name <:+ name) (n : Nesting) :
    Lacks call (target.wording n s form) := by
  have hown : ∀ w ∈ target.ownWords, Lacks call w := target.lacks_own
  have hspell : Lacks call (target.spell (s.phrase target form)) :=
    lacks_spell htarget (Statement.forall_texts_phrase (hereditary_lacks call) h hl hown form)
      fun name hname => hc name (Statement.callee_of_phrase hname)
  unfold wording
  split
  · exact lacks_endBranch (lacks_spell htarget (by simp [Phrase.texts]) (by simp [Phrase.callee?]))
  · exact lacks_endBranch hspell
  · exact lacks_endBranch hspell
  · rcases htarget with rfl | rfl
    · exact hspell
    · have hargs := (Statement.infix_words h).2
      exact Cpp.lacks_drawing fun arg ha => (hereditary_lacks call).part (hargs arg ha) hl
  · exact hspell

end Target

end Pseudocode
