import Pseudocode.Proofs.Replacement

/-!
# Lines of the output

A line of the source has no newline in it, so neither has any word of its phrase. Renaming works
line by line in every target language (`Target.lines_rename`), and the parts of a program keep their
lines one below the other.
-/
namespace Pseudocode

open Text

namespace Text

def isMultiline (t : Text) : Bool := t.contains '\n'

theorem isMultiline_append (t u : Text) :
    isMultiline (t ++ u) = (isMultiline t || isMultiline u) := by
  simp [isMultiline]

theorem isMultiline_eq_false_iff {t : Text} : isMultiline t = false ↔ ∀ c ∈ t, c ≠ '\n' := by
  simp only [isMultiline, List.contains_eq_mem, decide_eq_false_iff_not]
  exact ⟨fun h c hc he => h (he ▸ hc), fun h hm => h _ hm rfl⟩

theorem isMultiline_intercalate {sep : Text} {ts : List Text} (hs : isMultiline sep = false)
    (ht : ∀ t ∈ ts, isMultiline t = false) : isMultiline (sep.intercalate ts) = false := by
  simp only [isMultiline_eq_false_iff] at hs ht ⊢
  exact forall_mem_intercalate hs ht

theorem isMultiline_of_mem {ts : List Text} {t : Text} (h : isMultiline ts.flatten = false)
    (ht : t ∈ ts) : isMultiline t = false := by
  rw [isMultiline_eq_false_iff] at h ⊢
  exact fun c hc => h c (List.mem_flatten.mpr ⟨t, ht, hc⟩)

theorem lines_of_not_isMultiline {t : Text} (h : isMultiline t = false) : t.lines = [t] :=
  lines_of_notMem fun hm => isMultiline_eq_false_iff.mp h _ hm rfl

end Text

namespace Target

theorem isMultiline_vocabulary {name : Text} (h : isMultiline name = false) (target : Target) :
    isMultiline (target.vocabulary.spell name) = false := by
  have hv : isMultiline (target.vocabulary.entries.flatMap Prod.snd) = false := by
    cases target <;> rfl
  rw [isMultiline_eq_false_iff] at h hv ⊢
  exact Vocabulary.forall_mem_spell h hv

theorem lines_rename (target : Target) (t : Text) :
    (target.rename t).lines = t.lines.map target.rename := by
  have hr : ∀ e ∈ target.replacements, e.1 ≠ [] ∧ '\n' ∉ e.1 ∧ '\n' ∉ e.2 := by
    cases target <;> decide
  refine rename_induction (motive := fun f => ∀ t, (f t).lines = t.lines.map f) target
    (fun _ => by simp) (fun f e he hf t => ?_) t
  obtain ⟨hne, ho, hn⟩ := hr e he
  rw [lines_replace hne ho hn, hf t, List.map_map]
  rfl

end Target

namespace Accepted

variable {setup : Setup} {p : Progress} {line : SourceLine} {s : Statement}

theorem isMultiline_phrase (h : Accepted setup p line s) (hl : '\n' ∉ line.text) (form : Form) :
    isMultiline (s.phrase setup.target form).chars = false := by
  have hown : isMultiline setup.target.ownChars = false := by cases setup.target <;> rfl
  rw [isMultiline_eq_false_iff] at hown ⊢
  have hline : ∀ c ∈ line.text, c ≠ '\n' := by
    rintro c hc rfl
    exact hl hc
  exact Statement.forall_mem_phrase h.read hline hown form

theorem isMultiline_args (h : Accepted setup p line s) (hl : '\n' ∉ line.text) :
    ∀ arg ∈ s.args, isMultiline arg = false := by
  intro arg ha
  rw [isMultiline_eq_false_iff]
  refine Statement.forall_mem_args h.read ?_ arg ha
  rintro c hc rfl
  exact hl hc

end Accepted

namespace Program

theorem lines_definitions (p : Program) (t : Text) :
    (p.definitions ++ t).lines =
      (p.declarations ++ p.functions.map unlines).flatMap (fun t : Text => t.lines ++ [[]]) ++
        t.lines := by
  have hd : p.definitions =
      (p.declarations ++ p.functions.map unlines).flatMap fun t => (t ++ ['\n']) ++ ['\n'] := by
    simp [Program.definitions]
  rw [hd, lines_flatMap_newline (fun t => t ++ ['\n'])]
  congr 2
  funext t
  exact lines_append_newline t []

theorem lines_body_append {unit : Text} (hu : '\n' ∉ unit) (p : Program) (t : Text) :
    (p.body unit ++ t).lines = (p.main.flatMap lines).map (unit ++ ·) ++ t.lines := by
  rw [body, lines_flatMap_newline (shift unit), List.map_flatMap]
  congr 2
  funext t
  exact lines_shift hu t

end Program

end Pseudocode
