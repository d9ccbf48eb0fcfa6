import Pseudocode.Proofs.OutputLines

/-!
# Indentation

Python tells blocks by the spaces in front of the lines that speak, which are those that are neither
blank nor a comment. A header has a body if the first such line below it is deeper (`hasBody_iff`).
Indentation by units of spaces and renaming keep what speaks, and say how deep it is.
-/
namespace Pseudocode

namespace Text

def speaks (line : Text) : Bool :=
  match trimStart line with
  | [] => false
  | c :: _ => c != '#'

def indentation (line : Text) : Nat := (line.takeWhile (· == ' ')).length

def lead? (lines : List Text) : Option Nat := (lines.find? speaks).map indentation

/-- Among the lines below the header one speaks and is deeper than the header, and no line before it
speaks and is not. -/
def HasBody (header : Text) (below : List Text) : Prop :=
  ∃ between line rest, below = between ++ line :: rest ∧ line.speaks = true ∧
    header.indentation < line.indentation ∧
    ∀ l ∈ between, l.speaks = true → header.indentation < l.indentation

theorem lead_eq_none_iff {lines : List Text} :
    lead? lines = none ↔ ∀ l ∈ lines, l.speaks = false := by
  simp [lead?]

theorem lead_append (ls ms : List Text) : lead? (ls ++ ms) = (lead? ls).or (lead? ms) := by
  rw [lead?, List.find?_append, lead?, lead?]
  cases ls.find? speaks <;> rfl

theorem lead_cons_of_speaks {l : Text} (h : l.speaks = true) (ls : List Text) :
    lead? (l :: ls) = some l.indentation := by
  simp [lead?, h]

theorem hasBody_iff {header : Text} {below : List Text} :
    HasBody header below ↔ ∃ m, lead? below = some m ∧ header.indentation < m := by
  constructor
  · rintro ⟨between, line, rest, rfl, hs, hl, hb⟩
    cases hm : lead? between with
    | none =>
      refine ⟨line.indentation, ?_, hl⟩
      rw [lead_append, hm, Option.none_or, lead_cons_of_speaks hs]
    | some m =>
      refine ⟨m, by rw [lead_append, hm, Option.some_or], ?_⟩
      obtain ⟨l, hf, rfl⟩ := Option.map_eq_some_iff.mp hm
      exact hb l (List.mem_of_find?_eq_some hf) (List.find?_some hf)
  · rintro ⟨m, hm, hlt⟩
    obtain ⟨l, hf, rfl⟩ := Option.map_eq_some_iff.mp hm
    obtain ⟨hs, between, rest, hb, hmute⟩ := List.find?_eq_some_iff_append.mp hf
    refine ⟨between, l, rest, hb, hs, hlt, fun x hx hsx => ?_⟩
    have := hmute x hx
    simp_all

/-! ### Units of spaces -/

theorem isBlank_space : isBlank ' ' = true := by decide

theorem isBlank_tab : isBlank '\t' = true := by decide

theorem speaks_append_of_blank {b : Text} (h : ∀ c ∈ b, isBlank c = true) (t : Text) :
    speaks (b ++ t) = speaks t := by
  rw [speaks, trimStart, List.dropWhile_append_of_pos h]
  rfl

theorem speaks_spaces (n : Nat) (t : Text) : speaks (List.replicate n ' ' ++ t) = speaks t :=
  speaks_append_of_blank (fun _ hc => List.eq_of_mem_replicate hc ▸ isBlank_space) t

theorem indentation_spaces (n : Nat) (t : Text) :
    indentation (List.replicate n ' ' ++ t) = n + indentation t := by
  have h : ∀ c ∈ List.replicate n ' ', (c == ' ') = true := by
    intro c hc
    simp [List.eq_of_mem_replicate hc]
  rw [indentation, List.takeWhile_append_of_pos h, List.length_append, List.length_replicate,
    indentation]

theorem lead_map {f : Text → Text} (hf : ∀ l, speaks (f l) = speaks l) (ls : List Text) :
    lead? (ls.map f) = (ls.find? speaks).map fun l => indentation (f l) := by
  rw [lead?, List.find?_map, show speaks ∘ f = speaks from funext hf, Option.map_map]
  rfl

theorem lead_map_spaces (n : Nat) (ls : List Text) :
    lead? (ls.map (List.replicate n ' ' ++ ·)) = (lead? ls).map (n + ·) := by
  rw [lead_map (speaks_spaces n), lead?, Option.map_map]
  congr 1
  funext l
  exact indentation_spaces n l

theorem hasBody_shift (n : Nat) (header : Text) (below : List Text) :
    HasBody (List.replicate n ' ' ++ header) (below.map (List.replicate n ' ' ++ ·) ++ [[]]) ↔
      HasBody header below := by
  rw [hasBody_iff, hasBody_iff, lead_append, lead_map_spaces, indentation_spaces,
    show lead? [[]] = none from rfl, Option.or_none]
  cases lead? below with
  | none => simp
  | some m => simp

theorem times_spaces (n w : Nat) : times n (List.replicate w ' ') = List.replicate (n * w) ' ' := by
  simp [times]

def Flush (t : Text) : Prop := ∃ c cs, t = c :: cs ∧ c ≠ ' ' ∧ c ≠ '\t'

theorem Flush.append {t : Text} (h : Flush t) (u : Text) : Flush (t ++ u) := by
  obtain ⟨c, cs, rfl, hc⟩ := h
  exact ⟨c, cs ++ u, rfl, hc⟩

section indentLine

variable {w : Nat}

theorem speaks_indentLine (depth : Nat) (line : Text) :
    speaks (indentLine depth (List.replicate w ' ') line) = speaks line := by
  have htabs : ∀ c ∈ line.takeWhile (· == '\t'), isBlank c = true := by
    intro c hc
    have := List.mem_takeWhile_imp hc
    simp only [beq_iff_eq] at this
    exact this ▸ isBlank_tab
  rw [indentLine, times_spaces, speaks_spaces]
  conv_rhs => rw [← List.takeWhile_append_dropWhile (p := (· == '\t')) (l := line)]
  exact (speaks_append_of_blank htabs _).symm

theorem Flush.indentation_indentLine {line : Text} (h : Flush line) (depth : Nat) :
    indentation (indentLine depth (List.replicate w ' ') line) = depth * w := by
  obtain ⟨c, cs, rfl, hs, ht⟩ := h
  simp [indentLine, times_spaces, indentation, leadingTabs, hs, ht]

theorem Flush.indentation_indentLine_tab {line : Text} (h : Flush line) (depth : Nat) :
    indentation (indentLine depth (List.replicate w ' ') ('\t' :: line)) = (depth + 1) * w := by
  obtain ⟨c, cs, rfl, hs, ht⟩ := h
  simp [indentLine, times_spaces, indentation, leadingTabs, hs, ht]

theorem lead_indent (depth : Nat) (t : Text) :
    lead? (indent depth (List.replicate w ' ') t).lines =
      lead? (t.lines.map (indentLine depth (List.replicate w ' '))) := by
  by_cases ht : t = []
  · rw [ht, lead_map (speaks_indentLine depth)]
    rfl
  · rw [lines_indent (by simp) ht]

end indentLine

/-! ### Renaming -/

def isPlain (c : Char) : Bool := !isBlank c && c != '#'

theorem speaks_cons {c : Char} (hc : isBlank c = false) (cs : Text) :
    speaks (c :: cs) = (c != '#') := by
  simp [speaks, trimStart, hc]

theorem speaks_eq_trimStart (t : Text) : speaks t = speaks (trimStart t) := by
  have hb : ∀ c ∈ t.takeWhile isBlank, isBlank c = true := fun c hc => List.mem_takeWhile_imp hc
  conv_lhs => rw [← List.takeWhile_append_dropWhile (p := isBlank) (l := t)]
  exact speaks_append_of_blank hb _

theorem exists_isPlain {t : Text} (h : t.head?.any isPlain = true) :
    ∃ c cs, t = c :: cs ∧ isBlank c = false ∧ (c != '#') = true := by
  cases t with
  | nil => cases h
  | cons c cs =>
    simp only [List.head?_cons, Option.any_some, isPlain, Bool.and_eq_true, Bool.not_eq_true'] at h
    exact ⟨c, cs, rfl, h⟩

variable {old new : Text}

theorem speaks_replace (ho : old.head?.any isPlain = true) (hn : new.head?.any isPlain = true)
    (t : Text) : speaks (replace old new t) = speaks t := by
  obtain ⟨o, os, rfl, hob, ho⟩ := exists_isPlain ho
  obtain ⟨n, ns, rfl, hnb, hn⟩ := exists_isPlain hn
  have hblank : replace (o :: os) (n :: ns) t =
      t.takeWhile isBlank ++ replace (o :: os) (n :: ns) (trimStart t) := by
    conv_lhs => rw [← List.takeWhile_append_dropWhile (p := isBlank) (l := t)]
    refine replace_append_left (by simp) (fun c hc he => ?_) _
    rw [List.head?_cons, Option.some.injEq] at he
    have := List.mem_takeWhile_imp hc
    simp_all
  rw [hblank, speaks_append_of_blank fun c hc => List.mem_takeWhile_imp hc, speaks_eq_trimStart t]
  cases ht : trimStart t with
  | nil => rfl
  | cons c cs =>
    have hc : isBlank c = false := by
      have := List.head?_dropWhile_not isBlank t
      rwa [show t.dropWhile isBlank = c :: cs from ht] at this
    rcases replace_cons_cases (List.cons_ne_nil o os) (n :: ns) c cs with ⟨r, hr⟩ | ⟨he, r, hr⟩
    · rw [hr, speaks_cons hc, speaks_cons hc]
    · rw [List.head?_cons, Option.some.injEq] at he
      rw [hr, List.cons_append, speaks_cons hnb, hn, speaks_cons hc, ← he, ho]

theorem Flush.replace (ho : old ≠ []) (hn : new.head?.any isPlain = true) {t : Text}
    (h : Flush t) : Flush (replace old new t) := by
  obtain ⟨n, ns, rfl, hnb, -⟩ := exists_isPlain hn
  obtain ⟨c, cs, rfl, hc⟩ := h
  rcases replace_cons_cases ho (n :: ns) c cs with ⟨r, hr⟩ | ⟨-, r, hr⟩
  · exact ⟨c, r, hr, hc⟩
  · refine ⟨n, ns ++ r, hr, ?_, ?_⟩
    · rintro rfl
      simp [isBlank_space] at hnb
    · rintro rfl
      simp [isBlank_tab] at hnb

end Text

namespace Target

open Text

/-- The calls that are renamed for Python, and their new names, start as a line that speaks does. -/
theorem replacements_python :
    ∀ e ∈ Target.python.replacements, e.1 ≠ [] ∧ e.1.head?.any isPlain = true ∧
      e.2.head?.any isPlain = true := by
  decide

theorem speaks_rename (t : Text) : speaks (Target.python.rename t) = speaks t := by
  refine rename_induction (motive := fun f => ∀ t, speaks (f t) = speaks t) .python
    (fun _ => rfl) (fun f e he hf t => ?_) t
  obtain ⟨-, ho, hn⟩ := replacements_python e he
  exact (speaks_replace ho hn _).trans (hf t)

theorem flush_rename {t : Text} (h : Flush t) : Flush (Target.python.rename t) := by
  refine rename_induction (motive := fun f => Flush (f t)) .python h (fun f e he hf => ?_)
  obtain ⟨hne, -, hn⟩ := replacements_python e he
  exact hf.replace hne hn

end Target

end Pseudocode
