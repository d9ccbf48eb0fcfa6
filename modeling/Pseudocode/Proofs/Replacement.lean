import Pseudocode.Proofs.Provenance

/-!
# Replacement

A replacement goes through a text from left to right, and at each place either replaces a whole
occurrence or keeps one character. `replace_induction` follows it. Renaming is a sequence of such
replacements, so what each of them keeps is kept by it (`Target.rename_induction`).
-/
namespace Pseudocode

namespace Text

variable {old new : Text}

theorem replaceAfter_eq_drop (old new : Text) (skip : Nat) (t : Text) :
    replaceAfter old new skip t = replace old new (t.drop skip) := by
  induction skip generalizing t with
  | zero => rfl
  | succ skip ih =>
    cases t with
    | nil => rfl
    | cons c t => exact ih t

theorem replace_append_self (h : old ≠ []) (t : Text) :
    replace old new (old ++ t) = new ++ replace old new t := by
  obtain ⟨c, cs, rfl⟩ := List.exists_cons_of_ne_nil h
  have hp : List.isPrefixOf (c :: cs) (c :: (cs ++ t)) = true := by
    simp [List.isPrefixOf_iff_prefix]
  rw [replace, List.cons_append, replaceAfter, if_pos hp, replaceAfter_eq_drop]
  simp

theorem replace_cons {c : Char} {cs : Text} (h : ¬ old <+: c :: cs) :
    replace old new (c :: cs) = c :: replace old new cs := by
  rw [← List.isPrefixOf_iff_prefix] at h
  rw [replace, replaceAfter, if_neg h]
  rfl

/-- A property of texts holds everywhere if it passes a whole occurrence of `old`, and passes a
character at which no occurrence starts. -/
theorem replace_induction {motive : Text → Prop} (old : Text) (h : old ≠ []) (nil : motive [])
    (found : ∀ t, motive t → motive (old ++ t))
    (kept : ∀ c cs, ¬ old <+: c :: cs → motive cs → motive (c :: cs)) (t : Text) : motive t := by
  induction hn : t.length using Nat.strong_induction_on generalizing t with
  | _ n ih =>
    subst hn
    cases t with
    | nil => exact nil
    | cons c cs =>
      by_cases hp : old <+: c :: cs
      · obtain ⟨rest, hr⟩ := hp
        have hlen : rest.length < (c :: cs).length := by
          have := List.length_pos_iff.mpr h
          rw [← hr, List.length_append]
          omega
        exact hr ▸ found rest (ih _ hlen rest rfl)
      · exact kept c cs hp (ih _ (by simp) cs rfl)

theorem head_of_occurrence {c : Char} {cs : Text} (ho : old ≠ []) (h : old <+: c :: cs) :
    old.head? = some c := by
  obtain ⟨o, os, rfl⟩ := List.exists_cons_of_ne_nil ho
  rw [(List.cons_prefix_cons.mp h).1, List.head?_cons]

theorem replace_append_left (ho : old ≠ []) {u : Text} (h : ∀ c ∈ u, old.head? ≠ some c) (t : Text) :
    replace old new (u ++ t) = u ++ replace old new t := by
  induction u with
  | nil => rfl
  | cons c u ih =>
    have hp : ¬ old <+: c :: (u ++ t) := fun hp => h c (by simp) (head_of_occurrence ho hp)
    rw [List.cons_append, replace_cons hp, ih fun c hc => h c (by simp [hc])]
    rfl

theorem replace_cons_cases (ho : old ≠ []) (new : Text) (c : Char) (cs : Text) :
    (∃ rest, replace old new (c :: cs) = c :: rest) ∨
      (old.head? = some c ∧ ∃ rest, replace old new (c :: cs) = new ++ rest) := by
  by_cases hp : old <+: c :: cs
  · obtain ⟨rest, hr⟩ := hp
    refine .inr ⟨head_of_occurrence ho ⟨rest, hr⟩, replace old new rest, ?_⟩
    rw [← hr, replace_append_self ho]
  · exact .inl ⟨_, replace_cons hp⟩

theorem lines_replace (h : old ≠ []) (ho : '\n' ∉ old) (hn : '\n' ∉ new) (t : Text) :
    (replace old new t).lines = t.lines.map (replace old new) := by
  induction t using replace_induction old h with
  | nil => rfl
  | found t ih =>
    obtain ⟨first, rest, hl⟩ := List.exists_cons_of_ne_nil t.lines_ne_nil
    rw [replace_append_self h, lines_append_of_notMem hn, ih, lines_append_of_notMem ho, hl]
    simp [replace_append_self h]
  | kept c cs hp ih =>
    rw [replace_cons hp]
    by_cases hc : c = '\n'
    · rw [hc]
      have hr := lines_append_newline [] (replace old new cs)
      have hs := lines_append_newline [] cs
      simp only [List.nil_append, lines_nil] at hr hs
      rw [hr, hs, ih]
      rfl
    · have hc' : '\n' ∉ [c] := by simpa using Ne.symm hc
      have hcons : ∀ t, lines (c :: t) = (lines t).modifyHead (c :: ·) :=
        lines_append_of_notMem hc'
      obtain ⟨first, rest, hl⟩ := List.exists_cons_of_ne_nil (lines_ne_nil cs)
      have hf : ¬ old <+: c :: first := fun hf =>
        hp (hf.trans (List.cons_prefix_cons.mpr ⟨rfl, prefix_of_lines hl⟩))
      rw [hcons, hcons, ih, hl]
      simp [replace_cons hf]

/-- A replacement among other characters leaves those that pass a filter alone. -/
theorem filter_replace {keep : Char → Bool} (h : old ≠ []) (ho : old.filter keep = [])
    (hn : new.filter keep = []) (t : Text) : (replace old new t).filter keep = t.filter keep := by
  induction t using replace_induction old h with
  | nil => rfl
  | found t ih => rw [replace_append_self h, List.filter_append, List.filter_append, ho, hn, ih]
  | kept c cs hp ih => rw [replace_cons hp, List.filter_cons, List.filter_cons, ih]

end Text

namespace Target

def replacements (t : Target) : List (Text × Text) :=
  t.renamedCalls ++ [(newlineToken, t.newlineSpelling)]

/-- Renaming has what each replacement adds to a sequence of replacements that has it. -/
theorem rename_induction {motive : (Text → Text) → Prop} (t : Target) (id : motive id)
    (replace : ∀ f, ∀ e ∈ t.replacements, motive f →
      motive fun text => Text.replace e.1 e.2 (f text)) : motive t.rename := by
  have hfold : ∀ es : List (Text × Text), (∀ e ∈ es, e ∈ t.replacements) → ∀ f, motive f →
      motive fun text => es.foldl (fun text e => Text.replace e.1 e.2 text) (f text) := by
    intro es
    induction es with
    | nil => exact fun _ f hf => hf
    | cons e es ih =>
      intro he f hf
      exact ih (fun e' h => he e' (by simp [h])) _ (replace f e (he e (by simp)) hf)
  have hr : t.rename =
      fun text => t.replacements.foldl (fun text e => Text.replace e.1 e.2 text) text := by
    funext text
    simp [rename, replacements]
  rw [hr]
  exact hfold t.replacements (fun _ h => h) _ id

end Target

end Pseudocode
