import Pseudocode.Proofs.Calls
import Pseudocode.Proofs.Replacement

/-!
# Texts after renaming

A replacement can bring up other parts of a text, and even the part that it replaces. What it brings
up either begins inside of what is put in, or begins in front of it and goes on in it. So what a text
holds behind replacements is traced back to what it held before them, and the possible origins are
computed (`Text.origins`, `Text.exists_origin`). For Python and for the algorithmic language there
are none, and nothing is left to be replaced. In C++ the expression for a random number begins with a
bracket, which makes a call of a name right in front of it.
-/
namespace Pseudocode

namespace Text

def meets (t u : Text) : Bool := t.isPrefixOf u || u.isPrefixOf t

/-- Whether `part` can begin inside of `new`, whatever stands behind `new`. -/
def beginsIn (part new : Text) : Bool := new.tails.any fun rest => !rest.isEmpty && meets rest part

/-- The beginnings of `part` behind which it can go on in `new`. -/
def fronts (part new : Text) : List Text :=
  part.inits.filter fun front =>
    !front.isEmpty && front ≠ part && meets (part.drop front.length) new

/-- What a text can have held if it holds `part` after `old` is replaced by `new`: the part itself
unless it is `old`, or `old` in a place where the part has come up. -/
def sources (old new part : Text) : List Text :=
  (if part = old then [] else [part]) ++ (if beginsIn part new then [old] else []) ++
    (fronts part new).map (· ++ old)

/-- What a text can have held if it holds `part` after some replacements, the latest of which comes
first. -/
def origins : List (Text × Text) → Text → List Text
  | [], part => [part]
  | e :: es, part => (sources e.1 e.2 part).flatMap (origins es)

theorem meets_iff {t u : Text} : meets t u = true ↔ t <+: u ∨ u <+: t := by
  rw [meets, Bool.or_eq_true, List.isPrefixOf_iff_prefix, List.isPrefixOf_iff_prefix]

theorem beginsIn_iff {part new : Text} :
    beginsIn part new = true ↔ ∃ rest, rest <:+ new ∧ rest ≠ [] ∧ meets rest part = true := by
  simp [beginsIn]

theorem mem_fronts {part new front : Text} :
    front ∈ fronts part new ↔
      ∃ back, part = front ++ back ∧ front ≠ [] ∧ back ≠ [] ∧ meets back new = true := by
  rw [fronts, List.mem_filter, List.mem_inits]
  constructor
  · rintro ⟨⟨back, rfl⟩, h⟩
    rw [List.drop_left] at h
    simp only [Bool.and_eq_true, Bool.not_eq_true', List.isEmpty_eq_false_iff,
      decide_eq_true_eq] at h
    obtain ⟨⟨hfront, hne⟩, hmeets⟩ := h
    exact ⟨back, rfl, hfront, by rintro rfl; simp at hne, hmeets⟩
  · rintro ⟨back, rfl, hfront, hback, hmeets⟩
    refine ⟨List.prefix_append _ _, ?_⟩
    simp [hfront, hback, hmeets]

theorem mem_sources {old new part o : Text} :
    o ∈ sources old new part ↔ (o = part ∧ part ≠ old) ∨ (o = old ∧ beginsIn part new = true) ∨
      ∃ front ∈ fronts part new, front ++ old = o := by
  simp only [sources, List.mem_append, List.mem_map, or_assoc]
  split_ifs <;> simp_all

theorem ne_nil_of_mem_sources {old new part o : Text} (ho : old ≠ []) (hp : part ≠ [])
    (h : o ∈ sources old new part) : o ≠ [] := by
  rcases mem_sources.mp h with ⟨rfl, -⟩ | ⟨rfl, -⟩ | ⟨front, -, rfl⟩
  · exact hp
  · exact ho
  · simp [ho]

/-! ### One replacement -/

variable {old new part t : Text}

theorem replace_of_not_infix (ho : old ≠ []) (h : ¬ old <:+: t) : replace old new t = t := by
  induction t using replace_induction old ho with
  | nil => rfl
  | found t ih => exact absurd (List.prefix_append old t).isInfix h
  | kept c cs hno ih => rw [replace_cons hno, ih fun hi => h (List.infix_cons hi)]

/-- A text that begins with `part` after a replacement did so before, or `part` goes on in what is
put in. -/
theorem prefix_of_replace (ho : old ≠ []) (h : part <+: replace old new t) :
    part <+: t ∨ ∃ front back, part = front ++ back ∧ back ≠ [] ∧ meets back new = true ∧
      front ++ old <+: t := by
  induction t using replace_induction old ho generalizing part with
  | nil => exact .inl h
  | found t ih =>
    rw [replace_append_self ho] at h
    by_cases hp : part = []
    · exact .inl (by simp [hp])
    · have hmeets := List.prefix_or_prefix_of_prefix h (List.prefix_append new _)
      exact .inr ⟨[], part, rfl, hp, meets_iff.mpr hmeets, List.prefix_append old t⟩
  | kept c cs hno ih =>
    rw [replace_cons hno] at h
    cases part with
    | nil => exact .inl (by simp)
    | cons d part =>
      obtain ⟨rfl, hrest⟩ := List.cons_prefix_cons.mp h
      rcases ih hrest with hp | ⟨front, back, rfl, hback, hmeets, hfront⟩
      · exact .inl (List.cons_prefix_cons.mpr ⟨rfl, hp⟩)
      · exact .inr ⟨d :: front, back, rfl, hback, hmeets, List.cons_prefix_cons.mpr ⟨rfl, hfront⟩⟩

theorem old_mem_sources {rest : Text} (hsuffix : rest <:+ new) (hne : rest ≠ [])
    (hmeets : meets rest part = true) : old ∈ sources old new part :=
  mem_sources.mpr (.inr (.inl ⟨rfl, beginsIn_iff.mpr ⟨rest, hsuffix, hne, hmeets⟩⟩))

/-- What a text holds after a replacement has a source in the text before it. -/
theorem exists_source (ho : old ≠ []) (hpart : part ≠ []) (h : part <:+: replace old new t) :
    ∃ o ∈ sources old new part, o <:+: t := by
  induction t using replace_induction old ho with
  | nil => exact absurd (List.infix_nil.mp h) hpart
  | found t ih =>
    have hrest (hi : part <:+: replace old new t) : ∃ o ∈ sources old new part, o <:+: old ++ t := by
      obtain ⟨o, hmem, hot⟩ := ih hi
      exact ⟨o, hmem, hot.trans (List.suffix_append old t).isInfix⟩
    have hold : old <:+: old ++ t := (List.prefix_append old t).isInfix
    -- the part lies in what is put in, behind it, or across the end of it
    rw [replace_append_self ho, List.infix_append_iff] at h
    rcases h with hnew | htail | ⟨front, back, rfl, hfront, hback⟩
    · obtain ⟨rest, hp, hs⟩ := List.infix_iff_prefix_suffix.mp hnew
      have hne : rest ≠ [] := by
        rintro rfl
        exact hpart (List.prefix_nil.mp hp)
      exact ⟨old, old_mem_sources hs hne (meets_iff.mpr (.inr hp)), hold⟩
    · exact hrest htail
    · by_cases hne : front = []
      · subst hne
        exact hrest hback.isInfix
      · have hmeets := meets_iff.mpr (.inl (List.prefix_append front back))
        exact ⟨old, old_mem_sources hfront hne hmeets, hold⟩
  | kept c cs hno ih =>
    rw [replace_cons hno, List.infix_cons_iff, ← replace_cons hno] at h
    rcases h with hhead | htail
    · rcases prefix_of_replace ho hhead with hp | ⟨front, back, rfl, hback, hmeets, hfront⟩
      · exact ⟨part, mem_sources.mpr (.inl ⟨rfl, fun he => hno (he ▸ hp)⟩), hp.isInfix⟩
      · -- with nothing in front of it, `old` would have been replaced here
        have hne : front ≠ [] := by
          rintro rfl
          exact hno hfront
        have hmem := mem_fronts.mpr ⟨back, rfl, hne, hback, hmeets⟩
        exact ⟨front ++ old, mem_sources.mpr (.inr (.inr ⟨front, hmem, rfl⟩)), hfront.isInfix⟩
    · obtain ⟨o, hmem, hot⟩ := ih htail
      exact ⟨o, hmem, hot.trans (List.suffix_cons c cs).isInfix⟩

/-! ### A sequence of replacements -/

/-- What a text holds after replacements has an origin in the text before them. -/
theorem exists_origin {es : List (Text × Text)} (hes : ∀ e ∈ es, e.1 ≠ []) (hpart : part ≠ [])
    (h : part <:+: es.foldr (fun e t => replace e.1 e.2 t) t) :
    ∃ o ∈ origins es part, o <:+: t := by
  induction es generalizing part with
  | nil => exact ⟨part, List.mem_singleton_self part, h⟩
  | cons e es ih =>
    have he := hes e (by simp)
    obtain ⟨o, ho, hi⟩ := exists_source he hpart h
    have hne := ne_nil_of_mem_sources he hpart ho
    obtain ⟨origin, horigin, ht⟩ := ih (fun e he => hes e (by simp [he])) hne hi
    exact ⟨origin, List.mem_flatMap.mpr ⟨o, ho, horigin⟩, ht⟩

end Text

namespace Target

open Text

/-- The text holds nothing that renaming replaces. -/
def IsRenamed (target : Target) (text : Text) : Prop :=
  ∀ e ∈ target.replacements, ¬ e.1 <:+: text

theorem replacements_ne_nil (target : Target) : ∀ e ∈ target.replacements, e.1 ≠ [] := by
  cases target <;> decide

theorem rename_of_isRenamed {target : Target} {text : Text} (h : target.IsRenamed text) :
    target.rename text = text := by
  refine rename_induction (motive := fun f => f text = text) target rfl fun f e he hf => ?_
  dsimp only
  rw [hf, replace_of_not_infix (target.replacements_ne_nil e he) (h e he)]

def origins (target : Target) (part : Text) : List Text :=
  Text.origins target.replacements.reverse part

theorem exists_origin_of_rename (target : Target) {part text : Text} (hpart : part ≠ [])
    (h : part <:+: target.rename text) : ∃ o ∈ target.origins part, o <:+: text := by
  have hrename : target.rename text =
      target.replacements.reverse.foldr (fun e t => replace e.1 e.2 t) text := by
    rw [List.foldr_reverse, replacements, List.foldl_append]
    rfl
  rw [hrename] at h
  refine exists_origin (fun e he => ?_) hpart h
  exact target.replacements_ne_nil e (List.mem_reverse.mp he)

theorem not_infix_rename {target : Target} {part : Text} (hpart : part ≠ [])
    (h : target.origins part = []) (text : Text) : ¬ part <:+: target.rename text := by
  intro hi
  obtain ⟨o, ho, -⟩ := target.exists_origin_of_rename hpart hi
  rw [h] at ho
  cases ho

/-- Renaming is done after one time if nothing that it replaces can come up. -/
theorem isRenamed_rename {target : Target} (h : ∀ e ∈ target.replacements, target.origins e.1 = [])
    (text : Text) : target.IsRenamed (target.rename text) :=
  fun e he => not_infix_rename (target.replacements_ne_nil e he) (h e he) text

theorem origins_python : ∀ e ∈ python.replacements, python.origins e.1 = [] := by decide

theorem origins_algorithmic : ∀ e ∈ algorithmic.replacements, algorithmic.origins e.1 = [] := by
  decide

/-- Only a random number right behind the name of a function makes a call of that name. -/
theorem origins_cpp_opening (call : MathCall) :
    cpp.origins call.opening = [call.name ++ MathCall.random.opening] := by
  cases call <;> decide

/-- Renaming brings a text into a normal form for Python and for the algorithmic language. For C++
it leaves no call about windows or time and no newline token, and a mathematical call only where its
name stood right in front of a random number. -/
theorem rename_normal (text : Text) :
    (python.IsRenamed (python.rename text) ∧
      python.rename (python.rename text) = python.rename text) ∧
    (algorithmic.IsRenamed (algorithmic.rename text) ∧
      algorithmic.rename (algorithmic.rename text) = algorithmic.rename text) ∧
    (¬ ("wdisplay(" : Text) <:+: cpp.rename text ∧ ¬ ("etime(" : Text) <:+: cpp.rename text ∧
      ¬ newlineToken <:+: cpp.rename text) ∧
    ∀ call : MathCall, call.opening <:+: cpp.rename text →
      call.name ++ MathCall.random.opening <:+: text := by
  have hpython := isRenamed_rename origins_python text
  have halgorithmic := isRenamed_rename origins_algorithmic text
  refine ⟨⟨hpython, rename_of_isRenamed hpython⟩, ⟨halgorithmic, rename_of_isRenamed halgorithmic⟩,
    ⟨?_, ?_, ?_⟩, fun call hcall => ?_⟩
  · exact not_infix_rename (by decide) (by decide) text
  · exact not_infix_rename (by decide) (by decide) text
  · exact not_infix_rename (by decide) (by decide) text
  · obtain ⟨o, ho, hot⟩ := cpp.exists_origin_of_rename (by simp [MathCall.opening]) hcall
    rw [origins_cpp_opening, List.mem_singleton] at ho
    exact ho ▸ hot

/-- The square root of a random number, without a bracket between them. -/
theorem rename_normal_nested :
    let text : Text := "x = racinealeatoire() + puissance(2,3)(ENDL)"
    MathCall.sqrt.opening <:+: cpp.rename text ∧
      MathCall.sqrt.name ++ MathCall.random.opening <:+: text ∧
      ¬ newlineToken <:+: cpp.rename text ∧
      python.rename (python.rename text) = python.rename text := by
  intro text
  have hcall : MathCall.sqrt.opening <:+: cpp.rename text := by
    rw [← includes_iff]
    decide
  obtain ⟨⟨-, hpython⟩, -, ⟨-, -, hnewline⟩, hsource⟩ := rename_normal text
  exact ⟨hcall, hsource .sqrt hcall, hnewline, hpython⟩

end Target

end Pseudocode
