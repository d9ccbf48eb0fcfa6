import Mathlib
import Pseudocode.Layout
import Pseudocode.Source

/-!
# Lines of a text

A text is its lines joined by newlines, so cutting and joining are inverse to each other.
Indentation works line by line, and one more level of it is one more unit before every line
(`indent_succ`).
-/
namespace Pseudocode

theorem pieces_eq_splitOn {α : Type} [DecidableEq α] (sep : α) (xs : List α) :
    pieces sep xs = xs.splitOn sep := by
  induction xs with
  | nil => rfl
  | cons x xs ih =>
    rw [pieces_cons, ih, List.splitOn_cons_eq_if_modifyHead]
    simp

theorem notMem_of_mem_pieces {α : Type} [DecidableEq α] {sep : α} {xs piece : List α}
    (h : piece ∈ pieces sep xs) : sep ∉ piece := by
  induction xs generalizing piece with
  | nil => simp_all
  | cons x xs ih =>
    rw [pieces_cons] at h
    split_ifs at h with hx
    · rcases List.mem_cons.mp h with rfl | h
      · simp
      · exact ih h
    · cases hp : pieces sep xs with
      | nil => simp [hp] at h
      | cons first rest =>
        simp only [hp, List.modifyHead_cons, List.mem_cons] at h
        rcases h with rfl | h
        · have := ih (hp ▸ List.mem_cons_self)
          simp [this, Ne.symm hx]
        · exact ih (hp ▸ List.mem_cons_of_mem _ h)

theorem infix_intercalate_of_mem {α : Type} {sep part : List α} {parts : List (List α)}
    (h : part ∈ parts) : part <:+: sep.intercalate parts := by
  induction parts with
  | nil => cases h
  | cons first rest ih =>
    cases rest with
    | nil => simp_all
    | cons second rest =>
      rw [List.intercalate_cons_cons]
      rcases List.mem_cons.mp h with rfl | h
      · exact (List.prefix_append _ _).isInfix.trans (List.prefix_append _ _).isInfix
      · exact (ih h).trans (List.suffix_append _ _).isInfix

theorem filter_intercalate {α : Type} {keep : α → Bool} {sep : List α} (hs : sep.filter keep = [])
    (parts : List (List α)) : (sep.intercalate parts).filter keep = parts.flatten.filter keep := by
  induction parts with
  | nil => rfl
  | cons first rest ih =>
    cases rest with
    | nil => simp
    | cons second rest =>
      rw [List.intercalate_cons_cons, List.filter_append, List.filter_append, hs, ih,
        List.append_nil, ← List.filter_append, ← List.flatten_cons]

theorem intercalate_pieces {α : Type} [DecidableEq α] (sep : α) (xs : List α) :
    [sep].intercalate (pieces sep xs) = xs := by
  rw [pieces_eq_splitOn]
  exact List.intercalate_splitOn _

theorem infix_of_mem_pieces {α : Type} [DecidableEq α] {sep : α} {xs piece : List α}
    (h : piece ∈ pieces sep xs) : piece <:+: xs := by
  rw [← intercalate_pieces sep xs]
  exact infix_intercalate_of_mem h

theorem mem_of_mem_pieces {α : Type} [DecidableEq α] {sep a : α} {xs piece : List α}
    (h : piece ∈ pieces sep xs) (ha : a ∈ piece) : a ∈ xs := (infix_of_mem_pieces h).subset ha

namespace Text

theorem takeWhile_eq_replicate (c : Char) (t : Text) :
    t.takeWhile (· == c) = List.replicate (t.takeWhile (· == c)).length c := by
  refine List.eq_replicate_of_mem fun d hd => ?_
  simpa using List.mem_takeWhile_imp hd

@[simp] theorem lines_nil : lines [] = [[]] := rfl

theorem lines_ne_nil (t : Text) : t.lines ≠ [] := by
  rw [lines, pieces_eq_splitOn]
  exact List.splitOn_ne_nil _ _

theorem notMem_of_mem_lines {t line : Text} (h : line ∈ t.lines) : '\n' ∉ line :=
  notMem_of_mem_pieces h

@[simp] theorem unlines_lines (t : Text) : unlines t.lines = t := intercalate_pieces _ _

theorem lines_unlines {ts : List Text} (h : ∀ t ∈ ts, '\n' ∉ t) (hne : ts ≠ []) :
    (unlines ts).lines = ts := by
  rw [unlines, lines, pieces_eq_splitOn]
  exact List.splitOn_intercalate _ h hne

theorem lines_append_newline (t u : Text) : (t ++ '\n' :: u).lines = t.lines ++ u.lines := by
  simp only [lines, pieces_eq_splitOn]
  exact List.splitOn_append_cons_self _ _

theorem lines_of_notMem {t : Text} (h : '\n' ∉ t) : t.lines = [t] := by
  rw [lines, pieces_eq_splitOn]
  exact List.splitOn_eq_singleton h

theorem lines_append_of_notMem {t : Text} (h : '\n' ∉ t) (u : Text) :
    (t ++ u).lines = u.lines.modifyHead (t ++ ·) := by
  induction t with
  | nil => cases hu : u.lines <;> simp [hu]
  | cons c t ih =>
    simp only [List.mem_cons, not_or] at h
    rw [lines, List.cons_append, pieces_cons, if_neg (Ne.symm h.1), ← lines, ih h.2,
      List.modifyHead_modifyHead]
    rfl

theorem lines_flatMap_newline {α : Type} (f : α → Text) (xs : List α) (u : Text) :
    lines (xs.flatMap (fun x => f x ++ ['\n']) ++ u) =
      xs.flatMap (fun x => (f x).lines) ++ u.lines := by
  induction xs with
  | nil => rfl
  | cons x xs ih =>
    rw [List.flatMap_cons, List.flatMap_cons, List.append_assoc, List.append_assoc, List.append_assoc,
      ← ih]
    exact lines_append_newline _ _

theorem lines_unlines_eq_flatMap {ts : List Text} (h : ts ≠ []) :
    (unlines ts).lines = ts.flatMap lines := by
  induction ts with
  | nil => exact absurd rfl h
  | cons t ts ih =>
    cases ts with
    | nil => simp [unlines]
    | cons u ts =>
      rw [unlines, List.intercalate_cons_cons, List.append_assoc, List.flatMap_cons, ← ih (by simp)]
      exact lines_append_newline _ _

theorem lines_shift {unit : Text} (hu : '\n' ∉ unit) (t : Text) :
    (shift unit t).lines = t.lines.map (unit ++ ·) := by
  refine lines_unlines (fun l hl => ?_) (by simp [lines_ne_nil])
  obtain ⟨line, hm, rfl⟩ := List.mem_map.mp hl
  simp [hu, notMem_of_mem_lines hm]

theorem prefix_of_lines {t first : Text} {rest : List Text} (h : t.lines = first :: rest) :
    first <+: t := by
  rw [← unlines_lines t, h, unlines]
  cases rest with
  | nil => simp
  | cons second rest =>
    rw [List.intercalate_cons_cons, List.append_assoc]
    exact List.prefix_append ..

theorem bytes_append (t u : Text) : bytes (t ++ u) = bytes t + bytes u := by
  induction t with
  | nil => simp [bytes]
  | cons c t ih =>
    simp only [List.cons_append, bytes, ih]
    omega

theorem size_utf8Encode (t : Text) : t.utf8Encode.size = t.bytes := by
  induction t with
  | nil => rfl
  | cons c t ih =>
    have hc : [c].utf8Encode.size = c.utf8Size := by
      rw [List.utf8Encode_singleton, List.size_toByteArray, String.length_utf8EncodeChar]
    rw [List.utf8Encode_cons, ByteArray.size_append, hc, ih, bytes]

theorem extract_utf8Encode (before part behind : Text) :
    (before ++ part ++ behind).utf8Encode.extract before.bytes (before.bytes + part.bytes) =
      part.utf8Encode := by
  rw [List.append_assoc, List.utf8Encode_append, List.utf8Encode_append, ← size_utf8Encode before]
  have hskip := ByteArray.extract_append_size_add (a := before.utf8Encode)
    (b := part.utf8Encode ++ behind.utf8Encode) (i := 0) (j := part.bytes)
  rw [Nat.add_zero] at hskip
  rw [hskip]
  exact ByteArray.extract_append_eq_left (size_utf8Encode part).symm

/-! ### Indentation -/

theorem times_succ (n : Nat) (t : Text) : times (n + 1) t = t ++ times n t := by
  simp [times, List.replicate_succ]

theorem notMem_indentLine {c : Char} {depth : Nat} {unit line : Text} (hu : c ∉ unit)
    (hl : c ∉ line) : c ∉ indentLine depth unit line := by
  intro h
  rcases List.mem_append.mp h with h | h
  · obtain ⟨u, hu', hc⟩ := List.mem_flatten.mp h
    exact hu (List.eq_of_mem_replicate hu' ▸ hc)
  · exact hl ((List.dropWhile_sublist _).mem h)

theorem indentLine_succ (depth : Nat) (unit line : Text) :
    indentLine (depth + 1) unit line = unit ++ indentLine depth unit line := by
  rw [indentLine, indentLine, show depth + 1 + leadingTabs line = depth + leadingTabs line + 1 by omega,
    times_succ, List.append_assoc]

theorem indent_of_ne_nil {t : Text} (h : t ≠ []) (depth : Nat) (unit : Text) :
    indent depth unit t = unlines (t.lines.map (indentLine depth unit)) := by
  simp [indent, h]

theorem lines_indent {unit t : Text} (hu : '\n' ∉ unit) (ht : t ≠ []) (depth : Nat) :
    (indent depth unit t).lines = t.lines.map (indentLine depth unit) := by
  rw [indent_of_ne_nil ht]
  refine lines_unlines ?_ (by simp [lines_ne_nil])
  intro line hl
  obtain ⟨l, hm, rfl⟩ := List.mem_map.mp hl
  exact notMem_indentLine hu (notMem_of_mem_lines hm)

theorem indent_succ_of_ne_nil {unit t : Text} (hu : '\n' ∉ unit) (ht : t ≠ []) (depth : Nat) :
    indent (depth + 1) unit t = shift unit (indent depth unit t) := by
  rw [shift, lines_indent hu ht, indent_of_ne_nil ht, List.map_map]
  congr 2
  funext line
  exact indentLine_succ depth unit line

/-- Only where a unit of indentation is empty can text be lost in it: the text is all tabs then. -/
theorem unit_eq_nil_of_indent {unit t : Text} {depth : Nat} (hu : '\n' ∉ unit) (ht : t ≠ [])
    (h : indent depth unit t = []) : unit = [] := by
  have hl := lines_indent hu ht depth
  rw [h] at hl
  obtain ⟨line, hline⟩ : ∃ line, t.lines = [line] := by
    have hlen := congrArg List.length hl
    simp only [lines_nil, List.length_singleton, List.length_map] at hlen
    exact List.length_eq_one_iff.mp hlen.symm
  have hne : line ≠ [] := by
    intro he
    apply ht
    rw [← unlines_lines t, hline, he]
    rfl
  simp only [hline, lines_nil, List.map_cons, List.map_nil, List.cons.injEq, and_true,
    indentLine] at hl
  obtain ⟨htimes, hdrop⟩ := List.append_eq_nil_iff.mp hl.symm
  have htabs : line.takeWhile (· == '\t') = line := by
    simpa [hdrop] using List.takeWhile_append_dropWhile (p := (· == '\t')) (l := line)
  obtain ⟨k, hk⟩ : ∃ k, depth + leadingTabs line = k + 1 := by
    refine ⟨depth + leadingTabs line - 1, ?_⟩
    have := List.length_pos_iff.mpr hne
    simp only [leadingTabs, htabs]
    omega
  rw [hk, times_succ] at htimes
  exact (List.append_eq_nil_iff.mp htimes).1

/-- One more level of indentation is one more unit before every line, and nothing stays nothing. -/
theorem indent_succ {unit : Text} (hu : '\n' ∉ unit) (depth : Nat) (t : Text) :
    indent (depth + 1) unit t =
      if indent depth unit t = [] then [] else shift unit (indent depth unit t) := by
  by_cases ht : t = []
  · simp [ht, indent]
  rw [indent_succ_of_ne_nil hu ht]
  split_ifs with h
  · rw [h, unit_eq_nil_of_indent hu ht h]
    rfl
  · rfl

end Text

namespace SourceLine

theorem map_text_placeAll (index start : Nat) (ts : List Text) :
    (placeAll index start ts).map SourceLine.text = ts := by
  induction ts generalizing index start with
  | nil => rfl
  | cons t ts ih => exact congrArg (t :: ·) (ih _ _)

theorem map_text_ofSource (source : Text) : (ofSource source).map SourceLine.text = source.lines :=
  map_text_placeAll 0 0 source.lines

theorem text_mem_lines {source : Text} {line : SourceLine} (h : line ∈ ofSource source) :
    line.text ∈ source.lines := by
  rw [← map_text_ofSource]
  exact List.mem_map_of_mem h

end SourceLine

end Pseudocode
