import Pseudocode.Proofs.Lines

/-!
# Levels of indentation

A statement can be put one level deeper at three times: before it is indented, by a tab in front of
each of its lines (`deeper`), while it is indented, by its depth, and afterwards, by a unit in front
of each line (`shift`). The three agree on every text that is not empty (`indent_levels`). Nothing
stays nothing when it is indented, while a tab in front of it is a text.
-/
namespace Pseudocode.Text

/-- A text is put a level deeper as if a tab were a unit of indentation. -/
theorem deeper_eq_shift (t : Text) : t.deeper = shift ['\t'] t := rfl

theorem lines_deeper (t : Text) : t.deeper.lines = t.lines.map ('\t' :: ·) := by
  rw [deeper_eq_shift, lines_shift (by decide)]
  rfl

theorem deeper_ne_nil (t : Text) : t.deeper ≠ [] := by
  intro h
  have hl := lines_deeper t
  obtain ⟨first, rest, ht⟩ := List.exists_cons_of_ne_nil t.lines_ne_nil
  rw [h, ht] at hl
  simp at hl

/-! ### One line -/

theorem indentLine_tab (depth : Nat) (unit line : Text) :
    indentLine depth unit ('\t' :: line) = indentLine (depth + 1) unit line := by
  have htabs : leadingTabs ('\t' :: line) = leadingTabs line + 1 := by
    simp [leadingTabs]
  rw [indentLine, indentLine, htabs, show depth + (leadingTabs line + 1) =
    depth + 1 + leadingTabs line by omega]
  simp

/-- The tabs in front of a line become units, behind those of its depth. -/
theorem exists_indentLine (depth : Nat) (unit line : Text) :
    ∃ tabs body, line = List.replicate tabs '\t' ++ body ∧ body.head? ≠ some '\t' ∧
      indentLine depth unit line = times (depth + tabs) unit ++ body := by
  refine ⟨leadingTabs line, line.dropWhile (· == '\t'), ?_, ?_, rfl⟩
  · have htabs : line.takeWhile (· == '\t') = List.replicate (leadingTabs line) '\t' :=
      takeWhile_eq_replicate '\t' line
    rw [← htabs, List.takeWhile_append_dropWhile]
  · intro h
    have hhead := List.head?_dropWhile_not (· == '\t') line
    simp [h] at hhead

/-! ### All lines -/

theorem indent_deeper {t : Text} (ht : t ≠ []) (depth : Nat) (unit : Text) :
    indent depth unit t.deeper = indent (depth + 1) unit t := by
  rw [indent_of_ne_nil t.deeper_ne_nil, indent_of_ne_nil ht, lines_deeper, List.map_map]
  congr 2
  funext line
  exact indentLine_tab depth unit line

/-- A text that is put one level deeper before, while or after it is indented comes out the same.
Indentation keeps the lines apart. In each of them `depth` units, and one more for every tab at its
front, stand in the place of these tabs. -/
theorem indent_levels (depth : Nat) (unit t : Text) (hu : '\n' ∉ unit) (ht : t ≠ []) :
    indent depth unit t.deeper = indent (depth + 1) unit t ∧
      indent (depth + 1) unit t = shift unit (indent depth unit t) ∧
      (indent depth unit t).lines.length = t.lines.length ∧
      ∀ (i : Nat) (line : Text), t.lines[i]? = some line →
        ∃ tabs body, line = List.replicate tabs '\t' ++ body ∧ body.head? ≠ some '\t' ∧
          (indent depth unit t).lines[i]? = some (times (depth + tabs) unit ++ body) := by
  have hlines := lines_indent hu ht depth
  refine ⟨indent_deeper ht depth unit, indent_succ_of_ne_nil hu ht depth, ?_, ?_⟩
  · rw [hlines, List.length_map]
  · intro i line hi
    obtain ⟨tabs, body, hline, hbody, hresult⟩ := exists_indentLine depth unit line
    refine ⟨tabs, body, hline, hbody, ?_⟩
    rw [hlines, List.getElem?_map, hi, Option.map_some, hresult]

/-- A text with an empty line and two levels of its own, where the unit is a tab too. -/
theorem indent_levels_tabs :
    let t : Text := "try:\n\tx = 1\n\n\t\tpass"
    ('\n' ∉ (['\t'] : Text) ∧ t ≠ []) ∧
      indent 1 ['\t'] t.deeper = indent 2 ['\t'] t ∧
      indent 2 ['\t'] t = shift ['\t'] (indent 1 ['\t'] t) ∧
      (indent 1 ['\t'] t).lines.length = t.lines.length := by
  intro t
  have hu : '\n' ∉ (['\t'] : Text) := by decide
  have ht : t ≠ [] := by decide
  obtain ⟨hdeeper, hshift, hlength, -⟩ := indent_levels 1 ['\t'] t hu ht
  exact ⟨⟨hu, ht⟩, hdeeper, hshift, hlength⟩

-- The empty text is left alone, and so the three ways differ on it.
example : indent 0 ['\t'] (deeper []) = ['\t'] ∧ indent 1 ['\t'] [] = [] := by decide

end Pseudocode.Text
