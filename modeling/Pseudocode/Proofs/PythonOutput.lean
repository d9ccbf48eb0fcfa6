import Pseudocode.Proofs.PythonLines
import Pseudocode.Proofs.Zones

/-!
# The output of a line of Python

How deep the output of an accepted line is follows from the number of open blocks in its part. A
line that opens a block, or stays in one, speaks at that depth for the first time, if it does at all
(`Accepted.lead_opens`, `Accepted.lead_stays`). A branch and an `end` speak at that depth if they
have to fill the block before them (`Accepted.lead_branches`, `Accepted.lead_closes`).
-/
namespace Pseudocode

open Text

/-! ### The output of a line -/

abbrev Setup.python (w : Nat) (strict : Bool) : Setup := ⟨.python, List.replicate w ' ', strict⟩

/-- Every statement but an `end` or a branch has the spelling of its phrase. -/
theorem Target.wording_python {s : Statement} {form : Form} (n : Nesting) (he : form ≠ .blockEnd)
    (hi : form ≠ .elseIf) (ho : form ≠ .otherwise) :
    Target.python.wording n s form = Python.spell (s.phrase .python form) := by
  unfold wording
  split
  · exact absurd rfl he
  · exact absurd rfl hi
  · exact absurd rfl ho
  · rfl
  · rfl

namespace Accepted

variable {w : Nat} {strict : Bool} {p : Progress} {line : SourceLine} {s : Statement}

theorem lines_spell (h : Accepted (.python w strict) p line s) (hl : '\n' ∉ line.text)
    (hf : (s.form .python).opensBlock = true) :
    (Python.spell (s.phrase .python (s.form .python))).lines =
      [Python.spell (s.phrase .python (s.form .python))] := by
  have hp := h.opensBlock_phrase hf
  refine lines_of_not_isMultiline (Python.isMultiline_spell (h.isMultiline_phrase hl _) ?_ ?_)
  · intro var hv
    rw [show s.phrase _ _ = _ from hv] at hp
    cases hp
  · intro name fields hv
    rw [show s.phrase _ _ = _ from hv] at hp
    cases hp

theorem lead_output :
    lead? (p.output (.python w strict) s).text.lines =
      ((Target.python.wording (p.enter (s.form .python)).nesting s (s.form .python)).lines.find?
        speaks).map fun l => indentation (indentLine
          ((p.behind (.python w strict) s).depth (s.form .python)) (List.replicate w ' ')
          (Target.python.rename l)) := by
  change lead? (indent _ (List.replicate w ' ') (Target.python.rename _)).lines = _
  rw [lead_indent, Target.lines_rename, List.map_map, lead_map]
  · rfl
  · intro l
    exact (speaks_indentLine _ _).trans (Target.speaks_rename l)

theorem lead_stays (h : Accepted (.python w strict) p line s) (hl : '\n' ∉ line.text)
    (hf : (s.form .python).opensBlock = false) (he : s.form .python ≠ .blockEnd) :
    lead? (p.output (.python w strict) s).text.lines = none ∨
      lead? (p.output (.python w strict) s).text.lines =
        some (p.nesting.openIn (p.output (.python w strict) s).part * w) := by
  have hi : s.form .python ≠ .elseIf := fun hi => by simp [hi, Form.opensBlock] at hf
  have hb : s.form .python ≠ .otherwise := fun hb => by simp [hb, Form.opensBlock] at hf
  have hend := Form.endsBranch_of_stays hf he
  have hdepth := h.depth_add
  simp only [hend, Bool.false_eq_true, if_false, Nat.add_zero] at hdepth
  rw [lead_output, Target.wording_python _ he hi hb, hdepth]
  cases hfind : (Python.spell (s.phrase .python (s.form .python))).lines.find? speaks with
  | none => exact .inl rfl
  | some l =>
    right
    have hflush := Python.flush_spell h.fronted_phrase (h.isMultiline_phrase hl _) hfind
    rw [Option.map_some, (Target.flush_rename hflush).indentation_indentLine]

theorem lead_opens (h : Accepted (.python w strict) p line s) (hl : '\n' ∉ line.text)
    {kind : BlockKind} (ho : (s.form .python).opens? s.args = some kind) :
    lead? (p.output (.python w strict) s).text.lines =
      some (p.nesting.openIn (p.output (.python w strict) s).part * w) := by
  have hf := Form.opensBlock_of_opens ho
  have he := Form.not_blockEnd_of_opens ho
  have hi : s.form .python ≠ .elseIf := fun hi => by simp [hi, Form.opens?] at ho
  have hb : s.form .python ≠ .otherwise := fun hb => by simp [hb, Form.opens?] at ho
  have hend := Form.endsBranch_of_opens ho
  have hdepth := h.depth_add
  simp only [hend, Bool.false_eq_true, if_false, Nat.add_zero] at hdepth
  obtain ⟨hs, hflush⟩ := Python.speaks_spell (h.opensBlock_phrase hf)
  rw [lead_output, Target.wording_python _ he hi hb, hdepth, h.lines_spell hl hf,
    List.find?_cons_of_pos hs, Option.map_some,
    (Target.flush_rename hflush).indentation_indentLine]

end Accepted

namespace Python

/-- The statement that fills an empty block is one level deeper, and is not renamed. -/
theorem find_emptyBody (kind : BlockKind) (rest : List Text) :
    ∃ l, ((emptyBody kind).deeper.lines ++ rest).find? speaks = some ('\t' :: l) ∧
      Target.python.rename ('\t' :: l) = '\t' :: l ∧ Flush l := by
  cases kind with
  | switch => exact ⟨"case _:", rfl, rfl, 'c', _, rfl, by decide, by decide⟩
  | _ => exact ⟨"pass", rfl, rfl, 'p', _, rfl, by decide, by decide⟩

end Python

namespace Target

theorem lines_endBranch {b : Block} (hb : b.hasBody = false) (text : Text) :
    ∃ rest, (Target.python.endBranch b text).lines = (Python.emptyBody b.kind).deeper.lines ++ rest ∧
      (text ≠ [] → rest = text.lines) := by
  simp only [endBranch, hb, Bool.false_eq_true, if_false, emptyBody?]
  by_cases ht : text = []
  · exact ⟨[], by simp [ht], fun h => absurd ht h⟩
  · refine ⟨text.lines, ?_, fun _ => rfl⟩
    simp only [List.isEmpty_iff, ht, if_false, List.append_assoc]
    exact lines_append_newline _ _

theorem wording_branch {s : Statement} {form : Form} (h : form = .elseIf ∨ form = .otherwise)
    (b : Block) (outer : Nesting) :
    Target.python.wording (b :: outer) s form =
      Target.python.endBranch b (Python.spell (s.phrase .python form)) := by
  rcases h with rfl | rfl <;> rfl

theorem endBranch_of_hasBody {b : Block} (hb : b.hasBody = true) (t : Target) (text : Text) :
    t.endBranch b text = text := by
  simp [endBranch, hb]

end Target

namespace Accepted

variable {w : Nat} {strict : Bool} {p : Progress} {line : SourceLine} {s : Statement}

/-- A line that fills the block before it speaks inside of that block. -/
theorem lead_fills (h : Accepted (.python w strict) p line s)
    (hend : (s.form .python).endsBranch = true) {b : Block} (hb : b.hasBody = false) {text : Text}
    (hword : Target.python.wording (p.enter (s.form .python)).nesting s (s.form .python) =
      Target.python.endBranch b text) :
    lead? (p.output (.python w strict) s).text.lines =
      some (p.nesting.openIn (p.output (.python w strict) s).part * w) := by
  have hdepth := h.depth_add
  simp only [hend, if_true] at hdepth
  obtain ⟨rest, hrest, -⟩ := Target.lines_endBranch hb text
  obtain ⟨l, hfind, hname, hflush⟩ := Python.find_emptyBody b.kind rest
  rw [lead_output, hword, hrest, hfind, Option.map_some, hname, hflush.indentation_indentLine_tab,
    hdepth]

/-- An `end` leaves no trace, apart from what fills its block. -/
theorem lead_closes (h : Accepted (.python w strict) p line s) (hf : s.form .python = .blockEnd)
    {b : Block} {outer : Nesting} (hn : (p.enter (s.form .python)).nesting = b :: outer) :
    lead? (p.output (.python w strict) s).text.lines =
      if b.hasBody then none
      else some (p.nesting.openIn (p.output (.python w strict) s).part * w) := by
  have hword : Target.python.wording (p.enter (s.form .python)).nesting s (s.form .python) =
      Target.python.endBranch b [] := by
    rw [hn, hf]
    rfl
  cases hb : b.hasBody with
  | true =>
    rw [lead_output, hword, Target.endBranch_of_hasBody hb]
    rfl
  | false => exact h.lead_fills (by rw [hf]; rfl) hb hword

/-- A branch speaks outside of its block, unless it fills the branch before it. -/
theorem lead_branches (h : Accepted (.python w strict) p line s) (hl : '\n' ∉ line.text)
    (hf : s.form .python = .elseIf ∨ s.form .python = .otherwise) {b : Block} {outer : Nesting}
    (hn : (p.enter (s.form .python)).nesting = b :: outer) :
    lead? (p.output (.python w strict) s).text.lines =
      some (if b.hasBody then (p.nesting.openIn (p.output (.python w strict) s).part - 1) * w
        else p.nesting.openIn (p.output (.python w strict) s).part * w) := by
  obtain ⟨hopen, hend, -⟩ := Form.branch_spec hf
  have hword : Target.python.wording (p.enter (s.form .python)).nesting s (s.form .python) = _ :=
    hn ▸ Target.wording_branch hf b outer
  cases hb : b.hasBody with
  | true =>
    have hdepth := h.depth_add
    simp only [hend, if_true] at hdepth
    obtain ⟨hs, hflush⟩ := Python.speaks_spell (h.opensBlock_phrase hopen)
    rw [lead_output, hword, Target.endBranch_of_hasBody hb, h.lines_spell hl hopen,
      List.find?_cons_of_pos hs, Option.map_some,
      (Target.flush_rename hflush).indentation_indentLine, ← hdepth]
    rfl
  | false => exact h.lead_fills hend hb hword

/-- The header of a block is the last line of the text that opens it. -/
theorem lines_wording (h : Accepted (.python w strict) p line s) (hl : '\n' ∉ line.text)
    (hf : (s.form .python).opensBlock = true) :
    ∃ above,
      (Target.python.wording (p.enter (s.form .python)).nesting s (s.form .python)).lines =
        above ++ [Python.spell (s.phrase .python (s.form .python))] := by
  have hlines := h.lines_spell hl hf
  by_cases hb : s.form .python = .elseIf ∨ s.form .python = .otherwise
  · obtain ⟨b, outer, hn, -⟩ := h.branch_nesting hb
    rw [show (p.enter (s.form .python)).nesting = _ from hn, Target.wording_branch hb]
    cases hbody : b.hasBody with
    | true =>
      rw [Target.endBranch_of_hasBody hbody, hlines]
      exact ⟨[], rfl⟩
    | false =>
      obtain ⟨-, c, cs, hcs, -⟩ := Python.speaks_spell (h.opensBlock_phrase hf)
      obtain ⟨rest, hrest, htext⟩ := Target.lines_endBranch hbody
        (Python.spell (s.phrase .python (s.form .python)))
      rw [hrest, htext (by rw [hcs]; simp), hlines]
      exact ⟨_, rfl⟩
  · rw [not_or] at hb
    rw [Target.wording_python _ (fun he => by simp [he, Form.opensBlock] at hf) hb.1 hb.2, hlines]
    exact ⟨[], rfl⟩

/-- The last line of the output of a statement that opens a block or a branch is its header, which
stands outside of the block. -/
theorem exists_header (h : Accepted (.python w strict) p line s) (hl : '\n' ∉ line.text)
    (hf : (s.form .python).opensBlock = true) :
    (p.output (.python w strict) s).text ≠ [] ∧
      ∃ above header, (p.output (.python w strict) s).text.lines = above ++ [header] ∧
        header.indentation = ((p.behind (.python w strict) s).nesting.openIn
          (p.output (.python w strict) s).part - 1) * w := by
  obtain ⟨hs, hflush⟩ := Python.speaks_spell (h.opensBlock_phrase hf)
  obtain ⟨above, hword⟩ := h.lines_wording hl hf
  -- a text whose last line speaks is not empty
  have hne : ∀ {t last : Text} {ls : List Text}, t.lines = ls ++ [last] → last.speaks = true →
      t ≠ [] := by
    rintro t last ls ht hlast rfl
    rw [lines_nil, ← List.nil_append [[]]] at ht
    have hempty := List.append_inj_right' ht rfl
    cases hempty
    cases hlast
  have hrename := Target.python.lines_rename
    (Target.python.wording (p.enter (s.form .python)).nesting s (s.form .python))
  rw [hword, List.map_append, List.map_singleton] at hrename
  have htext : (p.output (.python w strict) s).text.lines = _ :=
    lines_indent (show '\n' ∉ List.replicate w ' ' by simp)
      (hne hrename ((Target.speaks_rename _).trans hs)) _
  rw [hrename, List.map_append, List.map_singleton] at htext
  refine ⟨hne htext ((speaks_indentLine _ _).trans ((Target.speaks_rename _).trans hs)), _, _,
    htext, ?_⟩
  rw [(Target.flush_rename hflush).indentation_indentLine, Progress.depth_eq,
    show (s.form _).opensBlock = true from hf]
  rfl

/-- A line that speaks does so no deeper than the open blocks of its part, and one that does not
opens no block. -/
theorem lead_le (h : Accepted (.python w strict) p line s) (hl : '\n' ∉ line.text) :
    (∃ m, lead? (p.output (.python w strict) s).text.lines = some m ∧
        m ≤ p.nesting.openIn (p.output (.python w strict) s).part * w) ∨
      lead? (p.output (.python w strict) s).text.lines = none ∧
        (p.behind (.python w strict) s).nesting.openIn (p.output (.python w strict) s).part ≤
          p.nesting.openIn (p.output (.python w strict) s).part := by
  have hcount := h.openIn_behind (p.output (.python w strict) s).part
  simp only [and_true] at hcount
  cases h.turn with
  | opens kind ho _ => exact .inl ⟨_, h.lead_opens hl ho, le_rfl⟩
  | branches b outer hf _ hn _ =>
    refine .inl ⟨_, h.lead_branches hl hf hn, ?_⟩
    split_ifs
    · exact Nat.mul_le_mul_right w (Nat.sub_le _ _)
    · exact le_rfl
  | closes b outer he hn _ =>
    have hlead := h.lead_closes he hn
    cases hb : b.hasBody with
    | true =>
      simp only [he, Form.opens?, if_true, Option.isSome_none, Bool.false_eq_true,
        if_false] at hcount
      exact .inr ⟨by simpa [hb] using hlead, by omega⟩
    | false => exact .inl ⟨_, by simpa [hb] using hlead, le_rfl⟩
  | stays hf he _ =>
    simp only [he, Form.opens_eq_none hf, if_false, Option.isSome_none, Bool.false_eq_true,
      Nat.add_zero] at hcount
    rcases h.lead_stays hl hf he with hlead | hlead
    · exact .inr ⟨hlead, hcount.le⟩
    · exact .inl ⟨_, hlead, le_rfl⟩

end Accepted

end Pseudocode
