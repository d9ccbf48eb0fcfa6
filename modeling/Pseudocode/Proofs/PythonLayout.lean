import Pseudocode.Proofs.Branches

/-!
# Layout of a Python program

Every line of the output is a row that knows its role, so that the headers of blocks can be told
from other lines. The rows are laid out reading by reading, and are the lines of the program that is
composed (`map_text_layout`).
-/
namespace Pseudocode

open Text

/-- What a line of the output does: it is the header of a branch, which comes with the line that
opened it and those read behind that, or the guard of the main algorithm, or any other line. -/
inductive Role
  | plain
  | guard
  | header (r : Reading) (after : List Reading)
  deriving DecidableEq, Repr

structure Row where
  text : Text
  role : Role
  deriving DecidableEq, Repr

namespace Row

def plain (text : Text) : Row := ⟨text, .plain⟩

def shift (unit : Text) (row : Row) : Row := { row with text := unit ++ row.text }

def ofLines (role : Role) : List Text → List Row
  | [] => []
  | [line] => [⟨line, role⟩]
  | line :: lines => plain line :: ofLines role lines

theorem ofLines_append (role : Role) (lines : List Text) (last : Text) :
    ofLines role (lines ++ [last]) = lines.map plain ++ [⟨last, role⟩] := by
  induction lines with
  | nil => rfl
  | cons line lines ih =>
    cases lines with
    | nil => rfl
    | cons second lines => exact congrArg (plain line :: ·) ih

theorem map_text_plain (lines : List Text) : (lines.map plain).map Row.text = lines := by
  rw [List.map_map]
  exact List.map_id lines

theorem map_text_ofLines (role : Role) (lines : List Text) :
    (ofLines role lines).map Row.text = lines := by
  rcases List.eq_nil_or_concat lines with rfl | ⟨init, last, rfl⟩
  · rfl
  · rw [List.concat_eq_append, ofLines_append, List.map_append, map_text_plain]
    rfl

theorem map_text_shift (unit : Text) (rows : List Row) :
    (rows.map (shift unit)).map Row.text = (rows.map Row.text).map (unit ++ ·) := by
  rw [List.map_map, List.map_map]
  rfl

end Row

def Reading.rows (part : Part) (r : Reading) (after : List Reading) : List Row :=
  Row.ofLines (if r.form.opensBlock then .header r after else .plain) (r.linesIn part)

namespace Python

def gap (begun : Bool) : List Row := (if begun then [[]] else []).map .plain

/-- The rows of the functions, where the first one has been begun or not. -/
def functionRows (begun : Bool) : List Reading → List Row
  | [] => gap begun
  | r :: rs =>
    let rows := r.rows .functions rs
    let begun := begun || !rows.isEmpty
    rows ++
      if r.output.endsRoutine then gap begun ++ functionRows false rs else functionRows begun rs

def mainRows (unit : Text) : List Reading → List Row
  | [] => []
  | r :: rs => (r.rows .main rs).map (Row.shift unit) ++ mainRows unit rs

def imports (u : Usage) : List Text :=
  (if u.records then ["from dataclasses import dataclass".toList] else []) ++
    (if u.sqrt then ["from math import sqrt".toList] else []) ++
    (if u.random then ["from random import random".toList] else []) ++
    (if u.records || u.sqrt || u.random then [[]] else [])

def guardLine : Text := "if __name__ == '__main__':"

def guardedRows (p : Program) (unit : Text) (rs : List Reading) : List Row :=
  (if p.main.any holdsStatement then [] else [unit ++ "pass"]).map .plain ++ mainRows unit rs ++
    [[]].map .plain

def layout (p : Program) (unit : Text) (rs : List Reading) : List Row :=
  (imports p.usage ++ p.declarations.flatMap fun t : Text => t.lines ++ [[]]).map .plain ++
    functionRows false rs ++ ⟨guardLine, .guard⟩ :: guardedRows p unit rs

theorem map_text_rows (part : Part) (r : Reading) (after : List Reading) :
    (r.rows part after).map Row.text = r.linesIn part := Row.map_text_ofLines _ _

theorem map_text_mainRows (unit : Text) (rs : List Reading) :
    (mainRows unit rs).map Row.text = (Reading.linesOf .main rs).map (unit ++ ·) := by
  induction rs with
  | nil => rfl
  | cons r rs ih =>
    rw [mainRows, List.map_append, Row.map_text_shift, map_text_rows, ih, Reading.linesOf_cons,
      List.map_append]

theorem exists_functionRows_cons (begun : Bool) (r : Reading) (rs : List Reading) :
    ∃ ended begun', functionRows begun (r :: rs) =
      r.rows .functions rs ++ (gap ended ++ functionRows begun' rs) := by
  rw [functionRows]
  split_ifs
  · exact ⟨_, _, rfl⟩
  · exact ⟨false, _, rfl⟩

theorem lead_gap (begun : Bool) (lines : List Text) :
    lead? ((gap begun).map Row.text ++ lines) = lead? lines := by
  cases begun <;> rfl

theorem lead_functionRows (begun : Bool) (rs : List Reading) (tail : List Text) :
    lead? ((functionRows begun rs).map Row.text ++ tail) =
      lead? (Reading.linesOf .functions rs ++ tail) := by
  induction rs generalizing begun with
  | nil => exact lead_gap begun tail
  | cons r rs ih =>
    obtain ⟨ended, begun', hr⟩ := exists_functionRows_cons begun r rs
    rw [hr, List.map_append, List.map_append, map_text_rows, Reading.linesOf_cons,
      List.append_assoc, List.append_assoc, List.append_assoc, lead_append, lead_gap, ih,
      lead_append (r.linesIn _)]

theorem lines_header (u : Usage) (t : Text) : (header u ++ t).lines = imports u ++ t.lines := by
  have hh : header u = (imports u).flatMap fun l => l ++ ['\n'] := by
    obtain ⟨sqrt, pow, random, records, window⟩ := u
    cases sqrt <;> cases random <;> cases records <;> rfl
  have hi : (imports u).flatMap lines = imports u := by
    obtain ⟨sqrt, pow, random, records, window⟩ := u
    cases sqrt <;> cases random <;> cases records <;> rfl
  rw [hh, lines_flatMap_newline (fun l => l), hi]

theorem flatMap_lines_output (part : Part) (r : Reading) :
    (Program.textsOf part [r.output]).flatMap lines = r.linesIn part := by
  unfold Reading.linesIn
  by_cases hp : r.output.part = part <;> by_cases ht : r.output.text = [] <;>
    simp [Program.textsOf, hp, ht]

theorem flatMap_lines_textsOf (part : Part) (rs : List Reading) :
    (Program.textsOf part (rs.map Reading.output)).flatMap lines = Reading.linesOf part rs := by
  induction rs with
  | nil => rfl
  | cons r rs ih =>
    rw [List.map_cons, ← List.singleton_append, Program.textsOf_append, List.flatMap_append, ih,
      flatMap_lines_output, Reading.linesOf_cons]

theorem isEmpty_rows (part : Part) (r : Reading) (after : List Reading) :
    (r.rows part after).isEmpty = (Program.textsOf part [r.output]).isEmpty := by
  have h := map_text_rows part r after
  rw [← flatMap_lines_output] at h
  cases hr : r.rows part after with
  | nil =>
    rw [hr] at h
    cases ht : Program.textsOf part [r.output] with
    | nil => rfl
    | cons t ts => simp [ht, lines_ne_nil] at h
  | cons row rows =>
    rw [hr] at h
    cases ht : Program.textsOf part [r.output] with
    | nil => simp [ht] at h
    | cons t ts => rfl

theorem flatMap_addGroup (group : List Text) (groups : List (List Text)) :
    ((Program.addGroup group groups).map unlines).flatMap (fun t : Text => t.lines ++ [[]]) =
      group.flatMap lines ++ (gap (!group.isEmpty)).map Row.text ++
        (groups.map unlines).flatMap fun t : Text => t.lines ++ [[]] := by
  unfold Program.addGroup
  cases group with
  | nil => rfl
  | cons t ts =>
    simp only [List.isEmpty_cons, Bool.false_eq_true, if_false, List.map_cons, List.flatMap_cons,
      lines_unlines_eq_flatMap (List.cons_ne_nil t ts)]
    rfl

theorem map_text_functionRows (current : List Text) (rs : List Reading) :
    ((Program.groupFunctions current (rs.map Reading.output)).map unlines).flatMap
        (fun t : Text => t.lines ++ [[]]) =
      current.flatMap lines ++ (functionRows (!current.isEmpty) rs).map Row.text := by
  induction rs generalizing current with
  | nil =>
    rw [List.map_nil, Program.groupFunctions, flatMap_addGroup]
    simp [functionRows]
  | cons r rs ih =>
    have hbegun : (!(current ++ Program.textsOf .functions [r.output]).isEmpty) =
        (!current.isEmpty || !(r.rows .functions rs).isEmpty) := by
      rw [isEmpty_rows]
      cases current <;> rfl
    rw [List.map_cons, Program.groupFunctions, functionRows, ← hbegun, List.map_append,
      map_text_rows, ← flatMap_lines_output]
    split_ifs
    · rw [flatMap_addGroup, ih, List.flatMap_append, List.map_append]
      simp
    · rw [ih, List.flatMap_append, List.append_assoc]

/-- The rows are the lines of the output. -/
theorem map_text_layout {unit : Text} (hu : '\n' ∉ unit) (rs : List Reading) (usage : Usage) :
    (layout (.ofLines (rs.map Reading.output) usage) unit rs).map Row.text =
      (compose (.ofLines (rs.map Reading.output) usage) unit).lines := by
  generalize hp : Program.ofLines (rs.map Reading.output) usage = p
  have hfunctions : (p.functions.map unlines).flatMap (fun t : Text => t.lines ++ [[]]) =
      (functionRows false rs).map Row.text := by
    rw [← hp]
    exact map_text_functionRows [] rs
  have hmain : p.main.flatMap lines = Reading.linesOf .main rs := by
    rw [← hp]
    exact flatMap_lines_textsOf .main rs
  have hguarded : (guardedRows p unit rs).map Row.text =
      (when (!p.main.any holdsStatement) (unit ++ "pass\n") ++ p.body unit).lines := by
    rw [guardedRows, List.map_append, List.map_append, map_text_mainRows, ← hmain,
      List.append_assoc]
    change _ ++ (_ ++ [[]]) = _
    rw [← lines_nil, ← Program.lines_body_append hu, List.append_nil]
    cases p.main.any holdsStatement with
    | true => rfl
    | false =>
      have hpass : (unit ++ "pass").lines = [unit ++ "pass"] := by
        refine lines_of_notMem ?_
        rw [List.mem_append, not_or]
        exact ⟨hu, by decide⟩
      have hline := lines_append_newline (unit ++ "pass") (p.body unit)
      rw [hpass] at hline
      have hfill : when (!false) (unit ++ "pass\n") ++ p.body unit =
          (unit ++ "pass") ++ '\n' :: p.body unit := by
        simp [when]
      rw [hfill, hline]
      rfl
  have hcompose : compose p unit = header p.usage ++ (p.definitions ++ (guardLine ++ '\n' ::
      (when (!p.main.any holdsStatement) (unit ++ "pass\n") ++ p.body unit))) := by
    simp only [compose, List.append_assoc]
    rfl
  rw [hcompose, lines_header, Program.lines_definitions, lines_append_newline, ← hguarded, layout,
    List.map_append, List.map_append, Row.map_text_plain, List.flatMap_append, hfunctions,
    show guardLine.lines = [guardLine] from rfl]
  simp

/-- The guard has a body: there is a line that speaks in the main algorithm, or one is put there. -/
theorem hasBody_guard {w : Nat} (hw : 0 < w) (rs : List Reading) (usage : Usage) :
    HasBody guardLine ((guardedRows (.ofLines (rs.map Reading.output) usage)
      (List.replicate w ' ') rs).map Row.text) := by
  have hmain : (Program.ofLines (rs.map Reading.output) usage).main.flatMap lines =
      Reading.linesOf .main rs := flatMap_lines_textsOf .main rs
  generalize Program.ofLines (rs.map Reading.output) usage = p at hmain ⊢
  rw [hasBody_iff, show guardLine.indentation = 0 from rfl, guardedRows, List.append_assoc,
    List.map_append, List.map_append, map_text_mainRows, ← hmain, lead_append, lead_append]
  cases hany : p.main.any holdsStatement with
  | false =>
    have hpass : lead? [List.replicate w ' ' ++ "pass"] = some w := by
      rw [lead_cons_of_speaks (by rw [speaks_spaces]; rfl), indentation_spaces]
      rfl
    exact ⟨w, congrArg (Option.or · _) hpass, hw⟩
  | true =>
    obtain ⟨t, ht, hholds⟩ := List.any_eq_true.mp hany
    rw [Reading.holdsStatement_eq] at hholds
    cases hlead : lead? (p.main.flatMap lines) with
    | none =>
      have hmute : lead? t.lines = none :=
        lead_eq_none_iff.mpr fun l hl =>
          lead_eq_none_iff.mp hlead l (List.mem_flatMap.mpr ⟨t, ht, hl⟩)
      simp [hmute] at hholds
    | some m =>
      refine ⟨w + m, ?_, by omega⟩
      rw [lead_map_spaces, hlead]
      rfl

theorem header_mem_rows {part : Part} {r : Reading} (after : List Reading)
    (hf : r.form.opensBlock = true) (hp : r.output.part = part) (ht : r.output.text ≠ []) :
    ∃ row ∈ r.rows part after, row.role = .header r after := by
  rcases List.eq_nil_or_concat r.output.text.lines with h | ⟨above, last, h⟩
  · exact absurd h (lines_ne_nil _)
  · refine ⟨⟨last, .header r after⟩, ?_, rfl⟩
    rw [Reading.rows, Reading.linesIn, if_pos hf, if_pos ⟨hp, ht⟩, h, List.concat_eq_append,
      Row.ofLines_append]
    simp

theorem header_mem_functionRows {r : Reading} {after rs : List Reading} (hs : r :: after <:+ rs)
    (hf : r.form.opensBlock = true) (hp : r.output.part = .functions) (ht : r.output.text ≠ [])
    (begun : Bool) : ∃ row ∈ functionRows begun rs, row.role = .header r after := by
  induction rs generalizing begun with
  | nil => simp at hs
  | cons x rs ih =>
    obtain ⟨ended, begun', hrows⟩ := exists_functionRows_cons begun x rs
    rw [hrows]
    rcases List.suffix_cons_iff.mp hs with h | h
    · obtain ⟨rfl, rfl⟩ := List.cons.inj h
      obtain ⟨row, hrow, hrole⟩ := header_mem_rows after hf hp ht
      exact ⟨row, List.mem_append_left _ hrow, hrole⟩
    · obtain ⟨row, hrow, hrole⟩ := ih h begun'
      exact ⟨row, List.mem_append_right _ (List.mem_append_right _ hrow), hrole⟩

theorem header_mem_mainRows {r : Reading} {after rs : List Reading} (hs : r :: after <:+ rs)
    (hf : r.form.opensBlock = true) (hp : r.output.part = .main) (ht : r.output.text ≠ [])
    (unit : Text) : ∃ row ∈ mainRows unit rs, row.role = .header r after := by
  induction rs with
  | nil => simp at hs
  | cons x rs ih =>
    rw [mainRows]
    rcases List.suffix_cons_iff.mp hs with h | h
    · obtain ⟨rfl, rfl⟩ := List.cons.inj h
      obtain ⟨row, hrow, hrole⟩ := header_mem_rows after hf hp ht
      exact ⟨row.shift unit, List.mem_append_left _ (List.mem_map_of_mem hrow), hrole⟩
    · obtain ⟨row, hrow, hrole⟩ := ih h
      exact ⟨row, List.mem_append_right _ hrow, hrole⟩

end Python

end Pseudocode
