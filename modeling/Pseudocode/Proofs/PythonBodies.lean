import Pseudocode.Proofs.PythonLayout

/-!
# Bodies of Python blocks

The guard of the main algorithm has a body, and so does the header of every branch that is not
muted. The header of a muted branch has none (`compile_python_bodies`).
-/
namespace Pseudocode

open Text

theorem Reading.not_muted_iff {r : Reading} {after : List Reading} :
    ¬ r.Muted after ↔
      (∀ x ∈ branch r.inside after, ¬ (x.depth = r.inside ∧ x.form.givesBody = true)) ∨
        ∃ x ∈ branch r.inside after,
          x.output.part = r.output.part ∧ Python.holdsStatement x.output.text = true := by
  simp only [Muted, not_and_or, not_exists, not_forall, Bool.not_eq_false]
  grind

variable {w : Nat} {strict : Bool} {p q : Progress} {line : SourceLine} {s : Statement}
  {lines : List SourceLine} {outs : List OutputLine}

/-- The branch behind a header has a line that is deeper, and that speaks first, unless it is muted.
-/
theorem Accepted.lead_iff (h : Accepted (.python w strict) p line s)
    (hf : (s.form .python).opensBlock = true)
    (hr : Reads (.python w strict) (p.behind (.python w strict) s) lines q outs)
    (hl : ∀ line ∈ lines, '\n' ∉ line.text) (hw : 0 < w) (hq : q.nesting = []) {tail : List Text}
    (ht : ∀ m, lead? tail = some m → m = 0) :
    (∃ m, lead? (Reading.linesOf (p.output (.python w strict) s).part
        ((p.behind (.python w strict) s).readings (.python w strict) lines) ++ tail) = some m ∧
      ((p.behind (.python w strict) s).nesting.openIn
        (p.output (.python w strict) s).part - 1) * w < m) ↔
      ¬ Reading.Muted ⟨p.nesting.length, s.form .python, p.output (.python w strict) s⟩
        ((p.behind (.python w strict) s).readings (.python w strict) lines) := by
  have hlen := p.length_enter (s.form .python)
  -- the branch is open, and has no statement yet
  obtain ⟨b, outer, hn, hb, hinside, hpart⟩ : ∃ b outer,
      (p.behind (.python w strict) s).nesting = b :: outer ∧ b.hasBody = false ∧
        Reading.inside ⟨p.nesting.length, s.form .python, p.output (.python w strict) s⟩ =
          outer.length + 1 ∧
        (p.output (.python w strict) s).part = Nesting.part (b :: outer) := by
    cases h.turn with
    | opens kind ho hq =>
      have hend : (s.form .python).endsBranch = false := Form.endsBranch_of_opens ho
      refine ⟨_, _, hq, rfl, ?_, ?_⟩
      · simp [Reading.inside, hend, hlen]
      · rw [part_output_opens ho, hq]
        rfl
    | branches b outer hb _ hn hq =>
      obtain ⟨-, hend, ho, -, hrec⟩ := Form.branch_spec hb
      refine ⟨_, outer, hq, rfl, ?_, ?_⟩
      · rw [Reading.inside, if_pos hend, ← hlen, show (p.enter _).nesting = _ from hn]
        rfl
      · rw [h.part_output_inner (ho _) hrec, ← p.part_enter (s.form .python),
          show (p.enter _).nesting = _ from hn]
        rfl
    | closes b outer he => simp [show s.form .python = _ from he, Form.opensBlock] at hf
    | stays hs => simp [show (s.form .python).opensBlock = false from hs] at hf
  have hpos := h.openIn_pos hf
  rw [hn, hpart] at hpos
  have hd : Nesting.openIn (b :: outer) (Nesting.part (b :: outer)) =
      Nesting.openIn (b :: outer) (Nesting.part (b :: outer)) - 1 + 1 := by omega
  rw [Reading.not_muted_iff, hinside, hpart, hn]
  have hiff := hr.lead_iff hl hw hq ht (show _ = [] ++ b :: outer from hn) hd
  refine hiff.trans ?_
  simp [hb]

theorem suffix_append_cases {α : Type} {x : α} {l a b : List α} (h : x :: l <:+ a ++ b) :
    x :: l <:+ b ∨ ∃ l', x :: l' <:+ a ∧ l = l' ++ b := by
  obtain ⟨u, hu⟩ := h
  rcases List.append_eq_append_iff.mp hu with ⟨v, hv, hb⟩ | ⟨v, -, hb⟩
  · cases v with
    | nil => exact .inl ⟨[], hb⟩
    | cons y v =>
      obtain ⟨rfl, rfl⟩ := List.cons.inj hb
      exact .inr ⟨v, ⟨u, hv.symm⟩, rfl⟩
  · exact .inl ⟨v, hb.symm⟩

theorem Row.role_of_suffix_plain {row : Row} {below : List Row} {ls : List Text}
    (h : row :: below <:+ ls.map Row.plain) : row.role = .plain := by
  obtain ⟨l, -, rfl⟩ := List.mem_map.mp (h.subset List.mem_cons_self)
  rfl

theorem Row.suffix_ofLines {role : Role} {ls : List Text} {row : Row} {below : List Row}
    (h : row :: below <:+ ofLines role ls) :
    (below = [] ∧ row.role = role ∧ ∃ above, ls = above ++ [row.text]) ∨ row.role = .plain := by
  rcases List.eq_nil_or_concat ls with rfl | ⟨above, last, rfl⟩
  · simp [ofLines] at h
  · rw [List.concat_eq_append, ofLines_append] at h
    rcases suffix_append_cases h with h | ⟨l, h, -⟩
    · rcases List.suffix_cons_iff.mp h with h | h
      · cases h
        exact .inl ⟨rfl, rfl, above, List.concat_eq_append⟩
      · simp at h
    · exact .inr (role_of_suffix_plain h)

/-- The header among the rows of a reading is the last one, and stands for that reading. -/
theorem Reading.header_rows {part : Part} {r₀ r : Reading} {after₀ after : List Reading} {row : Row}
    {below : List Row} (h : row :: below <:+ r₀.rows part after₀)
    (hrole : row.role = .header r after) :
    below = [] ∧ r = r₀ ∧ after = after₀ ∧ r₀.form.opensBlock = true ∧ r₀.output.part = part ∧
      ∃ above, r₀.output.text.lines = above ++ [row.text] := by
  rcases Row.suffix_ofLines h with ⟨hbelow, hrow, above, hlines⟩ | hplain
  · rw [hrole] at hrow
    unfold linesIn at hlines
    split_ifs at hrow hlines with hf hp
    · cases hrow
      exact ⟨hbelow, rfl, rfl, hf, hp.1, above, hlines⟩
    · simp at hlines
  · simp [hplain] at hrole

theorem suffix_map_cases {α β : Type} {f : α → β} {x : β} {l : List β} {a : List α}
    (h : x :: l <:+ a.map f) : ∃ y m, y :: m <:+ a ∧ x = f y ∧ l = m.map f := by
  obtain ⟨u, hu⟩ := h
  obtain ⟨b, c, rfl, -, hc⟩ := List.map_eq_append_iff.mp hu.symm
  obtain ⟨y, m, rfl, rfl, rfl⟩ := List.map_eq_cons_iff.mp hc
  exact ⟨y, m, ⟨b, rfl⟩, rfl, rfl⟩

/-- The header of a branch has a body unless the branch is muted, whatever is below it that does not
speak before the lines of its part do. -/
theorem Accepted.hasBody_iff (h : Accepted (.python w strict) p line s) (hl : '\n' ∉ line.text)
    (hf : (s.form .python).opensBlock = true)
    (hr : Reads (.python w strict) (p.behind (.python w strict) s) lines q outs)
    (hls : ∀ line ∈ lines, '\n' ∉ line.text) (hw : 0 < w) (hq : q.nesting = []) {tail : List Text}
    (ht : ∀ m, lead? tail = some m → m = 0) {header : Text} {above below : List Text}
    (hheader : (p.output (.python w strict) s).text.lines = above ++ [header])
    (hbelow : lead? below = lead? (Reading.linesOf (p.output (.python w strict) s).part
      ((p.behind (.python w strict) s).readings (.python w strict) lines) ++ tail)) :
    HasBody header below ↔
      ¬ Reading.Muted ⟨p.nesting.length, s.form .python, p.output (.python w strict) s⟩
        ((p.behind (.python w strict) s).readings (.python w strict) lines) := by
  obtain ⟨-, above', header', hheader', hind⟩ := h.exists_header hl hf
  have htext : header = header' := by
    have := (List.append_inj' (hheader.symm.trans hheader') rfl).2
    simpa using this
  rw [Text.hasBody_iff, hbelow, htext, hind]
  exact h.lead_iff hf hr hls hw hq ht

namespace Reads

theorem hasBody_functionRows (h : Reads (.python w strict) p lines q outs)
    (hl : ∀ line ∈ lines, '\n' ∉ line.text) (hw : 0 < w) (hq : q.nesting = []) {tail : List Text}
    (ht : ∀ m, lead? tail = some m → m = 0) {begun : Bool} {row : Row} {below : List Row}
    (hs : row :: below <:+ Python.functionRows begun (p.readings (.python w strict) lines))
    {r : Reading} {after : List Reading} (hrole : row.role = .header r after) :
    HasBody row.text (below.map Row.text ++ tail) ↔ ¬ r.Muted after := by
  induction h generalizing begun below with
  | nil p => simp [Row.role_of_suffix_plain hs] at hrole
  | @cons p q line lines s outs head rest ih =>
    have hl' : ∀ line ∈ lines, '\n' ∉ line.text := fun line h => hl line (by simp [h])
    rw [head.readings_eq] at hs
    obtain ⟨ended, begun', hrows⟩ := Python.exists_functionRows_cons begun
      ⟨p.nesting.length, s.form .python, p.output (.python w strict) s⟩
      ((p.behind (.python w strict) s).readings (.python w strict) lines)
    rw [hrows] at hs
    rcases suffix_append_cases hs with hs | ⟨l, hown, rfl⟩
    · rcases suffix_append_cases hs with hs | ⟨l, hgap, -⟩
      · exact ih hl' hq hs
      · simp [Row.role_of_suffix_plain hgap] at hrole
    · obtain ⟨rfl, rfl, rfl, hf, hpart, above, hheader⟩ := Reading.header_rows hown hrole
      refine head.hasBody_iff (hl line (by simp)) hf rest hl' hw hq ht hheader ?_
      rw [List.nil_append, List.map_append, List.append_assoc, Python.lead_gap,
        Python.lead_functionRows]
      rw [show (p.output (.python w strict) s).part = .functions from hpart]

theorem hasBody_mainRows (h : Reads (.python w strict) p lines q outs)
    (hl : ∀ line ∈ lines, '\n' ∉ line.text) (hw : 0 < w) (hq : q.nesting = [])
    {row : Row} {below : List Row}
    (hs : row :: below <:+
      Python.mainRows (List.replicate w ' ') (p.readings (.python w strict) lines))
    {r : Reading} {after : List Reading} (hrole : row.role = .header r after) :
    HasBody row.text (below.map Row.text ++ [[]]) ↔ ¬ r.Muted after := by
  induction h generalizing below with
  | nil p => simp [Progress.readings, Python.mainRows] at hs
  | @cons p q line lines s outs head rest ih =>
    have hl' : ∀ line ∈ lines, '\n' ∉ line.text := fun line h => hl line (by simp [h])
    rw [head.readings_eq, Python.mainRows] at hs
    rcases suffix_append_cases hs with hs | ⟨l, hown, rfl⟩
    · exact ih hl' hq hs
    · obtain ⟨header, l', hheader, rfl, rfl⟩ := suffix_map_cases hown
      obtain ⟨rfl, rfl, rfl, hf, hpart, above, hlines⟩ := Reading.header_rows hheader hrole
      rw [List.map_nil, List.nil_append, Python.map_text_mainRows, Row.shift, hasBody_shift]
      have ht : ∀ m, lead? [] = some m → m = 0 := by simp [lead?]
      refine head.hasBody_iff (hl line (by simp)) hf rest hl' hw hq ht hlines ?_
      rw [List.append_nil, show (p.output (.python w strict) s).part = .main from hpart]

theorem map_output {setup : Setup} (h : Reads setup p lines q outs) :
    (p.readings setup lines).map Reading.output = outs := by
  induction h with
  | nil p => rfl
  | cons head rest ih => rw [head.readings_eq, List.map_cons, ih]

theorem output_header (h : Reads (.python w strict) p lines q outs)
    (hl : ∀ line ∈ lines, '\n' ∉ line.text) {r : Reading} {after : List Reading}
    (hs : r :: after <:+ p.readings (.python w strict) lines) (hf : r.form.opensBlock = true) :
    r.output.text ≠ [] ∧ r.output.part ≠ .declarations := by
  induction h with
  | nil p => simp [Progress.readings] at hs
  | @cons p q line lines s outs head rest ih =>
    rw [head.readings_eq] at hs
    rcases List.suffix_cons_iff.mp hs with hs | hs
    · obtain ⟨rfl, rfl⟩ := List.cons.inj hs
      obtain ⟨htext, -⟩ := head.exists_header (hl line (by simp)) hf
      refine ⟨htext, fun hp => ?_⟩
      have hpos := head.openIn_pos hf
      rw [show (p.output (.python w strict) s).part = .declarations from hp,
        Nesting.openIn_declarations] at hpos
      omega
    · exact ih (fun line h => hl line (by simp [h])) hs

theorem hasBody_layout (h : Reads (.python w strict) p lines q outs)
    (hl : ∀ line ∈ lines, '\n' ∉ line.text) (hw : 0 < w) (hq : q.nesting = [])
    {program : Program} {row : Row} {below : List Row}
    (hs : row :: below <:+
      Python.layout program (List.replicate w ' ') (p.readings (.python w strict) lines))
    {r : Reading} {after : List Reading} (hrole : row.role = .header r after) :
    HasBody row.text (below.map Row.text) ↔ ¬ r.Muted after := by
  rcases suffix_append_cases hs with hguard | ⟨upper, hupper, rfl⟩
  · rcases List.suffix_cons_iff.mp hguard with hrow | hguarded
    · obtain ⟨rfl, -⟩ := List.cons.inj hrow
      cases hrole
    · rcases suffix_append_cases hguarded with hlast | ⟨main, hmain, rfl⟩
      · simp [Row.role_of_suffix_plain hlast] at hrole
      · rcases suffix_append_cases hmain with hmain | ⟨_, hpass, -⟩
        · rw [List.map_append, Row.map_text_plain]
          exact h.hasBody_mainRows hl hw hq hmain hrole
        · simp [Row.role_of_suffix_plain hpass] at hrole
  · rcases suffix_append_cases hupper with hfunctions | ⟨_, hplain, -⟩
    · rw [List.map_append]
      refine h.hasBody_functionRows hl hw hq (fun m hm => ?_) hfunctions hrole
      -- the guard ends the last function
      rw [List.map_cons, lead_cons_of_speaks rfl, Option.some.injEq] at hm
      exact hm.symm
    · simp [Row.role_of_suffix_plain hplain] at hrole

theorem header_mem_layout (h : Reads (.python w strict) p lines q outs)
    (hl : ∀ line ∈ lines, '\n' ∉ line.text) (program : Program) {r : Reading} {after : List Reading}
    (hs : r :: after <:+ p.readings (.python w strict) lines) (hf : r.form.opensBlock = true) :
    ∃ row ∈ Python.layout program (List.replicate w ' ') (p.readings (.python w strict) lines),
      row.role = .header r after := by
  obtain ⟨htext, hpart⟩ := h.output_header hl hs hf
  simp only [Python.layout, Python.guardedRows, List.mem_append, List.mem_cons]
  cases hp : r.output.part with
  | declarations => exact absurd hp hpart
  | functions =>
    obtain ⟨row, hrow, hrole⟩ := Python.header_mem_functionRows hs hf hp htext false
    exact ⟨row, .inl (.inr hrow), hrole⟩
  | main =>
    obtain ⟨row, hrow, hrole⟩ := Python.header_mem_mainRows hs hf hp htext (List.replicate w ' ')
    exact ⟨row, .inr (.inr (.inl (.inr hrow))), hrole⟩

end Reads

/-- In a program in Python the guard has a body. Every line that opens a block or another branch of
one has a header, and that has a body exactly if the branch is not muted. -/
theorem compile_python_bodies {w : Nat} (hw : 0 < w) {strict? : Option Bool} {source text : Text}
    (h : compile .python ⟨List.replicate w ' ', strict?⟩ source = .ok text) :
    let setup := Setup.ofOptions .python ⟨List.replicate w ' ', strict?⟩
    let readings := Progress.readings setup {} (SourceLine.ofSource source)
    let rows := Python.layout (Compilation.ofSource setup source).program setup.unit readings
    rows.map Row.text = text.lines ∧
      (∃ above below, rows = above ++ ⟨Python.guardLine, .guard⟩ :: below ∧
        HasBody Python.guardLine (below.map Row.text)) ∧
      (∀ r after, r :: after <:+ readings → r.form.opensBlock = true →
        ∃ row ∈ rows, row.role = .header r after) ∧
      ∀ row below r after, row :: below <:+ rows → row.role = .header r after →
        (HasBody row.text (below.map Row.text) ↔ ¬ r.Muted after) := by
  intro setup readings rows
  obtain ⟨q, outs, hr, hn, htext⟩ := compile_eq_ok_iff.mp h
  have hl : ∀ line ∈ SourceLine.ofSource source, '\n' ∉ line.text := fun line hline =>
    notMem_of_mem_lines (SourceLine.text_mem_lines hline)
  have hu : '\n' ∉ setup.unit := by simp [setup, Setup.ofOptions]
  have hprogram : (Compilation.ofSource setup source).program =
      .ofLines (readings.map Reading.output) ((Usage.ofSource source).union q.usage) := by
    rw [show readings.map Reading.output = outs from hr.map_output]
    exact congrArg Compilation.program (Compilation.ofSource_of_reads hr)
  refine ⟨?_, ⟨_, _, rfl, ?_⟩, fun r after => hr.header_mem_layout hl _,
    fun row below r after hs hrole => hr.hasBody_layout hl hw hn hs hrole⟩
  · rw [show rows = Python.layout _ _ readings from rfl, hprogram, Python.map_text_layout hu, htext,
      show readings.map Reading.output = outs from hr.map_output]
    rfl
  · rw [hprogram]
    exact Python.hasBody_guard hw readings _

/-- By its form the `if` has a statement, but that is a comment in Python. The `else` has none, and
is given one. -/
theorem compile_python_bodies_note :
    let source : Text := "while x\nif x\n# note\nelse\nend\nend"
    let text : Text := unlines ["if __name__ == '__main__':", "    while x:", "        if x:",
      "            # note", "        else:", "            pass", ""]
    compile .python ⟨List.replicate 4 ' ', none⟩ source = .ok text ∧
      HasBody "    while x:" (text.lines.drop 2) ∧ ¬ HasBody "        if x:" (text.lines.drop 3) ∧
      HasBody "        else:" (text.lines.drop 5) := by
  intro source text
  have h : compile .python ⟨List.replicate 4 ' ', none⟩ source = .ok text :=
    (compile_eq_ok rfl).trans (congrArg Except.ok (by decide +kernel))
  let setup := Setup.ofOptions .python ⟨List.replicate 4 ' ', none⟩
  let readings := Progress.readings setup {} (SourceLine.ofSource source)
  let rows := Python.layout (Compilation.ofSource setup source).program setup.unit readings
  have hrow : ∀ i r after t, rows.drop i = ⟨t, .header r after⟩ :: rows.drop (i + 1) →
      (HasBody t (text.lines.drop (i + 1)) ↔ ¬ r.Muted after) := by
    intro i r after t hi
    obtain ⟨hlines, -, -, hb⟩ := compile_python_bodies (by decide) h
    rw [← hlines, ← List.map_drop]
    exact hb ⟨t, .header r after⟩ _ r after (hi ▸ List.drop_suffix i rows) rfl
  refine ⟨h, ?_, ?_, ?_⟩
  · exact (hrow 1 (readings.get ⟨0, by decide +kernel⟩) (readings.drop 1) _
      (by decide +kernel)).mpr (by decide +kernel)
  · exact fun hb => (hrow 2 (readings.get ⟨1, by decide +kernel⟩) (readings.drop 2) _
      (by decide +kernel)).mp hb (by decide +kernel)
  · exact (hrow 4 (readings.get ⟨3, by decide +kernel⟩) (readings.drop 4) _
      (by decide +kernel)).mpr (by decide +kernel)

end Pseudocode
