import Pseudocode.Proofs.Acceptance

/-!
# The course of a compilation

Lines are taken in whether they are accepted or not. A line is unreadable, or it is refused for some
cause, or it is accepted (`step_cases`). `Progress.before` is the progress in front of the line at
an index. The output and the fault of that line are those of one step from there
(`Compilation.getElem?_lines`, `Compilation.mem_faults_iff`), and a fault tells the number of its
line.
-/
namespace Pseudocode

structure Refused (setup : Setup) (p : Progress) (line : SourceLine) (s : Statement)
    (cause : Cause) : Prop where
  read : Statement.ofLine line = .ok s
  objects : (p.enter (s.form setup.target)).objection? setup.strict s (s.form setup.target) =
    some cause

theorem Refused.step_eq {setup : Setup} {p : Progress} {line : SourceLine} {s : Statement}
    {cause : Cause} (h : Refused setup p line s cause) :
    p.step setup line = (p.enter (s.form setup.target),
      ⟨.empty line.range, some ⟨line.number, line.range, cause⟩⟩) := by
  simp only [Progress.step_of_ok h.read, h.objects]

theorem SourceLine.form_of_ofLine {line : SourceLine} {s : Statement}
    (h : Statement.ofLine line = .ok s) (target : Target) : line.form target = s.form target := by
  rw [SourceLine.form, h]

/-- Whether the fault is about a block that is never closed. All others are about the statement on
their line. -/
def Cause.isUnclosed : Cause → Bool
  | .openBlock _ => true
  | _ => false

theorem Statement.ofLine_error {line : SourceLine} {fault : Fault}
    (h : Statement.ofLine line = .error fault) :
    ∃ offset, Word.ofText line.text = .error offset ∧
      fault = ⟨line.number, line.range.slice offset line.text.bytes, .openQuote⟩ := by
  unfold Statement.ofLine at h
  split at h
  · cases h
  · split at h
    · cases h
    · next offset hw =>
      cases h
      exact ⟨offset, hw, rfl⟩

theorem Statement.fault_of_ofLine {line : SourceLine} {fault : Fault}
    (h : Statement.ofLine line = .error fault) :
    fault.line = line.number ∧ fault.cause = .openQuote := by
  obtain ⟨offset, -, rfl⟩ := ofLine_error h
  exact ⟨rfl, rfl⟩

namespace Progress

theorem step_of_error {line : SourceLine} {fault : Fault} (h : Statement.ofLine line = .error fault)
    (setup : Setup) (p : Progress) :
    p.step setup line = (p, ⟨.empty line.range, some fault⟩) := by
  simp only [step, h]

/-- What can become of a line. -/
theorem step_cases (setup : Setup) (p : Progress) (line : SourceLine) :
    (∃ fault, Statement.ofLine line = .error fault) ∨
      (∃ s cause, Refused setup p line s cause) ∨ ∃ s, Accepted setup p line s := by
  cases hs : Statement.ofLine line with
  | error fault => exact .inl ⟨fault, rfl⟩
  | ok s =>
    cases ho : (p.enter (s.form setup.target)).objection? setup.strict s (s.form setup.target) with
    | some cause => exact .inr (.inl ⟨s, cause, hs, ho⟩)
    | none => exact .inr (.inr ⟨s, hs, ho⟩)

/-- The text of the statement on a line, before renaming and indentation. A line that is refused has
none. -/
def wording? (setup : Setup) (p : Progress) (line : SourceLine) : Option Text :=
  match Statement.ofLine line with
  | .error _ => none
  | .ok s =>
    let form := s.form setup.target
    match (p.enter form).objection? setup.strict s form with
    | some _ => none
    | none => some (setup.target.wording (p.enter form).nesting s form)

theorem wording_of_accepted {setup : Setup} {p : Progress} {line : SourceLine} {s : Statement}
    (h : Accepted setup p line s) :
    p.wording? setup line = some (setup.target.wording (p.enter (s.form setup.target)).nesting s
      (s.form setup.target)) := by
  simp only [wording?, h.read, h.fits]

theorem exists_of_wording {setup : Setup} {p : Progress} {line : SourceLine} {t : Text}
    (h : p.wording? setup line = some t) :
    ∃ s, Accepted setup p line s ∧
      t = setup.target.wording (p.enter (s.form setup.target)).nesting s (s.form setup.target) := by
  unfold wording? at h
  split at h
  · cases h
  · next s hs =>
    dsimp only at h
    split at h
    · cases h
    · next ho => exact ⟨s, ⟨hs, ho⟩, (Option.some.inj h).symm⟩

/-- No objection to a statement is about a block that is never closed or a literal that is left
open, and only lines that are no instructions are unknown. -/
theorem objection_spec {strict : Bool} {p : Progress} {s : Statement} {form : Form} {cause : Cause}
    (h : p.objection? strict s form = some cause) :
    cause.isUnclosed = false ∧ cause ≠ .openQuote ∧
      ((∃ word, cause = .unknownHead word) → form = .other ∧ strict = true) := by
  have hcount : ∀ form', s.countObjection? form' = some cause →
      cause.isUnclosed = false ∧ cause ≠ .openQuote ∧
        ((∃ word, cause = .unknownHead word) → form = .other ∧ strict = true) := by
    intro form' hc
    unfold Statement.countObjection? at hc
    dsimp only at hc
    split_ifs at hc <;> cases hc <;> exact ⟨rfl, by simp, by simp⟩
  unfold objection? at h
  split at h
  · cases h
    exact ⟨rfl, by simp, by simp⟩
  · split at h
    · split_ifs at h
      cases h
      exact ⟨rfl, by simp, by simp⟩
    · split_ifs at h with hs
      cases h
      exact ⟨rfl, by simp, fun _ => ⟨rfl, (Bool.and_eq_true_iff.mp hs).1⟩⟩
    · split_ifs at h
      · cases h
        exact ⟨rfl, by simp, by simp⟩
      · exact hcount _ h
    · exact hcount _ h

theorem fault_step {setup : Setup} {p : Progress} {line : SourceLine} {fault : Fault}
    (h : (p.step setup line).2.fault? = some fault) :
    fault.line = line.number ∧ fault.cause.isUnclosed = false := by
  rcases step_cases setup p line with ⟨f, he⟩ | ⟨s, cause, hr⟩ | ⟨s, ha⟩
  · obtain ⟨hline, hcause⟩ := Statement.fault_of_ofLine he
    rw [step_of_error he] at h
    cases h
    exact ⟨hline, by rw [hcause]; rfl⟩
  · rw [hr.step_eq] at h
    cases h
    exact ⟨rfl, (objection_spec hr.objects).1⟩
  · rw [ha.step_eq] at h
    cases h

theorem range_step (setup : Setup) (p : Progress) (line : SourceLine) :
    (p.step setup line).2.line.range = line.range := by
  rcases step_cases setup p line with ⟨f, he⟩ | ⟨s, cause, hr⟩ | ⟨s, ha⟩
  · rw [step_of_error he]
    rfl
  · rw [hr.step_eq]
    rfl
  · rw [ha.step_eq, ← ha.line_eq]
    rfl

theorem run_append (setup : Setup) (p : Progress) (ls ms : List SourceLine) :
    p.run setup (ls ++ ms) =
      (((p.run setup ls).1.run setup ms).1,
        (p.run setup ls).2 ++ ((p.run setup ls).1.run setup ms).2) := by
  induction ls generalizing p with
  | nil => rfl
  | cons line ls ih => simp only [List.cons_append, run, ih]

@[simp] theorem length_run (setup : Setup) (p : Progress) (lines : List SourceLine) :
    (p.run setup lines).2.length = lines.length := by
  induction lines generalizing p with
  | nil => rfl
  | cons line lines ih => simp only [run, List.length_cons, ih]

def before (setup : Setup) (lines : List SourceLine) (k : Nat) : Progress :=
  (run setup {} (lines.take k)).1

variable {setup : Setup} {lines : List SourceLine} {k : Nat} {line : SourceLine}

theorem before_succ (h : lines[k]? = some line) :
    before setup lines (k + 1) = ((before setup lines k).step setup line).1 := by
  rw [before, List.take_add_one, h, run_append]
  rfl

theorem before_length : before setup lines lines.length = (run setup {} lines).1 := by
  rw [before, List.take_length]

/-- The outcome of a line is that of one step from the progress in front of it. -/
theorem getElem?_run (setup : Setup) (lines : List SourceLine) (k : Nat) :
    (run setup {} lines).2[k]? =
      lines[k]?.map fun line => ((before setup lines k).step setup line).2 := by
  cases hl : lines[k]? with
  | none => simpa using hl
  | some line =>
    obtain ⟨hk, rfl⟩ := List.getElem?_eq_some_iff.mp hl
    conv_lhs => rw [← List.take_append_drop k lines, run_append]
    have hlen : (run setup {} (lines.take k)).2.length = k := by
      rw [length_run, List.length_take_of_le hk.le]
    rw [List.getElem?_append_right hlen.le, hlen, Nat.sub_self, List.drop_eq_getElem_cons hk]
    rfl

end Progress

namespace SourceLine

theorem index_placeAll {index start k : Nat} {ts : List Text} {line : SourceLine}
    (h : (placeAll index start ts)[k]? = some line) : line.index = index + k := by
  induction ts generalizing index start k with
  | nil => simp [placeAll] at h
  | cons t ts ih =>
    cases k with
    | zero =>
      simp only [placeAll, List.getElem?_cons_zero, Option.some.injEq] at h
      rw [← h]
      rfl
    | succ k =>
      rw [placeAll, List.getElem?_cons_succ] at h
      rw [ih h]
      omega

theorem index_of_getElem? {source : Text} {k : Nat} {line : SourceLine}
    (h : (ofSource source)[k]? = some line) : line.index = k := by
  rw [index_placeAll h, Nat.zero_add]

end SourceLine

namespace Compilation

open Progress

variable {setup : Setup} {source : Text} {k : Nat} {line : SourceLine}

theorem getElem?_lines (setup : Setup) (source : Text) (k : Nat) :
    (ofSource setup source).lines[k]? = (SourceLine.ofSource source)[k]?.map fun line =>
      ((before setup (SourceLine.ofSource source) k).step setup line).2.line := by
  simp only [ofSource, List.getElem?_map, getElem?_run, Option.map_map]
  rfl

theorem length_lines (setup : Setup) (source : Text) :
    (ofSource setup source).lines.length = (SourceLine.ofSource source).length := by
  simp [ofSource]

/-- The faults are those of the lines, and behind them that of a block which is never closed. -/
theorem faults_eq (setup : Setup) (source : Text) :
    (ofSource setup source).faults =
      (run setup {} (SourceLine.ofSource source)).2.filterMap Outcome.fault? ++
        ((before setup (SourceLine.ofSource source) (SourceLine.ofSource source).length).unclosed?
          (ofSource setup source).lines).toList := by
  rw [before_length]
  rfl

theorem mem_lineFaults_iff {fault : Fault} :
    fault ∈ (run setup {} (SourceLine.ofSource source)).2.filterMap Outcome.fault? ↔
      ∃ k line, (SourceLine.ofSource source)[k]? = some line ∧
        ((before setup (SourceLine.ofSource source) k).step setup line).2.fault? = some fault := by
  rw [List.mem_filterMap]
  simp only [List.mem_iff_getElem?, getElem?_run, Option.map_eq_some_iff]
  constructor
  · rintro ⟨_, ⟨k, line, hl, rfl⟩, hf⟩
    exact ⟨k, line, hl, hf⟩
  · rintro ⟨k, line, hl, hf⟩
    exact ⟨_, ⟨k, line, hl, rfl⟩, hf⟩

theorem isUnclosed_of_unclosed {p : Progress} {lines : List OutputLine} {fault : Fault}
    (h : p.unclosed? lines = some fault) : fault.cause.isUnclosed = true := by
  obtain ⟨b, -, rfl⟩ := Option.map_eq_some_iff.mp h
  rfl

/-- The faults with the number of a line, that of an open block apart, are those of its step. -/
theorem mem_faults_iff (hl : (SourceLine.ofSource source)[k]? = some line) {fault : Fault} :
    fault ∈ (ofSource setup source).faults ∧ fault.line = k + 1 ∧ fault.cause.isUnclosed = false ↔
      ((before setup (SourceLine.ofSource source) k).step setup line).2.fault? = some fault := by
  rw [faults_eq, List.mem_append, mem_lineFaults_iff]
  constructor
  · rintro ⟨⟨i, line', hl', hf⟩ | hf, hline, hcause⟩
    · have hi : i = k := by
        have hnumber := (fault_step hf).1
        rw [SourceLine.number, SourceLine.index_of_getElem? hl'] at hnumber
        omega
      subst hi
      obtain rfl : line' = line := Option.some.inj (hl'.symm.trans hl)
      exact hf
    · rw [Option.mem_toList] at hf
      simp [isUnclosed_of_unclosed hf] at hcause
  · intro hf
    obtain ⟨hline, hcause⟩ := fault_step hf
    rw [SourceLine.number, SourceLine.index_of_getElem? hl] at hline
    exact ⟨.inl ⟨k, line, hl, hf⟩, hline, hcause⟩

end Compilation

def wordingAt? (setup : Setup) (source : Text) (k : Nat) : Option Text :=
  (SourceLine.ofSource source)[k]?.bind
    ((Progress.before setup (SourceLine.ofSource source) k).wording? setup)

/-- The text of a line is its wording, renamed and indented. -/
theorem text_of_wordingAt {setup : Setup} {source t : Text} {k : Nat}
    (h : wordingAt? setup source k = some t) :
    ∃ l depth, (Compilation.ofSource setup source).lines[k]? = some l ∧
      l.text = Text.indent depth setup.unit (setup.target.rename t) := by
  obtain ⟨line, hl, ht⟩ := Option.bind_eq_some_iff.mp h
  obtain ⟨s, ha, rfl⟩ := Progress.exists_of_wording ht
  have hout := Compilation.getElem?_lines setup source k
  rw [hl, Option.map_some, ha.step_eq] at hout
  exact ⟨_, _, hout, rfl⟩

end Pseudocode
