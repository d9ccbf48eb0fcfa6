import Pseudocode.Proofs.History
import Pseudocode.Proofs.Lines

/-!
# Compilations in lockstep

Two compilations of one source that take every line for the same form of statement have made the
same progress in front of each line, whatever words their languages use (`step_fst_congr`). So C++
and French agree on the faults and on the structure of the program, and Python agrees with both
where nothing is drawn (`compile_agrees`). A strict and a loose compilation stay in lockstep too:
they differ at the lines that are no instructions, and nowhere else (`compile_loose`).
-/
namespace Pseudocode

namespace Progress

/-- Whether the compilation is strict matters to lines that are no instructions only. -/
theorem objection_congr {form : Form} (h : form ≠ .other) (a b : Bool) (p : Progress)
    (s : Statement) : p.objection? a s form = p.objection? b s form := by
  cases form with
  | other => exact absurd rfl h
  | _ => rfl

/-- A line that is no instruction leaves the same behind whether it is refused or not. -/
theorem step_fst_other {setup : Setup} {line : SourceLine} {s : Statement}
    (hs : Statement.ofLine line = .ok s) (hf : s.form setup.target = .other) (p : Progress) :
    (p.step setup line).1 = p.enter .other := by
  simp only [step_of_ok hs, hf]
  split <;> rfl

variable {σ τ : Setup}

theorem step_fst_congr {line : SourceLine} (h : line.form σ.target = line.form τ.target)
    (p : Progress) : (p.step σ line).1 = (p.step τ line).1 := by
  cases hs : Statement.ofLine line with
  | error fault => rw [step_of_error hs, step_of_error hs]
  | ok s =>
    rw [SourceLine.form_of_ofLine hs, SourceLine.form_of_ofLine hs] at h
    by_cases ho : s.form τ.target = .other
    · rw [step_fst_other hs (h.trans ho), step_fst_other hs ho]
    · simp only [step_of_ok hs, h, objection_congr ho σ.strict τ.strict]
      split <;> rfl

/-- Two runs over lines of the same forms make the same progress, and what holds of the two outcomes
of each line holds along the runs. -/
theorem run_lockstep {R : Outcome → Outcome → Prop} {lines : List SourceLine}
    (hform : ∀ line ∈ lines, line.form σ.target = line.form τ.target)
    (hstep : ∀ line ∈ lines, ∀ p : Progress, R (p.step σ line).2 (p.step τ line).2) (p : Progress) :
    (p.run σ lines).1 = (p.run τ lines).1 ∧
      List.Forall₂ R (p.run σ lines).2 (p.run τ lines).2 := by
  induction lines generalizing p with
  | nil => exact ⟨rfl, .nil⟩
  | cons line lines ih =>
    have hp := step_fst_congr (hform line (by simp)) p
    obtain ⟨hrun, houts⟩ := ih (fun l hl => hform l (by simp [hl]))
      (fun l hl => hstep l (by simp [hl])) (p.step σ line).1
    simp only [run]
    rw [← hp]
    exact ⟨hrun, .cons (hstep line (by simp) p) houts⟩

theorem unclosed_congr {ls ms : List OutputLine}
    (h : ls.map OutputLine.range = ms.map OutputLine.range) (p : Progress) :
    p.unclosed? ls = p.unclosed? ms := by
  have hrange : ∀ i : Nat, ls[i]?.map OutputLine.range = ms[i]?.map OutputLine.range := by
    intro i
    rw [← List.getElem?_map, h, List.getElem?_map]
  simp only [unclosed?, hrange]

end Progress

theorem Compilation.map_range_lines (setup : Setup) (source : Text) :
    (ofSource setup source).lines.map OutputLine.range =
      (SourceLine.ofSource source).map SourceLine.range := by
  apply List.ext_getElem?
  intro k
  rw [List.getElem?_map, List.getElem?_map, getElem?_lines, Option.map_map]
  exact congrArg (Option.map · _) (funext fun line => Progress.range_step setup _ line)

/-! ### Agreement of the targets -/

/-- Two outputs that differ in their texts at most. -/
structure OutputLine.Matches (l m : OutputLine) : Prop where
  part : l.part = m.part
  endsRoutine : l.endsRoutine = m.endsRoutine
  range : l.range = m.range

/-- Two compilations with the same faults and with programs of the same structure. -/
structure Compilation.Agrees (c d : Compilation) : Prop where
  faults : c.faults = d.faults
  lines : List.Forall₂ OutputLine.Matches c.lines d.lines

/-- The words of a target do not count for the fault of a line nor for the place of its output. -/
theorem Progress.step_matches {σ τ : Setup} (hstrict : σ.strict = τ.strict) {line : SourceLine}
    (h : line.form σ.target = line.form τ.target) (p : Progress) :
    (p.step σ line).2.fault? = (p.step τ line).2.fault? ∧
      (p.step σ line).2.line.Matches (p.step τ line).2.line := by
  cases hs : Statement.ofLine line with
  | error fault =>
    rw [step_of_error hs, step_of_error hs]
    exact ⟨rfl, rfl, rfl, rfl⟩
  | ok s =>
    rw [SourceLine.form_of_ofLine hs, SourceLine.form_of_ofLine hs] at h
    simp only [step_of_ok hs, h, hstrict]
    split
    · exact ⟨rfl, rfl, rfl, rfl⟩
    · exact ⟨rfl, rfl, rfl, rfl⟩

namespace Compilation

theorem agrees_of_forms {σ τ : Setup} (hstrict : σ.strict = τ.strict) {source : Text}
    (hform : ∀ line ∈ SourceLine.ofSource source, line.form σ.target = line.form τ.target) :
    (ofSource σ source).Agrees (ofSource τ source) := by
  obtain ⟨hp, houts⟩ := Progress.run_lockstep hform
    (R := fun a b => a.fault? = b.fault? ∧ a.line.Matches b.line)
    (fun line hl p => p.step_matches hstrict (hform line hl)) {}
  constructor
  · have hfaults : (Progress.run σ {} (SourceLine.ofSource source)).2.map Outcome.fault? =
        (Progress.run τ {} (SourceLine.ofSource source)).2.map Outcome.fault? := by
      rw [← List.forall₂_eq_eq_eq, List.forall₂_map_left_iff, List.forall₂_map_right_iff]
      exact houts.imp fun _ _ h => h.1
    have hlines : (Progress.run σ {} (SourceLine.ofSource source)).2.filterMap Outcome.fault? =
        (Progress.run τ {} (SourceLine.ofSource source)).2.filterMap Outcome.fault? := by
      simpa only [List.filterMap_map, Function.id_comp] using congrArg (List.filterMap id) hfaults
    have hranges := (map_range_lines σ source).trans (map_range_lines τ source).symm
    rw [faults_eq, faults_eq, Progress.before_length, Progress.before_length, hp, hlines,
      Progress.unclosed_congr hranges]
  · rw [ofSource, ofSource, List.forall₂_map_left_iff, List.forall₂_map_right_iff]
    exact houts.imp fun _ _ h => h.2

end Compilation

namespace Form

/-- The words that mean something where there is drawing only: those of the operations, and the type
of an image. -/
def drawingWords : List Text := drawKeywords.map Prod.fst ++ [("image" : Text)]

theorem mem_drawingWords {word : Text} {op : Drawing} (h : ofKeyword? word = some (.draw op)) :
    word ∈ drawingWords := by
  have hall : ∀ e ∈ keywords, (∃ op, e.2 = .draw op) → e.1 ∈ drawingWords := by
    simp [keywords, blockKeywords, dataKeywords, noteKeywords, drawKeywords, drawingWords]
  exact hall _ (mem_keywords h) ⟨op, rfl⟩

end Form

namespace Statement

theorem form_cpp (s : Statement) : s.form .cpp = s.form .algorithmic := by
  simp [form, Target.hasDrawing, Target.vocabulary, Vocabulary.declares]

theorem form_python {s : Statement} (h : s.head ∉ Form.drawingWords) :
    s.form .python = s.form .cpp := by
  have hword :
      Target.python.vocabulary.declares s.head = Target.cpp.vocabulary.declares s.head := by
    have himage : (("image" : Text) == s.head) = false := by
      refine beq_eq_false_iff_ne.mpr fun he => h ?_
      simp [Form.drawingWords, ← he]
    simp only [Target.vocabulary, Vocabulary.declares, List.any_cons, List.any_nil, himage,
      Bool.or_false]
  unfold form
  rw [hword]
  cases hk : Form.ofKeyword? s.head with
  | none => rfl
  | some form =>
    cases form with
    | draw op => exact absurd (Form.mem_drawingWords hk) h
    | _ => rfl

end Statement

def Word.first? (line : Text) : Option Text :=
  match Word.ofText line with
  | .ok (w :: _) => some w.text
  | _ => none

/-- Where the first word does not draw, a line has the same form in Python. -/
theorem SourceLine.form_python {line : SourceLine}
    (h : ∀ word ∈ Word.first? line.text, word ∉ Form.drawingWords) :
    line.form .python = line.form .cpp := by
  unfold SourceLine.form Statement.ofLine
  split
  · next s hs =>
    split at hs
    · cases hs
      rfl
    · split at hs
      · next words hw =>
        cases hs
        cases words with
        | nil => rfl
        | cons w ws => exact Statement.form_python (h w.text (by simp [Word.first?, hw]))
      · cases hs
  · rfl

/-- Compilations for C++ and for French agree, and one for Python agrees with them where no line
starts with a word of drawing. -/
theorem compile_agrees (strict : Bool) (unit : Target → Text) (source : Text) :
    let c := fun target =>
      Compilation.ofSource (.ofOptions target ⟨unit target, some strict⟩) source
    (c .cpp).Agrees (c .algorithmic) ∧
      ((∀ line ∈ source.lines, ∀ word ∈ Word.first? line, word ∉ Form.drawingWords) →
        (c .python).Agrees (c .cpp) ∧ (c .python).Agrees (c .algorithmic)) := by
  intro c
  have hcpp : ∀ line : SourceLine, line.form .cpp = line.form .algorithmic := by
    intro line
    unfold SourceLine.form
    split
    · exact Statement.form_cpp _
    · rfl
  have hagrees : ∀ {a b : Target},
      (∀ line ∈ SourceLine.ofSource source, line.form a = line.form b) → (c a).Agrees (c b) :=
    fun h => Compilation.agrees_of_forms (by rfl) h
  refine ⟨hagrees fun line _ => hcpp line, fun h => ?_⟩
  have hpython : ∀ line ∈ SourceLine.ofSource source, line.form .python = line.form .cpp :=
    fun line hl => SourceLine.form_python (h line.text (SourceLine.text_mem_lines hl))
  exact ⟨hagrees hpython, hagrees fun line hl => (hpython line hl).trans (hcpp line)⟩

/-- A return from a procedure, a line that is no instruction, and a loop that is never closed. -/
theorem compile_agrees_faults :
    let source : Text := "fx void f\nreturn 1\nend\nfoo bar\nwhile x"
    let c := fun target => Compilation.ofSource (.ofOptions target ⟨"\t", some true⟩) source
    (∀ line ∈ source.lines, ∀ word ∈ Word.first? line, word ∉ Form.drawingWords) ∧
      (c .python).faults.map Fault.line = [2, 4, 5] ∧
      (c .python).Agrees (c .cpp) ∧ (c .python).Agrees (c .algorithmic) := by
  intro source c
  have h : ∀ line ∈ source.lines, ∀ word ∈ Word.first? line, word ∉ Form.drawingWords := by
    decide +kernel
  exact ⟨h, by decide +kernel, (compile_agrees true (fun _ => "\t") source).2 h⟩

/-! ### Strict and loose compilations -/

def Cause.isUnknown : Cause → Bool
  | .unknownHead _ => true
  | _ => false

theorem Cause.isUnknown_of_isUnclosed {cause : Cause} (h : cause.isUnclosed = true) :
    cause.isUnknown = false := by
  cases cause with
  | openBlock kind => rfl
  | _ => cases h

theorem filterMap_of_forall₂ {α β γ : Type} {f : α → Option γ} {g : β → Option γ} {keep : γ → Bool}
    {as : List α} {bs : List β} (h : List.Forall₂ (fun a b => g b = (f a).filter keep) as bs) :
    bs.filterMap g = (as.filterMap f).filter keep := by
  induction h with
  | nil => rfl
  | @cons a b as bs hab _ ih =>
    rw [List.filterMap_cons, List.filterMap_cons, hab, ih]
    cases f a with
    | none => rfl
    | some c => by_cases hc : keep c = true <;> simp [Option.filter, hc]

namespace Progress

variable {target : Target} {unit : Text} {p : Progress} {line : SourceLine}

theorem step_of_ne_other (h : line.form target ≠ .other) :
    p.step ⟨target, unit, true⟩ line = p.step ⟨target, unit, false⟩ line := by
  cases hs : Statement.ofLine line with
  | error fault => rw [step_of_error hs, step_of_error hs]
  | ok s =>
    rw [SourceLine.form_of_ofLine hs] at h
    simp only [step_of_ok hs, objection_congr h true false]
    rfl

theorem isUnknown_eq_false {setup : Setup} (h : line.form setup.target ≠ .other) {fault : Fault}
    (hf : (p.step setup line).2.fault? = some fault) : fault.cause.isUnknown = false := by
  rcases step_cases setup p line with ⟨f, he⟩ | ⟨s, cause, hr⟩ | ⟨s, ha⟩
  · rw [step_of_error he] at hf
    cases hf
    rw [(Statement.fault_of_ofLine he).2]
    rfl
  · rw [hr.step_eq] at hf
    cases hf
    cases cause with
    | unknownHead word =>
      exact absurd ((objection_spec hr.objects).2.2 ⟨word, rfl⟩).1
        (SourceLine.form_of_ofLine hr.read setup.target ▸ h)
    | _ => rfl
  · rw [ha.step_eq] at hf
    cases hf

theorem accepted_loose {s : Statement} (hs : Statement.ofLine line = .ok s)
    (hf : s.form target = .other) : Accepted ⟨target, unit, false⟩ p line s := by
  refine ⟨hs, ?_⟩
  rw [show s.form (Setup.target ⟨target, unit, false⟩) = .other from hf]
  rfl

theorem isUnknown_of_other {setup : Setup} {s : Statement} {cause : Cause}
    (h : Refused setup p line s cause) (hf : s.form setup.target = .other) :
    cause.isUnknown = true := by
  have ho := h.objects
  rw [hf] at ho
  simp only [objection?, Nesting.misplacement?] at ho
  split_ifs at ho
  cases ho
  rfl

/-- A strict compilation refuses more lines than a loose one, all for the same cause. A line that it
does not refuse for that has the same outcome in both. -/
theorem step_loose (target : Target) (unit : Text) (p : Progress) (line : SourceLine) :
    let strict := (p.step ⟨target, unit, true⟩ line).2
    let loose := (p.step ⟨target, unit, false⟩ line).2
    loose.fault? = strict.fault?.filter (fun f => !f.cause.isUnknown) ∧
      ((∀ f, strict.fault? = some f → f.cause.isUnknown = false) → loose.line = strict.line) := by
  intro strict loose
  by_cases hf : line.form target = .other
  · obtain ⟨s, hs⟩ : ∃ s, Statement.ofLine line = .ok s := by
      cases hs : Statement.ofLine line with
      | error fault => simp [SourceLine.form, hs] at hf
      | ok s => exact ⟨s, rfl⟩
    rw [SourceLine.form_of_ofLine hs] at hf
    have hl : loose = ⟨p.output ⟨target, unit, false⟩ s, none⟩ := by
      simp only [loose, (accepted_loose hs hf).step_eq]
    rcases step_cases ⟨target, unit, true⟩ p line with ⟨f, he⟩ | ⟨s', cause, hr⟩ | ⟨s', ha⟩
    · simp [hs] at he
    · obtain rfl : s' = s := Except.ok.inj (hr.read.symm.trans hs)
      have hu := isUnknown_of_other hr hf
      have hst : strict = ⟨.empty line.range, some ⟨line.number, line.range, cause⟩⟩ := by
        simp only [strict, hr.step_eq]
      rw [hl, hst]
      refine ⟨by simp [Option.filter, hu], fun hknown => ?_⟩
      simp [hu] at hknown
    · obtain rfl : s' = s := Except.ok.inj (ha.read.symm.trans hs)
      have hst : strict = ⟨p.output ⟨target, unit, true⟩ s', none⟩ := by
        simp only [strict, ha.step_eq]
      rw [hl, hst]
      exact ⟨rfl, fun _ => rfl⟩
  · have heq : loose = strict := congrArg Prod.snd (step_of_ne_other hf).symm
    rw [heq]
    refine ⟨?_, fun _ => rfl⟩
    cases hfault : strict.fault? with
    | none => rfl
    | some f =>
      have hknown : f.cause.isUnknown = false := isUnknown_eq_false hf hfault
      simp [Option.filter, hknown]

end Progress

/-- A loose compilation has the faults of a strict one except those of lines that are no
instructions, and the same output where there is no such fault. If the strict one succeeds, it
succeeds with the same text. -/
theorem compile_loose (target : Target) (unit source : Text) :
    let strict : Options := ⟨unit, some true⟩
    let loose : Options := ⟨unit, some false⟩
    let c := fun options => Compilation.ofSource (.ofOptions target options) source
    (c loose).faults = (c strict).faults.filter (fun f => !f.cause.isUnknown) ∧
      (c loose).lines.length = (c strict).lines.length ∧
      (∀ k, (∀ f ∈ (c strict).faults, f.line = k + 1 → f.cause.isUnknown = false) →
        (c loose).lines[k]? = (c strict).lines[k]?) ∧
      ∀ text, compile target strict source = .ok text → compile target loose source = .ok text := by
  intro strict loose c
  let σ : Setup := ⟨target, unit, true⟩
  let τ : Setup := ⟨target, unit, false⟩
  have hlock : ∀ lines, (Progress.run σ {} lines).1 = (Progress.run τ {} lines).1 ∧
      List.Forall₂ (fun a b : Outcome => b.fault? = a.fault?.filter fun f => !f.cause.isUnknown)
        (Progress.run σ {} lines).2 (Progress.run τ {} lines).2 := fun lines =>
    Progress.run_lockstep (fun _ _ => by rfl) (fun line _ p => (p.step_loose target unit line).1) {}
  have hbefore : ∀ k, Progress.before σ (SourceLine.ofSource source) k =
      Progress.before τ (SourceLine.ofSource source) k := fun k => (hlock _).1
  have hfaults : (c loose).faults = (c strict).faults.filter (fun f => !f.cause.isUnknown) := by
    have hranges := (Compilation.map_range_lines τ source).trans
      (Compilation.map_range_lines σ source).symm
    change (Compilation.ofSource τ source).faults = (Compilation.ofSource σ source).faults.filter _
    rw [Compilation.faults_eq, Compilation.faults_eq, List.filter_append, ← hbefore,
      filterMap_of_forall₂ (hlock _).2, Progress.unclosed_congr hranges]
    congr 1
    cases hu : Progress.unclosed? _ (Compilation.ofSource σ source).lines with
    | none => rfl
    | some f => simp [Cause.isUnknown_of_isUnclosed (Compilation.isUnclosed_of_unclosed hu)]
  have hlines : ∀ k, (∀ f ∈ (c strict).faults, f.line = k + 1 → f.cause.isUnknown = false) →
      (c loose).lines[k]? = (c strict).lines[k]? := by
    intro k hk
    change (Compilation.ofSource τ source).lines[k]? = (Compilation.ofSource σ source).lines[k]?
    rw [Compilation.getElem?_lines, Compilation.getElem?_lines, ← hbefore]
    cases hl : (SourceLine.ofSource source)[k]? with
    | none => rfl
    | some line =>
      refine congrArg some ((Progress.step_loose target unit _ line).2 fun f hf => ?_)
      obtain ⟨hmem, hline, -⟩ := (Compilation.mem_faults_iff hl).mpr hf
      exact hk f hmem hline
  refine ⟨hfaults, ?_, hlines, fun text h => ?_⟩
  · exact (Compilation.length_lines τ source).trans (Compilation.length_lines σ source).symm
  · obtain ⟨q, outs, hr, hn, -⟩ := compile_eq_ok_iff.mp h
    have hs : (c strict).faults = [] := Compilation.faults_eq_nil_iff.mpr ⟨q, outs, hr, hn⟩
    have hl : (c loose).faults = [] := by
      rw [hfaults, hs]
      rfl
    have hsame : (c loose).program = (c strict).program := by
      have hlines' : (c loose).lines = (c strict).lines :=
        List.ext_getElem? fun k => hlines k (by simp [hs])
      have husage : (c loose).usage = (c strict).usage :=
        congrArg (fun p : Progress => (Usage.ofSource source).union p.usage)
          (hlock (SourceLine.ofSource source)).1.symm
      rw [Compilation.program, Compilation.program, hlines', husage]
    rw [← h, compile_eq_ok hl, compile_eq_ok hs]
    exact congrArg (fun program => Except.ok (target.compose program unit)) hsame

/-- The second line is unknown, the last one closes nothing, and the third one is the same in
both. -/
theorem compile_loose_unknown :
    let source : Text := "fx void f\nfoo\nend\nend"
    let c := fun strict => Compilation.ofSource (.ofOptions .python ⟨"\t", some strict⟩) source
    (c true).faults.map Fault.line = [2, 4] ∧
      (c false).faults = (c true).faults.filter (fun f => !f.cause.isUnknown) ∧
      (c false).lines[2]? = (c true).lines[2]? ∧ (c false).lines[1]? ≠ (c true).lines[1]? := by
  intro source c
  obtain ⟨hfaults, -, hlines, -⟩ := compile_loose .python "\t" source
  exact ⟨by decide +kernel, hfaults, hlines 2 (by decide +kernel), by decide +kernel⟩

end Pseudocode
