import Pseudocode.Proofs.Diagnostics
import Pseudocode.Proofs.Imports

/-!
# The drawing window

Nothing can be drawn before a window is open. The progress keeps two notes of it, one for the lines
that follow and one for the imports, and both say whether some line so far has opened the window
(`Progress.window_before`). A line that is refused opens none, and neither does a variable with the
name of the keyword. A drawing is refused for want of a window exactly if no line before it has
opened one, before its arguments are counted (`compile_window`).
-/
namespace Pseudocode

/-- The line at an index opens the window: it asks for that, and is not refused. -/
def OpensWindow (setup : Setup) (source : Text) (k : Nat) : Prop :=
  formAt? setup.target source k = some (.draw .openWindow) ∧
    (Compilation.ofSource setup source).refuses k = false

instance (setup : Setup) (source : Text) (k : Nat) : Decidable (OpensWindow setup source k) :=
  inferInstanceAs (Decidable (_ ∧ _))

/-! ### One line -/

namespace Progress

/-- Both notes about the window say whether it has been opened. -/
structure Window (p : Progress) (opened : Prop) : Prop where
  here : p.hasWindow = true ↔ opened
  used : p.usage.window = true ↔ opened

variable {setup : Setup} {p : Progress} {line : SourceLine} {s : Statement} {opened : Prop}

theorem Window.enter (h : p.Window opened) (form : Form) : (p.enter form).Window opened := by
  unfold Progress.enter
  split_ifs
  · exact ⟨h.here, h.used⟩
  · exact h

theorem Window.after (h : p.Window opened) (s : Statement) (form : Form) :
    (p.after s form).Window (opened ∨ form = .draw .openWindow) := by
  have hkept : form ≠ .draw .openWindow → p.Window (opened ∨ form = .draw .openWindow) := by
    intro hf
    rwa [or_iff_left hf]
  cases form with
  | draw op =>
    cases op with
    | openWindow => exact ⟨by simp [Progress.after], by simp [Progress.after]⟩
    | _ => exact hkept (by simp)
  | blockEnd =>
    have hp := hkept (by simp)
    unfold Progress.after
    cases p.nesting with
    | nil => exact hp
    | cons b outer => exact ⟨hp.here, hp.used⟩
  | _ =>
    have hp := hkept (by simp)
    exact ⟨hp.here, hp.used⟩

/-- A line opens the window if it asks for that and is not refused. Otherwise the notes stay. -/
theorem Window.step (h : p.Window opened) (setup : Setup) (line : SourceLine) :
    (p.step setup line).1.Window (opened ∨
      line.form setup.target = .draw .openWindow ∧ (p.step setup line).2.fault? = none) := by
  rcases step_cases setup p line with ⟨fault, he⟩ | ⟨s, cause, hr⟩ | ⟨s, ha⟩
  · rw [step_of_error he]
    simpa using h
  · rw [hr.step_eq]
    simpa using h.enter (s.form setup.target)
  · rw [ha.step_eq, SourceLine.form_of_ofLine ha.read]
    simpa [behind] using (h.enter (s.form setup.target)).after s (s.form setup.target)

/-- The window is looked for before the arguments of a drawing are counted, and only there. -/
theorem objection_noWindow_iff (strict : Bool) {form : Form} :
    (∃ head, p.objection? strict s form = some (.noWindow head)) ↔
      (∃ op, op ≠ .openWindow ∧ form = .draw op) ∧ p.hasWindow = false := by
  have hcount : ∀ form' head, s.countObjection? form' ≠ some (.noWindow head) := by
    intro form' head hc
    unfold Statement.countObjection? at hc
    dsimp only at hc
    split_ifs at hc <;> cases hc
  constructor
  · rintro ⟨head, h⟩
    unfold objection? at h
    split at h
    · cases h
    · split at h
      · split_ifs at h
        cases h
      · split_ifs at h
        cases h
      · next op _ =>
        split_ifs at h with hclosed
        · exact ⟨⟨op, hclosed.1, rfl⟩, by simpa using hclosed.2⟩
        · exact absurd h (hcount _ head)
      · exact absurd h (hcount _ head)
  · rintro ⟨⟨op, hop, rfl⟩, hclosed⟩
    exact ⟨s.head, by simp [objection?, Nesting.misplacement?, hop, hclosed]⟩

theorem fault_noWindow_iff :
    (∃ fault head, (p.step setup line).2.fault? = some fault ∧ fault.cause = .noWindow head) ↔
      (∃ op, op ≠ .openWindow ∧ line.form setup.target = .draw op) ∧ p.hasWindow = false := by
  cases hs : Statement.ofLine line with
  | error fault =>
    rw [step_of_error hs, SourceLine.form, hs]
    simp [(Statement.fault_of_ofLine hs).2]
  | ok s =>
    have hwindow : (p.enter (s.form setup.target)).hasWindow = p.hasWindow := by
      unfold Progress.enter
      split_ifs <;> rfl
    rw [SourceLine.form_of_ofLine hs, ← hwindow, ← objection_noWindow_iff setup.strict]
    cases ho : (p.enter (s.form setup.target)).objection? setup.strict s (s.form setup.target) with
    | none =>
      rw [Accepted.step_eq ⟨hs, ho⟩]
      simp
    | some cause =>
      rw [Refused.step_eq ⟨hs, ho⟩]
      simp

end Progress

/-! ### All lines -/

section Source

variable {setup : Setup} {source : Text} {k : Nat}

theorem opensWindow_iff {line : SourceLine} (hl : (SourceLine.ofSource source)[k]? = some line) :
    OpensWindow setup source k ↔ line.form setup.target = .draw .openWindow ∧
      ((Progress.before setup (SourceLine.ofSource source) k).step setup line).2.fault? = none := by
  rw [OpensWindow, formAt?_of_getElem? _ hl, refuses_eq hl, Option.some.injEq,
    Option.isSome_eq_false_iff, Option.isNone_iff_eq_none]

/-- In front of every line, and behind the last, the notes say whether a line before it has opened
the window. -/
theorem Progress.window_before (setup : Setup) (source : Text) (k : Nat) :
    (before setup (SourceLine.ofSource source) k).Window (∃ i < k, OpensWindow setup source i) := by
  induction k with
  | zero => exact ⟨by simp [before, run], by simp [before, run]⟩
  | succ k ih =>
    have hcases : (∃ i < k + 1, OpensWindow setup source i) ↔
        (∃ i < k, OpensWindow setup source i) ∨ OpensWindow setup source k := by
      simp only [Nat.lt_succ_iff_lt_or_eq, or_and_right, exists_or, exists_eq_left]
    rw [hcases]
    cases hl : (SourceLine.ofSource source)[k]? with
    | none =>
      -- there is no line at `k`, so nothing more is taken in
      have hsame : before setup (SourceLine.ofSource source) (k + 1) =
          before setup (SourceLine.ofSource source) k := by
        rw [before, List.take_add_one, hl, Option.toList_none, List.append_nil, before]
      have hnone : ¬ OpensWindow setup source k := by simp [OpensWindow, formAt?, hl]
      rwa [hsame, or_iff_left hnone]
    | some line =>
      rw [before_succ hl, opensWindow_iff hl]
      exact ih.step setup line

/-- A line is at fault for want of a window exactly if it is a drawing and no line before it has
opened one. -/
theorem Compilation.noWindow_iff (setup : Setup) (source : Text) (k : Nat) :
    (∃ fault ∈ (ofSource setup source).faults, fault.line = k + 1 ∧
        ∃ head, fault.cause = .noWindow head) ↔
      (∃ op, op ≠ .openWindow ∧ formAt? setup.target source k = some (.draw op)) ∧
        ¬ ∃ i < k, OpensWindow setup source i := by
  cases hl : (SourceLine.ofSource source)[k]? with
  | none =>
    have hk := List.getElem?_eq_none_iff.mp hl
    constructor
    · rintro ⟨fault, hf, hline, -⟩
      have hplace := (place_of_mem hf).2.1
      rw [length_lines] at hplace
      omega
    · rintro ⟨⟨op, -, hform⟩, -⟩
      simp [formAt?, hl] at hform
  | some line =>
    rw [← (Progress.window_before setup source k).here, Bool.not_eq_true,
      formAt?_of_getElem? _ hl]
    simp only [Option.some.injEq]
    rw [← Progress.fault_noWindow_iff]
    constructor
    · rintro ⟨fault, hf, hline, head, hcause⟩
      exact ⟨fault, head, (mem_faults_iff hl).mp ⟨hf, hline, by rw [hcause]; rfl⟩, hcause⟩
    · rintro ⟨fault, head, hf, hcause⟩
      obtain ⟨hmem, hline, -⟩ := (mem_faults_iff hl).mpr hf
      exact ⟨fault, hmem, hline, head, hcause⟩

end Source

/-! ### Sessions -/

namespace Session

theorem progress_foldl_feed (s : Session) (lines : List SourceLine) :
    (lines.foldl feed s).progress = (s.progress.run s.setup lines).1 := by
  induction lines generalizing s with
  | nil => rfl
  | cons line lines ih => exact ih (s.feed line)

theorem progress_reset (s : Session) (lines : List SourceLine) (k : Nat) :
    ((lines.take k).foldl feed s.reset).progress = Progress.before s.setup lines k :=
  progress_foldl_feed s.reset (lines.take k)

end Session

/-! ### The window and the imports -/

/-- If no line is refused, the program uses the window exactly if some line asks for it. -/
theorem Compilation.window_iff {setup : Setup} {source : Text}
    (h : (ofSource setup source).faults = []) :
    (ofSource setup source).program.usage.window = true ↔
      ∃ k, formAt? setup.target source k = some (.draw .openWindow) := by
  have hwindow := (Progress.window_before setup source (SourceLine.ofSource source).length).used
  rw [Progress.before_length] at hwindow
  change (false || (Progress.run setup {} (SourceLine.ofSource source)).1.usage.window) = true ↔ _
  rw [Bool.false_or, hwindow]
  constructor
  · rintro ⟨k, -, hform, -⟩
    exact ⟨k, hform⟩
  · rintro ⟨k, hform⟩
    obtain ⟨line, hl, -⟩ := Option.map_eq_some_iff.mp hform
    exact ⟨k, (List.getElem?_eq_some_iff.mp hl).1, hform, by simp [refuses, h]⟩

/-- In every state of a compilation, and of a session that has been reset before it, both notes
about the window say whether an earlier line has opened it. A line is at fault for want of a window
exactly if it is a drawing, other than one that opens the window, and no earlier line has opened
one. So every such drawing that is accepted stands behind a line that has. A program in C++ imports
the drawing library, in front of its definitions, exactly if a line of the source asks for a
window. -/
theorem compile_window (target : Target) (options : Options) (source : Text) :
    let setup := Setup.ofOptions target options
    let lines := SourceLine.ofSource source
    let compilation := Compilation.ofSource setup source
    (∀ k, (Progress.before setup lines k).Window (∃ i < k, OpensWindow setup source i)) ∧
      (∀ session : Session, session.setup = setup → ∀ k,
        ((lines.take k).foldl Session.feed session.reset).progress.Window
          (∃ i < k, OpensWindow setup source i)) ∧
      (∀ k, (∃ fault ∈ compilation.faults, fault.line = k + 1 ∧
          ∃ head, fault.cause = .noWindow head) ↔
        (∃ op, op ≠ .openWindow ∧ formAt? target source k = some (.draw op)) ∧
          ¬ ∃ i < k, OpensWindow setup source i) ∧
      (∀ k op, formAt? target source k = some (.draw op) → op ≠ .openWindow →
        compilation.refuses k = false → ∃ i < k, OpensWindow setup source i) ∧
      (target = .cpp → ∀ text, compile target options source = .ok text →
        let header := Cpp.header compilation.program.usage
        (∃ rest, text = header ++ (compilation.program.definitions ++ rest)) ∧
          (("#include <Grapic.h>" : Text) ∈ header.lines ↔
            ∃ k, formAt? target source k = some (.draw .openWindow)) ∧
          (("using namespace grapic;" : Text) ∈ header.lines ↔
            ∃ k, formAt? target source k = some (.draw .openWindow))) := by
  intro setup lines compilation
  have hfault := Compilation.noWindow_iff setup source
  refine ⟨Progress.window_before setup source, ?_, hfault, ?_, ?_⟩
  · intro session hsetup k
    rw [session.progress_reset, hsetup]
    exact Progress.window_before setup source k
  · intro k op hform hop hfine
    by_contra hnone
    obtain ⟨fault, hmem, hline, head, hcause⟩ := (hfault k).mpr ⟨⟨op, hop, hform⟩, hnone⟩
    have hrefused : compilation.refuses k = true :=
      List.any_eq_true.mpr ⟨fault, hmem, by simp [hline, hcause, Cause.isUnclosed]⟩
    simp [hrefused] at hfine
  · rintro rfl text htext header
    have hfine := Compilation.faults_of_compile htext
    obtain ⟨-, -, hinclude, husing⟩ := Cpp.mem_lines_header compilation.program.usage
    have hwindow := Compilation.window_iff hfine
    refine ⟨?_, hinclude.trans hwindow, husing.trans hwindow⟩
    rw [compile_eq_ok hfine, Except.ok.injEq] at htext
    rw [← htext]
    exact Target.cpp.exists_compose (.inr rfl) compilation.program options.unit

/-- A drawing without a window, a window without its size, a variable, a window, and drawings in
it, the first of which has too few arguments. -/
def drawingSource : Text :=
  "wclear\nwinit \"w\"\nwinit = 3\nwinit \"w\" 9 9\ncircle 1\ncircle 1 2 3"

/-- Only the first line is at fault for want of a window. The second and the third open none, not
even in a session that has had a window before, so the drawing that is accepted stands behind the
fourth. A source without the other lines is compiled, and imports the library. -/
theorem compile_window_circles :
    let setup := Setup.ofOptions .cpp {}
    let compilation := Compilation.ofSource setup drawingSource
    let session : Session := { setup, progress := { hasWindow := true } }
    let shown : Text := "winit \"w\" 9 9\nwclear"
    (∃ fault ∈ compilation.faults, fault.line = 1 ∧ ∃ head, fault.cause = .noWindow head) ∧
      ¬ (((SourceLine.ofSource drawingSource).take 3).foldl Session.feed
        session.reset).progress.hasWindow = true ∧
      (¬ ∃ fault ∈ compilation.faults, fault.line = 5 ∧ ∃ head, fault.cause = .noWindow head) ∧
      compilation.refuses 4 = true ∧ compilation.refuses 5 = false ∧
      (∃ i < 5, OpensWindow setup drawingSource i) ∧
      ("#include <Grapic.h>" : Text) ∈
        (Cpp.header (Compilation.ofSource setup shown).program.usage).lines := by
  intro setup compilation session shown
  obtain ⟨-, hsessions, hfault, hbehind, -⟩ := compile_window .cpp {} drawingSource
  obtain ⟨-, -, -, -, himports⟩ := compile_window .cpp {} shown
  have hopens : OpensWindow setup drawingSource 3 := by decide +kernel
  have hnone : ∀ i < 3, ¬ OpensWindow setup drawingSource i := by decide +kernel
  have hfine : compilation.refuses 5 = false := by decide +kernel
  have hfirst : formAt? .cpp drawingSource 0 = some (.draw .clearWindow) := by decide +kernel
  have hlast : formAt? .cpp drawingSource 5 = some (.draw .circle) := by decide +kernel
  refine ⟨(hfault 0).mpr ⟨⟨.clearWindow, by decide, hfirst⟩, by simp⟩, ?_, ?_, by decide +kernel,
    hfine, hbehind 5 .circle hlast (by decide) hfine, ?_⟩
  · rw [(hsessions session rfl 3).here]
    rintro ⟨i, hi, hopen⟩
    exact hnone i hi hopen
  · intro hf
    exact ((hfault 4).mp hf).2 ⟨3, by decide, hopens⟩
  · have hok := compile_eq_ok (show (Compilation.ofSource setup shown).faults = [] by
      decide +kernel)
    have hasks : formAt? .cpp shown 0 = some (.draw .openWindow) := by decide +kernel
    exact (himports rfl _ hok).2.1.mpr ⟨0, hasks⟩

end Pseudocode
