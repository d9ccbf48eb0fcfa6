import Pseudocode.Proofs.Calls
import Pseudocode.Proofs.Hoisting

/-!
# Imports

The imports of a program are chosen by looking at the source, while the functions they are for are
called in the output. No wording of a line brings in a call that is not in the source, unless a
bracket is put behind a name, as in the definition of a function `maracine`. So the imports are
enough (`compile_imports`). A program imports records exactly if it defines one.
-/
namespace Pseudocode

/-! ### The lines that a program begins with -/

namespace Target

def preamble (t : Target) (u : Usage) : Text :=
  match t with
  | python => Python.header u
  | cpp => Cpp.header u
  | algorithmic => []

/-- The line that a program needs for a call. A power needs none in Python. -/
def importFor? : Target → MathCall → Option Text
  | python, .sqrt => some "from math import sqrt"
  | python, .random => some "from random import random"
  | cpp, .sqrt | cpp, .pow => some "#include <cmath>"
  | cpp, .random => some "#include <cstdlib>"
  | python, .pow | algorithmic, _ => none

theorem exists_compose (t : Target) (ht : t = python ∨ t = cpp) (p : Program) (unit : Text) :
    ∃ rest, t.compose p unit = t.preamble p.usage ++ (p.definitions ++ rest) := by
  rcases ht with rfl | rfl
  · exact ⟨_, by simp only [compose, Python.compose, List.append_assoc]; rfl⟩
  · exact ⟨_, by simp only [compose, Cpp.compose, List.append_assoc]; rfl⟩

end Target

theorem Python.mem_lines_header (u : Usage) :
    (("from dataclasses import dataclass" : Text) ∈ (header u).lines ↔ u.records = true) ∧
      (("from math import sqrt" : Text) ∈ (header u).lines ↔ u.sqrt = true) ∧
      (("from random import random" : Text) ∈ (header u).lines ↔ u.random = true) := by
  unfold header
  cases u.records <;> cases u.sqrt <;> cases u.random <;> decide

theorem Cpp.mem_lines_header (u : Usage) :
    (("#include <cmath>" : Text) ∈ (header u).lines ↔ u.needsMath = true) ∧
      (("#include <cstdlib>" : Text) ∈ (header u).lines ↔ u.random = true) ∧
      (("#include <Grapic.h>" : Text) ∈ (header u).lines ↔ u.window = true) ∧
      (("using namespace grapic;" : Text) ∈ (header u).lines ↔ u.window = true) := by
  unfold header
  cases u.needsMath <;> cases u.random <;> cases u.window <;> decide

/-! ### The features that a source uses -/

namespace Usage

def calls (u : Usage) : MathCall → Bool
  | .sqrt => u.sqrt
  | .pow => u.pow
  | .random => u.random

theorem calls_ofSource {source : Text} {call : MathCall} :
    (ofSource source).calls call = true ↔ call.opening <:+: source := by
  cases call <;> exact Text.includes_iff

theorem calls_union (u v : Usage) (call : MathCall) :
    (u.union v).calls call = (u.calls call || v.calls call) := by
  cases call <;> rfl

end Usage

/-- A line is imported exactly for the calls that need it. -/
theorem Target.mem_lines_preamble {t : Target} (u : Usage) {call : MathCall} {l : Text}
    (hl : t.importFor? call = some l) :
    l ∈ (t.preamble u).lines ↔ ∃ other, t.importFor? other = some l ∧ u.calls other = true := by
  obtain ⟨-, hsqrt, hrandom⟩ := Python.mem_lines_header u
  obtain ⟨hmath, hlib, -⟩ := Cpp.mem_lines_header u
  have hcases : ∀ P : MathCall → Prop, (∃ other, P other) ↔ P .sqrt ∨ P .pow ∨ P .random := by
    intro P
    constructor
    · rintro ⟨other, h⟩
      cases other <;> simp [h]
    · rintro (h | h | h) <;> exact ⟨_, h⟩
  rw [hcases]
  cases t with
  | python =>
    cases call <;> cases hl
    · simpa [preamble, importFor?, Usage.calls] using hsqrt
    · simpa [preamble, importFor?, Usage.calls] using hrandom
  | cpp =>
    cases call <;> cases hl
    · simpa [preamble, importFor?, Usage.calls, Usage.needsMath] using hmath
    · simpa [preamble, importFor?, Usage.calls, Usage.needsMath] using hmath
    · simpa [preamble, importFor?, Usage.calls] using hlib
  | algorithmic => cases hl

namespace Progress

/-- A statement adds no call to the features in use, and a record only if it defines one. -/
theorem usage_behind (setup : Setup) (p : Progress) (s : Statement) :
    (p.behind setup s).usage.calls = p.usage.calls ∧
      ((p.behind setup s).usage.records = true ↔
        p.usage.records = true ∨ s.form setup.target = .record) := by
  have henter : (p.enter (s.form setup.target)).usage = p.usage := by
    unfold enter
    split_ifs <;> rfl
  rw [← henter]
  unfold behind
  generalize p.enter (s.form setup.target) = p
  cases s.form setup.target with
  | blockEnd =>
    unfold after
    cases p.nesting <;> simp
  | record =>
    refine ⟨?_, by simp [after]⟩
    funext call
    cases call <;> rfl
  | draw op =>
    cases op with
    | openWindow =>
      refine ⟨?_, by simp [after]⟩
      funext call
      cases call <;> rfl
    | _ => exact ⟨rfl, by simp [after, Form.opens?]⟩
  | _ => exact ⟨rfl, by simp [after, Form.opens?]⟩

end Progress

theorem Accepted.declares_iff {setup : Setup} {p : Progress} {line : SourceLine} {s : Statement}
    (h : Accepted setup p line s) :
    Program.textsOf .declarations [p.output setup s] ≠ [] ↔ s.form setup.target = .record := by
  rw [← Progress.part_output_declarations]
  constructor
  · intro hwritten
    by_contra hpart
    exact hwritten (Program.textsOf_eq_nil (by simpa using hpart))
  · intro hpart
    have htext := h.text_ne_nil (.inr ((Progress.part_output_declarations ..).mp hpart))
    simp [Program.textsOf, hpart, htext]

namespace Reads

variable {setup : Setup} {p q : Progress} {lines : List SourceLine} {outs : List OutputLine}

theorem usage_calls (h : Reads setup p lines q outs) : q.usage.calls = p.usage.calls := by
  induction h with
  | nil p => rfl
  | cons head tail ih => rw [ih, (Progress.usage_behind _ _ _).1]

/-- A record is in use behind a run if it was before, or the run has written a definition of one. -/
theorem usage_records_iff (h : Reads setup p lines q outs) :
    q.usage.records = true ↔
      p.usage.records = true ∨ Program.textsOf .declarations outs ≠ [] := by
  induction h with
  | nil p => simp [Program.textsOf]
  | @cons p q line lines s outs head tail ih =>
    have happend : Program.textsOf .declarations (p.output setup s :: outs) ≠ [] ↔
        s.form setup.target = .record ∨ Program.textsOf .declarations outs ≠ [] := by
      rw [← head.declares_iff, ← List.singleton_append, Program.textsOf_append, Ne,
        List.append_eq_nil_iff, not_and_or]
    rw [ih, (Progress.usage_behind setup p s).2, happend, or_assoc]

end Reads

/-! ### Imports -/

def SourceLine.callee? (target : Target) (line : SourceLine) : Option Text :=
  match Statement.ofLine line with
  | .ok s => s.callee? (s.form target)
  | .error _ => none

/-- A call in the wording of a line is a call in the source, if no name with a bracket behind it
ends with that of the call. -/
theorem opening_of_wordingAt {setup : Setup} {source t : Text} {k : Nat} {call : MathCall}
    (htarget : setup.target = .python ∨ setup.target = .cpp)
    (hnames : ∀ line ∈ SourceLine.ofSource source, ∀ name ∈ line.callee? setup.target,
      ¬ call.name <:+ name)
    (h : wordingAt? setup source k = some t) (ht : call.opening <:+: t) :
    call.opening <:+: source := by
  obtain ⟨line, hl, hw⟩ := Option.bind_eq_some_iff.mp h
  obtain ⟨s, ha, rfl⟩ := Progress.exists_of_wording hw
  have hmem := List.mem_of_getElem? hl
  have hcallee : ∀ name ∈ s.callee? (s.form setup.target), ¬ call.name <:+ name := by
    have hline := hnames line hmem
    rwa [SourceLine.callee?, ha.read] at hline
  by_contra hno
  have hlacks : Lacks call line.text := fun hin =>
    hno (hin.trans (infix_of_mem_pieces (SourceLine.text_mem_lines hmem)))
  exact Target.lacks_wording htarget ha.read hlacks hcallee _ ht

/-- A program for Python or C++ begins with its imports, and behind them come its definitions. If no
function and no record has a name that ends with that of a call, then a call in the wording of any
line is in the source too, and its import is there. No other import for a call is. In Python the
records are imported exactly if one is defined. -/
theorem compile_imports {target : Target} {options : Options} {source text : Text}
    (htarget : target = .python ∨ target = .cpp)
    (h : compile target options source = .ok text)
    (hnames : ∀ line ∈ SourceLine.ofSource source, ∀ name ∈ line.callee? target,
      ∀ call : MathCall, ¬ call.name <:+ name) :
    let setup := Setup.ofOptions target options
    let program := (Compilation.ofSource setup source).program
    let preamble := target.preamble program.usage
    (∃ rest, text = preamble ++ (program.definitions ++ rest)) ∧
      (∀ k t (call : MathCall), wordingAt? setup source k = some t → call.opening <:+: t →
        call.opening <:+: source ∧ ∀ l ∈ target.importFor? call, l ∈ preamble.lines) ∧
      (∀ call, ∀ l ∈ target.importFor? call, l ∈ preamble.lines →
        ∃ other : MathCall, target.importFor? other = some l ∧ other.opening <:+: source) ∧
      (target = .python → (("from dataclasses import dataclass" : Text) ∈ preamble.lines ↔
        program.declarations ≠ [])) := by
  intro setup program preamble
  obtain ⟨q, outs, hr, -, htext⟩ := compile_eq_ok_iff.mp h
  have hprogram : program = .ofLines outs ((Usage.ofSource source).union q.usage) := by
    rw [show program = _ from congrArg Compilation.program (Compilation.ofSource_of_reads hr)]
    rfl
  have hcalls : ∀ call, program.usage.calls call = true ↔ call.opening <:+: source := by
    intro call
    rw [hprogram]
    change ((Usage.ofSource source).union q.usage).calls call = true ↔ _
    rw [Usage.calls_union, hr.usage_calls, ← Usage.calls_ofSource]
    cases call <;> simp [Usage.calls]
  refine ⟨?_, fun k t call hw ht => ?_, fun call l hl hin => ?_, ?_⟩
  · rw [htext, ← hprogram]
    exact target.exists_compose htarget program options.unit
  · have hsource : call.opening <:+: source :=
      opening_of_wordingAt htarget (fun line hm name hn => hnames line hm name hn call) hw ht
    refine ⟨hsource, fun l hl => ?_⟩
    exact (Target.mem_lines_preamble _ hl).mpr ⟨call, hl, (hcalls call).mpr hsource⟩
  · obtain ⟨other, hother, hused⟩ := (Target.mem_lines_preamble _ hl).mp hin
    exact ⟨other, hother, (hcalls other).mp hused⟩
  · rintro rfl
    rw [show preamble = Python.header program.usage from rfl, (Python.mem_lines_header _).1,
      hprogram]
    change (false || q.usage.records) = true ↔ Program.textsOf .declarations outs ≠ []
    rw [Bool.false_or, hr.usage_records_iff]
    simp

/-- A record, a function with a call in it, and a value of the record. -/
def pointSource : Text :=
  "struct point int x\nfx int f int n\nreturn racine(n)\nend\ninit point p x aleatoire(9)"

/-- Neither name ends with that of a call, so the square root in the function is one of the source
and is imported, and the record is defined and imported. -/
theorem compile_imports_point :
    let setup := Setup.ofOptions .python {}
    let program := (Compilation.ofSource setup pointSource).program
    wordingAt? setup pointSource 2 = some "return racine(n)" ∧
      MathCall.sqrt.opening <:+: pointSource ∧
      ("from math import sqrt" : Text) ∈ (Python.header program.usage).lines ∧
      program.declarations ≠ [] ∧
      ("from dataclasses import dataclass" : Text) ∈ (Python.header program.usage).lines := by
  intro setup program
  have hok := compile_eq_ok (show (Compilation.ofSource setup pointSource).faults = [] by
    decide +kernel)
  have hnames : ∀ line ∈ SourceLine.ofSource pointSource, ∀ name ∈ line.callee? .python,
      ∀ call ∈ MathCall.all, ¬ call.name <:+ name := by decide +kernel
  have hword : wordingAt? setup pointSource 2 = some "return racine(n)" := by decide +kernel
  obtain ⟨-, hcalls, -, hrecords⟩ := compile_imports (.inl rfl) hok
    fun line hl name hn call => hnames line hl name hn call call.mem_all
  obtain ⟨hsource, himport⟩ := hcalls 2 _ .sqrt hword (by decide)
  have hdeclares : program.declarations ≠ [] := by decide +kernel
  exact ⟨hword, hsource, himport _ rfl, hdeclares, (hrecords rfl).mpr hdeclares⟩

end Pseudocode
