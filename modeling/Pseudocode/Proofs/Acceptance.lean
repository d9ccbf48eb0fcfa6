import Pseudocode.Proofs.Checks

/-!
# Accepted lines

A compilation succeeds if every line is accepted and no block is left open. `Accepted` is one line
without a fault, `Reads` is a whole run of them, and `compile_eq_ok_iff` says that the text of a
successful compilation is composed from the lines of such a run. What an accepted line can do to the
open blocks is said once, by `Turn`.
-/
namespace Pseudocode

/-- A line that is read as a statement to which there is no objection. -/
structure Accepted (setup : Setup) (p : Progress) (line : SourceLine) (s : Statement) : Prop where
  read : Statement.ofLine line = .ok s
  fits : (p.enter (s.form setup.target)).objection? setup.strict s (s.form setup.target) = none

namespace Progress

def behind (setup : Setup) (p : Progress) (s : Statement) : Progress :=
  (p.enter (s.form setup.target)).after s (s.form setup.target)

def output (setup : Setup) (p : Progress) (s : Statement) : OutputLine :=
  (p.behind setup s).place setup (s.form setup.target)
    (setup.target.wording (p.enter (s.form setup.target)).nesting s (s.form setup.target))
    s.line.range

end Progress

theorem Statement.line_of_ofLine {line : SourceLine} {s : Statement}
    (h : Statement.ofLine line = .ok s) : s.line = line := by
  unfold Statement.ofLine at h
  split at h
  · cases h
    rfl
  · split at h
    · cases h
      unfold Statement.ofWords
      split <;> rfl
    · cases h

/-- The form of a line. One that cannot be read has none, and counts as blank. -/
def SourceLine.form (target : Target) (line : SourceLine) : Form :=
  match Statement.ofLine line with
  | .ok s => s.form target
  | .error _ => .blank

theorem Accepted.line_eq {setup : Setup} {p : Progress} {line : SourceLine} {s : Statement}
    (h : Accepted setup p line s) : s.line = line := Statement.line_of_ofLine h.read

theorem Accepted.step_eq {setup : Setup} {p : Progress} {line : SourceLine} {s : Statement}
    (h : Accepted setup p line s) :
    p.step setup line = (p.behind setup s, ⟨p.output setup s, none⟩) := by
  simp only [Progress.step_of_ok h.read, h.fits, Progress.behind, Progress.output]

theorem exists_accepted {setup : Setup} {p : Progress} {line : SourceLine}
    (h : (p.step setup line).2.fault? = none) : ∃ s, Accepted setup p line s := by
  cases hs : Statement.ofLine line with
  | error fault => simp [Progress.step, hs] at h
  | ok s =>
    rw [Progress.step_of_ok hs] at h
    dsimp only at h
    split at h
    · cases h
    · next hf => exact ⟨s, hs, hf⟩

/-- A run of accepted lines, with the progress behind it and its output. -/
inductive Reads (setup : Setup) :
    Progress → List SourceLine → Progress → List OutputLine → Prop
  | nil (p : Progress) : Reads setup p [] p []
  | cons {p q : Progress} {line : SourceLine} {lines : List SourceLine} {s : Statement}
      {outs : List OutputLine} (head : Accepted setup p line s)
      (tail : Reads setup (p.behind setup s) lines q outs) :
      Reads setup p (line :: lines) q (p.output setup s :: outs)

namespace Reads

theorem run_eq {setup : Setup} {p q : Progress} {lines : List SourceLine}
    {outs : List OutputLine} (h : Reads setup p lines q outs) :
    p.run setup lines = (q, outs.map (⟨·, none⟩)) := by
  induction h with
  | nil p => rfl
  | cons head tail ih => simp only [Progress.run, head.step_eq, ih, List.map_cons]

theorem append {setup : Setup} {p q r : Progress} {ls ms : List SourceLine}
    {outs more : List OutputLine} (h : Reads setup p ls q outs) (g : Reads setup q ms r more) :
    Reads setup p (ls ++ ms) r (outs ++ more) := by
  induction h with
  | nil p => exact g
  | cons head tail ih => exact .cons head (ih g)

end Reads

theorem exists_reads {setup : Setup} {p : Progress} {lines : List SourceLine}
    (h : (p.run setup lines).2.filterMap Outcome.fault? = []) :
    ∃ q outs, Reads setup p lines q outs := by
  induction lines generalizing p with
  | nil => exact ⟨p, [], .nil p⟩
  | cons line lines ih =>
    simp only [Progress.run, List.filterMap_cons] at h
    split at h
    · next hf =>
      obtain ⟨s, hs⟩ := exists_accepted hf
      rw [hs.step_eq] at h
      obtain ⟨q, outs, hr⟩ := ih h
      exact ⟨q, _, .cons hs hr⟩
    · cases h

namespace Compilation

theorem ofSource_of_reads {setup : Setup} {source : Text} {q : Progress} {outs : List OutputLine}
    (h : Reads setup {} (SourceLine.ofSource source) q outs) :
    ofSource setup source =
      ⟨outs, (q.unclosed? outs).toList, (Usage.ofSource source).union q.usage⟩ := by
  have hl : List.map (Outcome.line ∘ (⟨·, none⟩)) outs = outs := by
    rw [show Outcome.line ∘ (⟨·, none⟩) = id from rfl, List.map_id]
  simp [ofSource, h.run_eq, List.filterMap_map, Function.comp_def] at hl ⊢

theorem faults_eq_nil_iff {setup : Setup} {source : Text} :
    (ofSource setup source).faults = [] ↔
      ∃ q outs, Reads setup {} (SourceLine.ofSource source) q outs ∧ q.nesting = [] := by
  constructor
  · intro h
    have hf : (Progress.run setup {} (SourceLine.ofSource source)).2.filterMap Outcome.fault? = [] :=
      (List.append_eq_nil_iff.mp h).1
    obtain ⟨q, outs, hr⟩ := exists_reads hf
    refine ⟨q, outs, hr, ?_⟩
    simpa [ofSource_of_reads hr, Progress.unclosed?, Nesting.top?] using h
  · rintro ⟨q, outs, hr, hn⟩
    simp [ofSource_of_reads hr, Progress.unclosed?, Nesting.top?, hn]

end Compilation

theorem compile_eq_ok {target : Target} {options : Options} {source : Text}
    (h : (Compilation.ofSource (.ofOptions target options) source).faults = []) :
    compile target options source = .ok (target.compose
      (Compilation.ofSource (.ofOptions target options) source).program options.unit) := by
  simp only [compile, Compilation.result, h]
  rfl

theorem compile_eq_ok_iff {target : Target} {options : Options} {source text : Text} :
    compile target options source = .ok text ↔
      ∃ q outs, Reads (.ofOptions target options) {} (SourceLine.ofSource source) q outs ∧
        q.nesting = [] ∧
        text = target.compose
          (.ofLines outs ((Usage.ofSource source).union q.usage)) options.unit := by
  constructor
  · intro h
    simp only [compile, Compilation.result] at h
    split at h
    · cases h
    · next hf =>
      obtain ⟨q, outs, hr, hn⟩ := Compilation.faults_eq_nil_iff.mp hf
      refine ⟨q, outs, hr, hn, ?_⟩
      rw [Compilation.ofSource_of_reads hr] at h
      exact (Except.ok.inj h).symm
  · rintro ⟨q, outs, hr, hn, rfl⟩
    rw [compile_eq_ok (Compilation.faults_eq_nil_iff.mpr ⟨q, outs, hr, hn⟩),
      Compilation.ofSource_of_reads hr]
    rfl

theorem Compilation.faults_of_compile {target : Target} {options : Options} {source text : Text}
    (h : compile target options source = .ok text) :
    (ofSource (.ofOptions target options) source).faults = [] := by
  obtain ⟨q, outs, hr, hn, -⟩ := compile_eq_ok_iff.mp h
  exact faults_eq_nil_iff.mpr ⟨q, outs, hr, hn⟩

/-- What an accepted statement does to the open blocks: it opens one, starts another branch of the
innermost one, closes that, or leaves them all as they are. -/
inductive Turn (s : Statement) (form : Form) (n q : Nesting) : Prop
  | opens (kind : BlockKind) (h : form.opens? s.args = some kind)
      (hq : q = n.push kind s.line.index)
  | branches (b : Block) (outer : Nesting) (h : form = .elseIf ∨ form = .otherwise)
      (hb : b.kind = .ifElse) (hn : n = b :: outer) (hq : q = { b with hasBody := false } :: outer)
  | closes (b : Block) (outer : Nesting) (h : form = .blockEnd) (hn : n = b :: outer)
      (hq : q = outer)
  | stays (h : form.opensBlock = false) (he : form ≠ .blockEnd) (hq : q = n)

namespace Form

theorem mem_keywords {word : Text} {form : Form} (h : ofKeyword? word = some form) :
    (word, form) ∈ keywords := by
  obtain ⟨before, after, hsplit, -⟩ := List.lookup_eq_some_iff.mp h
  simp [hsplit]

theorem opensBlock_of_opens {form : Form} {args : List Text} {kind : BlockKind}
    (h : form.opens? args = some kind) : form.opensBlock = true := by
  cases form <;> simp_all [opens?, opensBlock]

theorem opens_eq_none {form : Form} (h : form.opensBlock = false) (args : List Text) :
    form.opens? args = none := by
  cases form <;> simp_all [opens?, opensBlock]

theorem not_blockEnd_of_opens {form : Form} {args : List Text} {kind : BlockKind}
    (h : form.opens? args = some kind) : form ≠ .blockEnd := by
  rintro rfl
  cases h

end Form

theorem Progress.misplacement_eq_none {strict : Bool} {p : Progress} {s : Statement} {form : Form}
    (h : p.objection? strict s form = none) : p.nesting.misplacement? form = none := by
  unfold Progress.objection? at h
  split at h
  · cases h
  · next hm => exact hm

theorem Nesting.exists_ifElse {n : Nesting} {form : Form}
    (hf : form = .elseIf ∨ form = .otherwise) (h : n.misplacement? form = none) :
    ∃ b outer, n = b :: outer ∧ b.kind = .ifElse := by
  have htop : n.topKind? = some .ifElse := by
    rcases hf with rfl | rfl <;> simpa [misplacement?] using h
  exact exists_of_topKind htop

namespace Accepted

theorem branch_nesting {setup : Setup} {p : Progress} {line : SourceLine} {s : Statement}
    (h : Accepted setup p line s)
    (hf : s.form setup.target = .elseIf ∨ s.form setup.target = .otherwise) :
    ∃ b outer, (p.enter (s.form setup.target)).nesting = b :: outer ∧ b.kind = .ifElse :=
  Nesting.exists_ifElse hf (Progress.misplacement_eq_none h.fits)

theorem end_nesting {setup : Setup} {p : Progress} {line : SourceLine} {s : Statement}
    (h : Accepted setup p line s) (hf : s.form setup.target = .blockEnd) :
    ∃ b outer, (p.enter (s.form setup.target)).nesting = b :: outer := by
  have hm := h.fits
  rw [hf] at hm ⊢
  cases hn : (p.enter .blockEnd).nesting with
  | nil => simp [Progress.objection?, Nesting.misplacement?, hn] at hm
  | cons b outer => exact ⟨b, outer, rfl⟩

/-- The arguments of an accepted statement are counted, unless it is an `end`, a drawing operation
or no instruction at all. -/
theorem count_accepted {setup : Setup} {p : Progress} {line : SourceLine} {s : Statement}
    (h : Accepted setup p line s) (he : s.form setup.target ≠ .blockEnd)
    (ho : s.form setup.target ≠ .other) (hd : ∀ op, s.form setup.target ≠ .draw op) :
    ((s.form setup.target).arity s.args).accepts s.args.length = true := by
  have hc : s.countObjection? (s.form setup.target) = none := by
    have hm := h.fits
    unfold Progress.objection? at hm
    rw [Progress.misplacement_eq_none h.fits] at hm
    dsimp only at hm
    split at hm
    · exact absurd ‹_› he
    · exact absurd ‹_› ho
    · exact absurd ‹_› (hd _)
    · exact hm
  unfold Statement.countObjection? at hc
  by_contra hn
  dsimp only at hc
  rw [if_neg hn] at hc
  split_ifs at hc

theorem forRange_phrase {setup : Setup} {p : Progress} {line : SourceLine} {s : Statement}
    (h : Accepted setup p line s) (hf : s.form setup.target = .forRange) :
    ∃ var first limit step,
      s.phrase setup.target .forRange = .forRange var first limit step := by
  have hc := h.count_accepted (by simp [hf]) (by simp [hf]) (by simp [hf])
  simp only [hf, Form.arity, Arity.between, Arity.accepts, Option.all_some, Bool.and_eq_true,
    decide_eq_true_eq] at hc
  obtain h3 | h4 : s.args.length = 3 ∨ s.args.length = 3 + 1 := by omega
  · obtain ⟨var, first, limit, ha⟩ := List.length_eq_three.mp h3
    exact ⟨var, first, limit, none, by simp [Statement.phrase, ha]⟩
  · obtain ⟨var, tail, ha⟩ := List.exists_cons_of_length_eq_add_one h4
    obtain ⟨first, limit, step, rfl⟩ := List.length_eq_three.mp (by simpa [ha] using h4)
    exact ⟨var, first, limit, some step, by simp [Statement.phrase, ha]⟩

theorem forEach_phrase {setup : Setup} {p : Progress} {line : SourceLine} {s : Statement}
    (h : Accepted setup p line s) (hf : s.form setup.target = .forEach) :
    ∃ item source, s.phrase setup.target .forEach = .forEach item source := by
  have hc := h.count_accepted (by simp [hf]) (by simp [hf]) (by simp [hf])
  simp only [hf, Form.arity, Arity.exactly, Arity.accepts, Option.all_some, Bool.and_eq_true,
    decide_eq_true_eq] at hc
  obtain ⟨type, name, source, ha⟩ := List.length_eq_three.mp (show s.args.length = 3 by omega)
  exact ⟨.ofPair type name, source, by simp [Statement.phrase, ha]⟩

theorem function_phrase {setup : Setup} {p : Progress} {line : SourceLine} {s : Statement}
    (h : Accepted setup p line s) (hf : s.form setup.target = .function) :
    ∃ name result params, s.phrase setup.target .function = .function name result params := by
  have hc := h.count_accepted (by simp [hf]) (by simp [hf]) (by simp [hf])
  simp only [hf, Form.arity, Arity.atLeast, Arity.accepts, Option.all_none, Bool.and_true,
    decide_eq_true_eq] at hc
  obtain ⟨result, tail, ha⟩ := List.exists_cons_of_length_pos (show 0 < s.args.length by omega)
  obtain ⟨name, params, rfl⟩ := List.exists_cons_of_length_pos (l := tail) (by simp [ha] at hc; omega)
  refine ⟨name, if result = ("void" : Text) then none else some (.ofWord result),
    Parameter.readAll params, ?_⟩
  simp only [Statement.phrase, ha]

theorem turn {setup : Setup} {p : Progress} {line : SourceLine} {s : Statement}
    (h : Accepted setup p line s) :
    Turn s (s.form setup.target) (p.enter (s.form setup.target)).nesting
      (p.behind setup s).nesting := by
  unfold Progress.behind
  cases hf : s.form setup.target with
  | elseIf =>
    obtain ⟨b, outer, hn, hb⟩ := h.branch_nesting (.inl hf)
    rw [hf] at hn
    exact .branches b outer (.inl rfl) hb hn (by simp [Progress.after, hn, Nesting.startBranch])
  | otherwise =>
    obtain ⟨b, outer, hn, hb⟩ := h.branch_nesting (.inr hf)
    rw [hf] at hn
    exact .branches b outer (.inr rfl) hb hn (by simp [Progress.after, hn, Nesting.startBranch])
  | blockEnd =>
    obtain ⟨b, outer, hn⟩ := h.end_nesting hf
    rw [hf] at hn
    exact .closes b outer rfl hn (by simp [Progress.after, hn])
  | forRange | forEach | whileCond | ifCond | switch | case | default | function =>
    exact .opens _ rfl rfl
  | draw op => cases op <;> exact .stays rfl (by simp) rfl
  | _ => exact .stays rfl (by simp) rfl

end Accepted

end Pseudocode
