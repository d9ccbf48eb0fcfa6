import Pseudocode.Proofs.Context

/-!
# Composition of sources

A source that compiles on its own compiles as a part of a larger one. Behind another source its
output is the same, further down (`compile_unlines`), and inside of a block its main algorithm is
one level deeper (`compile_in_block`). What the first source leaves behind, an open window and the
features in use, can only permit more, and its last function is closed, so that no function of the
second one is added to it.
-/
namespace Pseudocode

namespace Text

theorem isPrefixOf_append_cons {word t u : Text} {c : Char} (hc : c ∉ word) :
    word.isPrefixOf (t ++ c :: u) = word.isPrefixOf t := by
  induction word generalizing t with
  | nil => simp
  | cons w word ih =>
    simp only [List.mem_cons, not_or] at hc
    cases t with
    | nil => simp [List.isPrefixOf, Ne.symm hc.1]
    | cons x t => simp [List.isPrefixOf, ih hc.2]

theorem includes_append_cons {word t u : Text} {c : Char} (hw : word ≠ []) (hc : c ∉ word) :
    includes word (t ++ c :: u) = (includes word t || includes word u) := by
  induction t with
  | nil =>
    have hp := isPrefixOf_append_cons (t := []) (u := u) hc
    simp only [List.nil_append] at hp
    have hn : word.isPrefixOf [] = false := by cases word <;> simp_all
    simp [includes, hp, hn, hw]
  | cons x t ih =>
    have hp := isPrefixOf_append_cons (t := x :: t) (u := u) hc
    simp only [List.cons_append] at hp
    simp only [List.cons_append, includes, ih, hp, Bool.or_assoc]

theorem unlines_pair (t u : Text) : unlines [t, u] = t ++ '\n' :: u := by
  simp [unlines, List.intercalate_cons_cons]

end Text

namespace Usage

/-- No name of a function goes on over the end of a line or of a word. -/
theorem ofSource_append_cons {c : Char} (hc : c = '\n' ∨ Word.isSeparator c = true) (t u : Text) :
    ofSource (t ++ c :: u) = (ofSource t).union (ofSource u) := by
  simp only [Word.isSeparator, Bool.or_eq_true, beq_iff_eq, or_assoc] at hc
  rcases hc with rfl | rfl | rfl | rfl | rfl <;>
    simp (disch := decide) only [ofSource, union, Text.includes_append_cons, Bool.or_false]

theorem ofSource_append (t u : Text) :
    ofSource (t ++ '\n' :: u) = (ofSource t).union (ofSource u) :=
  ofSource_append_cons (.inl rfl) t u

theorem union_union_comm (a b c d : Usage) :
    (a.union b).union (c.union d) = (a.union c).union (b.union d) := by
  simp [union, Bool.or_left_comm, Bool.or_assoc]

theorem union_default (a : Usage) : a.union {} = a := by simp [union]

end Usage

namespace Program

theorem textsOf_map_moved (part : Part) (offset : Nat) (ls : List OutputLine) :
    textsOf part (ls.map (OutputLine.moved offset)) = textsOf part ls := by
  simp only [textsOf, List.filter_map, List.map_map]
  rfl

/-- The group of function lines that is begun and not ended behind the lines. -/
def openGroup (current : List Text) : List OutputLine → List Text
  | [] => current
  | l :: ls => openGroup (if l.endsRoutine then [] else current ++ textsOf .functions [l]) ls

theorem addGroup_append (group : List Text) (gs hs : List (List Text)) :
    addGroup group (gs ++ hs) = addGroup group gs ++ hs := by
  unfold addGroup
  split <;> rfl

theorem groupFunctions_append {current : List Text} {ls : List OutputLine}
    (h : openGroup current ls = []) (ms : List OutputLine) :
    groupFunctions current (ls ++ ms) = groupFunctions current ls ++ groupFunctions [] ms := by
  induction ls generalizing current with
  | nil =>
    rw [show current = [] from h]
    rfl
  | cons l ls ih =>
    simp only [List.cons_append, groupFunctions, openGroup] at h ⊢
    cases he : l.endsRoutine with
    | true =>
      simp only [he, if_true] at h ⊢
      rw [ih h, addGroup_append]
    | false =>
      simp only [he, Bool.false_eq_true, if_false] at h ⊢
      exact ih h

theorem groupFunctions_map_moved (current : List Text) (offset : Nat) (ls : List OutputLine) :
    groupFunctions current (ls.map (OutputLine.moved offset)) = groupFunctions current ls := by
  induction ls generalizing current with
  | nil => rfl
  | cons l ls ih =>
    have ht := textsOf_map_moved .functions offset [l]
    simp only [List.map_cons, List.map_nil] at ht
    simp only [List.map_cons, groupFunctions, ht, ih]
    rfl

end Program

/-- Outside of all functions no group is under way. -/
theorem Reads.openGroup_eq_nil {setup : Setup} {p q : Progress} {lines : List SourceLine}
    {outs : List OutputLine} (h : Reads setup p lines q outs) {current : List Text}
    (hp : p.nesting.inRoutine = false → current = []) (hq : q.nesting.inRoutine = false) :
    Program.openGroup current outs = [] := by
  induction h generalizing current with
  | nil p => exact hp hq
  | @cons p q line lines s outs head tail ih =>
    refine ih (fun hn => ?_) hq
    cases he : (p.output setup s).endsRoutine with
    | true => simp
    | false =>
      have hpart : (p.output setup s).part ≠ .functions := by
        have he' : (p.behind setup s).endsRoutine (s.form setup.target) = false := he
        simp only [Progress.output, Progress.place, Progress.part, he', hn]
        split <;> simp
      simp [hp (head.inRoutine_eq_false hn he), Program.textsOf, hpart]

theorem OutputLine.InContext.eq_moved {unit : Text} {offset : Nat} {l m : OutputLine}
    (h : OutputLine.InContext unit 0 offset l m) : OutputLine.moved offset l = m := by
  obtain ⟨hpart, hends, hrange, depth, t, hl, hm⟩ := h
  have ht : m.text = l.text := by simpa [hl] using hm
  rw [OutputLine.moved, ← hpart, ← hends, ← hrange, ← ht]

def OutputLine.inBlock (unit : Text) (offset : Nat) (l : OutputLine) : OutputLine :=
  { l with
    text := if l.part = .main ∧ l.text ≠ [] then Text.shift unit l.text else l.text
    range := l.range.moved offset }

theorem OutputLine.InContext.eq_inBlock {unit : Text} {offset : Nat} {l m : OutputLine}
    (h : OutputLine.InContext unit 1 offset l m) (hu : '\n' ∉ unit) :
    OutputLine.inBlock unit offset l = m := by
  obtain ⟨hpart, hends, hrange, depth, t, hl, hm⟩ := h
  have ht : m.text = if l.part = .main ∧ l.text ≠ [] then Text.shift unit l.text else l.text := by
    by_cases hp : l.part = .main
    · rw [if_pos hp, Text.indent_succ hu, ← hl] at hm
      rw [hm]
      by_cases he : l.text = [] <;> simp [hp, he]
    · rw [if_neg hp, Nat.add_zero, ← hl] at hm
      simp [hp, hm]
  rw [OutputLine.inBlock, ← ht, ← hpart, ← hends, ← hrange]

theorem eq_map_of_forall₂ {α β : Type} {f : α → β} {as : List α} {bs : List β}
    (h : List.Forall₂ (fun a b => f a = b) as bs) : bs = as.map f := by
  induction h with
  | nil => rfl
  | cons hab _ ih => rw [← hab, ih, List.map_cons]

/-- A source that compiles leaves all blocks closed, so that another one can follow. -/
theorem inContext_nil {q : Progress} (h : q.nesting = []) (count : Nat) :
    InContext [] count q.usage {} q :=
  ⟨⟨[], rfl, h⟩, fun hw => absurd hw (by simp), (Usage.union_default _).symm⟩

/-- Two sources that compile on their own compile one behind the other, and nothing of their output
changes except where the second one stands. -/
theorem compile_unlines {target : Target} {options : Options} {s₁ s₂ t₁ t₂ : Text}
    (h₁ : compile target options s₁ = .ok t₁) (h₂ : compile target options s₂ = .ok t₂) :
    let setup := Setup.ofOptions target options
    let c₁ := Compilation.ofSource setup s₁
    let c₂ := Compilation.ofSource setup s₂
    let c := Compilation.ofSource setup (Text.unlines [s₁, s₂])
    compile target options (Text.unlines [s₁, s₂]) =
        .ok (target.compose c.program options.unit) ∧
      c.lines = c₁.lines ++ c₂.lines.map (OutputLine.moved (s₁.bytes + 1)) ∧
      c.program.declarations = c₁.program.declarations ++ c₂.program.declarations ∧
      c.program.functions = c₁.program.functions ++ c₂.program.functions ∧
      c.program.main = c₁.program.main ++ c₂.program.main ∧
      c.program.usage = c₁.program.usage.union c₂.program.usage := by
  intro setup c₁ c₂ c
  obtain ⟨q₁, outs₁, hr₁, hn₁, -⟩ := compile_eq_ok_iff.mp h₁
  obtain ⟨q₂, outs₂, hr₂, hn₂, -⟩ := compile_eq_ok_iff.mp h₂
  obtain ⟨q, outs, hr, hc, houts⟩ :=
    hr₂.inContext (inContext_nil hn₁ s₁.lines.length) rfl (s₁.bytes + 1)
  have hall : Reads setup {} (SourceLine.ofSource (Text.unlines [s₁, s₂])) q (outs₁ ++ outs) := by
    rw [Text.unlines_pair, SourceLine.ofSource_append]
    exact hr₁.append hr
  have hn : q.nesting = [] := by
    have hlen := hc.nesting.length
    simpa [hn₂] using hlen
  have hmoved : outs = outs₂.map (OutputLine.moved (s₁.bytes + 1)) :=
    eq_map_of_forall₂ (houts.imp fun _ _ h => h.eq_moved)
  have hgroup : Program.openGroup [] outs₁ = [] :=
    hr₁.openGroup_eq_nil (fun _ => rfl) (by rw [hn₁]; rfl)
  have e₁ : c₁ = _ := Compilation.ofSource_of_reads hr₁
  have e₂ : c₂ = _ := Compilation.ofSource_of_reads hr₂
  have e : c = _ := Compilation.ofSource_of_reads hall
  refine ⟨compile_eq_ok (Compilation.faults_eq_nil_iff.mpr ⟨q, _, hall, hn⟩), ?_⟩
  rw [e, e₁, e₂, hmoved]
  simp only [Compilation.program, Program.ofLines, Program.textsOf_append,
    Program.textsOf_map_moved, Program.groupFunctions_append hgroup,
    Program.groupFunctions_map_moved, true_and]
  rw [Text.unlines_pair, Usage.ofSource_append, hc.usage, Usage.union_union_comm]

theorem compile_unlines_functions :
    let s₁ : Text := "fx void f\nprint \"é\"\nend\nwinit \"w\" 9 9"
    let s₂ : Text := "if racine(x)\nfx int g\nreturn 1\nend\nend"
    let c := fun s => Compilation.ofSource (.ofOptions .cpp {}) s
    (c s₁).faults = [] ∧ (c s₂).faults = [] ∧
      (c (Text.unlines [s₁, s₂])).program.functions =
        (c s₁).program.functions ++ (c s₂).program.functions := by
  intro s₁ s₂ c
  have h₁ : (c s₁).faults = [] := rfl
  have h₂ : (c s₂).faults = [] := rfl
  exact ⟨h₁, h₂, (compile_unlines (compile_eq_ok h₁) (compile_eq_ok h₂)).2.2.2.1⟩

theorem accepted_end {setup : Setup} {p : Progress} {line : SourceLine}
    (hl : line.text = ("end" : Text)) (hn : p.nesting ≠ []) :
    Accepted setup p line ⟨line, "end", [], false⟩ := by
  have hf : Statement.form setup.target ⟨line, "end", [], false⟩ = .blockEnd := rfl
  refine ⟨?_, ?_⟩
  · unfold Statement.ofLine
    rw [hl]
    rfl
  · rw [hf]
    simp [Progress.objection?, Nesting.misplacement?, Progress.enter, Form.givesBody, hn]

/-- A source that compiles on its own compiles as the body of a block, where its main algorithm is
one level deeper, and its functions and records are the same. -/
theorem compile_in_block {target : Target} {options : Options} {head source text : Text}
    {p : Progress} {first : OutputLine} {b : Block} (hu : '\n' ∉ options.unit)
    (hl : '\n' ∉ head)
    (hstep : Progress.step (.ofOptions target options) {} (.placed 0 0 head) = (p, ⟨first, none⟩))
    (hopen : p.nesting = [b]) (hb : b.kind.isRoutine = false)
    (hs : compile target options source = .ok text) :
    let setup := Setup.ofOptions target options
    let whole := Text.unlines [head, source, "end"]
    (∃ text', compile target options whole = .ok text') ∧
      ∃ last, (Compilation.ofSource setup whole).lines =
        first :: (Compilation.ofSource setup source).lines.map
          (OutputLine.inBlock options.unit (head.bytes + 1)) ++ [last] := by
  intro setup whole
  obtain ⟨q, outs, hr, hn, -⟩ := compile_eq_ok_iff.mp hs
  obtain ⟨s, hacc⟩ : ∃ s, Accepted setup {} (.placed 0 0 head) s :=
    exists_accepted (by rw [hstep])
  have hp : ({} : Progress).behind setup s = p ∧ ({} : Progress).output setup s = first := by
    have he := hacc.step_eq.symm.trans hstep
    simpa using he
  have hc : InContext [b.kind] 1 p.usage {} p :=
    ⟨⟨[b], rfl, hopen⟩, fun hw => absurd hw (by simp), (Usage.union_default _).symm⟩
  obtain ⟨r, inner, hinner, hr', houts⟩ := hr.inContext hc (by simp [hb]) (head.bytes + 1)
  obtain ⟨b', hr₁⟩ : ∃ b', r.nesting = [b'] := by
    have hlen := hr'.nesting.length
    rw [hn] at hlen
    exact List.length_eq_one_iff.mp hlen
  let close : SourceLine :=
    ((SourceLine.placed 0 0 "end").moved source.lines.length (source.bytes + 1)).moved 1
      (head.bytes + 1)
  have hend : Accepted setup r close ⟨close, "end", [], false⟩ :=
    accepted_end rfl (by simp [hr₁])
  have hlines : SourceLine.ofSource whole =
      .placed 0 0 head ::
        (SourceLine.ofSource source).map (SourceLine.moved 1 (head.bytes + 1)) ++ [close] := by
    have hw : whole = head ++ '\n' :: Text.unlines [source, "end"] := by
      simp [whole, Text.unlines, List.intercalate_cons_cons]
    rw [hw, SourceLine.ofSource_append, Text.unlines_pair, SourceLine.ofSource_append,
      SourceLine.ofSource, Text.lines_of_notMem hl]
    simp only [List.map_append, List.length_singleton]
    rfl
  have hall : Reads setup {} (SourceLine.ofSource whole)
      (r.behind setup ⟨close, "end", [], false⟩)
      (first :: inner ++ [r.output setup ⟨close, "end", [], false⟩]) := by
    rw [hlines, ← hp.2]
    exact .cons hacc (by rw [hp.1]; exact hinner.append (.cons hend (.nil _)))
  have hclosed : (r.behind setup ⟨close, "end", [], false⟩).nesting = [] := by
    rw [Progress.nesting_behind_end rfl, hr₁]
    rfl
  have hbody : inner = outs.map (OutputLine.inBlock options.unit (head.bytes + 1)) :=
    eq_map_of_forall₂ (houts.imp fun _ _ h => h.eq_inBlock hu)
  refine ⟨⟨_, compile_eq_ok (Compilation.faults_eq_nil_iff.mpr ⟨_, _, hall, hclosed⟩)⟩,
    r.output setup ⟨close, "end", [], false⟩, ?_⟩
  rw [Compilation.ofSource_of_reads hall, Compilation.ofSource_of_reads hr, hbody]

theorem compile_in_block_loop :
    let head : Text := "for i 0 3"
    let source : Text := "input x\nfx void f\nprint x\nend"
    let c := fun s => Compilation.ofSource (.ofOptions .python {}) s
    (c source).faults = [] ∧
      ∃ last, (c (Text.unlines [head, source, "end"])).lines =
        ⟨"for i in range(0, 3):", .main, false, ⟨0, 9⟩⟩ ::
          (c source).lines.map (OutputLine.inBlock "    " 10) ++ [last] := by
  intro head source c
  have hs : (c source).faults = [] := rfl
  have hstep : Progress.step (.ofOptions .python {}) {} (.placed 0 0 head) =
      ({ nesting := [⟨.forRange, 0, false⟩] },
        ⟨⟨"for i in range(0, 3):", .main, false, ⟨0, 9⟩⟩, none⟩) := rfl
  exact ⟨hs, (compile_in_block (by decide) (by decide) hstep rfl rfl (compile_eq_ok hs)).2⟩

end Pseudocode
