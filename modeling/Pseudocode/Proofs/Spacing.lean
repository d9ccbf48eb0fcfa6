import Pseudocode.Proofs.History
import Pseudocode.Proofs.Separators

/-!
# Spacing

Neither the separators around a line nor the idle lines between others count. The progress through a
text is the progress through the same text with other spacing, where the open blocks tell other line
numbers (`step_renumbered`, `step_idle`, `run_stretched`). So the output is the same, apart from the
silent lines that the idle ones give, and the faults are the same at the lines where they now stand
(`compile_spacing`).
-/
namespace Pseudocode

/-! ### Lists with elements put in between -/

/-- `bs` has a partner for each of `as`, in order, and between them elements that satisfy `I`. -/
inductive Stretched {α β : Type} (R : α → β → Prop) (I : β → Prop) : List α → List β → Prop
  | nil : Stretched R I [] []
  | keep {a : α} {b : β} {as : List α} {bs : List β} (head : R a b) (tail : Stretched R I as bs) :
      Stretched R I (a :: as) (b :: bs)
  | insert {b : β} {as : List α} {bs : List β} (head : I b) (tail : Stretched R I as bs) :
      Stretched R I as (b :: bs)

namespace Stretched

variable {α β : Type} {R : α → β → Prop} {I : β → Prop} {as : List α} {bs : List β}

theorem length_le (h : Stretched R I as bs) : as.length ≤ bs.length := by
  induction h with
  | nil => exact Nat.le_refl _
  | keep _ _ ih =>
    simp only [List.length_cons]
    omega
  | insert _ _ ih =>
    simp only [List.length_cons]
    omega

theorem forall₂ (h : Stretched R I as bs) (hlen : bs.length = as.length) :
    List.Forall₂ R as bs := by
  induction h with
  | nil => exact .nil
  | keep head tail ih => exact .cons head (ih (by simpa using hlen))
  | insert head tail ih =>
    have := tail.length_le
    simp only [List.length_cons] at hlen
    omega

theorem map {γ δ : Type} {S : γ → δ → Prop} {J : δ → Prop} {f : α → γ} {g : β → δ}
    (h : Stretched R I as bs) (hkeep : ∀ a b, R a b → S (f a) (g b))
    (hinsert : ∀ b, I b → J (g b)) : Stretched S J (as.map f) (bs.map g) := by
  induction h with
  | nil => exact .nil
  | keep head tail ih => exact .keep (hkeep _ _ head) ih
  | insert head tail ih => exact .insert (hinsert _ head) ih

end Stretched

/-! ### Lines and faults under other numbers -/

/-- The same line with other separators around it, where the line at index `k` is the one at index
`f k`. -/
structure SourceLine.Renumbered (f : Nat → Nat) (line line' : SourceLine) : Prop where
  index : line'.index = f line.index
  strip : line'.text.strip = line.text.strip

/-- The same lines with other separators around them, and with idle lines in between. -/
abbrev SourceLine.Respaced (f : Nat → Nat) : List SourceLine → List SourceLine → Prop :=
  Stretched (SourceLine.Renumbered f) fun line => line.text.Idle

namespace SourceLine.Renumbered

variable {f : Nat → Nat} {line line' : SourceLine} (h : line.Renumbered f line')

include h

theorem reading : Statement.reading? line'.text = Statement.reading? line.text := by
  rw [Statement.reading_padded line'.text.padded_strip, h.strip,
    ← Statement.reading_padded line.text.padded_strip]

theorem trim : line'.text.trim = line.text.trim := by
  rw [Text.trim_padded line'.text.padded_strip, h.strip, ← Text.trim_padded line.text.padded_strip]

theorem usage : Usage.ofSource line'.text = Usage.ofSource line.text := by
  rw [Usage.ofSource_padded line'.text.padded_strip, h.strip,
    ← Usage.ofSource_padded line.text.padded_strip]

end SourceLine.Renumbered

/-- Placed lines with others put in between. Of the lines in front of them, which have been placed
already, there are `i` and `j`. -/
theorem SourceLine.stretched_placeAll {f : Nat → Nat} (hf : StrictMono f) {ts ts' : List Text}
    {i j start start' : Nat} (hfirst : j ≤ f i)
    (hkept : ∀ k, ts[k]?.map Text.strip = ts'[f (i + k) - j]?.map Text.strip)
    (hidle : ∀ l t, ts'[l]? = some t → (∀ k, f (i + k) ≠ j + l) → t.Idle) :
    Respaced f (placeAll i start ts) (placeAll j start' ts') := by
  induction ts' generalizing ts i j start start' with
  | nil =>
    have hnone := hkept 0
    cases ts with
    | nil => exact .nil
    | cons t ts => simp at hnone
  | cons t' ts' ih =>
    by_cases hi : f i = j
    · have hhead := hkept 0
      rw [Nat.add_zero, hi, Nat.sub_self] at hhead
      cases ts with
      | nil => simp at hhead
      | cons t ts =>
        have hstrip : t.strip = t'.strip := by simpa using hhead
        have hnext : ∀ k, j + 1 ≤ f (i + 1 + k) := by
          intro k
          have := hf (show i < i + 1 + k by omega)
          omega
        refine .keep ⟨hi.symm, hstrip.symm⟩ (ih (hnext 0) (fun k => ?_) fun l t hl hne => ?_)
        · have hk := hkept (k + 1)
          have hle := hnext k
          rw [show i + (k + 1) = i + 1 + k by omega,
            show f (i + 1 + k) - j = f (i + 1 + k) - (j + 1) + 1 by omega] at hk
          exact hk
        · refine hidle (l + 1) t hl fun k => ?_
          cases k with
          | zero =>
            rw [Nat.add_zero]
            omega
          | succ k =>
            have := hne k
            rw [show i + (k + 1) = i + 1 + k by omega]
            omega
    · have hlater : ∀ k, j + 1 ≤ f (i + k) := by
        intro k
        have := hf.monotone (show i ≤ i + k by omega)
        omega
      refine .insert (hidle 0 t' rfl fun k => ?_) (ih (hlater 0) (fun k => ?_) fun l t hl hne => ?_)
      · have := hlater k
        omega
      · have hk := hkept k
        have hle := hlater k
        rw [show f (i + k) - j = f (i + k) - (j + 1) + 1 by omega] at hk
        exact hk
      · refine hidle (l + 1) t hl fun k => ?_
        have := hne k
        omega

/-- The lines of a source that has those of another one at the indices `f k`, and idle lines at all
other indices. -/
theorem SourceLine.stretched_ofSource {f : Nat → Nat} (hf : StrictMono f) {source source' : Text}
    (hkept : ∀ k, source.lines[k]?.map Text.strip = source'.lines[f k]?.map Text.strip)
    (hidle : ∀ l t, source'.lines[l]? = some t → (∀ k, f k ≠ l) → t.Idle) :
    Respaced f (ofSource source) (ofSource source') := by
  apply stretched_placeAll hf (Nat.zero_le _)
  · simpa only [Nat.zero_add, Nat.sub_zero] using hkept
  · simpa only [Nat.zero_add] using hidle

/-- The same fault, where the line at index `k` is the one at index `f k`. The bytes that it covers
may be others. -/
structure Fault.Renumbered (f : Nat → Nat) (fault fault' : Fault) : Prop where
  line : ∃ k, fault.line = k + 1 ∧ fault'.line = f k + 1
  cause : fault'.cause = fault.cause

/-- What a fault says, without the bytes that it covers. -/
def Fault.content (fault : Fault) : Nat × Cause := (fault.line, fault.cause)

theorem Fault.Renumbered.content {fault fault' : Fault} (h : fault.Renumbered id fault') :
    fault.content = fault'.content := by
  obtain ⟨⟨k, hk, hk'⟩, hcause⟩ := h
  rw [Fault.content, Fault.content, hk, hk', hcause]
  rfl

def OutputLine.content (l : OutputLine) : Text × Part × Bool := (l.text, l.part, l.endsRoutine)

def OutputLine.Silent (l : OutputLine) : Prop := l.text = [] ∧ l.endsRoutine = false

abbrev OutputLine.Respaced : List OutputLine → List OutputLine → Prop :=
  Stretched (fun l m => m.content = l.content) OutputLine.Silent

structure Outcome.Renumbered (f : Nat → Nat) (o o' : Outcome) : Prop where
  line : o'.line.content = o.line.content
  fault : Option.Rel (Fault.Renumbered f) o.fault? o'.fault?

structure Outcome.Silent (o : Outcome) : Prop where
  line : o.line.Silent
  fault : o.fault? = none

/-! ### Progress under other line numbers -/

def Statement.onLine (line : SourceLine) (s : Statement) : Statement := { s with line := line }

theorem Statement.ofLine_onLine {line line' : SourceLine} {s : Statement}
    (h : reading? line'.text = reading? line.text) (hs : ofLine line = .ok s) :
    ofLine line' = .ok (s.onLine line') := by
  rw [ofLine_eq_ok_iff] at hs ⊢
  exact ⟨rfl, h.trans hs.2⟩

theorem Statement.phrase_onLine {line : SourceLine} {s : Statement}
    (h : line.text.trim = s.line.text.trim) (t : Target) (form : Form) :
    (s.onLine line).phrase t form = s.phrase t form := by
  have htext : (s.onLine line).text = s.text := h
  cases form <;> simp only [phrase, htext] <;> rfl

namespace Nesting

variable (f : Nat → Nat) (n : Nesting)

theorem inRoutine_renumbered : inRoutine (n.map (Block.renumbered f)) = n.inRoutine :=
  any_renumbered BlockKind.isRoutine f n

theorem misplacement_renumbered (form : Form) :
    misplacement? (n.map (Block.renumbered f)) form = n.misplacement? form := by
  have htop : topKind? (n.map (Block.renumbered f)) = n.topKind? := by cases n <;> rfl
  have hcontains : ∀ kind, contains kind (n.map (Block.renumbered f)) = n.contains kind :=
    fun kind => any_renumbered (· == kind) f n
  cases form <;> simp only [misplacement?, htop, hcontains]

theorem outerBlocks?_renumbered : outerBlocks? (n.map (Block.renumbered f)) = n.outerBlocks? := by
  induction n with
  | nil => rfl
  | cons b n ih =>
    simp only [List.map_cons, outerBlocks?, ih, List.length_map]
    rfl

end Nesting

namespace Progress

def renumbered (f : Nat → Nat) (p : Progress) : Progress :=
  { p with nesting := p.nesting.map (Block.renumbered f) }

variable {f : Nat → Nat} {setup : Setup} {p : Progress} {line line' : SourceLine} {s : Statement}

theorem enter_renumbered (f : Nat → Nat) (p : Progress) (form : Form) :
    (p.renumbered f).enter form = (p.enter form).renumbered f := by
  unfold enter
  split
  · cases hn : p.nesting <;> simp [renumbered, hn, Nesting.giveBody, Block.renumbered]
  · rfl

theorem objection_renumbered (f : Nat → Nat) (strict : Bool) (p : Progress) (line : SourceLine)
    (s : Statement) (form : Form) :
    (p.renumbered f).objection? strict (s.onLine line) form = p.objection? strict s form := by
  unfold objection?
  rw [renumbered, Nesting.misplacement_renumbered]
  split
  · rfl
  · cases form with
    | blockEnd => cases hn : p.nesting <;> simp
    | _ => rfl

theorem after_renumbered (h : line.index = f s.line.index) (p : Progress) (form : Form) :
    (p.renumbered f).after (s.onLine line) form = (p.after s form).renumbered f := by
  have hpush : ∀ kind, Nesting.push kind line.index (p.nesting.map (Block.renumbered f)) =
      (p.nesting.push kind s.line.index).map (Block.renumbered f) := by
    intro kind
    rw [h]
    rfl
  cases form with
  | elseIf | otherwise =>
    cases hn : p.nesting <;>
      simp [after, renumbered, hn, Nesting.startBranch, Block.renumbered]
  | blockEnd => cases hn : p.nesting <;> simp [after, renumbered, hn, Block.renumbered]
  | draw op => cases op <;> rfl
  | forRange | forEach | whileCond | ifCond | switch | case | default | function =>
    exact congrArg (fun n => { p with nesting := n }) (hpush _)
  | _ => rfl

theorem wording_renumbered (h : line.text.trim = s.line.text.trim) (t : Target) (f : Nat → Nat)
    (p : Progress) (form : Form) :
    t.wording (p.renumbered f).nesting (s.onLine line) form = t.wording p.nesting s form := by
  rw [renumbered]
  cases form <;> cases p.nesting <;>
    simp only [Target.wording, List.map, Statement.phrase_onLine h] <;> rfl

theorem content_place_renumbered (f : Nat → Nat) (p : Progress) (form : Form) (text : Text)
    (range range' : ByteRange) :
    ((p.renumbered f).place setup form text range').content =
      (p.place setup form text range).content := by
  have hends : (p.renumbered f).endsRoutine form = p.endsRoutine form := rfl
  have hdepth : (p.renumbered f).depth form = p.depth form := by
    simp only [depth, leftBlocks, hends]
    simp only [renumbered, Nesting.inRoutine_renumbered, Nesting.outerBlocks?_renumbered,
      List.length_map]
  simp only [OutputLine.content, place, part, hends, hdepth]
  simp only [renumbered, Nesting.inRoutine_renumbered]

end Progress

namespace SourceLine.Renumbered

variable {f : Nat → Nat} {setup : Setup} {p : Progress} {line line' : SourceLine} {s : Statement}

theorem refused {cause : Cause} (h : line.Renumbered f line') (hr : Refused setup p line s cause) :
    Refused setup (p.renumbered f) line' (s.onLine line') cause := by
  refine ⟨Statement.ofLine_onLine h.reading hr.read, ?_⟩
  rw [Progress.enter_renumbered]
  exact (Progress.objection_renumbered ..).trans hr.objects

theorem accepted (h : line.Renumbered f line') (ha : Accepted setup p line s) :
    Accepted setup (p.renumbered f) line' (s.onLine line') := by
  refine ⟨Statement.ofLine_onLine h.reading ha.read, ?_⟩
  rw [Progress.enter_renumbered]
  exact (Progress.objection_renumbered ..).trans ha.fits

theorem behind (h : line.Renumbered f line') (ha : Accepted setup p line s) :
    (p.renumbered f).behind setup (s.onLine line') = (p.behind setup s).renumbered f := by
  rw [Progress.behind, Progress.enter_renumbered]
  exact Progress.after_renumbered (ha.line_eq ▸ h.index) _ _

theorem output (h : line.Renumbered f line') (ha : Accepted setup p line s) :
    ((p.renumbered f).output setup (s.onLine line')).content = (p.output setup s).content := by
  rw [Progress.output, h.behind ha, Progress.enter_renumbered,
    Progress.wording_renumbered (ha.line_eq ▸ h.trim)]
  exact Progress.content_place_renumbered ..

end SourceLine.Renumbered

namespace Progress

variable {f : Nat → Nat} {line line' : SourceLine}

theorem step_renumbered (h : line.Renumbered f line') (setup : Setup) (p : Progress) :
    ((p.renumbered f).step setup line').1 = (p.step setup line).1.renumbered f ∧
      (p.step setup line).2.Renumbered f ((p.renumbered f).step setup line').2 := by
  have hline : ∃ k, line.number = k + 1 ∧ line'.number = f k + 1 :=
    ⟨line.index, rfl, by rw [SourceLine.number, h.index]⟩
  rcases step_cases setup p line with ⟨fault, he⟩ | ⟨s, cause, hr⟩ | ⟨s, ha⟩
  · cases hs : Statement.ofLine line' with
    | ok s => simp [Statement.ofLine_onLine h.reading.symm hs] at he
    | error fault' =>
      obtain ⟨hl, hc⟩ := Statement.fault_of_ofLine he
      obtain ⟨hl', hc'⟩ := Statement.fault_of_ofLine hs
      rw [step_of_error he, step_of_error hs]
      rw [← hl, ← hl'] at hline
      exact ⟨rfl, rfl, .some ⟨hline, hc'.trans hc.symm⟩⟩
  · rw [hr.step_eq, (h.refused hr).step_eq]
    exact ⟨enter_renumbered .., rfl, .some ⟨hline, rfl⟩⟩
  · rw [ha.step_eq, (h.accepted ha).step_eq]
    exact ⟨h.behind ha, h.output ha, .none⟩

theorem step_idle (h : line.text.Idle) (setup : Setup) (p : Progress) :
    (p.step setup line).1 = p ∧ (p.step setup line).2.Silent := by
  obtain ⟨head, hhead, hread⟩ := h.reading
  obtain ⟨s, hs⟩ : ∃ s : Statement, s = ⟨line, head, [], false⟩ := ⟨_, rfl⟩
  have hform : s.form setup.target = .blank ∨ s.form setup.target = .functionBody := by
    rcases hhead with rfl | rfl
    · exact .inl (by rw [hs]; rfl)
    · exact .inr (by rw [hs]; rfl)
  have ha : Accepted setup p line s := by
    refine ⟨Statement.ofLine_eq_ok_iff.mpr ⟨by rw [hs], by rw [hs, hread]⟩, ?_⟩
    rcases hform with hf | hf <;> rw [hf] <;> rfl
  have hwording : setup.target.wording (p.enter (s.form setup.target)).nesting s
      (s.form setup.target) = [] := by
    rcases hform with hf | hf <;> rw [hf] <;> cases setup.target <;> rfl
  have hrename : setup.target.rename [] = [] := by cases setup.target <;> rfl
  rw [ha.step_eq]
  refine ⟨?_, ⟨?_, endsRoutine_eq_false ?_⟩, rfl⟩
  · rw [behind]
    rcases hform with hf | hf <;> rw [hf] <;> rfl
  · simp only [output, hwording, place, hrename]
    rfl
  · rcases hform with hf | hf <;> rw [hf] <;> simp

/-- Other spacing changes neither the progress through a text, apart from the numbers of the lines,
nor what its lines give. -/
theorem run_stretched {lines lines' : List SourceLine} (h : SourceLine.Respaced f lines lines')
    (setup : Setup) (p : Progress) :
    ((p.renumbered f).run setup lines').1 = (p.run setup lines).1.renumbered f ∧
      Stretched (Outcome.Renumbered f) Outcome.Silent (p.run setup lines).2
        ((p.renumbered f).run setup lines').2 := by
  induction h generalizing p with
  | nil => exact ⟨rfl, .nil⟩
  | keep head tail ih =>
    obtain ⟨hp, hout⟩ := step_renumbered head setup p
    simp only [run, hp]
    exact ⟨(ih _).1, .keep hout (ih _).2⟩
  | insert head tail ih =>
    obtain ⟨hp, hout⟩ := step_idle head setup (p.renumbered f)
    simp only [run, hp]
    exact ⟨(ih p).1, .insert hout (ih p).2⟩

theorem unclosed_renumbered (f : Nat → Nat) (p : Progress) (ls ms : List OutputLine) :
    Option.Rel (Fault.Renumbered f) (p.unclosed? ls) ((p.renumbered f).unclosed? ms) := by
  rw [unclosed?, unclosed?, renumbered]
  cases p.nesting with
  | nil => exact .none
  | cons b n => exact .some ⟨⟨b.line, rfl, rfl⟩, rfl⟩

end Progress

/-! ### The program and the faults -/

namespace Program

variable {ls ms : List OutputLine}

theorem textsOf_of_content {l m : OutputLine} (h : m.content = l.content) (part : Part) :
    textsOf part [m] = textsOf part [l] := by
  obtain ⟨htext, hpart, -⟩ : m.text = l.text ∧ m.part = l.part ∧ m.endsRoutine = l.endsRoutine := by
    simpa [OutputLine.content] using h
  simp only [textsOf, List.filter_cons, htext, hpart, List.filter_nil]
  split_ifs
  · simp [htext]
  · rfl

theorem textsOf_of_silent {m : OutputLine} (h : m.Silent) (part : Part) :
    textsOf part [m] = [] := by
  simp [textsOf, h.1]

theorem textsOf_stretched (h : OutputLine.Respaced ls ms) (part : Part) :
    textsOf part ms = textsOf part ls := by
  induction h with
  | nil => rfl
  | @keep l m ls ms head tail ih =>
    have hm := textsOf_append part [m] ms
    rw [textsOf_of_content head, ih, ← textsOf_append] at hm
    exact hm
  | @insert m ls ms head tail ih =>
    have hm := textsOf_append part [m] ms
    rw [textsOf_of_silent head, ih] at hm
    exact hm

theorem groupFunctions_stretched (h : OutputLine.Respaced ls ms) (current : List Text) :
    groupFunctions current ms = groupFunctions current ls := by
  induction h generalizing current with
  | nil => rfl
  | @keep l m ls ms head tail ih =>
    have hends : m.endsRoutine = l.endsRoutine := congrArg (·.2.2) head
    rw [groupFunctions, groupFunctions, textsOf_of_content head, hends, ih, ih]
  | @insert m ls ms head tail ih =>
    rw [groupFunctions, textsOf_of_silent head, List.append_nil, head.2]
    exact ih current

theorem ofLines_stretched (h : OutputLine.Respaced ls ms) (usage : Usage) :
    ofLines ms usage = ofLines ls usage := by
  simp only [ofLines, textsOf_stretched h, groupFunctions_stretched h]

end Program

theorem forall₂_toList {α β : Type} {R : α → β → Prop} {a : Option α} {b : Option β}
    (h : Option.Rel R a b) : List.Forall₂ R a.toList b.toList := by
  cases h with
  | none => exact .nil
  | some h => exact .cons h .nil

theorem filterMap_fault_stretched {f : Nat → Nat} {os os' : List Outcome}
    (h : Stretched (Outcome.Renumbered f) Outcome.Silent os os') :
    List.Forall₂ (Fault.Renumbered f) (os.filterMap Outcome.fault?)
      (os'.filterMap Outcome.fault?) := by
  induction h with
  | nil => exact .nil
  | @keep o o' os os' head tail ih =>
    have hfault := head.fault
    rw [List.filterMap_cons, List.filterMap_cons]
    generalize o.fault? = fault? at hfault
    generalize o'.fault? = fault?' at hfault
    cases hfault with
    | none => exact ih
    | some hf => exact .cons hf ih
  | @insert o' os os' head tail ih =>
    rw [List.filterMap_cons, head.fault]
    exact ih

namespace Usage

theorem ofSource_unlines (ts : List Text) :
    ofSource (Text.unlines ts) = ts.foldr (fun t u => (ofSource t).union u) {} := by
  induction ts with
  | nil => rfl
  | cons t ts ih =>
    cases ts with
    | nil => simp [Text.unlines, union_default]
    | cons u ts =>
      rw [List.foldr_cons, ← ih, Text.unlines, List.intercalate_cons_cons, List.append_assoc,
        ← Text.unlines]
      exact ofSource_append _ _

/-- A name that a line mentions is mentioned whatever the spacing, and idle lines mention none. -/
theorem ofSource_stretched {f : Nat → Nat} {source source' : Text}
    (h : SourceLine.Respaced f (SourceLine.ofSource source) (SourceLine.ofSource source')) :
    ofSource source' = ofSource source := by
  have hlines : ∀ text : Text, ofSource text =
      (SourceLine.ofSource text).foldr (fun line u => (ofSource line.text).union u) {} := by
    intro text
    conv_lhs => rw [← Text.unlines_lines text, ofSource_unlines, ← SourceLine.map_text_ofSource]
    rw [List.foldr_map]
  rw [hlines, hlines]
  generalize SourceLine.ofSource source = lines at h
  generalize SourceLine.ofSource source' = lines' at h
  induction h with
  | nil => rfl
  | keep head tail ih => rw [List.foldr_cons, List.foldr_cons, head.usage, ih]
  | @insert line' lines lines' head tail ih =>
    rw [List.foldr_cons, head.usage, ih]
    simp [union]

end Usage

/-- Other spacing changes neither the output, apart from silent lines, nor the faults, apart from
their places. -/
theorem Compilation.stretched {f : Nat → Nat} {source source' : Text}
    (h : SourceLine.Respaced f (SourceLine.ofSource source) (SourceLine.ofSource source'))
    (setup : Setup) :
    OutputLine.Respaced (ofSource setup source).lines (ofSource setup source').lines ∧
      List.Forall₂ (Fault.Renumbered f) (ofSource setup source).faults
        (ofSource setup source').faults ∧
      (ofSource setup source').usage = (ofSource setup source).usage := by
  -- nothing is open at the start, so that there is nothing to renumber
  have hstart : ({} : Progress).renumbered f = {} := rfl
  obtain ⟨hp, houts⟩ := Progress.run_stretched h setup {}
  rw [hstart] at hp houts
  refine ⟨houts.map (fun _ _ ho => ho.line) fun _ ho => ho.line, ?_, ?_⟩
  · have hunclosed := Progress.unclosed_renumbered f
      (Progress.run setup {} (SourceLine.ofSource source)).1 (ofSource setup source).lines
      (ofSource setup source').lines
    rw [← hp] at hunclosed
    exact List.rel_append (filterMap_fault_stretched houts) (forall₂_toList hunclosed)
  · simp only [ofSource, hp, Usage.ofSource_stretched h]
    rfl

theorem compile_eq_ok_of_stretched {f : Nat → Nat} {source source' : Text}
    (h : SourceLine.Respaced f (SourceLine.ofSource source) (SourceLine.ofSource source'))
    (target : Target) (options : Options) (text : Text) :
    compile target options source = .ok text ↔ compile target options source' = .ok text := by
  obtain ⟨hlines, hfaults, husage⟩ := Compilation.stretched h (.ofOptions target options)
  have hprogram : (Compilation.ofSource (.ofOptions target options) source').program =
      (Compilation.ofSource (.ofOptions target options) source).program := by
    rw [Compilation.program, Compilation.program, husage, Program.ofLines_stretched hlines]
  simp only [compile, Compilation.result, hprogram]
  generalize (Compilation.ofSource (.ofOptions target options) source).faults = fs at hfaults
  generalize (Compilation.ofSource (.ofOptions target options) source').faults = fs' at hfaults
  cases hfaults <;> simp

/-- The separators around the lines do not count, and neither do idle lines. Two sources whose lines
are the same without the separators around them give the same output and the same faults. A source
with idle lines put in between, where the line at index `k` now stands at index `f k`, gives the
same program and has the same faults at the new line numbers. -/
theorem compile_spacing (target : Target) (options : Options) (source source' : Text) :
    let c := Compilation.ofSource (.ofOptions target options)
    (source.lines.map Text.strip = source'.lines.map Text.strip →
      (∀ text, compile target options source = .ok text ↔
        compile target options source' = .ok text) ∧
      (c source).lines.map OutputLine.content = (c source').lines.map OutputLine.content ∧
      (c source).faults.map Fault.content = (c source').faults.map Fault.content) ∧
    ∀ f : ℕ ↪o ℕ, (∀ k, source.lines[k]? = source'.lines[f k]?) →
      (∀ l line, source'.lines[l]? = some line → l ∉ Set.range f → line.Idle) →
      (∀ text, compile target options source = .ok text ↔
        compile target options source' = .ok text) ∧
      List.Forall₂ (Fault.Renumbered f) (c source).faults (c source').faults := by
  intro c
  constructor
  · intro hstrip
    have h : SourceLine.Respaced id (SourceLine.ofSource source) (SourceLine.ofSource source') := by
      refine SourceLine.stretched_ofSource strictMono_id (fun k => ?_) fun l _ _ hne => ?_
      · rw [← List.getElem?_map, hstrip, List.getElem?_map]
        rfl
      · exact absurd rfl (hne l)
    obtain ⟨hlines, hfaults, -⟩ := Compilation.stretched h (.ofOptions target options)
    have hlen : (c source').lines.length = (c source).lines.length := by
      have hcount := congrArg List.length hstrip
      rw [← SourceLine.map_text_ofSource, ← SourceLine.map_text_ofSource] at hcount
      simpa [c, Compilation.length_lines] using hcount.symm
    refine ⟨compile_eq_ok_of_stretched h target options, ?_, ?_⟩
    · rw [← List.forall₂_eq_eq_eq, List.forall₂_map_left_iff, List.forall₂_map_right_iff]
      exact (hlines.forall₂ hlen).imp fun _ _ hl => hl.symm
    · rw [← List.forall₂_eq_eq_eq, List.forall₂_map_left_iff, List.forall₂_map_right_iff]
      exact hfaults.imp fun _ _ hf => hf.content
  · intro f hkept hidle
    have h : SourceLine.Respaced f (SourceLine.ofSource source) (SourceLine.ofSource source') := by
      apply SourceLine.stretched_ofSource f.strictMono
      · intro k
        rw [hkept]
      · intro l t hl hne
        exact hidle l t hl fun ⟨k, hk⟩ => hne k hk
    exact ⟨compile_eq_ok_of_stretched h target options,
      (Compilation.stretched h (.ofOptions target options)).2.1⟩

/-- A string with an escaped quote in front of other line ends, in a source with two faults, and a
function with blank lines and the start of its body put in between. -/
theorem compile_spacing_function :
    let faulty : Text := "while x\nprint \"a\\\" \"\nelse"
    let padded : Text := "\twhile x \r\nprint \"a\\\" \"\x0c\r\n else\r"
    let source : Text := "fx int twice int n\nreturn n\nend"
    let spread : Text := " \nfx int twice int n\n\tfx_start\r\n\nreturn n\nend"
    let c := Compilation.ofSource (.ofOptions .cpp {})
    (faulty.lines.map Text.strip = padded.lines.map Text.strip ∧
      (c faulty).faults.map Fault.line = [3, 1] ∧
      (c faulty).faults.map Fault.content = (c padded).faults.map Fault.content) ∧
    ∃ f : ℕ ↪o ℕ, (∀ k, source.lines[k]? = spread.lines[f k]?) ∧
      (∀ l line, spread.lines[l]? = some line → l ∉ Set.range f → line.Idle) ∧
      ∃ text, compile .cpp {} source = .ok text ∧ compile .cpp {} spread = .ok text := by
  intro faulty padded source spread c
  have hstrip : faulty.lines.map Text.strip = padded.lines.map Text.strip := by decide +kernel
  refine ⟨⟨hstrip, by decide +kernel, ((compile_spacing .cpp {} faulty padded).1 hstrip).2.2⟩, ?_⟩
  have hmono : StrictMono fun k => if k = 0 then 1 else k + 3 := by
    intro a b hab
    dsimp only
    split_ifs <;> omega
  have hsource : source.lines = [("fx int twice int n" : Text), "return n", "end"] := by
    decide +kernel
  have hspread : spread.lines = [(" " : Text), "fx int twice int n", "\tfx_start\r", "", "return n",
      "end"] := by
    decide +kernel
  have hkept : ∀ k, source.lines[k]? = spread.lines[if k = 0 then 1 else k + 3]? := by
    intro k
    rw [hsource, hspread]
    rcases k with _ | _ | _ | k <;> rfl
  have hidle : ∀ l line, spread.lines[l]? = some line →
      (∀ k, (if k = 0 then 1 else k + 3) ≠ l) → line.Idle := by
    intro l line hl hne
    rw [hspread] at hl
    match l with
    | 0 => exact Option.some.inj hl ▸ (by decide +kernel : Text.Idle " ")
    | 1 => exact absurd rfl (hne 0)
    | 2 => exact Option.some.inj hl ▸ (by decide +kernel : Text.Idle "\tfx_start\r")
    | 3 => exact Option.some.inj hl ▸ (by decide +kernel : Text.Idle "")
    | 4 => exact absurd rfl (hne 1)
    | 5 => exact absurd rfl (hne 2)
    | l + 6 => cases hl
  obtain ⟨text, htext⟩ : ∃ text, compile .cpp {} source = .ok text :=
    ⟨_, compile_eq_ok (by decide +kernel)⟩
  have hrange : ∀ l line, spread.lines[l]? = some line →
      l ∉ Set.range (OrderEmbedding.ofStrictMono _ hmono) → line.Idle :=
    fun l line hl hne => hidle l line hl fun k hk => hne ⟨k, hk⟩
  refine ⟨.ofStrictMono _ hmono, hkept, hrange, text, htext, ?_⟩
  exact (((compile_spacing .cpp {} source spread).2 (.ofStrictMono _ hmono) hkept hrange).1 text).mp
    htext

end Pseudocode
