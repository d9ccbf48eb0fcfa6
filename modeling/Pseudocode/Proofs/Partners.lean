import Pseudocode.Proofs.Delimiters
import Pseudocode.Proofs.History
import Pseudocode.Proofs.Zones

/-!
# The partner of an `end`

The open blocks in front of a line are the opening lines that have found no partner yet
(`openers_before`), however many lines before it are refused. So an `end` is refused exactly if it
has no partner and closes the block of its partner otherwise, and the text leaves open what is
without a partner at its end (`compile_partners`).
-/
namespace Pseudocode

open Delimiter

def formAt? (target : Target) (source : Text) (k : Nat) : Option Form :=
  (SourceLine.ofSource source)[k]?.map (SourceLine.form target)

def Compilation.refuses (c : Compilation) (k : Nat) : Bool :=
  c.faults.any fun f => f.line == k + 1 && !f.cause.isUnclosed

/-- Every `end` closes a block. Any other statement may open one, unless it is refused. -/
def SourceLine.delimiter? (target : Target) (refused : Bool) (line : SourceLine) :
    Option Delimiter :=
  match Statement.ofLine line with
  | .error _ => none
  | .ok s =>
    if s.form target = .blockEnd then some .closing
    else if refused then none
    else ((s.form target).opens? s.args).map .opening

def delimiterAt? (setup : Setup) (source : Text) (k : Nat) : Option Delimiter :=
  (SourceLine.ofSource source)[k]?.bind
    (SourceLine.delimiter? setup.target ((Compilation.ofSource setup source).refuses k))

def Block.opener (b : Block) : Nat × BlockKind := (b.line, b.kind)

namespace Nesting

/-- What a line does to the innermost block: a statement gives it a body, even if it is refused, and
another branch of it is without a body. -/
def touched (n : Nesting) (form : Form) (refused : Bool) : Nesting :=
  if form.givesBody then n.giveBody
  else if refused = false ∧ (form = .elseIf ∨ form = .otherwise) then n.startBranch
  else n

def delimited (n : Nesting) (k : Nat) : Option Delimiter → Nesting
  | none => n
  | some (.opening kind) => n.push kind k
  | some .closing => n.tail

theorem openers_touched (n : Nesting) (form : Form) (refused : Bool) :
    (n.touched form refused).map Block.opener = n.map Block.opener := by
  unfold touched
  split_ifs <;> cases n <;> rfl

theorem openers_delimited (n : Nesting) (k : Nat) (d : Option Delimiter) :
    (n.delimited k d).map Block.opener = across k (n.map Block.opener) d := by
  rcases d with _ | (kind | _)
  · rfl
  · rfl
  · simp [delimited, across]

end Nesting

namespace Progress

theorem nesting_enter (p : Progress) (form : Form) :
    (p.enter form).nesting = p.nesting.touched form true := by
  unfold enter Nesting.touched
  split_ifs <;> simp_all

theorem openers_enter (p : Progress) (form : Form) :
    (p.enter form).nesting.map Block.opener = p.nesting.map Block.opener := by
  rw [nesting_enter, Nesting.openers_touched]

theorem nesting_enter_of_not {form : Form} (h : ¬ (form = .elseIf ∨ form = .otherwise))
    (p : Progress) : (p.enter form).nesting = p.nesting.touched form false := by
  unfold enter Nesting.touched
  split_ifs <;> simp_all

theorem objection_end {strict : Bool} {p : Progress} {s : Statement} :
    p.objection? strict s .blockEnd = if p.nesting = [] then some .strayEnd else none := by
  cases hn : p.nesting <;> simp [objection?, Nesting.misplacement?, hn]

theorem enter_end (p : Progress) : p.enter .blockEnd = p := rfl

variable {setup : Setup} {p : Progress} {line : SourceLine}

/-- A line touches the innermost block, and then opens or closes one. -/
theorem nesting_step (setup : Setup) (p : Progress) (line : SourceLine) :
    (p.step setup line).1.nesting =
      (p.nesting.touched (line.form setup.target) (p.step setup line).2.fault?.isSome).delimited
        line.index (line.delimiter? setup.target (p.step setup line).2.fault?.isSome) := by
  rcases step_cases setup p line with ⟨f, he⟩ | ⟨s, cause, hr⟩ | ⟨s, ha⟩
  · rw [step_of_error he]
    simp [Nesting.touched, Nesting.delimited, SourceLine.delimiter?, SourceLine.form, he,
      Form.givesBody]
  · rw [hr.step_eq, SourceLine.form_of_ofLine hr.read]
    simp only [Option.isSome_some, ← p.nesting_enter]
    by_cases hf : s.form setup.target = .blockEnd
    · have ho := hr.objects
      rw [hf, objection_end, enter_end] at ho
      split_ifs at ho with hn
      simp [Nesting.delimited, SourceLine.delimiter?, hr.read, hf, enter_end, hn]
    · simp [Nesting.delimited, SourceLine.delimiter?, hr.read, hf]
  · rw [ha.step_eq, SourceLine.form_of_ofLine ha.read]
    simp only [Option.isSome_none]
    cases ha.turn with
    | opens kind ho hq =>
      have he := Form.not_blockEnd_of_opens ho
      have hb : ¬ (s.form setup.target = .elseIf ∨ s.form setup.target = .otherwise) := by
        intro hf
        simp [(Form.branch_spec hf).2.2.1] at ho
      rw [hq, p.nesting_enter_of_not hb]
      simp [Nesting.delimited, SourceLine.delimiter?, ha.read, he, ho, ha.line_eq]
    | branches b outer hf _ hn hq =>
      obtain ⟨-, hend, ho, he, -⟩ := Form.branch_spec hf
      obtain ⟨-, hg, -⟩ := Form.endsBranch_spec hend
      rw [enter, hg] at hn
      simp only [Bool.false_eq_true, if_false] at hn
      rw [hq, hn]
      simp [Nesting.touched, Nesting.delimited, SourceLine.delimiter?, ha.read, he, ho, hg, hf,
        Nesting.startBranch]
    | closes b outer he hn hq =>
      rw [hq, ← p.nesting_enter_of_not (by simp [he]), hn]
      simp [Nesting.delimited, SourceLine.delimiter?, ha.read, he]
    | stays hf he hq =>
      have hb : ¬ (s.form setup.target = .elseIf ∨ s.form setup.target = .otherwise) := by
        intro hb
        simp [(Form.branch_spec hb).1] at hf
      rw [hq, p.nesting_enter_of_not hb]
      simp [Nesting.delimited, SourceLine.delimiter?, ha.read, he, Form.opens_eq_none hf]

theorem openers_step (setup : Setup) (p : Progress) (line : SourceLine) :
    (p.step setup line).1.nesting.map Block.opener =
      across line.index (p.nesting.map Block.opener)
        (line.delimiter? setup.target (p.step setup line).2.fault?.isSome) := by
  rw [nesting_step, Nesting.openers_delimited, Nesting.openers_touched]

end Progress

section Source

variable {setup : Setup} {source : Text} {k : Nat} {line : SourceLine}

theorem refuses_eq (hl : (SourceLine.ofSource source)[k]? = some line) :
    (Compilation.ofSource setup source).refuses k =
      ((Progress.before setup (SourceLine.ofSource source) k).step setup line).2.fault?.isSome := by
  rw [Bool.eq_iff_iff, Option.isSome_iff_exists]
  simp only [← Compilation.mem_faults_iff hl, Compilation.refuses, List.any_eq_true,
    Bool.and_eq_true, beq_iff_eq, Bool.not_eq_true']

theorem delimiterAt?_eq (hl : (SourceLine.ofSource source)[k]? = some line) :
    delimiterAt? setup source k = line.delimiter? setup.target
      ((Progress.before setup (SourceLine.ofSource source) k).step setup line).2.fault?.isSome := by
  rw [delimiterAt?, hl, Option.bind_some, refuses_eq hl]

theorem formAt?_of_getElem? (target : Target) (hl : (SourceLine.ofSource source)[k]? = some line) :
    formAt? target source k = some (line.form target) := by
  rw [formAt?, hl, Option.map_some]

theorem exists_line_of_delimiter {d : Delimiter} (h : delimiterAt? setup source k = some d) :
    ∃ line, (SourceLine.ofSource source)[k]? = some line := by
  obtain ⟨line, hl, -⟩ := Option.bind_eq_some_iff.mp h
  exact ⟨line, hl⟩

theorem lt_of_delimiter {d : Delimiter} (h : delimiterAt? setup source k = some d) :
    k < (SourceLine.ofSource source).length := by
  obtain ⟨line, hl⟩ := exists_line_of_delimiter h
  exact (List.getElem?_eq_some_iff.mp hl).1

/-- The open blocks in front of a line are the opening lines that are still open. -/
theorem openers_before (hk : k ≤ (SourceLine.ofSource source).length) :
    (Progress.before setup (SourceLine.ofSource source) k).nesting.map Block.opener =
      openers (delimiterAt? setup source) k := by
  induction k with
  | zero => rfl
  | succ k ih =>
    have hl := List.getElem?_eq_getElem hk
    have hindex := SourceLine.index_of_getElem? hl
    rw [Progress.before_succ hl, Progress.openers_step, ← delimiterAt?_eq hl, hindex,
      ih (by omega), openers]

/-- A line opens a block if it is accepted and its form does. -/
theorem delimiterAt?_eq_opening_iff {kind : BlockKind} :
    delimiterAt? setup source k = some (.opening kind) ↔
      ∃ line s, (SourceLine.ofSource source)[k]? = some line ∧ Statement.ofLine line = .ok s ∧
        (Compilation.ofSource setup source).refuses k = false ∧
        (s.form setup.target).opens? s.args = some kind := by
  constructor
  · intro h
    obtain ⟨line, hl, hd⟩ := Option.bind_eq_some_iff.mp h
    unfold SourceLine.delimiter? at hd
    split at hd
    · cases hd
    · next s hs =>
      split_ifs at hd with he hr
      · cases hd
      · obtain ⟨kind', hk, heq⟩ := Option.map_eq_some_iff.mp hd
        cases heq
        exact ⟨line, s, hl, hs, by simpa using hr, hk⟩
  · rintro ⟨line, s, hl, hs, hr, hk⟩
    have he := Form.not_blockEnd_of_opens hk
    simp [delimiterAt?, hl, SourceLine.delimiter?, hs, he, hr, hk]

theorem exists_end_statement {target : Target} (h : formAt? target source k = some .blockEnd) :
    ∃ line s, (SourceLine.ofSource source)[k]? = some line ∧ Statement.ofLine line = .ok s ∧
      s.form target = .blockEnd := by
  obtain ⟨line, hl, hf⟩ := Option.map_eq_some_iff.mp h
  unfold SourceLine.form at hf
  split at hf
  · next s hs => exact ⟨line, s, hl, hs, hf⟩
  · cases hf

theorem delimiterAt?_eq_closing_iff :
    delimiterAt? setup source k = some .closing ↔
      formAt? setup.target source k = some .blockEnd := by
  constructor
  · intro h
    obtain ⟨line, hl, hd⟩ := Option.bind_eq_some_iff.mp h
    unfold SourceLine.delimiter? at hd
    split at hd
    · cases hd
    · next s hs =>
      split_ifs at hd with he
      · rw [formAt?_of_getElem? _ hl, SourceLine.form_of_ofLine hs, he]
      · simp at hd
  · intro h
    obtain ⟨line, s, hl, hs, hf⟩ := exists_end_statement h
    simp [delimiterAt?, hl, SourceLine.delimiter?, hs, hf]

end Source

namespace Form

/-- The tag of a block is the keyword that opened it, and that of a procedure is told by the
result. -/
theorem tag_of_opens {word : Text} {form : Form} {args : List Text} {kind : BlockKind}
    (hword : ofKeyword? word = some form) (h : form.opens? args = some kind) :
    kind.tag = if word = ("fx" : Text) ∧ args.head? = some ("void" : Text) then ("proc" : Text)
      else word := by
  have hmem := mem_keywords hword
  by_cases hf : form = .function
  · have hfx : ∀ e ∈ keywords, e.2 = .function → e.1 = ("fx" : Text) := by decide
    have hw : word = ("fx" : Text) := hfx _ hmem hf
    rw [hf, opens?, Option.some.injEq] at h
    by_cases hv : args.head? = some ("void" : Text)
    · rw [if_pos hv] at h
      rw [← h, if_pos ⟨hw, hv⟩]
      rfl
    · rw [if_neg hv] at h
      rw [← h, if_neg fun hboth => hv hboth.2, hw]
      rfl
  · have hfx : ∀ e ∈ keywords, e.1 = ("fx" : Text) → e.2 = .function := by decide
    have htag : ∀ e ∈ keywords, e.2 ≠ .function → ∀ kind ∈ e.2.opens? [], kind.tag = e.1 := by
      decide
    have hno : ¬ (word = ("fx" : Text) ∧ args.head? = some ("void" : Text)) :=
      fun hw => hf (hfx _ hmem hw.1)
    rw [if_neg hno]
    refine htag _ hmem hf kind ?_
    change form.opens? [] = some kind
    rw [← h]
    cases form with
    | function => exact absurd rfl hf
    | _ => rfl

theorem opens_eq_some_iff {form : Form} {args : List Text} {kind : BlockKind} :
    form.opens? args = some kind ↔
      (form, kind) ∈ [(forRange, .forRange), (forEach, .forEach), (whileCond, .whileCond),
        (ifCond, .ifElse), (switch, .switch), (case, .case), (default, .default),
        (function, if args.head? = some ("void" : Text) then .procedure else .function)] := by
  cases form <;> simp [opens?, eq_comm]

theorem isRoutine_iff {form : Form} {args : List Text} {kind : BlockKind}
    (h : form.opens? args = some kind) : kind.isRoutine = true ↔ form = .function := by
  cases form with
  | function =>
    simp only [opens?, Option.some.injEq] at h
    rw [← h]
    split_ifs <;> simp [BlockKind.isRoutine]
  | forRange | forEach | whileCond | ifCond | switch | case | default =>
    cases h
    simp [BlockKind.isRoutine]
  | _ => cases h

end Form

theorem Statement.keyword_of_opens {target : Target} {s : Statement} {kind : BlockKind}
    (h : (s.form target).opens? s.args = some kind) :
    Form.ofKeyword? s.head = some (s.form target) := by
  unfold form at h ⊢
  by_cases hc : s.isComment = true
  · rw [if_pos hc] at h
    cases h
  by_cases hb : s.isBlank = true
  · rw [if_neg hc, if_pos hb] at h
    cases h
  by_cases ha : s.isAssignment = true
  · rw [if_neg hc, if_neg hb, if_pos ha] at h
    cases h
  rw [if_neg hc, if_neg hb, if_neg ha] at h ⊢
  cases hk : Form.ofKeyword? s.head with
  | none =>
    simp only [hk] at h
    split_ifs at h <;> cases h
  | some form =>
    cases form with
    | draw op =>
      simp only [hk] at h
      split_ifs at h <;> cases h
    | _ => rfl

section Source

variable {source : Text} {j : Nat}

theorem isRoutine_opening {setup : Setup} {i : Nat} {kind : BlockKind}
    (h : delimiterAt? setup source i = some (.opening kind)) :
    kind.isRoutine = true ↔ formAt? setup.target source i = some .function := by
  obtain ⟨line, s, hl, hs, -, ho⟩ := delimiterAt?_eq_opening_iff.mp h
  rw [Form.isRoutine_iff ho, formAt?, hl, Option.map_some, SourceLine.form_of_ofLine hs,
    Option.some.injEq]

/-- An `end` is refused if no block is open, and otherwise closes the innermost one. -/
theorem end_cases (setup : Setup) (h : formAt? setup.target source j = some .blockEnd) :
    (openers (delimiterAt? setup source) j = [] ∧
      ∃ f ∈ (Compilation.ofSource setup source).faults, f.line = j + 1 ∧ f.cause = .strayEnd) ∨
    ∃ (b : Block) (rest : List (Nat × BlockKind)) (depth : Nat) (l : OutputLine),
      openers (delimiterAt? setup source) j = b.opener :: rest ∧
      (¬ ∃ f ∈ (Compilation.ofSource setup source).faults, f.line = j + 1 ∧ f.cause = .strayEnd) ∧
      (Compilation.ofSource setup source).lines[j]? = some l ∧
      l.text = Text.indent depth setup.unit (setup.target.rename
        (setup.target.endBranch b (setup.target.spell (.blockEnd b.kind)))) ∧
      l.endsRoutine = b.kind.isRoutine := by
  obtain ⟨line, s, hl, hs, hf⟩ := exists_end_statement h
  have hopen : (Progress.before setup (SourceLine.ofSource source) j).nesting.map Block.opener =
      openers (delimiterAt? setup source) j :=
    openers_before (List.getElem?_eq_some_iff.mp hl).1.le
  have hfault : ∀ f : Fault, _ ↔
      ((Progress.before setup (SourceLine.ofSource source) j).step setup line).2.fault? = some f :=
    fun f => Compilation.mem_faults_iff hl
  have hlines := Compilation.getElem?_lines setup source j
  rw [hl, Option.map_some] at hlines
  generalize Progress.before setup (SourceLine.ofSource source) j = p at hopen hfault hlines
  cases hn : p.nesting with
  | nil =>
    have hr : Refused setup p line s .strayEnd := ⟨hs, by
      rw [hf, Progress.objection_end, Progress.enter_end, if_pos hn]⟩
    refine .inl ⟨by rw [← hopen, hn]; rfl, ?_⟩
    rw [hr.step_eq] at hfault
    obtain ⟨hmem, hline, -⟩ := (hfault _).mpr rfl
    exact ⟨_, hmem, hline, rfl⟩
  | cons b outer =>
    have ha : Accepted setup p line s := ⟨hs, by
      rw [hf, Progress.objection_end, Progress.enter_end, if_neg (by simp [hn])]⟩
    have hn' : (p.enter (s.form setup.target)).nesting = b :: outer := by
      rw [hf, Progress.enter_end, hn]
    rw [ha.step_eq] at hfault hlines
    refine .inr ⟨b, outer.map Block.opener, (p.behind setup s).depth (s.form setup.target),
      p.output setup s, by rw [← hopen, hn]; rfl, ?_, hlines, ?_, ?_⟩
    · rintro ⟨f, hmem, hline, hcause⟩
      cases (hfault f).mp ⟨hmem, hline, by rw [hcause]; rfl⟩
    · simp only [Progress.output, Progress.place, hf, Progress.enter_end, hn, Target.wording]
    · simp only [Progress.output, Progress.place, Progress.endsRoutine, hf,
        Accepted.closed_behind hf hn', Option.any_some, decide_true, Bool.true_and]

/-- A text leaves a block open if some opening line is without a partner, and the last such line is
the one that is told. -/
theorem unclosed_cases (setup : Setup) (source : Text) :
    (openers (delimiterAt? setup source) (SourceLine.ofSource source).length = [] ∧
      ∀ f ∈ (Compilation.ofSource setup source).faults, f.cause.isUnclosed = false) ∨
    ∃ (i : Nat) (kind : BlockKind) (line : SourceLine) (earlier : List Fault),
      (openers (delimiterAt? setup source) (SourceLine.ofSource source).length).head? =
        some (i, kind) ∧
      (SourceLine.ofSource source)[i]? = some line ∧
      (Compilation.ofSource setup source).faults =
        earlier ++ [⟨i + 1, line.range, .openBlock kind⟩] ∧
      ∀ f ∈ earlier, f.cause.isUnclosed = false := by
  have hopen : (Progress.before setup (SourceLine.ofSource source)
      (SourceLine.ofSource source).length).nesting.map Block.opener = _ := openers_before le_rfl
  have hfaults := Compilation.faults_eq setup source
  have hearlier : ∀ f ∈ (Progress.run setup {} (SourceLine.ofSource source)).2.filterMap
      Outcome.fault?, f.cause.isUnclosed = false := by
    intro f hf
    obtain ⟨k, line, -, hstep⟩ := Compilation.mem_lineFaults_iff.mp hf
    exact (Progress.fault_step hstep).2
  generalize Progress.before setup (SourceLine.ofSource source) _ = p at hopen hfaults
  cases hn : p.nesting with
  | nil =>
    refine .inl ⟨by rw [← hopen, hn]; rfl, ?_⟩
    rw [hfaults]
    simpa [Progress.unclosed?, Nesting.top?, hn] using hearlier
  | cons b outer =>
    have hhead : (openers (delimiterAt? setup source) (SourceLine.ofSource source).length).head? =
        some (b.line, b.kind) := by
      rw [← hopen, hn]
      rfl
    obtain ⟨rest, hcons⟩ := List.head?_eq_some_iff.mp hhead
    obtain ⟨-, hat, -, -⟩ := openers_eq_cons hcons
    obtain ⟨line, hl⟩ := exists_line_of_delimiter hat
    refine .inr ⟨b.line, b.kind, line, _, hhead, hl, ?_, hearlier⟩
    have hrange : (Compilation.ofSource setup source).lines[b.line]?.map OutputLine.range =
        some line.range := by
      rw [Compilation.getElem?_lines, hl, Option.map_some, Option.map_some, Progress.range_step]
    rw [hfaults]
    simp [Progress.unclosed?, Nesting.top?, hn, hrange]

end Source

/-- An `end` closes the block of its partner, and is refused if it has none. What has no partner at
the end of the text is never closed, and the last such line is told behind all other faults. -/
theorem compile_partners (target : Target) (options : Options) (source : Text) :
    let setup := Setup.ofOptions target options
    let c := Compilation.ofSource setup source
    let at? := delimiterAt? setup source
    (∀ i kind, at? i = some (.opening kind) ↔
      ∃ line s, (SourceLine.ofSource source)[i]? = some line ∧ Statement.ofLine line = .ok s ∧
        c.refuses i = false ∧
        (s.form target, kind) ∈ [(.forRange, .forRange), (.forEach, .forEach),
          (.whileCond, .whileCond), (.ifCond, .ifElse), (.switch, .switch), (.case, .case),
          (.default, .default),
          (.function, if s.args.head? = some ("void" : Text) then .procedure else .function)]) ∧
    (∀ i kind, at? i = some (.opening kind) →
      ∃ line s, (SourceLine.ofSource source)[i]? = some line ∧ Statement.ofLine line = .ok s ∧
        kind.tag = if s.head = ("fx" : Text) ∧ s.args.head? = some ("void" : Text)
          then ("proc" : Text) else s.head) ∧
    (∀ j, at? j = some .closing ↔ formAt? target source j = some .blockEnd) ∧
    (∀ j, formAt? target source j = some .blockEnd →
      ((∃ f ∈ c.faults, f.line = j + 1 ∧ f.cause = .strayEnd) ↔ ¬ ∃ i, Partners at? i j) ∧
      ∀ i kind, at? i = some (.opening kind) → Partners at? i j →
        ∃ depth text l, c.lines[j]? = some l ∧
          l.text = Text.indent depth options.unit (target.rename text) ∧
          (text = target.spell (.blockEnd kind) ∨
            target = .python ∧
              text = Python.fillerBefore kind (target.spell (.blockEnd kind))) ∧
          (l.endsRoutine = true ↔ formAt? target source i = some .function)) ∧
    ((∃ f ∈ c.faults, f.cause.isUnclosed = true) ↔
      ∃ i kind, at? i = some (.opening kind) ∧ ¬ ∃ j, Partners at? i j) ∧
    ∀ i kind, at? i = some (.opening kind) → (¬ ∃ j, Partners at? i j) →
      (∀ i' kind', i < i' → at? i' = some (.opening kind') → ∃ j, Partners at? i' j) →
      ∃ line earlier, (SourceLine.ofSource source)[i]? = some line ∧
        c.faults = earlier ++ [⟨i + 1, line.range, .openBlock kind⟩] ∧
        ∀ f ∈ earlier, f.cause.isUnclosed = false := by
  intro setup c at?
  -- a partner stands in the text
  have hin : ∀ i, (∃ j, Partners at? i j) ↔
      ∃ j < (SourceLine.ofSource source).length, Partners at? i j := fun i =>
    ⟨fun ⟨j, h⟩ => ⟨j, lt_of_delimiter h.closes, h⟩, fun ⟨j, _, h⟩ => ⟨j, h⟩⟩
  refine ⟨fun i kind => ?_, fun i kind hi => ?_, fun j => delimiterAt?_eq_closing_iff,
    fun j hj => ?_, ?_, fun i kind hi hno hlater => ?_⟩
  · simp only [at?, delimiterAt?_eq_opening_iff, Form.opens_eq_some_iff]
    rfl
  · obtain ⟨line, s, hl, hs, -, ho⟩ := delimiterAt?_eq_opening_iff.mp hi
    exact ⟨line, s, hl, hs, Form.tag_of_opens (Statement.keyword_of_opens ho) ho⟩
  · have hclosing : at? j = some .closing := delimiterAt?_eq_closing_iff.mpr hj
    rcases end_cases setup hj with ⟨hnil, hstray⟩ |
      ⟨b, rest, depth, l, hcons, hfine, hl, htext, hends⟩
    · have hnone : ¬ ∃ i, Partners at? i j := fun h => (exists_partner_iff hclosing).mp h hnil
      exact ⟨iff_of_true hstray hnone, fun i kind _ hp => absurd ⟨i, hp⟩ hnone⟩
    · refine ⟨iff_of_false hfine (not_not.mpr ((exists_partner_iff hclosing).mpr ?_)),
        fun i kind hi hp => ?_⟩
      · rw [hcons]
        exact List.cons_ne_nil _ _
      · have htop := (top_iff_partners hclosing hi).mpr hp
        rw [hcons, List.head?_cons, Option.some.injEq] at htop
        obtain ⟨rfl, rfl⟩ : b.line = i ∧ b.kind = kind := Prod.mk.injEq .. ▸ htop
        refine ⟨depth, _, l, hl, htext, ?_, hends ▸ isRoutine_opening hi⟩
        exact Target.endBranch_cases _ b _
  · rcases unclosed_cases setup source with ⟨hnil, hnone⟩ |
      ⟨i, kind, line, earlier, hhead, hl, hfaults, -⟩
    · refine iff_of_false (fun ⟨f, hf, hu⟩ => by simp [hnone f hf] at hu) ?_
      rintro ⟨i, kind, hi, hno⟩
      rw [hin] at hno
      have hmem := (mem_openers_iff hi (lt_of_delimiter hi)).mpr hno
      rw [hnil] at hmem
      cases hmem
    · have hmem : ⟨i + 1, line.range, .openBlock kind⟩ ∈ c.faults := by
        rw [show c.faults = _ from hfaults]
        simp
      refine iff_of_true ⟨_, hmem, rfl⟩ ?_
      obtain ⟨rest, hcons⟩ := List.head?_eq_some_iff.mp hhead
      obtain ⟨hlt, hi, -, -⟩ := openers_eq_cons hcons
      refine ⟨i, kind, hi, ?_⟩
      rw [hin]
      exact (mem_openers_iff hi hlt).mp (by simp [hcons])
  · have hhead := (head_openers_iff hi (lt_of_delimiter hi)).mpr
      ⟨(hin i).not.mp hno, fun i' kind' hlt _ hi' => (hin i').mp (hlater i' kind' hlt hi')⟩
    rcases unclosed_cases setup source with ⟨hnil, -⟩ |
      ⟨i', kind', line, earlier, hhead', hl, hfaults, hearlier⟩
    · rw [hnil] at hhead
      cases hhead
    · obtain ⟨rfl, rfl⟩ : i' = i ∧ kind' = kind := by simpa using hhead'.symm.trans hhead
      exact ⟨line, earlier, hl, hfaults, hearlier⟩

/-- A source with an `end` outside of all blocks, a loop that is refused and so has no partner, a
block inside of a procedure, and a loop that is left open. -/
def tangledSource : Text := "end\nfx void f\nfor i 0\nif x\nend\nend\nwhile y"

theorem compile_partners_tangled :
    let setup := Setup.ofOptions .cpp {}
    let c := Compilation.ofSource setup tangledSource
    let at? := delimiterAt? setup tangledSource
    (∃ f ∈ c.faults, f.line = 1 ∧ f.cause = .strayEnd) ∧ Partners at? 1 5 ∧
      (∃ l, c.lines[5]? = some l ∧ l.endsRoutine = true) ∧
      ∃ earlier, c.faults = earlier ++ [⟨7, ⟨35, 42⟩, .openBlock .whileCond⟩] := by
  intro setup c at?
  obtain ⟨-, -, -, hends, -, hopen⟩ := compile_partners .cpp {} tangledSource
  have hfx : at? 1 = some (.opening .procedure) := by decide +kernel
  have hpartners : Partners at? 1 5 :=
    ⟨by decide, ⟨_, hfx⟩, by decide +kernel,
      (show segment at? 2 5 = [.opening .ifElse, .closing] by decide +kernel) ▸ .block .nil .nil⟩
  have hlast : ∀ k d, at? k = some d → k < 7 := fun k d h => lt_of_delimiter h
  have hfirst := (hends 0 (by decide +kernel)).1.mpr fun ⟨i, h⟩ => absurd h.lt (by omega)
  refine ⟨hfirst, hpartners, ?_, ?_⟩
  · obtain ⟨-, -, l, hl, -, -, hroutine⟩ := (hends 5 (by decide +kernel)).2 1 _ hfx hpartners
    exact ⟨l, hl, hroutine.mpr (by decide +kernel)⟩
  · obtain ⟨line, earlier, hl, hfaults, -⟩ := hopen 6 .whileCond (by decide +kernel)
      (fun ⟨j, h⟩ => by have := h.lt; have := hlast _ _ h.closes; omega)
      (fun i' kind' hi hat => by have := hlast _ _ hat; omega)
    have hline : (SourceLine.ofSource tangledSource)[6]?.map SourceLine.range = some ⟨35, 42⟩ := by
      decide +kernel
    rw [hl, Option.map_some, Option.some.injEq] at hline
    exact ⟨earlier, hline ▸ hfaults⟩

end Pseudocode
