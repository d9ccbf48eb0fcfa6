import Pseudocode.Proofs.Hoisting

/-!
# Fillers

A block remembers one bit: whether its current branch holds a statement. The bit is set and taken
back as lines come and go, and hidden while an inner block is open. What it says is a fact about
lines: some line since the latest header of the block stands directly in it and has the form of a
statement (`hasBody_before_iff`). So the body of an empty branch is put in front of an `end` or of
another branch exactly if there is no such line (`compile_fillers`).
-/
namespace Pseudocode

open Delimiter

section Lines

variable (setup : Setup) (source : Text)

def StandsIn (i k : Nat) : Prop := ∃ kind, Innermost (delimiterAt? setup source) i kind k

/-- Line `k` stands directly in the block that line `i` opens, and has the form of a statement. -/
def GivesBody (i k : Nat) : Prop :=
  StandsIn setup source i k ∧
    ∃ form, formAt? setup.target source k = some form ∧ form.givesBody = true

def StartsBranch (i k : Nat) : Prop :=
  StandsIn setup source i k ∧ (Compilation.ofSource setup source).refuses k = false ∧
    ∃ form, formAt? setup.target source k = some form ∧ (form = .elseIf ∨ form = .otherwise)

/-- Line `b` is the latest header, in front of line `j`, of the block that line `i` opens: that line
itself, or the latest one that started another branch. -/
structure LatestHeader (i b j : Nat) : Prop where
  lt : b < j
  header : b = i ∨ StartsBranch setup source i b
  latest : ∀ k, b < k → k < j → ¬ StartsBranch setup source i k

/-- Some line has given a body to the block that line `i` opens, and no line has started another
branch since. -/
def Filled (i j : Nat) : Prop :=
  ∃ k < j, GivesBody setup source i k ∧ ∀ c, k < c → c < j → ¬ StartsBranch setup source i c

end Lines

section Filled

variable {setup : Setup} {source : Text} {i j k b : Nat}

theorem GivesBody.lt (h : GivesBody setup source i k) : i < k := by
  obtain ⟨⟨kind, hin⟩, -⟩ := h
  exact hin.lt

theorem GivesBody.not_startsBranch (h : GivesBody setup source i k) :
    ¬ StartsBranch setup source i k := by
  rintro ⟨-, -, form', hf', hbranch⟩
  obtain ⟨-, form, hf, hgives⟩ := h
  obtain rfl : form = form' := Option.some.inj (hf.symm.trans hf')
  obtain ⟨-, hend, -⟩ := Form.branch_spec hbranch
  simp [(Form.endsBranch_spec hend).2.1] at hgives

theorem filled_succ : Filled setup source i (j + 1) ↔
    GivesBody setup source i j ∨ (Filled setup source i j ∧ ¬ StartsBranch setup source i j) := by
  constructor
  · rintro ⟨k, hk, hgives, hlatest⟩
    rcases Nat.lt_succ_iff_lt_or_eq.mp hk with hlt | rfl
    · exact .inr ⟨⟨k, hlt, hgives, fun c hkc hcj => hlatest c hkc (by omega)⟩,
        hlatest j hlt (by omega)⟩
    · exact .inl hgives
  · rintro (hgives | ⟨⟨k, hk, hgives, hlatest⟩, hno⟩)
    · exact ⟨j, by omega, hgives, fun c hjc hcj => by omega⟩
    · refine ⟨k, by omega, hgives, fun c hkc hcj => ?_⟩
      rcases Nat.lt_succ_iff_lt_or_eq.mp hcj with hlt | rfl
      · exact hlatest c hkc hlt
      · exact hno

theorem exists_latestHeader (h : i < j) : ∃ b, LatestHeader setup source i b j := by
  induction j, h using Nat.le_induction with
  | base => exact ⟨i, by omega, .inl rfl, fun k hik hki => by omega⟩
  | succ j hij ih =>
    by_cases hj : StartsBranch setup source i j
    · exact ⟨j, by omega, .inr hj, fun k hjk hkj => by omega⟩
    · obtain ⟨b, hlt, hheader, hlatest⟩ := ih
      refine ⟨b, by omega, hheader, fun k hbk hkj => ?_⟩
      rcases Nat.lt_succ_iff_lt_or_eq.mp hkj with hlt' | rfl
      · exact hlatest k hbk hlt'
      · exact hj

/-- A branch is filled if a line between its header and its end gives it a body. -/
theorem filled_iff (h : LatestHeader setup source i b j) :
    Filled setup source i j ↔ ∃ k, b < k ∧ k < j ∧ GivesBody setup source i k := by
  constructor
  · rintro ⟨k, hkj, hgives, hlatest⟩
    have hik := hgives.lt
    have hbk : b < k := by
      rcases h.header with rfl | hcont
      · exact hik
      · by_contra hle
        rcases Nat.lt_or_eq_of_le (not_lt.mp hle) with hkb | rfl
        · exact hlatest b hkb h.lt hcont
        · exact hgives.not_startsBranch hcont
    exact ⟨k, hbk, hkj, hgives⟩
  · rintro ⟨k, hbk, hkj, hgives⟩
    exact ⟨k, hkj, hgives, fun c hkc hcj => h.latest c (by omega) hcj⟩

end Filled

/-! ### The bit of a block -/

namespace Nesting

theorem touched_cons (top : Block) (outer : Nesting) (form : Form) (refused : Bool) :
    touched (top :: outer) form refused =
      { top with
        hasBody := form.givesBody ||
          (top.hasBody && !decide (refused = false ∧ (form = .elseIf ∨ form = .otherwise))) } ::
        outer := by
  unfold touched
  split_ifs with hg hb
  · simp [giveBody, hg]
  · simp [startBranch, hg, hb]
  · simp [hg, hb]

/-- A delimiter leaves the blocks as they are that stay open, and a new one is without a body. -/
theorem mem_delimited {n : Nesting} {k : Nat} {d : Option Delimiter} {b : Block}
    (h : b ∈ n.delimited k d) : b ∈ n ∨ (b.line = k ∧ b.hasBody = false) := by
  rcases d with _ | (kind | _)
  · exact .inl h
  · rcases List.mem_cons.mp h with rfl | h
    · exact .inr ⟨rfl, rfl⟩
    · exact .inl h
  · exact .inl (List.mem_of_mem_tail h)

end Nesting

section Bit

variable {setup : Setup} {source : Text} {k : Nat} {top : Block} {outer : Nesting}

/-- The block in which a line stands directly is the innermost one in front of it. -/
theorem standsIn_iff (hk : k ≤ (SourceLine.ofSource source).length)
    (hn : (Progress.before setup (SourceLine.ofSource source) k).nesting = top :: outer) {i : Nat} :
    StandsIn setup source i k ↔ i = top.line := by
  have hopen : (top :: outer).map Block.opener = openers (delimiterAt? setup source) k := by
    rw [← hn]
    exact openers_before hk
  constructor
  · rintro ⟨kind, hin⟩
    rw [innermost_iff, ← hopen] at hin
    cases hin
    rfl
  · rintro rfl
    refine ⟨top.kind, ?_⟩
    rw [innermost_iff, ← hopen]
    rfl

/-- The bit of every open block tells whether its branch is filled. -/
theorem hasBody_before_iff (hk : k ≤ (SourceLine.ofSource source).length) {b : Block}
    (hb : b ∈ (Progress.before setup (SourceLine.ofSource source) k).nesting) :
    b.hasBody = true ↔ Filled setup source b.line k := by
  induction k generalizing b with
  | zero => cases hb
  | succ k ih =>
    have hl := List.getElem?_eq_getElem hk
    have hform := formAt?_of_getElem? setup.target hl
    have ih := fun c hc => ih (b := c) (by omega) hc
    rw [Progress.before_succ hl, Progress.nesting_step, ← refuses_eq hl] at hb
    rcases Nesting.mem_delimited hb with hb | ⟨hline, hbit⟩
    · cases hn : (Progress.before setup (SourceLine.ofSource source) k).nesting with
      | nil => simp [hn, Nesting.touched, Nesting.giveBody, Nesting.startBranch] at hb
      | cons top outer =>
        have hin := fun i => standsIn_iff (i := i) (by omega) hn
        have hlines := pairwise_openers (delimiterAt? setup source) k
        rw [← openers_before (by omega), hn, List.map_cons, List.pairwise_cons] at hlines
        rw [hn] at ih hb
        rw [Nesting.touched_cons] at hb
        rw [filled_succ, GivesBody, StartsBranch, hin, hform]
        rcases List.mem_cons.mp hb with rfl | hb
        · have htop := ih top List.mem_cons_self
          cases (Compilation.ofSource setup source).refuses k <;> simp [htop]
        · have hne : b.line ≠ top.line := by
            have hlt := hlines.1 b.opener (List.mem_map_of_mem hb)
            exact hlt.ne
          simp [hne, ih b (List.mem_cons_of_mem _ hb)]
    · -- a new block has no line behind its first one
      rw [hbit, hline, SourceLine.index_of_getElem? hl]
      refine iff_of_false (by simp) ?_
      rintro ⟨k', hk', hgives, -⟩
      have := hgives.lt
      omega

end Bit

/-! ### What stands at the end of a branch -/

/-- The text of an `end`, or of another branch, of a block whose branch before it has a body. -/
def Target.plainEnd (t : Target) (kind : BlockKind) (s : Statement) (form : Form) : Text :=
  t.spell (if form = .blockEnd then .blockEnd kind else s.phrase t form)

theorem Accepted.exists_wording {setup : Setup} {p : Progress} {line : SourceLine} {s : Statement}
    (h : Accepted setup p line s) (he : (s.form setup.target).endsBranch = true) :
    ∃ top outer, p.nesting = top :: outer ∧
      p.wording? setup line = some (setup.target.endBranch top
        (setup.target.plainEnd top.kind s (s.form setup.target))) := by
  have hword := Progress.wording_of_accepted h
  obtain ⟨hform, hg, -⟩ := Form.endsBranch_spec he
  have henter : p.enter (s.form setup.target) = p := by
    rw [Progress.enter, hg]
    rfl
  rcases hform with hf | hbranch
  · obtain ⟨top, outer, hn⟩ := h.end_nesting hf
    rw [henter] at hn hword
    refine ⟨top, outer, hn, ?_⟩
    rw [hword, hn, hf]
    rfl
  · obtain ⟨top, outer, hn, -⟩ := h.branch_nesting hbranch
    rw [henter] at hn hword
    refine ⟨top, outer, hn, ?_⟩
    rw [hword, hn, Target.plainEnd, if_neg (Form.branch_spec hbranch).2.2.2.1]
    rcases hbranch with hf | hf <;> rw [hf] <;> rfl

/-- The end of a branch is told by the lines since the latest header of the block. -/
theorem exists_wordingAt {setup : Setup} {source : Text} {j : Nat} {line : SourceLine}
    {s : Statement} (hl : (SourceLine.ofSource source)[j]? = some line)
    (ha : Accepted setup (Progress.before setup (SourceLine.ofSource source) j) line s)
    (he : (s.form setup.target).endsBranch = true) :
    ∃ b : Block, Innermost (delimiterAt? setup source) b.line b.kind j ∧
      (b.hasBody = true ↔ Filled setup source b.line j) ∧
      wordingAt? setup source j = some (setup.target.endBranch b
        (setup.target.plainEnd b.kind s (s.form setup.target))) := by
  obtain ⟨top, outer, hn, hword⟩ := ha.exists_wording he
  have hj := (List.getElem?_eq_some_iff.mp hl).1.le
  refine ⟨top, ?_, hasBody_before_iff hj (by simp [hn]), ?_⟩
  · rw [innermost_iff, ← openers_before hj, hn]
    rfl
  · rw [wordingAt?, hl, Option.bind_some, hword]

/-- In a source that compiles, an `end` or another branch stands in some block. Its text is the
plain one, unless the language is Python and no line since the latest header of the block stands
directly in it and has the form of a statement. Then the body of an empty branch is put in front. -/
theorem compile_fillers {target : Target} {options : Options} {source text : Text}
    (h : compile target options source = .ok text) :
    let setup := Setup.ofOptions target options
    let c := Compilation.ofSource setup source
    ∀ (j : Nat) (line : SourceLine) (s : Statement),
      (SourceLine.ofSource source)[j]? = some line → Statement.ofLine line = .ok s →
      (s.form target).endsBranch = true →
      ∃ i kind l depth t,
        Innermost (delimiterAt? setup source) i kind j ∧
        wordingAt? setup source j = some t ∧ c.lines[j]? = some l ∧
        l.text = Text.indent depth options.unit (target.rename t) ∧
        (∃ b, LatestHeader setup source i b j) ∧
        ∀ b, LatestHeader setup source i b j →
          ((target ≠ .python ∨ ∃ k, b < k ∧ k < j ∧ GivesBody setup source i k) →
            t = target.plainEnd kind s (s.form target)) ∧
          ((target = .python ∧ ¬ ∃ k, b < k ∧ k < j ∧ GivesBody setup source i k) →
            t = Python.fillerBefore kind (target.plainEnd kind s (s.form target))) := by
  intro setup c j line s hl hs he
  obtain ⟨s', ha⟩ := accepted_at (Compilation.faults_of_compile h) hl
  obtain rfl : s = s' := Except.ok.inj (hs.symm.trans ha.read)
  obtain ⟨block, hin, hbit, hword⟩ := exists_wordingAt hl ha he
  obtain ⟨l, depth, hline, htext⟩ := text_of_wordingAt hword
  refine ⟨block.line, block.kind, l, depth, _, hin, hword, hline, htext,
    exists_latestHeader hin.lt, fun b hb => ?_⟩
  rw [filled_iff hb] at hbit
  rw [Target.endBranch_eq]
  constructor
  · rintro (hother | hgives)
    · exact if_neg fun hboth => hother hboth.1
    · exact if_neg fun hboth => by simp [hbit.mpr hgives] at hboth
  · rintro ⟨hpython, hnone⟩
    exact if_pos ⟨hpython, by simpa [hnone] using hbit⟩

/-- A branch with an empty loop, and one with nothing but a remark. -/
def remarkedSource : Text := "if a\nwhile b\nend\nelse\n// later\nend"

/-- The loop is a statement of the first branch, and needs a body itself. The second branch gets one
because the remark is no statement. -/
theorem compile_fillers_remark :
    let setup := Setup.ofOptions .python {}
    (∃ text, compile .python {} remarkedSource = .ok text) ∧
      wordingAt? setup remarkedSource 2 = some "\tpass" ∧
      wordingAt? setup remarkedSource 3 = some "else:" ∧
      wordingAt? setup remarkedSource 5 = some "\tpass" ∧
      ∃ i kind b, Innermost (delimiterAt? setup remarkedSource) i kind 5 ∧
        LatestHeader setup remarkedSource i b 5 ∧
        ¬ ∃ k, b < k ∧ k < 5 ∧ GivesBody setup remarkedSource i k := by
  intro setup
  have hok := compile_eq_ok (show (Compilation.ofSource setup remarkedSource).faults = [] by
    decide +kernel)
  have hword : wordingAt? setup remarkedSource 5 = some "\tpass" := by decide +kernel
  refine ⟨⟨_, hok⟩, by decide +kernel, by decide +kernel, hword, ?_⟩
  have hl : (SourceLine.ofSource remarkedSource)[5]? = some (.placed 5 31 "end") := by
    decide +kernel
  have hform : Statement.form .python ⟨.placed 5 31 "end", "end", [], false⟩ = .blockEnd := by
    decide +kernel
  obtain ⟨i, kind, l, depth, t, hin, ht, -, -, ⟨b, hb⟩, hall⟩ :=
    compile_fillers hok 5 _ ⟨.placed 5 31 "end", "end", [], false⟩ hl (by decide +kernel)
      (by rw [hform]; rfl)
  refine ⟨i, kind, b, hin, hb, fun hgives => ?_⟩
  -- an `end` has no text of its own in Python, so a text means that there is no statement
  have hplain := (hall b hb).1 (.inr hgives)
  rw [hform] at hplain
  rw [ht, hplain] at hword
  exact absurd hword (by cases kind <;> decide)

end Pseudocode
