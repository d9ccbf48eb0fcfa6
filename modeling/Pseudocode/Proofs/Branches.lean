import Pseudocode.Proofs.PythonOutput

/-!
# Branches of blocks

A line that opens a block, or another branch of it, is followed by the lines of that branch. A
branch without a statement is given one. A branch that has statements, none of which speaks, is
`Muted`. What speaks first behind the header of a branch is deeper than the header unless the branch
is muted (`Reads.lead_iff`).
-/
namespace Pseudocode

open Text

/-- A line that was read: the number of blocks that are open in front of it, the form of its
statement, and its output. -/
structure Reading where
  depth : Nat
  form : Form
  output : OutputLine
  deriving DecidableEq, Repr

def Progress.readings (setup : Setup) (p : Progress) : List SourceLine → List Reading
  | [] => []
  | line :: lines =>
    ⟨p.nesting.length, line.form setup.target, (p.step setup line).2.line⟩ ::
      (p.step setup line).1.readings setup lines

namespace Reading

/-- Whether the line ends a branch inside of which `depth` blocks are open. -/
def endsBranch (depth : Nat) (r : Reading) : Bool := r.form.endsBranch && r.depth == depth

def inside (r : Reading) : Nat := if r.form.endsBranch then r.depth else r.depth + 1

def branch (depth : Nat) (after : List Reading) : List Reading :=
  after.takeWhile fun r => !r.endsBranch depth

/-- The branch that a line opens has a statement, by the forms of its lines, but no line of it in
the same part of the program speaks. -/
def Muted (r : Reading) (after : List Reading) : Prop :=
  (∃ x ∈ branch r.inside after, x.depth = r.inside ∧ x.form.givesBody = true) ∧
    ∀ x ∈ branch r.inside after,
      x.output.part = r.output.part → Python.holdsStatement x.output.text = false

instance (r : Reading) (after : List Reading) : Decidable (r.Muted after) :=
  inferInstanceAs (Decidable (_ ∧ _))

def linesIn (part : Part) (r : Reading) : List Text :=
  if r.output.part = part ∧ r.output.text ≠ [] then r.output.text.lines else []

def linesOf (part : Part) (rs : List Reading) : List Text := rs.flatMap (linesIn part)

theorem linesOf_cons (part : Part) (r : Reading) (rs : List Reading) :
    linesOf part (r :: rs) = r.linesIn part ++ linesOf part rs := rfl

theorem lead_linesIn (part : Part) (r : Reading) :
    lead? (r.linesIn part) = if r.output.part = part then lead? r.output.text.lines else none := by
  unfold linesIn
  by_cases hp : r.output.part = part
  · by_cases ht : r.output.text = []
    · simp [hp, ht]
      rfl
    · simp [hp, ht]
  · simp only [hp, false_and, if_false]
    rfl

theorem holdsStatement_eq (text : Text) :
    Python.holdsStatement text = (lead? text.lines).isSome := by
  rw [lead?, Option.isSome_map, List.isSome_find?]
  rfl

end Reading

theorem Accepted.readings_eq {setup : Setup} {p : Progress} {line : SourceLine} {s : Statement}
    (h : Accepted setup p line s) (lines : List SourceLine) :
    p.readings setup (line :: lines) =
      ⟨p.nesting.length, s.form setup.target, p.output setup s⟩ ::
        (p.behind setup s).readings setup lines := by
  rw [Progress.readings, h.step_eq, SourceLine.form, h.read]

variable {w : Nat} {strict : Bool} {p q : Progress} {lines : List SourceLine}
  {outs : List OutputLine}

/-- While no more than `depth` blocks of a part are open, what speaks first in it is no deeper. -/
theorem Reads.lead_le (h : Reads (.python w strict) p lines q outs)
    (hl : ∀ line ∈ lines, '\n' ∉ line.text) {part : Part} {depth : Nat} {tail : List Text}
    (ht : ∀ m, lead? tail = some m → m ≤ depth * w) (hp : p.nesting.openIn part ≤ depth) {m : Nat}
    (hm : lead? (Reading.linesOf part (p.readings (.python w strict) lines) ++ tail) = some m) :
    m ≤ depth * w := by
  induction h with
  | nil p => exact ht m hm
  | @cons p q line lines s outs head rest ih =>
    rw [head.readings_eq, Reading.linesOf_cons, List.append_assoc, lead_append,
      Reading.lead_linesIn] at hm
    have hl' : ∀ line ∈ lines, '\n' ∉ line.text := fun line h => hl line (by simp [h])
    by_cases hpart : (p.output (.python w strict) s).part = part
    · simp only [hpart, if_true] at hm
      rcases head.lead_le (hl line (by simp)) with ⟨k, hk, hle⟩ | ⟨hnone, hle⟩
      · rw [hk, Option.some_or, Option.some.injEq] at hm
        rw [hpart] at hle
        rw [← hm]
        exact hle.trans (Nat.mul_le_mul_right w hp)
      · rw [hnone, Option.none_or] at hm
        rw [hpart] at hle
        exact ih hl' (hle.trans hp) hm
    · simp only [hpart, if_false, Option.none_or] at hm
      have hcount := head.openIn_behind part
      simp only [Ne.symm hpart, and_false, if_false, Nat.add_zero] at hcount
      exact ih hl' (hcount.trans_le hp) hm

namespace Nesting

theorem openIn_append_le (inner n : Nesting) (part : Part) :
    openIn n part ≤ openIn (inner ++ n) part := by
  induction inner with
  | nil => exact le_rfl
  | cons b inner ih =>
    rw [List.cons_append, openIn_cons]
    omega

theorem part_congr {b c : Block} (h : b.kind = c.kind) (outer : Nesting) :
    part (b :: outer) = part (c :: outer) := by
  simp [part, inRoutine, h]

theorem openIn_congr {b c : Block} (h : b.kind = c.kind) (outer : Nesting) (part : Part) :
    openIn (b :: outer) part = openIn (c :: outer) part := by
  rw [openIn_cons, openIn_cons, part_congr h]

end Nesting

theorem Progress.enter_within {p : Progress} {inner : Nesting} {b : Block} {outer : Nesting}
    (hp : p.nesting = inner ++ b :: outer) (form : Form) :
    ∃ inner' b', (p.enter form).nesting = inner' ++ b' :: outer ∧ inner'.length = inner.length ∧
      b'.kind = b.kind ∧ b'.hasBody = (b.hasBody || (inner.isEmpty && form.givesBody)) := by
  unfold enter
  split_ifs with hg
  · cases inner with
    | nil =>
      exact ⟨[], { b with hasBody := true }, by simp [hp, Nesting.giveBody], rfl, rfl, by simp [hg]⟩
    | cons i inner =>
      exact ⟨{ i with hasBody := true } :: inner, b, by simp [hp, Nesting.giveBody], by simp, rfl,
        by simp⟩
  · exact ⟨inner, b, hp, rfl, rfl, by simp [hg]⟩

/-- A line inside of a block either ends the current branch, or leaves the block open, and is deeper
than the header if it belongs to the same part and speaks. -/
theorem Accepted.within {line : SourceLine} {s : Statement}
    (h : Accepted (.python w strict) p line s) (hl : '\n' ∉ line.text) (hw : 0 < w)
    {inner : Nesting} {b : Block} {outer : Nesting} (hp : p.nesting = inner ++ b :: outer)
    {depth : Nat} (hd : Nesting.openIn (b :: outer) (Nesting.part (b :: outer)) = depth + 1) :
    inner = [] ∧ (s.form .python).endsBranch = true ∨
      ¬ (inner = [] ∧ (s.form .python).endsBranch = true) ∧
      (∃ inner' b', (p.behind (.python w strict) s).nesting = inner' ++ b' :: outer ∧
        b'.kind = b.kind ∧
        b'.hasBody = (b.hasBody || (inner.isEmpty && (s.form .python).givesBody))) ∧
      ((p.output (.python w strict) s).part = Nesting.part (b :: outer) →
        ∀ m, lead? (p.output (.python w strict) s).text.lines = some m → depth * w < m) := by
  obtain ⟨inner', b', hn, hlen, hkind, hbody⟩ := p.enter_within hp (s.form .python)
  have hdeep : depth * w < (depth + 1) * w := by
    rw [Nat.add_mul]
    omega
  -- the open blocks of the part are those around the block, the block itself, and maybe more
  have hopen : depth + 1 ≤ p.nesting.openIn (Nesting.part (b :: outer)) := by
    rw [hp, ← hd]
    exact Nesting.openIn_append_le ..
  have hopen' := hdeep.trans_le (Nat.mul_le_mul_right w hopen)
  cases h.turn with
  | opens kind ho hq =>
    have hend := Form.endsBranch_of_opens ho
    refine .inr ⟨by simp [hend],
      ⟨⟨kind, s.line.index, false⟩ :: inner', b', ?_, hkind, hbody⟩, fun hpart m hm => ?_⟩
    · rw [hq, Nesting.push, show (p.enter _).nesting = _ from hn]
      rfl
    · rw [h.lead_opens hl ho, hpart, Option.some.injEq] at hm
      exact hm ▸ hopen'
  | branches c rest hf _ hc hq =>
    obtain ⟨-, hend, ho, -, hr⟩ := Form.branch_spec hf
    have hsplit := hn.symm.trans hc
    cases inner' with
    | nil => exact .inl ⟨List.length_eq_zero_iff.mp hlen.symm, hend⟩
    | cons i inner' =>
      obtain ⟨rfl, rfl⟩ := List.cons.inj hsplit
      obtain ⟨j, inner, rfl⟩ : ∃ j js, inner = j :: js :=
        List.exists_cons_of_length_eq_add_one hlen.symm
      refine .inr ⟨by simp, ⟨{ i with hasBody := false } :: inner', b', hq, hkind, hbody⟩,
        fun hpart m hm => ?_⟩
      -- the branch belongs to a block inside of the one that is looked at
      have hown : p.nesting.part = Nesting.part (b :: outer) :=
        (h.part_output_inner (ho _) hr).symm.trans hpart
      have hmore : depth + 2 ≤ p.nesting.openIn (Nesting.part (b :: outer)) := by
        have := Nesting.openIn_append_le inner (b :: outer) (Nesting.part (b :: outer))
        rw [← hown, hp, List.cons_append, Nesting.openIn_cons, ← List.cons_append, ← hp, hown]
        simp only [if_true]
        omega
      rw [h.lead_branches hl hf hc, hpart, Option.some.injEq] at hm
      rw [← hm]
      split_ifs
      · exact hdeep.trans_le (Nat.mul_le_mul_right w (by omega))
      · exact hopen'
  | closes c rest he hc hq =>
    have hend : (s.form .python).endsBranch = true := by rw [he]; rfl
    have hsplit := hn.symm.trans hc
    cases inner' with
    | nil => exact .inl ⟨List.length_eq_zero_iff.mp hlen.symm, hend⟩
    | cons i inner' =>
      obtain ⟨rfl, rfl⟩ := List.cons.inj hsplit
      have hne : inner ≠ [] := by
        rintro rfl
        cases hlen
      refine .inr ⟨by simp [hne], ⟨inner', b', hq, hkind, hbody⟩, fun hpart m hm => ?_⟩
      rw [h.lead_closes he hc, hpart] at hm
      split_ifs at hm
      rw [Option.some.injEq] at hm
      exact hm ▸ hopen'
  | stays hf he hq =>
    have hend := Form.endsBranch_of_stays hf he
    refine .inr ⟨by simp [hend], ⟨inner', b', hq.trans hn, hkind, hbody⟩, fun hpart m hm => ?_⟩
    rcases h.lead_stays hl hf he with hlead | hlead
    · simp [hlead] at hm
    · rw [hlead, hpart, Option.some.injEq] at hm
      exact hm ▸ hopen'

/-- The line that ends a branch fills it if it has no statement. Otherwise it is no deeper than the
header. -/
theorem Accepted.lead_ends {line : SourceLine} {s : Statement}
    (h : Accepted (.python w strict) p line s) (hl : '\n' ∉ line.text)
    (hend : (s.form .python).endsBranch = true) {b : Block} {outer : Nesting}
    (hp : p.nesting = b :: outer) {depth : Nat}
    (hd : Nesting.openIn (b :: outer) (Nesting.part (b :: outer)) = depth + 1) :
    (p.output (.python w strict) s).part = Nesting.part (b :: outer) ∧
      if b.hasBody then
        lead? (p.output (.python w strict) s).text.lines = some (depth * w) ∨
          lead? (p.output (.python w strict) s).text.lines = none ∧
            (p.behind (.python w strict) s).nesting.openIn (Nesting.part (b :: outer)) ≤ depth
      else lead? (p.output (.python w strict) s).text.lines = some ((depth + 1) * w) := by
  obtain ⟨hcases, hgives, ho, hr⟩ := Form.endsBranch_spec hend
  have hn : (p.enter (s.form .python)).nesting = b :: outer := by
    rw [Progress.enter, hgives, if_neg Bool.false_ne_true, hp]
  have hpart : (p.output (.python w strict) s).part = Nesting.part (b :: outer) := by
    rw [h.part_output_inner (ho _) hr, hp]
  refine ⟨hpart, ?_⟩
  rcases hcases with he | hf
  · have hlead := h.lead_closes he hn
    rw [hpart, hp, hd] at hlead
    cases hb : b.hasBody with
    | true =>
      have hcount := h.openIn_behind (Nesting.part (b :: outer))
      simp only [he, hpart, and_self, if_true, Form.opens?, Option.isSome_none, Bool.false_eq_true,
        false_and, if_false, Nat.add_zero, hp, hd] at hcount
      exact .inr ⟨by simpa [hb] using hlead, by omega⟩
    | false => simpa [hb] using hlead
  · have hlead := h.lead_branches hl hf hn
    rw [hpart, hp, hd] at hlead
    cases hb : b.hasBody with
    | true => exact .inl (by simpa [hb] using hlead)
    | false => simpa [hb] using hlead

/-- What speaks first behind the start of a branch, in the part of the branch, is deeper than the
header exactly if the branch is still without a statement and stays so, or something in it speaks.
-/
theorem Reads.lead_iff (h : Reads (.python w strict) p lines q outs)
    (hl : ∀ line ∈ lines, '\n' ∉ line.text) (hw : 0 < w) (hq : q.nesting = []) {tail : List Text}
    (ht : ∀ m, lead? tail = some m → m = 0) {inner : Nesting} {b : Block} {outer : Nesting}
    (hp : p.nesting = inner ++ b :: outer) {depth : Nat}
    (hd : Nesting.openIn (b :: outer) (Nesting.part (b :: outer)) = depth + 1) :
    (∃ m, lead? (Reading.linesOf (Nesting.part (b :: outer))
        (p.readings (.python w strict) lines) ++ tail) = some m ∧ depth * w < m) ↔
      (b.hasBody = false ∧
        ∀ x ∈ Reading.branch (outer.length + 1) (p.readings (.python w strict) lines),
          ¬ (x.depth = outer.length + 1 ∧ x.form.givesBody = true)) ∨
      ∃ x ∈ Reading.branch (outer.length + 1) (p.readings (.python w strict) lines),
        x.output.part = Nesting.part (b :: outer) ∧
          Python.holdsStatement x.output.text = true := by
  induction h generalizing inner b with
  | nil p => simp [hp] at hq
  | @cons p q line lines s outs head rest ih =>
    have hl' : ∀ line ∈ lines, '\n' ∉ line.text := fun line h => hl line (by simp [h])
    rw [head.readings_eq, Reading.linesOf_cons, List.append_assoc, lead_append,
      Reading.lead_linesIn]
    rcases head.within (hl line (by simp)) hw hp hd with
      ⟨rfl, hend⟩ | ⟨hgo, ⟨inner', b', hn, hkind, hbody⟩, hdeep⟩
    · -- the branch ends here
      obtain ⟨hpart, hlead⟩ := head.lead_ends (hl line (by simp)) hend hp hd
      have hbranch : ∀ rs, Reading.branch (outer.length + 1)
          (⟨p.nesting.length, s.form .python, p.output (.python w strict) s⟩ :: rs) = [] := by
        simp [Reading.branch, Reading.endsBranch, hend, hp]
      rw [hbranch, if_pos hpart]
      simp only [List.not_mem_nil, false_imp_iff, implies_true, and_true, false_and, exists_false,
        or_false]
      cases hb : b.hasBody with
      | true =>
        simp only [hb, if_true] at hlead
        refine iff_of_false ?_ (by simp)
        rintro ⟨m, hm, hlt⟩
        rcases hlead with hlead | ⟨hlead, hle⟩
        · rw [hlead, Option.some_or, Option.some.injEq] at hm
          omega
        · rw [hlead, Option.none_or] at hm
          have ht' : ∀ m, lead? tail = some m → m ≤ depth * w := fun m hm => by simp [ht m hm]
          have := rest.lead_le hl' ht' hle hm
          omega
      | false =>
        simp only [hb, Bool.false_eq_true, if_false] at hlead
        refine iff_of_true ⟨_, by rw [hlead, Option.some_or], ?_⟩ rfl
        rw [Nat.add_mul]
        omega
    · -- the branch goes on, and the block takes note of a statement that stands in it directly
      have hdirect : p.nesting.length = outer.length + 1 ↔ inner = [] := by
        rw [hp, List.length_append, List.length_cons, ← List.length_eq_zero_iff]
        omega
      have hbranch : ∀ rs, Reading.branch (outer.length + 1)
          (⟨p.nesting.length, s.form .python, p.output (.python w strict) s⟩ :: rs) =
            ⟨p.nesting.length, s.form .python, p.output (.python w strict) s⟩ ::
              Reading.branch (outer.length + 1) rs := by
        intro rs
        refine List.takeWhile_cons_of_pos ?_
        simp only [Reading.endsBranch, Bool.not_eq_true', Bool.and_eq_false_imp,
          beq_eq_false_iff_ne]
        exact fun he hlen => hgo ⟨hdirect.mp hlen, he⟩
      have hflag : b'.hasBody = false ↔ b.hasBody = false ∧
          ¬ (p.nesting.length = outer.length + 1 ∧ (s.form .python).givesBody = true) := by
        rw [hbody, hdirect, Bool.or_eq_false_iff, Bool.and_eq_false_imp, List.isEmpty_iff]
        simp
      have hi := ih hl' hq hn
        (by rw [Nesting.part_congr hkind, Nesting.openIn_congr hkind, hd])
      rw [Nesting.part_congr hkind, hflag, and_assoc] at hi
      rw [hbranch]
      simp only [List.forall_mem_cons, List.exists_mem_cons_iff]
      by_cases hspeak : (p.output (.python w strict) s).part = Nesting.part (b :: outer) ∧
          Python.holdsStatement (p.output (.python w strict) s).text = true
      · obtain ⟨hpart, hholds⟩ := hspeak
        rw [Reading.holdsStatement_eq, Option.isSome_iff_exists] at hholds
        obtain ⟨m, hm⟩ := hholds
        rw [if_pos hpart, hm, Option.some_or]
        exact iff_of_true ⟨m, rfl, hdeep hpart m hm⟩
          (.inr (.inl ⟨hpart, by rw [Reading.holdsStatement_eq, hm]; rfl⟩))
      · have hlead : (if (p.output (.python w strict) s).part = Nesting.part (b :: outer) then
            lead? (p.output (.python w strict) s).text.lines else none) = none := by
          split_ifs with hpart
          · have := fun hh => hspeak ⟨hpart, hh⟩
            simpa [Reading.holdsStatement_eq] using this
          · rfl
        rw [hlead, Option.none_or]
        simp only [hspeak, false_or]
        exact hi

end Pseudocode
