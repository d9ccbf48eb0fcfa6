import Pseudocode.Proofs.Acceptance

/-!
# The open blocks of a part

Functions are moved out of the blocks in which they are written. So the open blocks are split at the
outermost function: it and the blocks inside of it belong to the functions, and those around it to
the main algorithm. `openIn` counts the blocks of a part. The depth of a line is the number of open
blocks of its own part (`depth_eq`), and an accepted line changes the count of its own part only
(`Accepted.openIn_behind`).
-/
namespace Pseudocode

theorem Program.textsOf_append (part : Part) (ls ms : List OutputLine) :
    textsOf part (ls ++ ms) = textsOf part ls ++ textsOf part ms := by
  simp [textsOf]

namespace Form

def endsBranch : Form → Bool
  | elseIf | otherwise | blockEnd => true
  | _ => false

theorem branch_spec {form : Form} (h : form = .elseIf ∨ form = .otherwise) :
    form.opensBlock = true ∧ form.endsBranch = true ∧ (∀ args, form.opens? args = none) ∧
      form ≠ .blockEnd ∧ form ≠ .record := by
  rcases h with rfl | rfl <;> simp [opensBlock, endsBranch, opens?]

theorem endsBranch_of_opens {form : Form} {args : List Text} {kind : BlockKind}
    (h : form.opens? args = some kind) : form.endsBranch = false := by
  cases form <;> simp_all [opens?, endsBranch]

theorem endsBranch_of_stays {form : Form} (h : form.opensBlock = false) (he : form ≠ .blockEnd) :
    form.endsBranch = false := by
  cases form <;> simp_all [opensBlock, endsBranch]

theorem endsBranch_spec {form : Form} (h : form.endsBranch = true) :
    (form = .blockEnd ∨ form = .elseIf ∨ form = .otherwise) ∧ form.givesBody = false ∧
      (∀ args, form.opens? args = none) ∧ form ≠ .record := by
  cases form <;> simp_all [endsBranch, givesBody, opens?]

end Form

namespace Nesting

def part (n : Nesting) : Part := if n.inRoutine then .functions else .main

def openIn (n : Nesting) : Part → Nat
  | .declarations => 0
  | .functions => n.length - n.outerBlocks?.getD n.length
  | .main => n.outerBlocks?.getD n.length

theorem outerBlocks?_eq_none_iff (n : Nesting) : n.outerBlocks? = none ↔ n.inRoutine = false := by
  induction n with
  | nil => simp [outerBlocks?, inRoutine]
  | cons b outer ih =>
    cases h : outerBlocks? outer with
    | none => simp_all [outerBlocks?, inRoutine]
    | some base => simp_all [outerBlocks?, inRoutine]

theorem exists_outerBlocks {n : Nesting} (h : n.inRoutine = true) :
    ∃ base, n.outerBlocks? = some base := by
  cases ho : n.outerBlocks? with
  | none => simp [(outerBlocks?_eq_none_iff n).mp ho] at h
  | some base => exact ⟨base, rfl⟩

theorem outerBlocks?_lt {n : Nesting} {base : Nat} (h : n.outerBlocks? = some base) :
    base < n.length := by
  induction n generalizing base with
  | nil => cases h
  | cons b outer ih =>
    unfold outerBlocks? at h
    split at h
    · next h' =>
      have := ih h'
      simp only [Option.some.injEq] at h
      simp only [List.length_cons]
      omega
    · split_ifs at h
      simp only [Option.some.injEq] at h
      simp [← h]

@[simp] theorem openIn_nil (part : Part) : openIn [] part = 0 := by cases part <;> rfl

theorem openIn_declarations (n : Nesting) : openIn n .declarations = 0 := rfl

theorem openIn_cons (b : Block) (n : Nesting) (part : Part) :
    openIn (b :: n) part = openIn n part + if part = Nesting.part (b :: n) then 1 else 0 := by
  cases h : n.outerBlocks? with
  | some base =>
    have hr : n.inRoutine = true := by
      by_contra hr
      simp [(outerBlocks?_eq_none_iff n).mpr (by simpa using hr)] at h
    have hp : Nesting.part (b :: n) = .functions := by simp_all [Nesting.part, inRoutine]
    have := outerBlocks?_lt h
    cases part <;> simp [openIn, outerBlocks?, h, hp]
    omega
  | none =>
    have hr := (outerBlocks?_eq_none_iff n).mp h
    by_cases hb : b.kind.isRoutine = true
    · have hp : Nesting.part (b :: n) = .functions := by simp_all [Nesting.part, inRoutine]
      cases part <;> simp [openIn, outerBlocks?, h, hp, hb]
    · have hp : Nesting.part (b :: n) = .main := by simp_all [Nesting.part, inRoutine]
      cases part <;> simp [openIn, outerBlocks?, h, hp, hb]

@[simp] theorem part_giveBody (n : Nesting) : n.giveBody.part = n.part := by cases n <;> rfl

@[simp] theorem openIn_giveBody (n : Nesting) (part : Part) :
    n.giveBody.openIn part = n.openIn part := by
  cases n <;> rfl

end Nesting

namespace Progress

@[simp] theorem part_enter (p : Progress) (form : Form) :
    (p.enter form).nesting.part = p.nesting.part := by
  unfold enter
  split <;> simp

@[simp] theorem length_enter (p : Progress) (form : Form) :
    (p.enter form).nesting.length = p.nesting.length := by
  unfold enter
  split
  · cases p.nesting <;> rfl
  · rfl

@[simp] theorem inRoutine_enter (p : Progress) (form : Form) :
    (p.enter form).nesting.inRoutine = p.nesting.inRoutine := by
  unfold enter
  split
  · cases hn : p.nesting <;> simp [Nesting.giveBody, Nesting.inRoutine]
  · rfl

@[simp] theorem openIn_enter (p : Progress) (form : Form) (part : Part) :
    (p.enter form).nesting.openIn part = p.nesting.openIn part := by
  unfold enter
  split <;> simp

/-- A line stands as deep as there are open blocks in its part, where one that it opens does not
count. -/
theorem depth_eq (p : Progress) (form : Form) :
    p.depth form = p.nesting.openIn (p.part form) - if form.opensBlock then 1 else 0 := by
  unfold depth leftBlocks part
  by_cases hr : form = .record
  · simp [hr, Nesting.openIn, Form.opensBlock]
  cases hn : p.nesting.inRoutine with
  | false =>
    have ho := (Nesting.outerBlocks?_eq_none_iff _).mpr hn
    cases he : p.endsRoutine form with
    | true =>
      simp only [hr, ho, Nesting.openIn, decide_false, Bool.not_false, Bool.and_true,
        Bool.false_or, if_true, if_false, Bool.true_or, Option.getD_none]
      omega
    | false => simp [hr, ho, Nesting.openIn]
  | true =>
    obtain ⟨base, ho⟩ := Nesting.exists_outerBlocks hn
    simp only [hr, ho, Nesting.openIn, decide_false, Bool.not_true, Bool.and_false, Bool.or_false,
      if_false, Bool.or_true, if_true, Option.getD_some, Bool.false_eq_true]
    omega

theorem endsRoutine_eq_false {p : Progress} {form : Form} (h : form ≠ .blockEnd) :
    p.endsRoutine form = false := by
  simp [endsRoutine, h]

theorem part_of_ne {p : Progress} {form : Form} (hr : form ≠ .record) (he : form ≠ .blockEnd) :
    p.part form = p.nesting.part := by
  simp [part, Nesting.part, hr, endsRoutine_eq_false he]

end Progress

theorem Progress.nesting_behind_end {setup : Setup} {p : Progress} {s : Statement}
    (hf : s.form setup.target = .blockEnd) : (p.behind setup s).nesting = p.nesting.tail := by
  simp only [Progress.behind, hf, Progress.enter, Form.givesBody, Progress.after,
    Bool.false_eq_true, if_false]
  cases hn : p.nesting <;> simp [hn]

namespace Accepted

variable {setup : Setup} {p : Progress} {line : SourceLine} {s : Statement}

theorem closed_behind (hf : s.form setup.target = .blockEnd) {b : Block} {outer : Nesting}
    (hn : (p.enter (s.form setup.target)).nesting = b :: outer) :
    (p.behind setup s).closed? = some b.kind := by
  rw [hf] at hn
  simp [Progress.behind, hf, Progress.after, hn]

theorem part_output_end (h : Accepted setup p line s) (hf : s.form setup.target = .blockEnd) :
    (p.output setup s).part = p.nesting.part := by
  obtain ⟨b, outer, hn⟩ := h.end_nesting hf
  have hc := closed_behind hf hn
  have hp := p.part_enter (s.form setup.target)
  have hq : (p.behind setup s).nesting = outer := by
    rw [hf] at hn
    simp [Progress.behind, hf, Progress.after, hn]
  rw [← hp, hn]
  simp [Progress.output, Progress.place, Progress.part, Progress.endsRoutine, hf, hc, hq,
    Nesting.part, Nesting.inRoutine]

theorem part_output_opens {kind : BlockKind}
    (hf : (s.form setup.target).opens? s.args = some kind) :
    (p.output setup s).part = (p.behind setup s).nesting.part := by
  refine Progress.part_of_ne ?_ (Form.not_blockEnd_of_opens hf)
  intro hr
  rw [hr] at hf
  cases hf

theorem part_output_inner (h : Accepted setup p line s)
    (ho : (s.form setup.target).opens? s.args = none) (hr : s.form setup.target ≠ .record) :
    (p.output setup s).part = p.nesting.part := by
  by_cases he : s.form setup.target = .blockEnd
  · exact h.part_output_end he
  refine (Progress.part_of_ne hr he).trans ?_
  have hp := p.part_enter (s.form setup.target)
  rw [← hp]
  cases h.turn with
  | opens kind ho' => simp [ho] at ho'
  | branches b outer _ _ hn hq =>
    rw [hn, hq]
    rfl
  | closes b outer he' => exact absurd he' he
  | stays _ _ hq => rw [hq]

/-- A function is only left by the line that closes it. -/
theorem inRoutine_eq_false (h : Accepted setup p line s)
    (hq : (p.behind setup s).nesting.inRoutine = false)
    (he : (p.output setup s).endsRoutine = false) : p.nesting.inRoutine = false := by
  rw [← p.inRoutine_enter (s.form setup.target)]
  cases h.turn with
  | opens kind ho hq' =>
    simp only [hq', Nesting.push, Nesting.inRoutine, List.any_cons, Bool.or_eq_false_iff] at hq
    exact hq.2
  | branches b outer _ _ hn hq' =>
    rw [hq'] at hq
    rw [hn]
    exact hq
  | closes b outer hf hn hq' =>
    have hc := closed_behind hf hn
    simp only [Progress.output, Progress.place, Progress.endsRoutine, hf, hc, decide_true,
      Bool.true_and, Option.any_some] at he
    rw [hq'] at hq
    simp only [hn, Nesting.inRoutine, List.any_cons, he, Bool.false_or]
    exact hq
  | stays _ _ hq' => rwa [hq'] at hq

/-- An accepted line changes only the number of open blocks of its own part: an opening line adds
one, and an `end` takes one away. -/
theorem openIn_behind (h : Accepted setup p line s) (part : Part) :
    (p.behind setup s).nesting.openIn part +
        (if s.form setup.target = .blockEnd ∧ part = (p.output setup s).part then 1 else 0) =
      p.nesting.openIn part +
        (if ((s.form setup.target).opens? s.args).isSome ∧ part = (p.output setup s).part
          then 1 else 0) := by
  rw [← p.openIn_enter (s.form setup.target)]
  cases h.turn with
  | opens kind ho hq =>
    have he := Form.not_blockEnd_of_opens ho
    have hp := part_output_opens (p := p) ho
    rw [hq, Nesting.push] at hp
    rw [hq, Nesting.push, Nesting.openIn_cons, ← hp]
    simp [ho, he]
  | branches b outer hf _ hn hq =>
    obtain ⟨-, -, ho, he, -⟩ := Form.branch_spec hf
    rw [hn, hq]
    simp [ho, he]
    rfl
  | closes b outer he hn hq =>
    have ho : (s.form setup.target).opens? s.args = none := by
      rw [he]
      rfl
    have hp := h.part_output_end he
    rw [← p.part_enter (s.form setup.target), hn] at hp
    rw [hn, hq, Nesting.openIn_cons, ← hp, ho]
    simp [he]
  | stays hf he hq =>
    rw [hq]
    simp [Form.opens_eq_none hf, he]

theorem openIn_pos (h : Accepted setup p line s) (hf : (s.form setup.target).opensBlock = true) :
    0 < (p.behind setup s).nesting.openIn (p.output setup s).part := by
  cases h.turn with
  | opens kind ho hq =>
    have hp := part_output_opens (p := p) ho
    rw [hp, hq, Nesting.push, Nesting.openIn_cons]
    simp
  | branches b outer hb _ hn hq =>
    obtain ⟨-, -, ho, -, hr⟩ := Form.branch_spec hb
    rw [h.part_output_inner (ho _) hr, ← p.part_enter (s.form setup.target), hn, hq,
      Nesting.openIn_cons]
    simp [Nesting.part, Nesting.inRoutine]
  | closes b outer he => simp [he, Form.opensBlock] at hf
  | stays hf' => simp [hf'] at hf

/-- A line stands as deep as there are open blocks in its part before it, and one that ends a branch
stands outside of the block. -/
theorem depth_add (h : Accepted setup p line s) :
    (p.behind setup s).depth (s.form setup.target) +
        (if (s.form setup.target).endsBranch then 1 else 0) =
      p.nesting.openIn (p.output setup s).part := by
  have hcount := h.openIn_behind (p.output setup s).part
  have hpos := h.openIn_pos
  rw [Progress.depth_eq]
  change (p.behind setup s).nesting.openIn (p.output setup s).part - _ + _ = _
  generalize (p.behind setup s).nesting.openIn _ = behind at hcount hpos ⊢
  generalize p.nesting.openIn _ = before at hcount ⊢
  cases h.turn with
  | opens kind ho _ =>
    have he := Form.not_blockEnd_of_opens ho
    have hf := Form.opensBlock_of_opens ho
    have hend := Form.endsBranch_of_opens ho
    simp only [he, ho, false_and, if_false, Option.isSome_some, and_self, if_true] at hcount
    simp only [hf, hend, if_true, Bool.false_eq_true, if_false]
    omega
  | branches b outer hb _ _ _ =>
    obtain ⟨hf, hend, ho, he, -⟩ := Form.branch_spec hb
    have := hpos hf
    simp only [he, ho, false_and, if_false, Option.isSome_none, Bool.false_eq_true] at hcount
    simp only [hf, hend, if_true]
    omega
  | closes b outer he _ _ =>
    simp only [he, true_and, if_true, Form.opens?, Option.isSome_none, Bool.false_eq_true, false_and,
      if_false] at hcount
    simp only [he, Form.opensBlock, Form.endsBranch, Bool.false_eq_true, if_false, if_true]
    omega
  | stays hf he _ =>
    have hend := Form.endsBranch_of_stays hf he
    simp only [he, Form.opens_eq_none hf, false_and, if_false, Option.isSome_none,
      Bool.false_eq_true] at hcount
    simp only [hf, hend, Bool.false_eq_true, if_false]
    omega

end Accepted

end Pseudocode
