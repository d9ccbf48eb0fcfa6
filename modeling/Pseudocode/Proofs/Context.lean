import Pseudocode.Proofs.Lines
import Pseudocode.Proofs.Zones

/-!
# Lines in a context

The same lines can be read further down in a text and inside of other blocks. `InContext` relates
the progress through a text to the progress through the same text in a context: the nesting has more
blocks at its outer end, none of which is a function. A line that is accepted on its own is accepted
in the context too (`Accepted.inContext`), and its output differs in its place only: lines of the
main algorithm are indented by the blocks of the context, and all others are the same.
-/
namespace Pseudocode

def ByteRange.moved (offset : Nat) (r : ByteRange) : ByteRange :=
  ⟨r.start + offset, r.stop + offset⟩

def SourceLine.moved (count offset : Nat) (line : SourceLine) : SourceLine :=
  ⟨line.index + count, line.text, line.range.moved offset⟩

def Statement.moved (count offset : Nat) (s : Statement) : Statement :=
  { s with line := s.line.moved count offset }

/-- The block, in a text where the line at index `k` is the one at index `f k`. -/
def Block.renumbered (f : Nat → Nat) (b : Block) : Block := { b with line := f b.line }

def OutputLine.moved (offset : Nat) (l : OutputLine) : OutputLine :=
  { l with range := l.range.moved offset }

namespace SourceLine

theorem placeAll_moved (count offset index start : Nat) (ts : List Text) :
    placeAll (index + count) (start + offset) ts =
      (placeAll index start ts).map (moved count offset) := by
  induction ts generalizing index start with
  | nil => rfl
  | cons t ts ih =>
    have hi := ih (index + 1) (start + t.bytes + 1)
    rw [show index + 1 + count = index + count + 1 by omega,
      show start + t.bytes + 1 + offset = start + offset + t.bytes + 1 by omega] at hi
    simp only [placeAll, List.map_cons, hi]
    simp only [moved, placed, ByteRange.moved, List.cons.injEq, and_true, mk.injEq,
      ByteRange.mk.injEq, true_and]
    omega

theorem placeAll_append (index start : Nat) (ts us : List Text) :
    placeAll index start (ts ++ us) =
      placeAll index start ts ++
        placeAll (index + ts.length) (start + (ts.map (·.bytes + 1)).sum) us := by
  induction ts generalizing index start with
  | nil => simp [placeAll]
  | cons t ts ih =>
    simp only [List.cons_append, placeAll, ih, List.length_cons, List.map_cons, List.sum_cons]
    rw [show index + 1 + ts.length = index + (ts.length + 1) by omega,
      show start + t.bytes + 1 + (ts.map (·.bytes + 1)).sum =
        start + (t.bytes + 1 + (ts.map (·.bytes + 1)).sum) by omega]

theorem bytes_unlines {ts : List Text} (h : ts ≠ []) :
    (Text.unlines ts).bytes + 1 = (ts.map (·.bytes + 1)).sum := by
  induction ts with
  | nil => exact absurd rfl h
  | cons t ts ih =>
    cases ts with
    | nil => simp [Text.unlines]
    | cons u us =>
      have hi := ih (by simp)
      simp only [Text.unlines, List.intercalate_cons_cons, Text.bytes_append, List.map_cons,
        List.sum_cons] at hi ⊢
      have hn : Text.bytes ['\n'] = 1 := by decide
      omega

theorem ofSource_append (t u : Text) :
    ofSource (t ++ '\n' :: u) =
      ofSource t ++ (ofSource u).map (moved t.lines.length (t.bytes + 1)) := by
  have hb := bytes_unlines t.lines_ne_nil
  rw [Text.unlines_lines] at hb
  rw [ofSource, Text.lines_append_newline, placeAll_append, ← hb]
  exact congrArg _ (placeAll_moved _ _ 0 0 _)

end SourceLine

theorem Statement.ofLine_moved {line : SourceLine} {s : Statement}
    (h : Statement.ofLine line = .ok s) (count offset : Nat) :
    Statement.ofLine (line.moved count offset) = .ok (s.moved count offset) := by
  unfold Statement.ofLine at h ⊢
  rw [show (line.moved count offset).text = line.text from rfl]
  split at h
  · cases h
    rfl
  · split at h
    · next words _ =>
      cases h
      cases words <;> rfl
    · cases h

namespace Statement

variable (s : Statement) (count offset : Nat)

@[simp] theorem form_moved (t : Target) : (s.moved count offset).form t = s.form t := rfl

@[simp] theorem phrase_moved (t : Target) (form : Form) :
    (s.moved count offset).phrase t form = s.phrase t form := rfl

@[simp] theorem countObjection_moved (form : Form) :
    (s.moved count offset).countObjection? form = s.countObjection? form := rfl

end Statement

/-- `m` is the nesting `n`, opened `count` lines further down, with blocks of the kinds `base`
around it. -/
def Nesting.Within (base : List BlockKind) (count : Nat) (n m : Nesting) : Prop :=
  ∃ outer : Nesting, outer.map Block.kind = base ∧ m = n.map (Block.renumbered (· + count)) ++ outer

namespace Nesting

variable {base : List BlockKind} {count : Nat} {n m : Nesting}

theorem any_renumbered (f : BlockKind → Bool) (g : Nat → Nat) (n : Nesting) :
    (n.map (Block.renumbered g)).any (fun b => f b.kind) = n.any fun b => f b.kind := by
  simp [List.any_map, Function.comp_def, Block.renumbered]

namespace Within

theorem any (h : Within base count n m) (f : BlockKind → Bool) :
    (m.any fun b => f b.kind) = ((n.any fun b => f b.kind) || base.any f) := by
  obtain ⟨outer, rfl, rfl⟩ := h
  rw [List.any_append, any_renumbered, List.any_map]
  rfl

theorem length (h : Within base count n m) : m.length = n.length + base.length := by
  obtain ⟨outer, rfl, rfl⟩ := h
  simp

theorem inRoutine (h : Within base count n m) (hb : base.any BlockKind.isRoutine = false) :
    m.inRoutine = n.inRoutine := by
  rw [Nesting.inRoutine, h.any BlockKind.isRoutine, hb, Bool.or_false]
  rfl

theorem part (h : Within base count n m) (hb : base.any BlockKind.isRoutine = false) :
    m.part = n.part := by
  simp [Nesting.part, h.inRoutine hb]

/-- Blocks that are no functions move all those inside of them by one each. -/
theorem openIn (h : Within base count n m) (hb : base.any BlockKind.isRoutine = false)
    (part : Part) :
    m.openIn part = n.openIn part + if part = .main then base.length else 0 := by
  obtain ⟨outer, rfl, rfl⟩ := h
  have ho : ∀ part, Nesting.openIn outer part = if part = .main then outer.length else 0 := by
    have hr : Nesting.inRoutine outer = false := by
      rw [List.any_map] at hb
      exact hb
    intro part
    cases part <;> simp [Nesting.openIn, (Nesting.outerBlocks?_eq_none_iff outer).mpr hr]
  induction n with
  | nil => simp [ho]
  | cons b n ih =>
    have hw : Within (outer.map Block.kind) count (b :: n)
        ((b :: n).map (Block.renumbered (· + count)) ++ outer) := ⟨outer, rfl, rfl⟩
    have hp := hw.part hb
    simp only [List.map_cons, List.cons_append] at hp ⊢
    rw [openIn_cons, openIn_cons, hp, ih]
    omega

theorem giveBody (h : Within base count n m) : Within base count n.giveBody m.giveBody := by
  obtain ⟨outer, rfl, rfl⟩ := h
  cases n with
  | cons b n => exact ⟨outer, rfl, rfl⟩
  | nil =>
    cases outer with
    | nil => exact ⟨[], rfl, rfl⟩
    | cons b outer => exact ⟨{ b with hasBody := true } :: outer, rfl, rfl⟩

theorem push (h : Within base count n m) (kind : BlockKind) (line : Nat) :
    Within base count (n.push kind line) (m.push kind (line + count)) := by
  obtain ⟨outer, rfl, rfl⟩ := h
  exact ⟨outer, rfl, rfl⟩

theorem cons {b : Block} (h : Within base count (b :: n) m) :
    ∃ m', m = b.renumbered (· + count) :: m' ∧ Within base count n m' := by
  obtain ⟨outer, rfl, rfl⟩ := h
  exact ⟨_, rfl, outer, rfl, rfl⟩

theorem misplacement (h : Within base count n m) (hb : base.any BlockKind.isRoutine = false)
    {form : Form} (hn : n.misplacement? form = none) : m.misplacement? form = none := by
  have hc : ∀ kind, m.contains kind = (n.contains kind || base.any (· == kind)) := fun kind =>
    h.any (· == kind)
  have hr : ∀ kind, kind.isRoutine = true → base.any (· == kind) = false := by
    intro kind hk
    simp only [List.any_eq_false, beq_iff_eq] at hb ⊢
    rintro x hx rfl
    exact hb x hx hk
  cases form with
  | elseIf | otherwise =>
    obtain ⟨b, n, rfl, hk⟩ := exists_ifElse (by simp) hn
    obtain ⟨m', rfl, _⟩ := h.cons
    simp [misplacement?, topKind?, Block.renumbered, hk]
  | case | default =>
    simp only [misplacement?, hc] at hn ⊢
    split_ifs at hn with hs
    simp [hs]
  | returns =>
    simpa only [misplacement?, hc, hr .procedure rfl, hr .function rfl, Bool.or_false] using hn
  | _ => rfl

end Within

end Nesting

/-- `q` is the progress `p` in a context, which uses the features `seen`. -/
structure InContext (base : List BlockKind) (count : Nat) (seen : Usage) (p q : Progress) :
    Prop where
  nesting : p.nesting.Within base count q.nesting
  window : p.hasWindow = true → q.hasWindow = true
  usage : q.usage = seen.union p.usage

namespace InContext

variable {base : List BlockKind} {count : Nat} {seen : Usage} {p q : Progress} {s : Statement}
  {form : Form} {strict : Bool}

theorem enter (h : InContext base count seen p q) (form : Form) :
    InContext base count seen (p.enter form) (q.enter form) := by
  unfold Progress.enter
  split
  · exact ⟨h.nesting.giveBody, h.window, h.usage⟩
  · exact h

theorem objection (h : InContext base count seen p q)
    (hb : base.any BlockKind.isRoutine = false) (offset : Nat)
    (ho : p.objection? strict s form = none) :
    q.objection? strict (s.moved count offset) form = none := by
  have hm := Progress.misplacement_eq_none ho
  have hm' := h.nesting.misplacement hb hm
  unfold Progress.objection? at ho ⊢
  rw [hm] at ho
  rw [hm']
  cases form with
  | blockEnd =>
    cases hn : p.nesting with
    | nil => simp [hn] at ho
    | cons b n =>
      obtain ⟨m, hm, _⟩ := (hn ▸ h.nesting).cons
      simp [hm]
  | draw op =>
    by_cases hw : op ≠ .openWindow ∧ p.hasWindow = false
    · simp [hw] at ho
    · have hw' : ¬(op ≠ .openWindow ∧ q.hasWindow = false) := by
        rintro ⟨h₁, h₂⟩
        refine hw ⟨h₁, ?_⟩
        by_contra hp
        simp [h.window (by simpa using hp)] at h₂
      simpa [hw, hw'] using ho
  | _ => exact ho

theorem after (h : InContext base count seen p q) (offset : Nat)
    (ho : p.objection? strict s form = none) :
    InContext base count seen (p.after s form) (q.after (s.moved count offset) form) := by
  have hm := Progress.misplacement_eq_none ho
  have hpush : ∀ kind, InContext base count seen
      { p with nesting := p.nesting.push kind s.line.index }
      { q with nesting := q.nesting.push kind (s.line.index + count) } := fun kind =>
    ⟨h.nesting.push kind s.line.index, h.window, h.usage⟩
  cases form with
  | elseIf | otherwise =>
    obtain ⟨b, n, hn, _⟩ := Nesting.exists_ifElse (by simp) hm
    obtain ⟨m, hm, outer, ho, rfl⟩ := (hn ▸ h.nesting).cons
    refine ⟨⟨outer, ho, ?_⟩, h.window, h.usage⟩
    simp [Progress.after, hn, hm, Nesting.startBranch, Block.renumbered]
  | blockEnd =>
    cases hn : p.nesting with
    | nil => simp [Progress.objection?, Nesting.misplacement?, hn] at ho
    | cons b n =>
      obtain ⟨m, hm, hw⟩ := (hn ▸ h.nesting).cons
      simp only [Progress.after, hn, hm]
      exact ⟨hw, h.window, h.usage⟩
  | record => exact ⟨h.nesting, h.window, by simp [Progress.after, h.usage, Usage.union]⟩
  | draw op =>
    cases op with
    | openWindow =>
      exact ⟨h.nesting, fun _ => rfl, by simp [Progress.after, h.usage, Usage.union]⟩
    | _ => exact h
  | forRange | forEach | whileCond | ifCond | switch | case | default | function =>
    exact hpush _
  | _ => exact h

/-- The words for a statement depend on no more of its context than the innermost block. -/
theorem wording (h : InContext base count seen p q) (offset : Nat) (t : Target)
    (ho : p.objection? strict s form = none) :
    t.wording q.nesting (s.moved count offset) form = t.wording p.nesting s form := by
  have hm := Progress.misplacement_eq_none ho
  cases form with
  | elseIf | otherwise =>
    obtain ⟨b, n, hn, _⟩ := Nesting.exists_ifElse (by simp) hm
    obtain ⟨m, hm, _⟩ := (hn ▸ h.nesting).cons
    rw [hn, hm]
    rfl
  | blockEnd =>
    cases hn : p.nesting with
    | nil => simp [Progress.objection?, Nesting.misplacement?, hn] at ho
    | cons b n =>
      obtain ⟨m, hm, _⟩ := (hn ▸ h.nesting).cons
      rw [hm]
      rfl
  | _ => rfl

end InContext

/-- `m` is the output `l` in a context with `levels` blocks, `offset` bytes further down. -/
structure OutputLine.InContext (unit : Text) (levels offset : Nat) (l m : OutputLine) : Prop where
  part : m.part = l.part
  endsRoutine : m.endsRoutine = l.endsRoutine
  range : m.range = l.range.moved offset
  text : ∃ depth t, l.text = Text.indent depth unit t ∧
    m.text = Text.indent (depth + if l.part = .main then levels else 0) unit t

namespace Accepted

variable {base : List BlockKind} {count : Nat} {seen : Usage} {setup : Setup} {p q : Progress}
  {line : SourceLine} {s : Statement}

theorem moved (h : Accepted setup p line s) (hc : InContext base count seen p q)
    (hb : base.any BlockKind.isRoutine = false) (offset : Nat) :
    Accepted setup q (line.moved count offset) (s.moved count offset) :=
  ⟨Statement.ofLine_moved h.read count offset, (hc.enter _).objection hb offset h.fits⟩

theorem inContext_behind (h : Accepted setup p line s) (hc : InContext base count seen p q)
    (offset : Nat) :
    InContext base count seen (p.behind setup s) (q.behind setup (s.moved count offset)) :=
  (hc.enter _).after offset h.fits

theorem endsRoutine_behind (h : Accepted setup p line s) (hc : InContext base count seen p q)
    (offset : Nat) :
    (q.behind setup (s.moved count offset)).endsRoutine (s.form setup.target) =
      (p.behind setup s).endsRoutine (s.form setup.target) := by
  by_cases he : s.form setup.target = .blockEnd
  · obtain ⟨b, n, hn⟩ := h.end_nesting he
    obtain ⟨m, hm, _⟩ := (hn ▸ (hc.enter (s.form setup.target)).nesting).cons
    have hq := closed_behind (s := s.moved count offset) he hm
    simp [Progress.endsRoutine, closed_behind he hn, hq, Block.renumbered]
  · simp [Progress.endsRoutine_eq_false he]

/-- An accepted line gives the same output in a context, in another place. -/
theorem inContext_output (h : Accepted setup p line s) (hc : InContext base count seen p q)
    (hb : base.any BlockKind.isRoutine = false) (offset : Nat) :
    (p.output setup s).InContext setup.unit base.length offset
      (q.output setup (s.moved count offset)) := by
  have hq := h.inContext_behind hc offset
  have he := h.endsRoutine_behind hc offset
  have hpart : (q.output setup (s.moved count offset)).part = (p.output setup s).part := by
    simp only [Progress.output, Progress.place, Progress.part, Statement.form_moved, he,
      hq.nesting.inRoutine hb]
  refine ⟨hpart, he, rfl, (p.behind setup s).depth (s.form setup.target), _, rfl, ?_⟩
  have hw := (hc.enter (s.form setup.target)).wording offset setup.target h.fits
  have hd : (q.behind setup (s.moved count offset)).depth (s.form setup.target) =
      (p.behind setup s).depth (s.form setup.target) +
        if (p.output setup s).part = .main then base.length else 0 := by
    have hpos := h.openIn_pos
    have hpart' : (q.behind setup (s.moved count offset)).part (s.form setup.target) =
      (p.output setup s).part := hpart
    rw [Progress.depth_eq, Progress.depth_eq, hpart', hq.nesting.openIn hb]
    change _ = (p.behind setup s).nesting.openIn (p.output setup s).part - _ + _
    cases hf : (s.form setup.target).opensBlock with
    | false => simp
    | true =>
      have := hpos hf
      simp only [if_true]
      omega
  simp only [Progress.output, Progress.place, Statement.form_moved, hw, hd]

end Accepted

/-- Lines that are accepted on their own are accepted in a context. -/
theorem Reads.inContext {base : List BlockKind} {count : Nat} {seen : Usage} {setup : Setup}
    {p q r : Progress} {lines : List SourceLine} {outs : List OutputLine}
    (h : Reads setup p lines r outs) (hc : InContext base count seen p q)
    (hb : base.any BlockKind.isRoutine = false) (offset : Nat) :
    ∃ r' outs', Reads setup q (lines.map (SourceLine.moved count offset)) r' outs' ∧
      InContext base count seen r r' ∧
      List.Forall₂ (OutputLine.InContext setup.unit base.length offset) outs outs' := by
  induction h generalizing q with
  | nil p => exact ⟨q, [], .nil q, hc, .nil⟩
  | cons head tail ih =>
    obtain ⟨r', outs', hr, hc', hout⟩ := ih (head.inContext_behind hc offset)
    exact ⟨r', _, .cons (head.moved hc hb offset) hr, hc',
      .cons (head.inContext_output hc hb offset) hout⟩

end Pseudocode
