import Pseudocode.Proofs.Hoisting

/-!
# The blocks around a line

A block encloses the lines between its two ends, those apart that start another branch of it. This
is told by partners alone, without the nesting. In a source without faults, a line is indented by
one unit for each block that encloses it in its part of the program (`compile_indents`): a line of
the main algorithm by all of them, a line of a function by those from the outermost function
inwards, and a record definition by none.
-/
namespace Pseudocode

open Delimiter

/-! ### Lines between partners -/

/-- Line `k` stands between the two ends of a block. -/
structure Delimiter.Between (at? : Nat → Option Delimiter) (block : Nat × Nat) (k : Nat) :
    Prop where
  partners : Partners at? block.1 block.2
  behind : block.1 < k
  before : k < block.2

/-- The blocks around a line are the open ones, where a closing line stands outside of its own. -/
theorem Delimiter.between_iff {at? : Nat → Option Delimiter} {block : Nat × Nat} {k : Nat} :
    Between at? block k ↔ Partners at? block.1 block.2 ∧
      ∃ kind, (block.1, kind) ∈
        if at? k = some closing then (openers at? k).tail else openers at? k := by
  constructor
  · intro ⟨hp, hlt, hgt⟩
    obtain ⟨kind, hi⟩ := hp.opens
    have hmem : (block.1, kind) ∈ openers at? (k + 1) :=
      (mem_openers_iff_le hp hi (by omega)).mpr hgt
    refine ⟨hp, kind, ?_⟩
    cases hk : at? k with
    | none => simpa [openers_succ_of_none hk] using hmem
    | some d =>
      cases d with
      | opening kind' =>
        rw [openers_succ_of_opening hk, List.mem_cons, Prod.mk.injEq] at hmem
        rcases hmem with ⟨heq, -⟩ | hmem
        · omega
        · simpa using hmem
      | closing => simpa [openers_succ_of_closing hk] using hmem
  · intro ⟨hp, kind, hmem⟩
    have hopen : (block.1, kind) ∈ openers at? k := by
      split_ifs at hmem
      · exact List.mem_of_mem_tail hmem
      · exact hmem
    obtain ⟨hlt, hi⟩ := mem_openers hopen
    refine ⟨hp, hlt, (mem_openers_iff_le hp hi (k := k + 1) (by omega)).mp ?_⟩
    cases hk : at? k with
    | none => rwa [openers_succ_of_none hk]
    | some d =>
      cases d with
      | opening kind' =>
        rw [openers_succ_of_opening hk]
        exact List.mem_cons_of_mem _ hopen
      | closing =>
        rw [if_pos hk] at hmem
        rwa [openers_succ_of_closing hk]

section Source

variable (setup : Setup) (source : Text)

/-- Line `k` starts another branch of a block, which is the innermost one around it. -/
structure Continues (block : Nat × Nat) (k : Nat) : Prop where
  branch : formAt? setup.target source k = some .elseIf ∨
    formAt? setup.target source k = some .otherwise
  between : Between (delimiterAt? setup source) block k
  innermost : ∀ other, Between (delimiterAt? setup source) other k → other.1 ≤ block.1

/-- Line `k` stands inside of a block. The lines that open, continue and close it do not. -/
structure Encloses (block : Nat × Nat) (k : Nat) : Prop where
  between : Between (delimiterAt? setup source) block k
  inside : ¬ Continues setup source block k

/-- Line `k` is indented by a block, in the part of the program to which the line belongs. -/
def Indents (k : Nat) (block : Nat × Nat) : Part → Prop
  | .declarations => False
  | .functions => Encloses setup source block k ∧
      ∃ outer, Routine setup source outer ∧ Encloses setup source outer k ∧ outer.1 ≤ block.1
  | .main => Encloses setup source block k

end Source

/-! ### The open blocks of a part -/

namespace Nesting

def blocksOf (part : Part) : Nesting → Nesting
  | [] => []
  | b :: outer =>
    if part = Nesting.part (b :: outer) then b :: blocksOf part outer else blocksOf part outer

theorem length_blocksOf (part : Part) (n : Nesting) : (n.blocksOf part).length = n.openIn part := by
  induction n with
  | nil => rw [blocksOf, openIn_nil, List.length_nil]
  | cons b outer ih =>
    rw [openIn_cons, ← ih, blocksOf]
    split_ifs
    · rfl
    · rfl

theorem blocksOf_sublist (part : Part) (n : Nesting) : (n.blocksOf part).Sublist n := by
  induction n with
  | nil => exact .slnil
  | cons b outer ih =>
    rw [blocksOf]
    split_ifs
    · exact ih.cons_cons b
    · exact ih.cons b

theorem part_eq_functions_iff (n : Nesting) : .functions = n.part ↔ n.inRoutine = true := by
  cases hn : n.inRoutine <;> simp [Nesting.part, hn]

theorem blocksOf_main {n : Nesting} (h : n.inRoutine = false) : n.blocksOf .main = n := by
  induction n with
  | nil => rfl
  | cons b outer ih =>
    have houter : inRoutine outer = false := (Bool.or_eq_false_iff.mp h).2
    rw [blocksOf, if_pos (by rw [Nesting.part, h]; rfl), ih houter]

theorem mem_blocksOf_functions {n : Nesting} (hn : n.Pairwise fun a b => b.line < a.line)
    {b : Block} :
    b ∈ n.blocksOf .functions ↔ b ∈ n ∧ ∃ r ∈ n, r.kind.isRoutine = true ∧ r.line ≤ b.line := by
  induction n with
  | nil => simp [blocksOf]
  | cons a outer ih =>
    obtain ⟨hlater, houter⟩ := List.pairwise_cons.mp hn
    have hsplit : b ∈ blocksOf .functions (a :: outer) ↔
        (b = a ∧ inRoutine (a :: outer) = true) ∨ b ∈ blocksOf .functions outer := by
      rw [blocksOf, ← part_eq_functions_iff]
      split_ifs with hr <;> simp [hr]
    rw [hsplit, ih houter]
    constructor
    · rintro (⟨rfl, hr⟩ | ⟨hb, r, hr, hroutine, hle⟩)
      · obtain ⟨r, hr, hroutine⟩ := List.any_eq_true.mp hr
        refine ⟨by simp, r, hr, hroutine, ?_⟩
        rcases List.mem_cons.mp hr with rfl | hr
        · exact le_rfl
        · exact (hlater r hr).le
      · exact ⟨by simp [hb], r, by simp [hr], hroutine, hle⟩
    · rintro ⟨hb, r, hr, hroutine, hle⟩
      rcases List.mem_cons.mp hb with rfl | hb
      · exact .inl ⟨rfl, List.any_eq_true.mpr ⟨r, hr, hroutine⟩⟩
      · have hlt := hlater b hb
        refine .inr ⟨hb, r, ?_, hroutine, hle⟩
        rcases List.mem_cons.mp hr with rfl | hr
        · omega
        · exact hr

end Nesting

/-! ### The depth of a line -/

/-- The open blocks around a statement. One that ends a branch stands outside of the innermost. -/
def Progress.around (p : Progress) (form : Form) : Nesting :=
  p.nesting.drop (if form.endsBranch then 1 else 0)

namespace Accepted

variable {setup : Setup} {p : Progress} {line : SourceLine} {s : Statement}

theorem exists_cons (h : Accepted setup p line s)
    (he : (s.form setup.target).endsBranch = true) : ∃ b outer, p.nesting = b :: outer := by
  obtain ⟨hform, hgives, -, -⟩ := Form.endsBranch_spec he
  have henter : p.enter (s.form setup.target) = p := if_neg (by simp [hgives])
  rw [← henter]
  rcases hform with hform | hform
  · exact h.end_nesting hform
  · obtain ⟨b, outer, hn, -⟩ := h.branch_nesting hform
    exact ⟨b, outer, hn⟩

/-- A line is as deep as there are blocks of its part around it. -/
theorem depth_eq_openIn (h : Accepted setup p line s) :
    (p.behind setup s).depth (s.form setup.target) =
      (p.around (s.form setup.target)).openIn (p.output setup s).part := by
  have hdepth := h.depth_add
  unfold Progress.around
  cases he : (s.form setup.target).endsBranch with
  | false => simpa [he] using hdepth
  | true =>
    obtain ⟨b, outer, hn⟩ := h.exists_cons he
    obtain ⟨-, -, hopens, hrecord⟩ := Form.endsBranch_spec he
    have hpart := h.part_output_inner (hopens s.args) hrecord
    rw [he, if_pos rfl, hpart, hn, Nesting.openIn_cons, if_pos rfl] at hdepth
    rw [if_pos rfl, hpart, hn, List.drop_one, List.tail_cons]
    omega

/-- The depth of an accepted line is not cut off at zero. -/
theorem leftBlocks_le (h : Accepted setup p line s) :
    (if (s.form setup.target).opensBlock then 1 else 0) +
        (p.behind setup s).leftBlocks (s.form setup.target) ≤
      (p.behind setup s).nesting.length := by
  have hopen : (s.form setup.target).opensBlock = true → 0 < (p.behind setup s).nesting.length := by
    intro hf
    cases h.turn with
    | opens kind ho hq => simp [hq, Nesting.push]
    | branches b outer _ _ _ hq => simp [hq]
    | closes b outer he => simp [he, Form.opensBlock] at hf
    | stays hf' => simp [hf'] at hf
  unfold Progress.leftBlocks
  split_ifs with hf hleft hleft
  · -- a line that opens a block is neither a record definition nor an `end`
    simp only [Bool.or_eq_true, decide_eq_true_eq, Bool.and_eq_true] at hleft
    rcases hleft with hr | ⟨he, -⟩
    · simp [hr, Form.opensBlock] at hf
    · have hend : s.form setup.target = .blockEnd := by
        by_contra hne
        simp [Progress.endsRoutine_eq_false hne] at he
      simp [hend, Form.opensBlock] at hf
  · have hpos := hopen hf
    cases ho : (p.behind setup s).nesting.outerBlocks? with
    | none =>
      simp only [Option.getD_none]
      omega
    | some base =>
      have := Nesting.outerBlocks?_lt ho
      simp only [Option.getD_some]
      omega
  · omega
  · cases ho : (p.behind setup s).nesting.outerBlocks? with
    | none => simp
    | some base =>
      have := Nesting.outerBlocks?_lt ho
      simp only [Option.getD_some]
      omega

theorem inRoutine_of_main (h : Accepted setup p line s) (hp : (p.output setup s).part = .main) :
    p.nesting.inRoutine = false := by
  have hnot : (p.output setup s).part ≠ .functions := by simp [hp]
  rw [Ne, h.part_functions_iff] at hnot
  have hrecord : s.form setup.target ≠ .record := by
    intro hr
    simp [Progress.output, Progress.place, Progress.part, hr] at hp
  cases hn : p.nesting.inRoutine with
  | false => rfl
  | true => exact absurd ⟨hrecord, .inr hn⟩ hnot

end Accepted

/-! ### The blocks that enclose a line -/

section Enclosing

variable {setup : Setup} {source : Text} {k : Nat} {block : Nat × Nat}

theorem between_iff_open {form : Form} (hk : formAt? setup.target source k = some form)
    (hne : form ≠ .blockEnd) :
    Between (delimiterAt? setup source) block k ↔
      Partners (delimiterAt? setup source) block.1 block.2 ∧
        ∃ kind, (block.1, kind) ∈ openers (delimiterAt? setup source) k := by
  have hopen : delimiterAt? setup source k ≠ some .closing := by
    intro hclosing
    rw [formAt?_of_closing hclosing, Option.some.injEq] at hk
    exact hne hk.symm
  rw [between_iff, if_neg hopen]

/-- Only another branch makes a difference between standing in a block and being enclosed by it. -/
theorem encloses_iff_between {form : Form} (hk : formAt? setup.target source k = some form)
    (hne : ¬ (form = .elseIf ∨ form = .otherwise)) :
    Encloses setup source block k ↔ Between (delimiterAt? setup source) block k := by
  constructor
  · intro h
    exact h.between
  · intro h
    refine ⟨h, fun hc => hne ?_⟩
    have hbranch := hc.branch
    rw [hk, Option.some.injEq, Option.some.injEq] at hbranch
    exact hbranch

/-- Another branch is enclosed by the open blocks without the innermost one. -/
theorem encloses_branch_iff {form : Form} (hk : formAt? setup.target source k = some form)
    (hbranch : form = .elseIf ∨ form = .otherwise) {top : Nat × BlockKind}
    {rest : List (Nat × BlockKind)} (htop : openers (delimiterAt? setup source) k = top :: rest)
    {last : Nat} (hlast : Partners (delimiterAt? setup source) top.1 last) :
    Encloses setup source block k ↔
      Partners (delimiterAt? setup source) block.1 block.2 ∧ ∃ kind, (block.1, kind) ∈ rest := by
  have hbetween : ∀ other, Between (delimiterAt? setup source) other k ↔
      Partners (delimiterAt? setup source) other.1 other.2 ∧
        ∃ kind, (other.1, kind) ∈ openers (delimiterAt? setup source) k :=
    fun _ => between_iff_open hk (Form.branch_spec hbranch).2.2.2.1
  have hsorted := pairwise_openers (delimiterAt? setup source) k
  rw [htop] at hbetween hsorted
  obtain ⟨hlater, -⟩ := List.pairwise_cons.mp hsorted
  have hinner : Between (delimiterAt? setup source) (top.1, last) k :=
    (hbetween _).mpr ⟨hlast, top.2, List.mem_cons_self⟩
  constructor
  · intro ⟨hblock, hinside⟩
    obtain ⟨hp, kind, hmem⟩ := (hbetween block).mp hblock
    rcases List.mem_cons.mp hmem with rfl | hmem
    · -- the innermost block is the one that the line continues
      refine absurd ⟨?_, hblock, fun other hother => ?_⟩ hinside
      · rw [hk, Option.some.injEq, Option.some.injEq]
        exact hbranch
      · obtain ⟨-, kind', hother⟩ := (hbetween other).mp hother
        rcases List.mem_cons.mp hother with heq | hother
        · rw [(Prod.mk.inj heq).1]
        · exact (hlater _ hother).le
    · exact ⟨hp, kind, hmem⟩
  · intro ⟨hp, kind, hmem⟩
    refine ⟨(hbetween block).mpr ⟨hp, kind, List.mem_cons_of_mem _ hmem⟩, fun hc => ?_⟩
    have hlt : block.1 < top.1 := hlater _ hmem
    have hle : top.1 ≤ block.1 := hc.innermost _ hinner
    omega

/-- The blocks that enclose a line are the open ones, where a line that ends a branch stands outside
of the block of the branch. -/
theorem encloses_iff (hfine : (Compilation.ofSource setup source).faults = []) {line : SourceLine}
    {s : Statement} (hl : (SourceLine.ofSource source)[k]? = some line)
    (hs : Accepted setup (Progress.before setup (SourceLine.ofSource source) k) line s) :
    Encloses setup source block k ↔
      Partners (delimiterAt? setup source) block.1 block.2 ∧
        ∃ b ∈ (Progress.before setup (SourceLine.ofSource source) k).around
          (s.form setup.target), b.line = block.1 := by
  have hk : formAt? setup.target source k = some (s.form setup.target) := by
    rw [formAt?, hl, Option.map_some, SourceLine.form_of_ofLine hs.read]
  have hopeners : (Progress.before setup (SourceLine.ofSource source) k).nesting.map Block.opener =
      openers (delimiterAt? setup source) k :=
    openers_before (List.getElem?_eq_some_iff.mp hl).1.le
  have hmem : ∀ n : Nesting, (∃ kind, (block.1, kind) ∈ n.map Block.opener) ↔
      ∃ b ∈ n, b.line = block.1 := by
    intro n
    simp [Block.opener]
  rw [← hmem, Progress.around, List.map_drop, hopeners]
  cases he : (s.form setup.target).endsBranch with
  | false =>
    have hne : s.form setup.target ≠ .blockEnd := by
      intro hend
      simp [hend, Form.endsBranch] at he
    rw [encloses_iff_between hk fun hb => by simp [(Form.branch_spec hb).2.1] at he,
      between_iff_open hk hne]
    rfl
  | true =>
    rw [if_pos rfl, List.drop_one]
    by_cases hend : s.form setup.target = .blockEnd
    · have hclosing : delimiterAt? setup source k = some .closing :=
        delimiterAt?_eq_closing_iff.mpr (hk.trans (by rw [hend]))
      rw [encloses_iff_between hk (by simp [hend]), between_iff, if_pos hclosing]
    · have hbranch := (Form.endsBranch_spec he).1.resolve_left hend
      obtain ⟨b, outer, hn⟩ := hs.exists_cons he
      rw [hn, List.map_cons] at hopeners
      have hopening := (mem_openers (i := b.line) (by rw [← hopeners]; exact List.mem_cons_self)).2
      obtain ⟨last, hlast⟩ := exists_partner hfine hopening
      rw [encloses_branch_iff hk hbranch hopeners.symm hlast, ← hopeners, List.tail_cons]

end Enclosing

/-! ### Indentation -/

section Success

variable {setup : Setup} {source : Text} {k : Nat}

theorem opening_of_mem_before {b : Block} (hk : k ≤ (SourceLine.ofSource source).length)
    (hb : b ∈ (Progress.before setup (SourceLine.ofSource source) k).nesting) :
    delimiterAt? setup source b.line = some (.opening b.kind) := by
  apply And.right
  apply mem_openers (k := k)
  rw [← openers_before hk]
  exact List.mem_map_of_mem hb

theorem pairwise_around (hk : k ≤ (SourceLine.ofSource source).length) (form : Form) :
    ((Progress.before setup (SourceLine.ofSource source) k).around form).Pairwise
      fun a b => b.line < a.line := by
  have hp := pairwise_openers (delimiterAt? setup source) k
  rw [← openers_before hk, List.pairwise_map] at hp
  exact hp.sublist (List.drop_sublist _ _)

variable (hfine : (Compilation.ofSource setup source).faults = [])

include hfine

theorem indents_functions_iff {line : SourceLine} {s : Statement} {block : Nat × Nat}
    (hl : (SourceLine.ofSource source)[k]? = some line)
    (hs : Accepted setup (Progress.before setup (SourceLine.ofSource source) k) line s) :
    Indents setup source k block .functions ↔
      Partners (delimiterAt? setup source) block.1 block.2 ∧
        ∃ b ∈ ((Progress.before setup (SourceLine.ofSource source) k).around
          (s.form setup.target)).blocksOf .functions, b.line = block.1 := by
  have hk := (List.getElem?_eq_some_iff.mp hl).1.le
  have hsorted : ((Progress.before setup (SourceLine.ofSource source) k).around
      (s.form setup.target)).Pairwise fun b outer => outer.line < b.line :=
    pairwise_around hk _
  have henc : ∀ other, Encloses setup source other k ↔
      Partners (delimiterAt? setup source) other.1 other.2 ∧
        ∃ b ∈ (Progress.before setup (SourceLine.ofSource source) k).around
          (s.form setup.target), b.line = other.1 :=
    fun _ => encloses_iff hfine hl hs
  rw [Indents]
  constructor
  · intro ⟨hblock, outer, hroutine, houter, hle⟩
    obtain ⟨hp, b, hb, hline⟩ := (henc block).mp hblock
    obtain ⟨-, r, hr, hline'⟩ := (henc outer).mp houter
    have hopening := opening_of_mem_before hk (List.mem_of_mem_drop hr)
    have hkind := (isRoutine_opening hopening).mpr (hline' ▸ hroutine.form)
    refine ⟨hp, b, (Nesting.mem_blocksOf_functions hsorted).mpr ⟨hb, r, hr, hkind, ?_⟩, hline⟩
    omega
  · intro ⟨hp, b, hb, hline⟩
    obtain ⟨hb, r, hr, hkind, hle⟩ := (Nesting.mem_blocksOf_functions hsorted).mp hb
    have hopening := opening_of_mem_before hk (List.mem_of_mem_drop hr)
    obtain ⟨last, hlast⟩ := exists_partner hfine hopening
    refine ⟨(henc block).mpr ⟨hp, b, hb, hline⟩, (r.line, last), ⟨?_, hlast⟩, ?_, ?_⟩
    · exact (isRoutine_opening hopening).mp hkind
    · exact (henc _).mpr ⟨hlast, r, hr, rfl⟩
    · dsimp only
      omega

/-- The blocks by which a line is indented are the open ones of its part. -/
theorem indents_iff {line : SourceLine} {s : Statement} {block : Nat × Nat}
    (hl : (SourceLine.ofSource source)[k]? = some line)
    (hs : Accepted setup (Progress.before setup (SourceLine.ofSource source) k) line s) :
    let p := Progress.before setup (SourceLine.ofSource source) k
    Indents setup source k block (p.output setup s).part ↔
      Partners (delimiterAt? setup source) block.1 block.2 ∧
        ∃ b ∈ (p.around (s.form setup.target)).blocksOf (p.output setup s).part,
          b.line = block.1 := by
  intro p
  cases hpart : (p.output setup s).part with
  | declarations =>
    have hnone : (p.around (s.form setup.target)).blocksOf .declarations = [] :=
      List.eq_nil_of_length_eq_zero (Nesting.length_blocksOf _ _)
    simp [Indents, hnone]
  | main =>
    have hmain : (p.around (s.form setup.target)).inRoutine = false := by
      have hout := hs.inRoutine_of_main hpart
      rw [Nesting.inRoutine, List.any_eq_false] at hout ⊢
      intro b hb
      exact hout b (List.mem_of_mem_drop hb)
    rw [Indents, Nesting.blocksOf_main hmain]
    exact encloses_iff hfine hl hs
  | functions => exact indents_functions_iff hfine hl hs

/-- The depth of a line is the number of blocks by which it is indented. -/
theorem ncard_indents {line : SourceLine} {s : Statement}
    (hl : (SourceLine.ofSource source)[k]? = some line)
    (hs : Accepted setup (Progress.before setup (SourceLine.ofSource source) k) line s) :
    let p := Progress.before setup (SourceLine.ofSource source) k
    {block | Indents setup source k block (p.output setup s).part}.ncard =
      (p.behind setup s).depth (s.form setup.target) := by
  intro p
  have hk := (List.getElem?_eq_some_iff.mp hl).1.le
  obtain ⟨blocks, hblocks⟩ : ∃ blocks,
      blocks = (p.around (s.form setup.target)).blocksOf (p.output setup s).part := ⟨_, rfl⟩
  have hsub : blocks.Sublist (p.around (s.form setup.target)) :=
    hblocks ▸ Nesting.blocksOf_sublist _ _
  have hpartner : ∀ b ∈ blocks, ∃ j, Partners (delimiterAt? setup source) b.line j := by
    intro b hb
    apply exists_partner hfine
    exact opening_of_mem_before hk (List.mem_of_mem_drop (hsub.mem hb))
  choose! last hlast using hpartner
  have hset : {block | Indents setup source k block (p.output setup s).part} =
      (blocks.map fun b => (b.line, last b)).toFinset := by
    ext block
    refine (indents_iff hfine hl hs).trans ?_
    rw [← hblocks, Finset.mem_coe, List.mem_toFinset, List.mem_map]
    constructor
    · intro ⟨hp, b, hb, hline⟩
      refine ⟨b, hb, Prod.ext hline ?_⟩
      exact (hline ▸ hlast b hb).right_unique hp
    · intro ⟨b, hb, heq⟩
      rw [← heq]
      exact ⟨hlast b hb, b, hb, rfl⟩
  have hnodup : (blocks.map fun b => (b.line, last b)).Nodup := by
    apply List.pairwise_map.mpr
    apply ((pairwise_around hk (s.form setup.target)).sublist hsub).imp
    intro a b hlt heq
    have := (Prod.mk.inj heq).1
    omega
  rw [hset, Set.ncard_coe_finset, List.toFinset_card_of_nodup hnodup, List.length_map, hblocks,
    Nesting.length_blocksOf, hs.depth_eq_openIn]

end Success

/-- In a source without faults every line is indented by the blocks that enclose it in its part of
the program. Whatever was read before, the depth of an accepted line is not cut off at zero. -/
theorem compile_indents (target : Target) (options : Options) (source : Text) :
    let setup := Setup.ofOptions target options
    let c := Compilation.ofSource setup source
    (∀ text, compile target options source = .ok text → ∀ (k : Nat) (l : OutputLine),
      c.lines[k]? = some l →
      (l.part = .declarations ↔ formAt? target source k = some .record) ∧
      ∃ line s, (SourceLine.ofSource source)[k]? = some line ∧ Statement.ofLine line = .ok s ∧
        l.text = Text.indent {block | Indents setup source k block l.part}.ncard options.unit
          (target.rename (target.wording
            ((Progress.before setup (SourceLine.ofSource source) k).enter (s.form target)).nesting
            s (s.form target)))) ∧
    ∀ (p : Progress) (line : SourceLine) (s : Statement), Accepted setup p line s →
      (if (s.form target).opensBlock then 1 else 0) +
        (p.behind setup s).leftBlocks (s.form target) ≤ (p.behind setup s).nesting.length := by
  intro setup c
  refine ⟨fun text h k l hl => ?_, fun p line s hs => hs.leftBlocks_le⟩
  have hfine : c.faults = [] := by
    obtain ⟨q, outs, hr, hn, -⟩ := compile_eq_ok_iff.mp h
    exact Compilation.faults_eq_nil_iff.mpr ⟨q, outs, hr, hn⟩
  refine ⟨part_eq_declarations_iff hfine hl, ?_⟩
  rw [Compilation.getElem?_lines] at hl
  obtain ⟨line, hline, rfl⟩ := Option.map_eq_some_iff.mp hl
  obtain ⟨s, hs⟩ := accepted_at hfine hline
  refine ⟨line, s, hline, hs.read, ?_⟩
  rw [hs.step_eq, ncard_indents hfine hline hs]
  rfl

/-- A procedure inside of a loop, with two branches inside of it. -/
def branchedSource : Text := "for i 0 3\nfx void f\nif i\nprint i\nelse\nend\nend\nend"

/-- The second branch is indented by the procedure, and neither by the loop nor by the block that it
continues. -/
theorem compile_indents_branch :
    let setup := Setup.ofOptions .python {}
    let c := Compilation.ofSource setup branchedSource
    let s : Statement := ⟨.placed 0 0 "for i 0 3", "for", ["i", "0", "3"], false⟩
    (∃ text, compile .python {} branchedSource = .ok text) ∧
      (∃ l t, c.lines[4]? = some l ∧ l.text = ("    else:" : Text) ∧
        l.text = Text.indent {block | Indents setup branchedSource 4 block l.part}.ncard "    " t) ∧
      1 + (Progress.behind setup {} s).leftBlocks .forRange ≤
        (Progress.behind setup {} s).nesting.length := by
  intro setup c s
  have hok := compile_eq_ok (show c.faults = [] by decide +kernel)
  obtain ⟨hlines, hclip⟩ := compile_indents .python {} branchedSource
  refine ⟨⟨_, hok⟩, ?_, hclip {} s.line s ⟨rfl, rfl⟩⟩
  obtain ⟨l, hl, htext⟩ : ∃ l, c.lines[4]? = some l ∧ l.text = ("    else:" : Text) :=
    ⟨_, rfl, rfl⟩
  obtain ⟨-, line, s, -, -, hindent⟩ := hlines _ hok 4 l hl
  exact ⟨l, _, hl, htext, hindent⟩

end Pseudocode
