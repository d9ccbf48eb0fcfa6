import Mathlib
import Pseudocode.Block

/-!
# Delimiters and their partners

Some lines of a text open a block, and some close one. An opening and a closing line are partners if
what stands between them is balanced. This is how brackets match, said without a stack. `openers` is
the stack: the opening lines that are still open in front of a line. Its top is the partner of a
closing line (`top_iff_partners`), and an opening line stays on it exactly if it has no partner
(`mem_openers_iff`).
-/
namespace Pseudocode

inductive Delimiter
  | opening (kind : BlockKind)
  | closing
  deriving DecidableEq, Repr

namespace Delimiter

/-- Every block that is opened is closed, and nothing else is. -/
inductive Balanced : List Delimiter → Prop
  | nil : Balanced []
  | block {kind : BlockKind} {inner rest : List Delimiter} :
      Balanced inner → Balanced rest → Balanced (opening kind :: inner ++ closing :: rest)

theorem Balanced.append {as bs : List Delimiter} (ha : Balanced as) (hb : Balanced bs) :
    Balanced (as ++ bs) := by
  induction ha with
  | nil => exact hb
  | @block kind inner rest hinner _ _ ih =>
    rw [List.append_assoc, List.cons_append]
    exact .block hinner ih

/-- The delimiters on the lines from `i` up to, and without, `j`. -/
def segment (at? : Nat → Option Delimiter) (i j : Nat) : List Delimiter :=
  (List.range' i (j - i)).filterMap at?

/-- Line `i` opens a block, line `j` closes one, and what stands between them is balanced. -/
structure Partners (at? : Nat → Option Delimiter) (i j : Nat) : Prop where
  lt : i < j
  opens : ∃ kind, at? i = some (opening kind)
  closes : at? j = some closing
  balanced : Balanced (segment at? (i + 1) j)

/-- Line `k` stands in the block that line `i` opens, and in no block inside of that one. -/
structure Innermost (at? : Nat → Option Delimiter) (i : Nat) (kind : BlockKind) (k : Nat) :
    Prop where
  lt : i < k
  opens : at? i = some (opening kind)
  balanced : Balanced (segment at? (i + 1) k)

def across (k : Nat) (opened : List (Nat × BlockKind)) : Option Delimiter → List (Nat × BlockKind)
  | none => opened
  | some (opening kind) => (k, kind) :: opened
  | some closing => opened.tail

/-- The lines in front of line `k` that are open, with their kinds, from the innermost outwards. -/
def openers (at? : Nat → Option Delimiter) : Nat → List (Nat × BlockKind)
  | 0 => []
  | k + 1 => across k (openers at? k) (at? k)

variable {at? : Nat → Option Delimiter} {i j k n : Nat} {kind : BlockKind}

/-! ### Segments -/

@[simp] theorem segment_self (i : Nat) : segment at? i i = [] := by simp [segment]

theorem segment_append (hi : i ≤ k) (hj : k ≤ j) :
    segment at? i j = segment at? i k ++ segment at? k j := by
  unfold segment
  rw [← List.filterMap_append, show j - i = (k - i) + (j - k) by omega, ← List.range'_append,
    show i + 1 * (k - i) = k by omega]

theorem segment_succ (h : i ≤ k) : segment at? i (k + 1) = segment at? i k ++ (at? k).toList := by
  rw [segment_append h (Nat.le_succ k)]
  have hone : k + 1 - k = 1 := by omega
  simp only [segment, hone, List.range'_one, List.append_cancel_left_eq]
  cases hk : at? k <;> simp [hk]

theorem exists_of_segment_append {as bs : List Delimiter} (hij : i ≤ j)
    (h : segment at? i j = as ++ bs) :
    ∃ k, i ≤ k ∧ k ≤ j ∧ segment at? i k = as ∧ segment at? k j = bs := by
  obtain ⟨xs, ys, hrange, hxs, hys⟩ := List.filterMap_eq_append_iff.mp h
  obtain ⟨m, hm, rfl, rfl⟩ := List.range'_eq_append_iff.mp hrange
  refine ⟨i + m, by omega, by omega, ?_, ?_⟩
  · rw [segment, Nat.add_sub_cancel_left]
    exact hxs
  · rw [segment, show j - (i + m) = j - i - m by omega]
    simpa using hys

theorem exists_of_segment_cons {d : Delimiter} {ds : List Delimiter}
    (h : segment at? i j = d :: ds) :
    ∃ k, i ≤ k ∧ k < j ∧ segment at? i k = [] ∧ at? k = some d ∧ segment at? (k + 1) j = ds := by
  obtain ⟨xs, k, ys, hrange, hxs, hk, hys⟩ := List.filterMap_eq_cons_iff.mp h
  obtain ⟨m, hm, rfl, hcons⟩ := List.range'_eq_append_iff.mp hrange
  obtain ⟨rfl, hpos, rfl⟩ := List.range'_eq_cons_iff.mp hcons.symm
  refine ⟨i + m * 1, by omega, by omega, ?_, hk, ?_⟩
  · rw [segment, show i + m * 1 - i = m by omega]
    exact List.filterMap_eq_nil_iff.mpr hxs
  · rw [segment, show j - (i + m * 1 + 1) = j - i - m - 1 by omega]
    exact hys

/-! ### The open lines -/

theorem openers_succ_of_none (h : at? k = none) : openers at? (k + 1) = openers at? k := by
  simp [openers, across, h]

theorem openers_succ_of_opening (h : at? k = some (opening kind)) :
    openers at? (k + 1) = (k, kind) :: openers at? k := by
  simp [openers, across, h]

theorem openers_succ_of_closing (h : at? k = some closing) :
    openers at? (k + 1) = (openers at? k).tail := by
  simp [openers, across, h]

theorem openers_of_segment_nil (hij : i ≤ j) (h : segment at? i j = []) :
    openers at? j = openers at? i := by
  induction j, hij using Nat.le_induction with
  | base => rfl
  | succ j hij ih =>
    rw [segment_succ hij, List.append_eq_nil_iff] at h
    have hj : at? j = none := by simpa using h.2
    rw [openers_succ_of_none hj, ih h.1]

theorem openers_of_balanced {ds : List Delimiter} (hd : Balanced ds) (hij : i ≤ j)
    (h : segment at? i j = ds) : openers at? j = openers at? i := by
  induction hd generalizing i j with
  | nil => exact openers_of_segment_nil hij h
  | @block kind inner rest _ _ ihinner ihrest =>
    obtain ⟨a, hia, haj, hskip, ha, hseg⟩ := exists_of_segment_cons h
    obtain ⟨b, hab, hbj, hinner, hseg'⟩ := exists_of_segment_append haj hseg
    obtain ⟨c, hbc, hcj, hskip', hc, hrest⟩ := exists_of_segment_cons hseg'
    calc openers at? j = openers at? (c + 1) := ihrest hcj hrest
      _ = (openers at? c).tail := openers_succ_of_closing hc
      _ = (openers at? b).tail := by rw [openers_of_segment_nil hbc hskip']
      _ = (openers at? (a + 1)).tail := by rw [ihinner hab hinner]
      _ = openers at? a := by rw [openers_succ_of_opening ha, List.tail_cons]
      _ = openers at? i := openers_of_segment_nil hia hskip

/-- The innermost open line opens a block, behind it all is balanced, and below it on the stack are
the lines that were open in front of it. -/
theorem openers_eq_cons {rest : List (Nat × BlockKind)} (h : openers at? k = (i, kind) :: rest) :
    i < k ∧ at? i = some (opening kind) ∧ Balanced (segment at? (i + 1) k) ∧
      rest = openers at? i := by
  induction k using Nat.strong_induction_on generalizing i kind rest with
  | _ k ih =>
    cases k with
    | zero => cases h
    | succ k =>
      cases hk : at? k with
      | none =>
        rw [openers_succ_of_none hk] at h
        obtain ⟨hik, hi, hb, hrest⟩ := ih k (by omega) h
        refine ⟨by omega, hi, ?_, hrest⟩
        rw [segment_succ (by omega), hk]
        simpa using hb
      | some d =>
        cases d with
        | opening kind' =>
          rw [openers_succ_of_opening hk] at h
          cases h
          exact ⟨by omega, hk, by simpa using Balanced.nil, rfl⟩
        | closing =>
          rw [openers_succ_of_closing hk] at h
          -- line `k` closes line `i'`, which stands in the block of line `i`
          obtain ⟨⟨i', kind'⟩, htop⟩ : ∃ x, openers at? k = x :: (i, kind) :: rest := by
            cases ho : openers at? k with
            | nil => simp [ho] at h
            | cons x xs => exact ⟨x, by rw [← h, ho, List.tail_cons]⟩
          obtain ⟨hi'k, hi', hb', hrest'⟩ := ih k (by omega) htop
          obtain ⟨hii', hi, hb, hrest⟩ := ih i' (by omega) hrest'.symm
          refine ⟨by omega, hi, ?_, hrest⟩
          rw [segment_succ (by omega), segment_append (k := i') (by omega) (by omega),
            segment_append (i := i') (k := i' + 1) (by omega) (by omega), segment_succ le_rfl, hi',
            hk, List.append_assoc]
          have hblock : Balanced (opening kind' :: segment at? (i' + 1) k ++ [closing]) :=
            .block hb' .nil
          exact hb.append (by simpa using hblock)

/-- The top of the stack is the innermost block. -/
theorem innermost_iff : Innermost at? i kind k ↔ (openers at? k).head? = some (i, kind) := by
  constructor
  · intro h
    rw [openers_of_balanced h.balanced h.lt rfl, openers_succ_of_opening h.opens]
    rfl
  · intro h
    obtain ⟨rest, hcons⟩ : ∃ rest, openers at? k = (i, kind) :: rest := List.head?_eq_some_iff.mp h
    obtain ⟨hik, hi, hb, -⟩ := openers_eq_cons hcons
    exact ⟨hik, hi, hb⟩

/-- A closing line closes the innermost open line, which is its partner. -/
theorem top_iff_partners (hj : at? j = some closing) (hi : at? i = some (opening kind)) :
    (openers at? j).head? = some (i, kind) ↔ Partners at? i j := by
  rw [← innermost_iff]
  constructor
  · intro h
    exact ⟨h.lt, ⟨kind, hi⟩, hj, h.balanced⟩
  · intro h
    exact ⟨h.lt, hi, h.balanced⟩

theorem exists_partner_iff (hj : at? j = some closing) :
    (∃ i, Partners at? i j) ↔ openers at? j ≠ [] := by
  constructor
  · rintro ⟨i, h⟩ hnil
    obtain ⟨kind, hi⟩ := h.opens
    simpa [hnil] using (top_iff_partners hj hi).mpr h
  · intro hne
    obtain ⟨⟨i, kind⟩, rest, hcons⟩ := List.exists_cons_of_ne_nil hne
    obtain ⟨hij, hi, hb, -⟩ := openers_eq_cons hcons
    exact ⟨i, hij, ⟨kind, hi⟩, hj, hb⟩

theorem mem_openers (h : (i, kind) ∈ openers at? k) : i < k ∧ at? i = some (opening kind) := by
  induction k using Nat.strong_induction_on with
  | _ k ih =>
    obtain ⟨⟨i', kind'⟩, rest, hcons⟩ := List.exists_cons_of_ne_nil (List.ne_nil_of_mem h)
    obtain ⟨hk, hi', -, rfl⟩ := openers_eq_cons hcons
    rw [hcons, List.mem_cons] at h
    rcases h with h | h
    · cases h
      exact ⟨hk, hi'⟩
    · obtain ⟨hlt, hi⟩ := ih i' hk h
      exact ⟨by omega, hi⟩

theorem mem_openers_of_le (hkn : k ≤ n) (h : (i, kind) ∈ openers at? n) :
    (i, kind) ∈ openers at? k ∨ k ≤ i := by
  induction n, hkn using Nat.le_induction with
  | base => exact .inl h
  | succ n hkn ih =>
    cases hn : at? n with
    | none => exact ih (openers_succ_of_none hn ▸ h)
    | some d =>
      cases d with
      | opening kind' =>
        rw [openers_succ_of_opening hn, List.mem_cons] at h
        rcases h with h | h
        · cases h
          exact .inr hkn
        · exact ih h
      | closing => exact ih (List.mem_of_mem_tail (openers_succ_of_closing hn ▸ h))

/-- An opening line is open as long as it has no partner. -/
theorem mem_openers_iff (hi : at? i = some (opening kind)) (hin : i < n) :
    (i, kind) ∈ openers at? n ↔ ¬ ∃ j < n, Partners at? i j := by
  constructor
  · rintro h ⟨j, hjn, hp⟩
    have htop := openers_of_balanced hp.balanced hp.lt rfl
    rw [openers_succ_of_opening hi] at htop
    -- behind line `j` the line is gone, and no later line can open it again
    rcases mem_openers_of_le hjn h with hmem | hle
    · rw [openers_succ_of_closing hp.closes, htop, List.tail_cons] at hmem
      exact absurd (mem_openers hmem).1 (lt_irrefl i)
    · have := hp.lt
      omega
  · intro h
    induction n, hin using Nat.le_induction with
    | base => simp [openers_succ_of_opening hi]
    | succ n hin ih =>
      have hmem := ih fun ⟨j, hj, hp⟩ => h ⟨j, by omega, hp⟩
      cases hn : at? n with
      | none => rwa [openers_succ_of_none hn]
      | some d =>
        cases d with
        | opening kind' =>
          rw [openers_succ_of_opening hn]
          exact List.mem_cons_of_mem _ hmem
        | closing =>
          obtain ⟨x, rest, hcons⟩ := List.exists_cons_of_ne_nil (List.ne_nil_of_mem hmem)
          rw [openers_succ_of_closing hn, hcons, List.tail_cons]
          rw [hcons, List.mem_cons] at hmem
          rcases hmem with rfl | hmem
          · exact absurd ⟨n, by omega, (top_iff_partners hn hi).mp (by rw [hcons]; rfl)⟩ h
          · exact hmem

theorem Partners.right_unique {j' : Nat} (h : Partners at? i j) (h' : Partners at? i j') :
    j = j' := by
  have hle : ∀ {j j' : Nat}, Partners at? i j → Partners at? i j' → j' ≤ j := by
    intro j j' h h'
    obtain ⟨kind, hi⟩ := h'.opens
    have htop := (top_iff_partners h'.closes hi).mpr h'
    have hopen := (mem_openers_iff hi h'.lt).mp (List.mem_of_mem_head? htop)
    by_contra hlt
    exact hopen ⟨j, by omega, h⟩
  exact le_antisymm (hle h' h) (hle h h')

theorem mem_openers_iff_le (h : Partners at? i j) (hi : at? i = some (opening kind)) (hik : i < k) :
    (i, kind) ∈ openers at? k ↔ k ≤ j := by
  rw [mem_openers_iff hi hik]
  constructor
  · intro hno
    by_contra hlt
    exact hno ⟨j, by omega, h⟩
  · rintro hkj ⟨j', hj', h'⟩
    have := h.right_unique h'
    omega

theorem pairwise_openers (at? : Nat → Option Delimiter) (k : Nat) :
    (openers at? k).Pairwise fun x y => y.1 < x.1 := by
  induction k using Nat.strong_induction_on with
  | _ k ih =>
    cases ho : openers at? k with
    | nil => exact .nil
    | cons x rest =>
      obtain ⟨hlt, -, -, rfl⟩ := openers_eq_cons ho
      apply List.pairwise_cons.mpr
      exact ⟨fun y hy => (mem_openers hy).1, ih x.1 hlt⟩

theorem Partners.left_unique {i' : Nat} (h : Partners at? i j) (h' : Partners at? i' j) :
    i = i' := by
  obtain ⟨kind, hi⟩ := h.opens
  obtain ⟨kind', hi'⟩ := h'.opens
  have htop := (top_iff_partners h.closes hi).mpr h
  rw [(top_iff_partners h.closes hi').mpr h'] at htop
  cases htop
  rfl

/-- The innermost open line is the last one without a partner. -/
theorem head_openers_iff (hi : at? i = some (opening kind)) (hin : i < n) :
    (openers at? n).head? = some (i, kind) ↔
      (¬ ∃ j < n, Partners at? i j) ∧
        ∀ i' kind', i < i' → i' < n → at? i' = some (opening kind') →
          ∃ j < n, Partners at? i' j := by
  constructor
  · intro h
    obtain ⟨rest, hcons⟩ : ∃ rest, openers at? n = (i, kind) :: rest := List.head?_eq_some_iff.mp h
    refine ⟨(mem_openers_iff hi hin).mp (by simp [hcons]), fun i' kind' hlt hin' hi' => ?_⟩
    obtain ⟨-, -, -, rfl⟩ := openers_eq_cons hcons
    by_contra hno
    have hmem := (mem_openers_iff hi' hin').mpr hno
    rw [hcons, List.mem_cons] at hmem
    rcases hmem with heq | hmem
    · cases heq
      omega
    · have := (mem_openers hmem).1
      omega
  · rintro ⟨hno, hlater⟩
    have hmem := (mem_openers_iff hi hin).mpr hno
    obtain ⟨⟨i', kind'⟩, rest, hcons⟩ := List.exists_cons_of_ne_nil (List.ne_nil_of_mem hmem)
    obtain ⟨hin', hi', -, rfl⟩ := openers_eq_cons hcons
    rw [hcons, List.mem_cons] at hmem
    rcases hmem with heq | hmem
    · rw [hcons, heq]
      rfl
    · have hlt := (mem_openers hmem).1
      exact absurd (hlater i' kind' hlt hin' hi') ((mem_openers_iff hi' hin').mp (by simp [hcons]))

end Delimiter

end Pseudocode
