import Pseudocode.Proofs.Zones

/-!
# Groups of lines

The lines of a part are picked by what is noted with them, and a group of function lines ends where
a function is closed. Here both are told by indices. `linesAt` picks the lines at the indices with a
property, and the groups are stretches of lines if only the last line of each stretch closes a
function (`Program.groupFunctions_stretches`).
-/
namespace Pseudocode

/-! ### Lines at indices -/

def linesAt (lines : List OutputLine) (P : Nat → Prop) [DecidablePred P] : List OutputLine :=
  (lines.zipIdx.filter fun x => P x.2).map Prod.fst

/-- The texts of lines, without the empty ones. -/
def written (lines : List OutputLine) : List Text :=
  (lines.map OutputLine.text).filter (!·.isEmpty)

section Indices

variable {lines : List OutputLine} {P Q : Nat → Prop} [DecidablePred P] [DecidablePred Q]

theorem filter_linesAt {f : OutputLine → Bool}
    (h : ∀ k l, lines[k]? = some l → (P k ∧ f l = true ↔ Q k)) :
    (linesAt lines P).filter f = linesAt lines Q := by
  rw [linesAt, linesAt, List.filter_map, List.filter_filter]
  congr 1
  refine List.filter_congr fun x hx => ?_
  have := h x.2 x.1 (List.mem_zipIdx_iff_getElem?.mp hx)
  rw [Bool.eq_iff_iff]
  simpa [and_comm] using this

theorem mem_linesAt {l : OutputLine} (h : l ∈ linesAt lines P) : ∃ k, lines[k]? = some l ∧ P k := by
  obtain ⟨x, hx, rfl⟩ := List.mem_map.mp h
  obtain ⟨hmem, hp⟩ := List.mem_filter.mp hx
  exact ⟨x.2, List.mem_zipIdx_iff_getElem?.mp hmem, by simpa using hp⟩

theorem linesAt_append (as bs : List OutputLine) (P : Nat → Prop) [DecidablePred P] :
    linesAt (as ++ bs) P = linesAt as P ++ linesAt bs fun k => P (as.length + k) := by
  simp only [linesAt, List.zipIdx_append, List.filter_append, List.map_append, Nat.zero_add]
  have hshift : bs.zipIdx as.length = bs.zipIdx.map fun x => (x.1, as.length + x.2) :=
    List.zipIdx_eq_map_add
  rw [hshift, List.filter_map, List.map_map]
  rfl

theorem linesAt_eq_self (h : ∀ k < lines.length, P k) : linesAt lines P = lines := by
  rw [linesAt, List.filter_eq_self.mpr, List.zipIdx_map_fst]
  intro x hx
  have := List.mem_zipIdx hx
  simp [h x.2 (by omega)]

theorem linesAt_eq_nil (h : ∀ k < lines.length, ¬ P k) : linesAt lines P = [] := by
  rw [linesAt, List.map_eq_nil_iff, List.filter_eq_nil_iff]
  intro x hx
  have := List.mem_zipIdx hx
  simp [h x.2 (by omega)]

theorem linesAt_middle (as bs cs : List OutputLine) :
    linesAt (as ++ (bs ++ cs)) (fun k => as.length ≤ k ∧ k < as.length + bs.length) = bs := by
  rw [linesAt_append, linesAt_append, linesAt_eq_nil, linesAt_eq_self, linesAt_eq_nil,
    List.nil_append, List.append_nil]
  all_goals omega

theorem linesAt_stretch {i j : Nat} (hij : i ≤ j) (hj : j < lines.length) :
    linesAt lines (fun k => i ≤ k ∧ k ≤ j) = (lines.drop i).take (j + 1 - i) := by
  have hsplit : lines.take i ++ ((lines.drop i).take (j + 1 - i) ++
      (lines.drop i).drop (j + 1 - i)) = lines := by
    rw [List.take_append_drop, List.take_append_drop]
  have hmiddle := linesAt_middle (lines.take i) ((lines.drop i).take (j + 1 - i))
    ((lines.drop i).drop (j + 1 - i))
  have hfirst : (lines.take i).length = i := List.length_take_of_le (by omega)
  have hlen : ((lines.drop i).take (j + 1 - i)).length = j + 1 - i :=
    List.length_take_of_le (by simp only [List.length_drop]; omega)
  rw [hsplit] at hmiddle
  rw [← hmiddle]
  unfold linesAt
  congr 2
  funext x
  rw [hfirst, hlen, decide_eq_decide]
  omega

end Indices

/-! ### Groups -/

namespace Program

variable {lines : List OutputLine}

theorem textsOf_linesAt {part : Part} {P Q : Nat → Prop} [DecidablePred P] [DecidablePred Q]
    (h : ∀ k l, lines[k]? = some l → (P k ∧ l.part = part ↔ Q k)) :
    textsOf part (linesAt lines P) = written (linesAt lines Q) := by
  have hfilter : (linesAt lines P).filter (·.part == part) = linesAt lines Q :=
    filter_linesAt fun k l hl => by rw [beq_iff_eq, h k l hl]
  rw [← hfilter]
  simp [textsOf, written, List.filter_map, List.filter_filter, Function.comp_def, Bool.and_comm]

theorem textsOf_eq_written {part : Part} {Q : Nat → Prop} [DecidablePred Q]
    (h : ∀ k l, lines[k]? = some l → (l.part = part ↔ Q k)) :
    textsOf part lines = written (linesAt lines Q) := by
  have hself : linesAt lines (fun _ => True) = lines := linesAt_eq_self fun _ _ => trivial
  conv_lhs => rw [← hself]
  exact textsOf_linesAt fun k l hl => by rw [true_and, h k l hl]

theorem textsOf_eq_nil {part : Part} (h : ∀ l ∈ lines, l.part ≠ part) :
    textsOf part lines = [] := by
  rw [textsOf, List.map_eq_nil_iff, List.filter_eq_nil_iff]
  intro l hl
  simp [h l hl]

theorem groupFunctions_of_open (h : ∀ l ∈ lines, l.endsRoutine = false) (current : List Text) :
    groupFunctions current lines = addGroup (current ++ textsOf .functions lines) [] := by
  induction lines generalizing current with
  | nil => simp [groupFunctions, textsOf]
  | cons l lines ih =>
    have hl := h l (by simp)
    rw [groupFunctions, hl, if_neg Bool.false_ne_true, ih (fun m hm => h m (by simp [hm])),
      List.append_assoc, ← textsOf_append]
    rfl

theorem groupFunctions_of_end {last : OutputLine} (h : ∀ l ∈ lines, l.endsRoutine = false)
    (hlast : last.endsRoutine = true) (current : List Text) (rest : List OutputLine) :
    groupFunctions current (lines ++ last :: rest) =
      addGroup (current ++ textsOf .functions (lines ++ [last])) (groupFunctions [] rest) := by
  induction lines generalizing current with
  | nil =>
    rw [List.nil_append, List.nil_append, groupFunctions, hlast]
    rfl
  | cons l lines ih =>
    have hl := h l (by simp)
    rw [List.cons_append, groupFunctions, hl, if_neg Bool.false_ne_true,
      ih (fun m hm => h m (by simp [hm])), List.append_assoc, ← textsOf_append]
    rfl

theorem exists_index_of_mem {a n : Nat} {l : OutputLine} (h : l ∈ (lines.drop a).take n) :
    ∃ k, a ≤ k ∧ k < a + n ∧ lines[k]? = some l := by
  obtain ⟨k, hk⟩ := List.mem_iff_getElem?.mp h
  rw [List.getElem?_take] at hk
  split_ifs at hk with hn
  rw [List.getElem?_drop] at hk
  exact ⟨a + k, by omega, by omega, hk⟩

theorem textsOf_stretch_ne_nil {part : Part} {i j : Nat} {l : OutputLine} (hij : i ≤ j)
    (hl : lines[i]? = some l) (hpart : l.part = part) (htext : l.text ≠ []) :
    textsOf part ((lines.drop i).take (j + 1 - i)) ≠ [] := by
  have hfirst : ((lines.drop i).take (j + 1 - i))[0]? = some l := by
    rw [List.getElem?_take_of_lt (by omega), List.getElem?_drop, Nat.add_zero, hl]
  refine List.ne_nil_of_mem (List.mem_map.mpr ⟨l, List.mem_filter.mpr ?_, rfl⟩)
  exact ⟨List.mem_of_getElem? hfirst, by simp [hpart, htext]⟩

theorem stretch_split {a i j : Nat} {last : OutputLine} (ha : a ≤ i) (hij : i ≤ j)
    (hj : lines[j]? = some last) :
    (lines.drop a).take (j - a) ++ [last] =
      (lines.drop a).take (i - a) ++ (lines.drop i).take (j + 1 - i) := by
  have hlast : (lines.drop a)[j - a]? = some last := by
    rw [List.getElem?_drop, show a + (j - a) = j by omega, hj]
  calc (lines.drop a).take (j - a) ++ [last]
      = (lines.drop a).take (j - a + 1) := by
        rw [List.take_add_one, hlast]
        rfl
    _ = (lines.drop a).take ((i - a) + (j + 1 - i)) := by
        rw [show j - a + 1 = (i - a) + (j + 1 - i) by omega]
    _ = (lines.drop a).take (i - a) ++ (lines.drop i).take (j + 1 - i) := by
        rw [List.take_add, List.drop_drop, show a + (i - a) = i by omega]

/-- The lines up to `j` give one group if only the last of them closes a function, and only those
from `i` on belong to the functions. -/
theorem groupFunctions_first {a i j : Nat} {last : OutputLine} (ha : a ≤ i) (hij : i ≤ j)
    (hj : lines[j]? = some last) (hlast : last.endsRoutine = true)
    (hopen : ∀ k l, a ≤ k → k < j → lines[k]? = some l → l.endsRoutine = false)
    (hbefore : ∀ k l, a ≤ k → k < i → lines[k]? = some l → l.part ≠ .functions)
    (hne : textsOf .functions ((lines.drop i).take (j + 1 - i)) ≠ []) :
    groupFunctions [] (lines.drop a) =
      textsOf .functions ((lines.drop i).take (j + 1 - i)) ::
        groupFunctions [] (lines.drop (j + 1)) := by
  have hsplit : lines.drop a = (lines.drop a).take (j - a) ++ last :: lines.drop (j + 1) := by
    obtain ⟨hlt, rfl⟩ := List.getElem?_eq_some_iff.mp hj
    conv_lhs => rw [← List.take_append_drop (j - a) (lines.drop a)]
    rw [List.drop_drop, show a + (j - a) = j by omega, List.drop_eq_getElem_cons hlt]
  have hinner : ∀ l ∈ (lines.drop a).take (j - a), l.endsRoutine = false := by
    intro l hl
    obtain ⟨k, hak, hkj, hk⟩ := exists_index_of_mem hl
    exact hopen k l hak (by omega) hk
  have hnone : textsOf .functions ((lines.drop a).take (i - a)) = [] := by
    refine textsOf_eq_nil fun l hl => ?_
    obtain ⟨k, hak, hki, hk⟩ := exists_index_of_mem hl
    exact hbefore k l hak (by omega) hk
  rw [hsplit, groupFunctions_of_end hinner hlast, stretch_split ha hij hj, textsOf_append, hnone,
    addGroup, if_neg (by simpa using hne)]
  rfl

/-- Stretches of lines are the groups if they follow each other, the last line of each and no other
closes a function, and no text of a function stands outside of them. -/
theorem groupFunctions_stretches {spans : List (Nat × Nat)} {a : Nat}
    (hsorted : spans.Pairwise fun s t => s.2 < t.1)
    (hin : ∀ s ∈ spans, a ≤ s.1 ∧ s.1 ≤ s.2 ∧ s.2 < lines.length)
    (hends : ∀ k l, a ≤ k → lines[k]? = some l → (l.endsRoutine = true ↔ ∃ s ∈ spans, s.2 = k))
    (hparts : ∀ k l, a ≤ k → lines[k]? = some l → l.part = .functions →
      ∃ s ∈ spans, s.1 ≤ k ∧ k ≤ s.2)
    (hne : ∀ s ∈ spans, textsOf .functions ((lines.drop s.1).take (s.2 + 1 - s.1)) ≠ []) :
    groupFunctions [] (lines.drop a) =
      spans.map fun s => textsOf .functions ((lines.drop s.1).take (s.2 + 1 - s.1)) := by
  induction spans generalizing a with
  | nil =>
    have hopen : ∀ l ∈ lines.drop a, l.endsRoutine = false ∧ l.part ≠ .functions := by
      intro l hl
      obtain ⟨k, hk⟩ := List.mem_iff_getElem?.mp hl
      rw [List.getElem?_drop] at hk
      have he := hends (a + k) l (by omega) hk
      have hp := hparts (a + k) l (by omega) hk
      exact ⟨by simpa using he, by simpa using hp⟩
    rw [groupFunctions_of_open fun l hl => (hopen l hl).1,
      textsOf_eq_nil fun l hl => (hopen l hl).2]
    rfl
  | cons s spans ih =>
    obtain ⟨hlater, hsorted⟩ := List.pairwise_cons.mp hsorted
    obtain ⟨ha, hij, hj⟩ := hin s (by simp)
    have hafter : ∀ t ∈ spans, s.2 + 1 ≤ t.1 ∧ t.1 ≤ t.2 ∧ t.2 < lines.length := fun t ht =>
      ⟨hlater t ht, (hin t (by simp [ht])).2⟩
    have hlast := List.getElem?_eq_getElem hj
    have hclosing := (hends _ _ (by omega) hlast).mpr ⟨s, by simp, rfl⟩
    have hopen : ∀ k l, a ≤ k → k < s.2 → lines[k]? = some l → l.endsRoutine = false := by
      intro k l hak hkj hl
      rw [← Bool.not_eq_true, hends k l hak hl]
      rintro ⟨t, ht, htk⟩
      rcases List.mem_cons.mp ht with rfl | ht
      · omega
      · have := hafter t ht
        omega
    have hbefore : ∀ k l, a ≤ k → k < s.1 → lines[k]? = some l → l.part ≠ .functions := by
      intro k l hak hki hl hp
      obtain ⟨t, ht, htk⟩ := hparts k l hak hl hp
      rcases List.mem_cons.mp ht with rfl | ht
      · omega
      · have := hafter t ht
        omega
    rw [groupFunctions_first ha hij hlast hclosing hopen hbefore (hne s (by simp)), List.map_cons]
    congr 1
    refine ih hsorted hafter ?_ ?_ fun t ht => hne t (by simp [ht])
    · intro k l hk hl
      rw [hends k l (by omega) hl, List.exists_mem_cons_iff]
      exact or_iff_right (by omega)
    · intro k l hk hl hp
      obtain ⟨t, ht, htk⟩ := hparts k l (by omega) hl hp
      rcases List.mem_cons.mp ht with rfl | ht
      · omega
      · exact ⟨t, ht, htk⟩

end Program

end Pseudocode
