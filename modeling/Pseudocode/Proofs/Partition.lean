import Pseudocode.Proofs.Braces
import Pseudocode.Proofs.Composition
import Pseudocode.Proofs.Groups

/-!
# The parts of a program

A program is made from any list of output lines, whatever their parts and wherever a function is
closed. Every line with a text is in the program once, in its own part and in order. A group of
function lines ends at a line that closes a function, which need not belong to the functions and
need not have a text. So two function lines, one next to the other, part exactly if a function is
closed on the way from the one to the other (`ofLines_partition`).
-/
namespace Pseudocode

/-! ### Places in groups -/

/-- The index of the group that holds the element at place `n` of all groups, one behind the
other. -/
def groupAt {α : Type} : List (List α) → Nat → Option Nat
  | [], _ => none
  | group :: groups, n =>
    if n < group.length then some 0 else (groupAt groups (n - group.length)).map (· + 1)

section Places

variable {α : Type}

theorem groupAt_cons_of_lt {group : List α} {n : Nat} (h : n < group.length)
    (groups : List (List α)) : groupAt (group :: groups) n = some 0 := if_pos h

theorem groupAt_append (before groups : List (List α)) (n : Nat) :
    groupAt (before ++ groups) (before.flatten.length + n) =
      (groupAt groups n).map (before.length + ·) := by
  induction before with
  | nil => simp
  | cons group before ih =>
    have hpast : ¬ group.length + before.flatten.length + n < group.length := by omega
    have hrest : group.length + before.flatten.length + n - group.length =
        before.flatten.length + n := by omega
    rw [List.cons_append, List.flatten_cons, List.length_append, groupAt, if_neg hpast, hrest, ih,
      Option.map_map]
    congr 1
    funext g
    simp only [Function.comp_apply, List.length_cons]
    omega

theorem mem_of_groupAt {groups : List (List α)} {n : Nat} {a : α}
    (h : groups.flatten[n]? = some a) :
    ∃ g group, groupAt groups n = some g ∧ groups[g]? = some group ∧ a ∈ group := by
  induction groups generalizing n with
  | nil => simp at h
  | cons group groups ih =>
    rw [List.flatten_cons] at h
    by_cases hn : n < group.length
    · rw [List.getElem?_append_left hn] at h
      exact ⟨0, group, groupAt_cons_of_lt hn groups, rfl, List.mem_of_getElem? h⟩
    · rw [List.getElem?_append_right (by omega)] at h
      obtain ⟨g, found, hg, hfound, ha⟩ := ih h
      exact ⟨g + 1, found, by rw [groupAt, if_neg hn, hg]; rfl, hfound, ha⟩

end Places

/-! ### Groups under way -/

def OutputLine.writes (part : Part) (l : OutputLine) : Bool := l.part == part && !l.text.isEmpty

namespace Program

variable {part : Part} {l m : OutputLine} {ls ms : List OutputLine} {current : List Text}

theorem textsOf_eq_filter (part : Part) (ls : List OutputLine) :
    textsOf part ls = written (ls.filter (·.part = part)) := by
  simp [textsOf, written, List.filter_map, List.filter_filter, Function.comp_def, Bool.and_comm,
    Bool.beq_eq_decide_eq]

theorem textsOf_cons_of_writes (h : l.writes part = true) (ls : List OutputLine) :
    textsOf part (l :: ls) = l.text :: textsOf part ls :=
  congrArg (List.map OutputLine.text) (List.filter_cons_of_pos h)

theorem textsOf_eq_nil_iff : textsOf part ls = [] ↔ ∀ l ∈ ls, l.writes part = false := by
  rw [textsOf, List.map_eq_nil_iff, List.filter_eq_nil_iff]
  simp [OutputLine.writes]

theorem nil_notMem_addGroup {group : List Text} {groups : List (List Text)} (h : [] ∉ groups) :
    [] ∉ addGroup group groups := by
  unfold addGroup
  split_ifs with hg
  · exact h
  · have hne : group ≠ [] := by simpa using hg
    exact List.not_mem_cons_of_ne_of_not_mem hne.symm h

theorem nil_notMem_groupFunctions (current : List Text) (ls : List OutputLine) :
    [] ∉ groupFunctions current ls := by
  induction ls generalizing current with
  | nil => exact nil_notMem_addGroup List.not_mem_nil
  | cons l ls ih =>
    rw [groupFunctions]
    split_ifs
    · exact nil_notMem_addGroup (ih [])
    · exact ih _

/-- Lines end some groups and leave one under way, which the lines behind them go on with. -/
theorem exists_groupFunctions_append (current : List Text) (ls ms : List OutputLine) :
    ∃ ended, groupFunctions current (ls ++ ms) = ended ++ groupFunctions (openGroup current ls) ms ∧
      ended.flatten ++ openGroup current ls = current ++ textsOf .functions ls := by
  induction ls generalizing current with
  | nil => exact ⟨[], rfl, by simp [openGroup, textsOf]⟩
  | cons l ls ih =>
    have htexts : textsOf .functions (l :: ls) = textsOf .functions [l] ++ textsOf .functions ls :=
      textsOf_append .functions [l] ls
    rw [List.cons_append, groupFunctions, openGroup, htexts]
    split_ifs with he
    · obtain ⟨ended, hgroups, hflat⟩ := ih []
      refine ⟨addGroup (current ++ textsOf .functions [l]) ended, ?_, ?_⟩
      · rw [hgroups, addGroup_append]
      · rw [flatten_addGroup, List.append_assoc, hflat, List.nil_append, List.append_assoc]
    · obtain ⟨ended, hgroups, hflat⟩ := ih (current ++ textsOf .functions [l])
      exact ⟨ended, hgroups, by rw [hflat, List.append_assoc]⟩

/-- A group that has been begun is the first one, and may only grow. -/
theorem exists_groupFunctions_cons (h : current ≠ []) (ls : List OutputLine) :
    ∃ more groups, groupFunctions current ls = (current ++ more) :: groups := by
  induction ls generalizing current with
  | nil => exact ⟨[], [], by simp [groupFunctions, addGroup, h]⟩
  | cons l ls ih =>
    have hgrown : current ++ textsOf .functions [l] ≠ [] := by simp [h]
    rw [groupFunctions]
    split_ifs
    · exact ⟨textsOf .functions [l], groupFunctions [] ls, if_neg (by simpa using hgrown)⟩
    · obtain ⟨more, groups, hg⟩ := ih hgrown
      exact ⟨textsOf .functions [l] ++ more, groups, by rw [hg, List.append_assoc]⟩

/-- Lines that write nothing to the functions end the group under way if one of them closes a
function, and otherwise leave it as it is. -/
theorem groupFunctions_silent (h : textsOf .functions ls = []) (current : List Text)
    (ms : List OutputLine) :
    groupFunctions current (ls ++ ms) =
      if ls.any OutputLine.endsRoutine then addGroup current (groupFunctions [] ms)
      else groupFunctions current ms := by
  induction ls generalizing current with
  | nil => rfl
  | cons l ls ih =>
    have hsplit : textsOf .functions [l] ++ textsOf .functions ls = [] :=
      (textsOf_append .functions [l] ls).symm.trans h
    obtain ⟨hhead, htail⟩ := List.append_eq_nil_iff.mp hsplit
    rw [List.cons_append, groupFunctions, hhead, List.append_nil, List.any_cons]
    cases he : l.endsRoutine with
    | true =>
      -- a second end changes nothing, since the group under way is empty by then
      have hagain : groupFunctions [] (ls ++ ms) = groupFunctions [] ms := by
        rw [ih htail]
        split_ifs <;> rfl
      rw [hagain]
      rfl
    | false => simpa using ih htail current

/-- A line that writes to the functions adds its text to the group under way. -/
theorem exists_groupFunctions_writes (h : m.writes .functions = true) (current : List Text)
    (ms : List OutputLine) :
    ∃ more groups, groupFunctions current (m :: ms) = (current ++ m.text :: more) :: groups := by
  have hline : textsOf .functions [m] = [m.text] := textsOf_cons_of_writes h []
  have hgrown : current ++ [m.text] ≠ [] := by simp
  rw [groupFunctions, hline]
  split_ifs
  · exact ⟨[], groupFunctions [] ms, if_neg (by simp)⟩
  · obtain ⟨more, groups, hg⟩ := exists_groupFunctions_cons hgrown ms
    exact ⟨more, groups, by rw [hg, List.append_assoc, List.singleton_append]⟩

/-- What a function line, and lines behind it that write nothing to the functions, make of the group
under way. -/
theorem groupFunctions_stretch (hl : l.writes .functions = true) {mid : List OutputLine}
    (hmid : textsOf .functions mid = []) (current : List Text) (ms : List OutputLine) :
    groupFunctions current (l :: (mid ++ ms)) =
      if (l :: mid).any OutputLine.endsRoutine then (current ++ [l.text]) :: groupFunctions [] ms
      else groupFunctions (current ++ [l.text]) ms := by
  have hadd : ∀ groups, addGroup (current ++ [l.text]) groups = (current ++ [l.text]) :: groups :=
    fun groups => if_neg (by simp)
  have hline : textsOf .functions [l] = [l.text] := textsOf_cons_of_writes hl []
  rw [groupFunctions, hline, groupFunctions_silent hmid, groupFunctions_silent hmid, hadd, hadd,
    List.any_cons]
  cases l.endsRoutine with
  | true => cases mid.any OutputLine.endsRoutine <;> rfl
  | false => rfl

/-- Two function lines with none between them are in one group, or in two groups next to each other
if a function is closed from the first on and before the second. -/
theorem groupAt_neighbours (hl : l.writes .functions = true) (hm : m.writes .functions = true)
    {mid : List OutputLine} (hmid : textsOf .functions mid = []) (ls ms : List OutputLine) :
    let groups := groupFunctions [] (ls ++ l :: (mid ++ m :: ms))
    let n := (textsOf .functions ls).length
    ∃ g, groupAt groups n = some g ∧
      groupAt groups (n + 1) =
        some (if (l :: mid).any OutputLine.endsRoutine then g + 1 else g) := by
  intro groups n
  obtain ⟨ended, hgroups, hflat⟩ :=
    exists_groupFunctions_append [] ls (l :: (mid ++ m :: ms))
  generalize openGroup [] ls = begun at hgroups hflat
  have hn : n = ended.flatten.length + begun.length := by
    rw [show n = (textsOf .functions ls).length from rfl, ← List.length_append, hflat,
      List.nil_append]
  rw [show groups = _ from hgroups, groupFunctions_stretch hl hmid, hn, Nat.add_assoc,
    groupAt_append, groupAt_append]
  refine ⟨ended.length, ?_⟩
  split_ifs
  · obtain ⟨more, rest, hsecond⟩ := exists_groupFunctions_writes hm [] ms
    have hnext : groupAt ((begun ++ [l.text]) :: groupFunctions [] (m :: ms)) (begun.length + 1) =
        some 1 := by
      rw [hsecond]
      simp [groupAt]
    rw [groupAt_cons_of_lt (by simp), hnext]
    exact ⟨rfl, rfl⟩
  · obtain ⟨more, rest, hboth⟩ := exists_groupFunctions_writes hm (begun ++ [l.text]) ms
    rw [hboth, groupAt_cons_of_lt (by simp), groupAt_cons_of_lt (by simp)]
    exact ⟨rfl, rfl⟩

/-! ### The partition -/

structure Neighbours (part : Part) (lines : List OutputLine) (i j : Nat) : Prop where
  lt : i < j
  first : lines[i]?.any (OutputLine.writes part) = true
  second : lines[j]?.any (OutputLine.writes part) = true
  between : ∀ k < j, i < k → lines[k]?.any (OutputLine.writes part) = false

instance (part : Part) (lines : List OutputLine) (i j : Nat) :
    Decidable (Neighbours part lines i j) :=
  decidable_of_iff (i < j ∧ lines[i]?.any (OutputLine.writes part) = true ∧
      lines[j]?.any (OutputLine.writes part) = true ∧
      ∀ k < j, i < k → lines[k]?.any (OutputLine.writes part) = false)
    ⟨fun ⟨hlt, hi, hj, hk⟩ => ⟨hlt, hi, hj, hk⟩, fun ⟨hlt, hi, hj, hk⟩ => ⟨hlt, hi, hj, hk⟩⟩

/-- The index of the group with the text of the line at index `k`. That text comes behind those of
the function lines before it. -/
def groupOf (lines : List OutputLine) (groups : List (List Text)) (k : Nat) : Option Nat :=
  groupAt groups (textsOf .functions (lines.take k)).length

section Lines

variable {lines : List OutputLine} {i j : Nat}

theorem drop_eq_cons {k : Nat} (h : lines[k]? = some l) :
    lines.drop k = l :: lines.drop (k + 1) := by
  obtain ⟨hk, rfl⟩ := List.getElem?_eq_some_iff.mp h
  exact List.drop_eq_getElem_cons hk

theorem Neighbours.split (h : Neighbours part lines i j) (hl : lines[i]? = some l)
    (hm : lines[j]? = some m) :
    lines.take i ++ l :: ((lines.drop (i + 1)).take (j - (i + 1)) ++ m :: lines.drop (j + 1)) =
      lines := by
  have hlt := h.lt
  have hrest : (lines.drop (i + 1)).drop (j - (i + 1)) = m :: lines.drop (j + 1) := by
    rw [List.drop_drop, show i + 1 + (j - (i + 1)) = j by omega, drop_eq_cons hm]
  rw [← hrest, List.take_append_drop, ← drop_eq_cons hl, List.take_append_drop]

theorem Neighbours.textsOf_between (h : Neighbours part lines i j) :
    textsOf part ((lines.drop (i + 1)).take (j - (i + 1))) = [] := by
  rw [textsOf_eq_nil_iff]
  intro l hl
  obtain ⟨k, hik, hkj, hk⟩ := exists_index_of_mem hl
  have hnone := h.between k (by omega) (by omega)
  simpa [hk] using hnone

theorem any_stretch_iff {f : OutputLine → Bool} (hij : i < j) (hl : lines[i]? = some l) :
    (l :: (lines.drop (i + 1)).take (j - (i + 1))).any f = true ↔
      ∃ k l, i ≤ k ∧ k < j ∧ lines[k]? = some l ∧ f l = true := by
  have hstretch : l :: (lines.drop (i + 1)).take (j - (i + 1)) = (lines.drop i).take (j - i) := by
    rw [drop_eq_cons hl, show j - i = j - (i + 1) + 1 by omega, List.take_succ_cons]
  rw [hstretch, List.any_eq_true]
  constructor
  · rintro ⟨m, hm, hf⟩
    obtain ⟨k, hik, hkj, hk⟩ := exists_index_of_mem hm
    exact ⟨k, m, hik, by omega, hk, hf⟩
  · rintro ⟨k, m, hik, hkj, hk, hf⟩
    refine ⟨m, List.mem_of_getElem? (i := k - i) ?_, hf⟩
    rw [List.getElem?_take_of_lt (by omega), List.getElem?_drop, show i + (k - i) = k by omega, hk]

/-- Neighbours among the function lines are in different groups exactly if a function is closed from
the first on and before the second. -/
theorem Neighbours.groupOf_ne_iff (h : Neighbours .functions lines i j) :
    ∃ g g', groupOf lines (groupFunctions [] lines) i = some g ∧
      groupOf lines (groupFunctions [] lines) j = some g' ∧
      (g ≠ g' ↔ ∃ k l, i ≤ k ∧ k < j ∧ lines[k]? = some l ∧ l.endsRoutine = true) := by
  obtain ⟨l, hl, hwl⟩ := (Option.any_eq_true _ _).mp h.first
  obtain ⟨m, hm, hwm⟩ := (Option.any_eq_true _ _).mp h.second
  have hplace : (textsOf .functions (lines.take j)).length =
      (textsOf .functions (lines.take i)).length + 1 := by
    have htake : lines.take j = lines.take i ++ l :: (lines.drop (i + 1)).take (j - (i + 1)) := by
      have hlt := h.lt
      rw [show j = i + (j - i) by omega, List.take_add, drop_eq_cons hl,
        show j - i = j - (i + 1) + 1 by omega, List.take_succ_cons,
        show i + (j - (i + 1) + 1) - (i + 1) = j - (i + 1) by omega]
    rw [htake, textsOf_append, textsOf_cons_of_writes hwl, h.textsOf_between, List.length_append]
    rfl
  obtain ⟨g, hfirst, hsecond⟩ :=
    groupAt_neighbours hwl hwm h.textsOf_between (lines.take i) (lines.drop (j + 1))
  rw [h.split hl hm] at hfirst hsecond
  refine ⟨g, if (l :: (lines.drop (i + 1)).take (j - (i + 1))).any OutputLine.endsRoutine
    then g + 1 else g, hfirst, ?_, ?_⟩
  · rw [groupOf, hplace]
    exact hsecond
  · rw [← any_stretch_iff h.lt hl]
    split_ifs with he <;> simp [he]

theorem mem_groupOf (hl : lines[i]? = some l) (hw : l.writes .functions = true) :
    ∃ g group, groupOf lines (groupFunctions [] lines) i = some g ∧
      (groupFunctions [] lines)[g]? = some group ∧ l.text ∈ group := by
  apply mem_of_groupAt
  have hsplit : lines = lines.take i ++ l :: lines.drop (i + 1) := by
    rw [← drop_eq_cons hl, List.take_append_drop]
  have htexts : textsOf .functions lines =
      textsOf .functions (lines.take i) ++ l.text :: textsOf .functions (lines.drop (i + 1)) := by
    conv_lhs => rw [hsplit]
    rw [textsOf_append, textsOf_cons_of_writes hw]
  rw [flatten_groupFunctions, List.nil_append, htexts, List.getElem?_append_right le_rfl,
    Nat.sub_self]
  rfl

end Lines

theorem length_textsOf (lines : List OutputLine) :
    (textsOf .declarations lines).length + (textsOf .functions lines).length +
      (textsOf .main lines).length = lines.countP fun l => !l.text.isEmpty := by
  induction lines with
  | nil => rfl
  | cons l lines ih =>
    simp only [textsOf, List.length_map, List.filter_cons, List.countP_cons] at ih ⊢
    cases l.text.isEmpty <;> cases l.part <;> simp <;> omega

/-- Whatever the lines are, each part of the program is made of the texts of its lines, in order and
without the empty ones, and none is lost. No group of function lines is empty, every function line
is in its group, and two of them, next to each other, are in different groups exactly if a line
closes a function from the first on and before the second. -/
theorem ofLines_partition (lines : List OutputLine) (usage : Usage) :
    let program := ofLines lines usage
    program.declarations = written (lines.filter (·.part = .declarations)) ∧
      program.functions.flatten = written (lines.filter (·.part = .functions)) ∧
      program.main = written (lines.filter (·.part = .main)) ∧
      program.usage = usage ∧
      [] ∉ program.functions ∧
      (∀ i l, lines[i]? = some l → l.writes .functions = true →
        ∃ g group, groupOf lines program.functions i = some g ∧
          program.functions[g]? = some group ∧ l.text ∈ group) ∧
      (∀ i j, Neighbours .functions lines i j →
        ∃ g g', groupOf lines program.functions i = some g ∧
          groupOf lines program.functions j = some g' ∧
          (g ≠ g' ↔ ∃ k l, i ≤ k ∧ k < j ∧ lines[k]? = some l ∧ l.endsRoutine = true)) ∧
      program.size = lines.countP fun l => !l.text.isEmpty := by
  intro program
  have hflat : program.functions.flatten = textsOf .functions lines :=
    flatten_groupFunctions [] lines
  refine ⟨textsOf_eq_filter .declarations lines, ?_, textsOf_eq_filter .main lines, rfl,
    nil_notMem_groupFunctions [] lines, fun i l hl hw => mem_groupOf hl hw,
    fun i j h => h.groupOf_ne_iff, ?_⟩
  · rw [hflat, textsOf_eq_filter]
  · rw [size, hflat]
    exact length_textsOf lines

/-- Function lines where a function is closed on an empty line of the main algorithm, and none is
behind it. -/
def scatteredLines : List OutputLine :=
  [⟨"a", .functions, false, ⟨0, 1⟩⟩, ⟨"", .main, true, ⟨2, 3⟩⟩, ⟨"b", .functions, false, ⟨4, 5⟩⟩,
    ⟨"c", .declarations, false, ⟨6, 7⟩⟩, ⟨"d", .functions, false, ⟨8, 9⟩⟩]

/-- The first function line is in a group of its own, and the other two are in one group, which
nothing ends. -/
theorem ofLines_partition_scattered :
    let program := ofLines scatteredLines {}
    program.functions = [[("a" : Text)], [("b" : Text), ("d" : Text)]] ∧
      Neighbours .functions scatteredLines 0 2 ∧
      groupOf scatteredLines program.functions 0 ≠ groupOf scatteredLines program.functions 2 ∧
      Neighbours .functions scatteredLines 2 4 ∧
      groupOf scatteredLines program.functions 2 = groupOf scatteredLines program.functions 4 := by
  intro program
  have hfirst : Neighbours .functions scatteredLines 0 2 := by decide
  have hsecond : Neighbours .functions scatteredLines 2 4 := by decide
  obtain ⟨-, -, -, -, -, -, hgroups, -⟩ := ofLines_partition scatteredLines {}
  refine ⟨by decide, hfirst, ?_, hsecond, ?_⟩
  · obtain ⟨g, g', hg, hg', hne⟩ := hgroups 0 2 hfirst
    rw [hg, hg', Ne, Option.some.injEq]
    exact hne.mpr ⟨1, ⟨"", .main, true, ⟨2, 3⟩⟩, by decide, by decide, rfl, rfl⟩
  · obtain ⟨g, g', hg, hg', hne⟩ := hgroups 2 4 hsecond
    rw [hg, hg', Option.some.injEq]
    by_contra hdiff
    obtain ⟨k, l, hk, hk', hl, he⟩ := hne.mp hdiff
    interval_cases k <;> cases hl <;> cases he

end Program

end Pseudocode
