import Pseudocode.Proofs.Groups
import Pseudocode.Proofs.Partners
import Pseudocode.Proofs.Replacement

/-!
# Hoisting

The lines of a function are moved out of the main algorithm, and record definitions out of both.
Which lines go where is told by the partners alone: a function reaches from its first line to the
partner of that, and the groups of the program are these stretches of the source
(`compile_hoists`). A group is never lost, since the first line of a function always has a text.
-/
namespace Pseudocode

open Delimiter

/-! ### Texts that are never empty -/

namespace Text

/-- Whether a text has a character that indentation does not take for a level. -/
def hasInk (t : Text) : Bool := t.any (· != '\t')

theorem hasInk_append (t u : Text) : hasInk (t ++ u) = (hasInk t || hasInk u) := List.any_append

theorem unlines_eq_nil {ts : List Text} (h : unlines ts = []) : ts = [] ∨ ts = [[]] := by
  match ts with
  | [] => exact .inl rfl
  | [t] => exact .inr (by simpa [unlines] using h)
  | t :: u :: ts => simp [unlines, List.intercalate_cons_cons] at h

theorem indent_ne_nil {t : Text} (h : t.hasInk = true) (depth : Nat) (unit : Text) :
    indent depth unit t ≠ [] := by
  have ht : t ≠ [] := by
    rintro rfl
    cases h
  rw [indent_of_ne_nil ht]
  intro hnil
  obtain ⟨line, hline, hempty⟩ : ∃ line, t.lines = [line] ∧ indentLine depth unit line = [] := by
    rcases unlines_eq_nil hnil with hmap | hmap
    · exact absurd (List.map_eq_nil_iff.mp hmap) t.lines_ne_nil
    · exact List.map_eq_singleton_iff.mp hmap
  have hself : t = line := by
    rw [← unlines_lines t, hline]
    simp [unlines]
  have htabs := List.dropWhile_eq_nil_iff.mp (List.append_eq_nil_iff.mp hempty).2
  obtain ⟨c, hc, hink⟩ := List.any_eq_true.mp (hself ▸ h)
  simp [beq_iff_eq.mp (htabs c hc)] at hink

theorem hasInk_replace {old new : Text} (ho : old ≠ []) (hn : new.hasInk = true) (t : Text) :
    t.hasInk = true → (replace old new t).hasInk = true := by
  induction t using replace_induction old ho with
  | nil => exact id
  | found t _ =>
    intro _
    rw [replace_append_self ho, hasInk_append, hn, Bool.true_or]
  | kept c cs hp ih =>
    intro h
    rw [replace_cons hp]
    simp only [hasInk, List.any_cons, Bool.or_eq_true] at h ih ⊢
    exact h.imp_right ih

end Text

namespace Target

theorem hasInk_rename (t : Target) {text : Text} (h : text.hasInk = true) :
    (t.rename text).hasInk = true := by
  have hr : ∀ e ∈ t.replacements, e.1 ≠ [] ∧ Text.hasInk e.2 = true := by cases t <;> decide
  refine t.rename_induction (motive := fun f => (f text).hasInk = true) h fun f e he hf => ?_
  exact Text.hasInk_replace (hr e he).1 (hr e he).2 _ hf

theorem hasInk_function (t : Target) (name : Text) (result : Option TypeTerm)
    (params : List Parameter) : (t.spell (.function name result params)).hasInk = true := by
  cases t with
  | python => rfl
  | cpp =>
    -- what comes first is the result, so the bracket at the end has to do
    change Text.hasInk (_ ++ (") \x7b" : Text)) = true
    rw [Text.hasInk_append, show Text.hasInk ") \x7b" = true from rfl, Bool.or_true]
  | algorithmic => cases result <;> rfl

theorem hasInk_record (t : Target) (name : Text) (fields : List Parameter) :
    (t.spell (.record name fields)).hasInk = true := by
  cases t with
  | cpp => rfl
  | python | algorithmic => cases fields <;> rfl

end Target

namespace Accepted

variable {setup : Setup} {p : Progress} {line : SourceLine} {s : Statement}

theorem record_phrase (h : Accepted setup p line s) (hf : s.form setup.target = .record) :
    ∃ name fields, s.phrase setup.target .record = .record name fields := by
  have hc := h.count_accepted (by simp [hf]) (by simp [hf]) (by simp [hf])
  simp only [hf, Form.arity, Arity.atLeast, Arity.accepts, Option.all_none, Bool.and_true,
    decide_eq_true_eq] at hc
  obtain ⟨name, fields, ha⟩ := List.exists_cons_of_length_pos (show 0 < s.args.length by omega)
  exact ⟨name, Parameter.readAll fields, by simp only [Statement.phrase, ha]⟩

theorem text_ne_nil (h : Accepted setup p line s)
    (hf : s.form setup.target = .function ∨ s.form setup.target = .record) :
    (p.output setup s).text ≠ [] := by
  refine Text.indent_ne_nil (Target.hasInk_rename _ ?_) _ _
  rcases hf with hf | hf
  · obtain ⟨name, result, params, hp⟩ := h.function_phrase hf
    simp only [hf, Target.wording, hp]
    exact Target.hasInk_function ..
  · obtain ⟨name, fields, hp⟩ := h.record_phrase hf
    simp only [hf, Target.wording, hp]
    exact Target.hasInk_record ..

end Accepted

theorem Progress.part_output_declarations (setup : Setup) (p : Progress) (s : Statement) :
    (p.output setup s).part = .declarations ↔ s.form setup.target = .record := by
  by_cases hr : s.form setup.target = .record
  · simp [output, place, part, hr]
  · simp only [output, place, part, hr, if_false, iff_false]
    split <;> simp

/-! ### The routines of a source -/

/-- A function or a procedure, as its first line and the `end` that is the partner of it. -/
structure Routine (setup : Setup) (source : Text) (s : Nat × Nat) : Prop where
  form : formAt? setup.target source s.1 = some .function
  partners : Partners (delimiterAt? setup source) s.1 s.2

/-- A line belongs to the functions if it is the first line of one or stands in one, and is no
record definition. -/
theorem Accepted.part_functions_iff {setup : Setup} {p : Progress} {line : SourceLine}
    {s : Statement} (h : Accepted setup p line s) :
    (p.output setup s).part = .functions ↔ s.form setup.target ≠ .record ∧
      (s.form setup.target = .function ∨ p.nesting.inRoutine = true) := by
  have hpart : ∀ n : Nesting, n.part = .functions ↔ n.inRoutine = true := by
    intro n
    cases hn : n.inRoutine <;> simp [Nesting.part, hn]
  cases ho : (s.form setup.target).opens? s.args with
  | none =>
    have hf : s.form setup.target ≠ .function := by
      intro hf
      rw [hf] at ho
      cases ho
    by_cases hr : s.form setup.target = .record
    · simp [Progress.output, Progress.place, Progress.part, hr]
    · rw [h.part_output_inner ho hr, hpart]
      simp [hr, hf]
  | some kind =>
    have hr : s.form setup.target ≠ .record := by
      intro hr
      rw [hr] at ho
      cases ho
    rw [Accepted.part_output_opens ho, hpart, ← Form.isRoutine_iff ho,
      ← p.inRoutine_enter (s.form setup.target)]
    cases h.turn with
    | opens kind' ho' hq =>
      obtain rfl : kind = kind' := Option.some.inj (ho.symm.trans ho')
      rw [hq]
      simp [Nesting.push, Nesting.inRoutine, hr]
    | branches b outer hf => simp [(Form.branch_spec hf).2.2.1] at ho
    | closes b outer he =>
      rw [he] at ho
      cases ho
    | stays hf => simp [Form.opens_eq_none hf] at ho

theorem formAt?_of_closing {setup : Setup} {source : Text} {k : Nat}
    (h : delimiterAt? setup source k = some .closing) :
    formAt? setup.target source k = some .blockEnd := by
  obtain ⟨line, hl, hd⟩ := Option.bind_eq_some_iff.mp h
  unfold SourceLine.delimiter? at hd
  split at hd
  · cases hd
  · next s hs =>
    split_ifs at hd with hf
    · rw [formAt?, hl, Option.map_some, SourceLine.form_of_ofLine hs, hf]
    · obtain ⟨kind, -, heq⟩ := Option.map_eq_some_iff.mp hd
      cases heq

section Success

variable {setup : Setup} {source : Text} {k : Nat}
  (hfine : (Compilation.ofSource setup source).faults = [])

include hfine

theorem accepted_at {line : SourceLine} (hl : (SourceLine.ofSource source)[k]? = some line) :
    ∃ s, Accepted setup (Progress.before setup (SourceLine.ofSource source) k) line s := by
  refine exists_accepted (Option.eq_none_iff_forall_ne_some.mpr fun f hf => ?_)
  have hmem := ((Compilation.mem_faults_iff hl).mpr hf).1
  rw [hfine] at hmem
  cases hmem

theorem output_at {l : OutputLine} (hl : (Compilation.ofSource setup source).lines[k]? = some l) :
    ∃ line s, Accepted setup (Progress.before setup (SourceLine.ofSource source) k) line s ∧
      l = (Progress.before setup (SourceLine.ofSource source) k).output setup s ∧
      formAt? setup.target source k = some (s.form setup.target) := by
  rw [Compilation.getElem?_lines] at hl
  obtain ⟨line, hline, rfl⟩ := Option.map_eq_some_iff.mp hl
  obtain ⟨s, hs⟩ := accepted_at hfine hline
  refine ⟨line, s, hs, by rw [hs.step_eq], ?_⟩
  rw [formAt?, hline, Option.map_some, SourceLine.form_of_ofLine hs.read]

theorem wording_at {l : OutputLine} (hl : (Compilation.ofSource setup source).lines[k]? = some l) :
    ∃ t depth, wordingAt? setup source k = some t ∧
      l.text = Text.indent depth setup.unit (setup.target.rename t) := by
  have hline := hl
  rw [Compilation.getElem?_lines] at hline
  obtain ⟨line, hline, -⟩ := Option.map_eq_some_iff.mp hline
  obtain ⟨s, hs⟩ := accepted_at hfine hline
  obtain ⟨t, ht⟩ : ∃ t, wordingAt? setup source k = some t := by
    rw [wordingAt?, hline, Option.bind_some, Progress.wording_of_accepted hs]
    exact ⟨_, rfl⟩
  obtain ⟨l', depth, hl', htext⟩ := text_of_wordingAt ht
  obtain rfl : l' = l := Option.some.inj (hl'.symm.trans hl)
  exact ⟨t, depth, ht, htext⟩

theorem exists_partner {i : Nat} {kind : BlockKind}
    (h : delimiterAt? setup source i = some (.opening kind)) :
    ∃ j, Partners (delimiterAt? setup source) i j := by
  by_contra hno
  have hmem := (mem_openers_iff h (lt_of_delimiter h)).mpr fun ⟨j, _, hj⟩ => hno ⟨j, hj⟩
  rcases unclosed_cases setup source with ⟨hnil, -⟩ | ⟨_, _, _, earlier, -, -, hfaults, -⟩
  · rw [hnil] at hmem
    cases hmem
  · rw [hfine] at hfaults
    simp at hfaults

theorem exists_routine {i : Nat} (h : formAt? setup.target source i = some .function) :
    ∃ j, Routine setup source (i, j) := by
  obtain ⟨line, hl, hf⟩ := Option.map_eq_some_iff.mp h
  obtain ⟨s, hs⟩ := accepted_at hfine hl
  rw [SourceLine.form_of_ofLine hs.read] at hf
  obtain ⟨kind, hk⟩ : ∃ kind, (s.form setup.target).opens? s.args = some kind := by
    rw [hf]
    exact ⟨_, rfl⟩
  have hd : delimiterAt? setup source i = some (.opening kind) := by
    rw [delimiterAt?_eq hl, hs.step_eq]
    simp [SourceLine.delimiter?, hs.read, hk, Form.not_blockEnd_of_opens hk]
  obtain ⟨j, hj⟩ := exists_partner hfine hd
  exact ⟨j, h, hj⟩

/-- In front of a line a routine is open if it has begun and its `end` is still to come. -/
theorem inRoutine_before_iff (hk : k ≤ (SourceLine.ofSource source).length) :
    (Progress.before setup (SourceLine.ofSource source) k).nesting.inRoutine = true ↔
      ∃ s, Routine setup source s ∧ s.1 < k ∧ k ≤ s.2 := by
  have hopen : (Progress.before setup (SourceLine.ofSource source) k).nesting.inRoutine =
      (openers (delimiterAt? setup source) k).any (·.2.isRoutine) := by
    rw [← openers_before hk, List.any_map]
    rfl
  rw [hopen, List.any_eq_true]
  constructor
  · rintro ⟨⟨i, kind⟩, hmem, hr⟩
    obtain ⟨hik, hi⟩ := mem_openers hmem
    obtain ⟨j, hj⟩ := exists_partner hfine hi
    exact ⟨(i, j), ⟨(isRoutine_opening hi).mp hr, hj⟩, hik,
      (mem_openers_iff_le hj hi hik).mp hmem⟩
  · rintro ⟨⟨i, j⟩, ⟨hf, hp⟩, hik, hkj⟩
    obtain ⟨kind, hi⟩ := hp.opens
    exact ⟨(i, kind), (mem_openers_iff_le hp hi hik).mpr hkj, (isRoutine_opening hi).mpr hf⟩

theorem part_eq_declarations_iff {l : OutputLine}
    (hl : (Compilation.ofSource setup source).lines[k]? = some l) :
    l.part = .declarations ↔ formAt? setup.target source k = some .record := by
  obtain ⟨line, s, hs, rfl, hf⟩ := output_at hfine hl
  rw [hf, Option.some.injEq, Progress.part_output_declarations]

theorem part_eq_functions_iff {l : OutputLine}
    (hl : (Compilation.ofSource setup source).lines[k]? = some l) :
    l.part = .functions ↔ formAt? setup.target source k ≠ some .record ∧
      ∃ s, Routine setup source s ∧ s.1 ≤ k ∧ k ≤ s.2 := by
  obtain ⟨line, s, hs, rfl, hf⟩ := output_at hfine hl
  have hk : k ≤ (SourceLine.ofSource source).length := by
    rw [← Compilation.length_lines setup]
    exact (List.getElem?_eq_some_iff.mp hl).1.le
  rw [hs.part_functions_iff, inRoutine_before_iff hfine hk, hf,
    (Option.some_injective _).ne_iff]
  refine and_congr_right fun _ => ⟨?_, ?_⟩
  · rintro (hfx | ⟨r, hr, hlt, hle⟩)
    · obtain ⟨j, hj⟩ := exists_routine hfine (hf.trans (congrArg some hfx))
      exact ⟨(k, j), hj, le_rfl, hj.partners.lt.le⟩
    · exact ⟨r, hr, hlt.le, hle⟩
  · rintro ⟨r, hr, hle, hle'⟩
    rcases hle.eq_or_lt with rfl | hlt
    · exact .inl (Option.some.inj (hf.symm.trans hr.form))
    · exact .inr ⟨r, hr, hlt, hle'⟩

theorem end_at {l : OutputLine} (hl : (Compilation.ofSource setup source).lines[k]? = some l)
    (hk : formAt? setup.target source k = some .blockEnd) :
    ∃ i, Partners (delimiterAt? setup source) i k ∧
      (l.endsRoutine = true ↔ formAt? setup.target source i = some .function) := by
  have hclosing := delimiterAt?_eq_closing_iff.mpr hk
  rcases end_cases setup hk with ⟨-, f, hf, -⟩ | ⟨b, rest, -, l', hopen, -, hl', -, hends⟩
  · rw [hfine] at hf
    cases hf
  · obtain rfl : l = l' := Option.some.inj (hl.symm.trans hl')
    obtain ⟨hlt, hi, hb, -⟩ := openers_eq_cons (i := b.line) (by rw [hopen, Block.opener])
    exact ⟨b.line, ⟨hlt, ⟨_, hi⟩, hclosing, hb⟩, hends ▸ isRoutine_opening hi⟩

theorem endsRoutine_iff {l : OutputLine}
    (hl : (Compilation.ofSource setup source).lines[k]? = some l) :
    l.endsRoutine = true ↔ ∃ i, Routine setup source (i, k) := by
  constructor
  · intro he
    have hk : formAt? setup.target source k = some .blockEnd := by
      obtain ⟨line, s, -, rfl, hf⟩ := output_at hfine hl
      by_contra hne
      rw [hf, ← Ne, (Option.some_injective _).ne_iff] at hne
      change Progress.endsRoutine _ _ = true at he
      rw [Progress.endsRoutine_eq_false hne] at he
      cases he
    obtain ⟨i, hp, hiff⟩ := end_at hfine hl hk
    exact ⟨i, hiff.mp he, hp⟩
  · rintro ⟨i, hf, hp⟩
    obtain ⟨i', hp', hiff⟩ := end_at hfine hl (formAt?_of_closing hp.closes)
    obtain rfl := hp.left_unique hp'
    exact hiff.mpr hf

theorem text_ne_nil_at {l : OutputLine}
    (hl : (Compilation.ofSource setup source).lines[k]? = some l)
    (hk : formAt? setup.target source k = some .function ∨
      formAt? setup.target source k = some .record) : l.text ≠ [] := by
  obtain ⟨line, s, hs, rfl, hf⟩ := output_at hfine hl
  rw [hf, Option.some.injEq, Option.some.injEq] at hk
  exact hs.text_ne_nil hk

/-- The routines of a source follow each other if none of them begins inside of another. -/
theorem exists_spans
    (hflat : ∀ i s, formAt? setup.target source i = some .function → Routine setup source s →
      ¬ (s.1 < i ∧ i < s.2)) :
    ∃ spans : List (Nat × Nat),
      spans.map Prod.fst = (List.range (Compilation.ofSource setup source).lines.length).filter
        (fun k => formAt? setup.target source k = some .function) ∧
      (∀ s, s ∈ spans ↔ Routine setup source s) ∧ spans.Pairwise fun s t => s.2 < t.1 := by
  obtain ⟨firsts, hfirsts⟩ : ∃ firsts, firsts =
      (List.range (Compilation.ofSource setup source).lines.length).filter
        (fun k => formAt? setup.target source k = some .function) := ⟨_, rfl⟩
  have hmem : ∀ i, i ∈ firsts ↔ formAt? setup.target source i = some .function := by
    intro i
    rw [hfirsts, List.mem_filter, List.mem_range, Compilation.length_lines, decide_eq_true_eq]
    refine and_iff_right_of_imp fun hi => ?_
    obtain ⟨line, hl, -⟩ := Option.map_eq_some_iff.mp hi
    exact (List.getElem?_eq_some_iff.mp hl).1
  choose! last hlast using fun i => exists_routine (i := i) hfine
  refine ⟨firsts.map fun i => (i, last i), ?_, fun s => ⟨fun hs => ?_, fun hs => ?_⟩, ?_⟩
  · rw [List.map_map, ← hfirsts]
    exact List.map_id _
  · obtain ⟨i, hi, rfl⟩ := List.mem_map.mp hs
    exact hlast i ((hmem i).mp hi)
  · refine List.mem_map.mpr ⟨s.1, (hmem s.1).mpr hs.form, ?_⟩
    exact Prod.ext rfl ((hlast s.1 hs.form).partners.right_unique hs.partners)
  · have hincreasing : firsts.Pairwise (· < ·) := hfirsts ▸ List.pairwise_lt_range.filter _
    refine List.pairwise_map.mpr (hincreasing.imp_of_mem fun {i i'} hi hi' hlt => ?_)
    rw [hmem] at hi hi'
    -- the second one is not the `end` of the first
    have hne : i' ≠ last i := by
      rintro rfl
      rw [formAt?_of_closing (hlast i hi).partners.closes] at hi'
      cases hi'
    have hnot := hflat i' _ hi' (hlast i hi)
    dsimp only at hnot ⊢
    omega

variable {spans : List (Nat × Nat)} (hspans : ∀ s, s ∈ spans ↔ Routine setup source s)

include hspans

theorem part_eq_functions_iff_span {l : OutputLine}
    (hl : (Compilation.ofSource setup source).lines[k]? = some l) :
    l.part = .functions ↔ formAt? setup.target source k ≠ some .record ∧
      ∃ s ∈ spans, s.1 ≤ k ∧ k ≤ s.2 := by
  simp only [part_eq_functions_iff hfine hl, hspans]

theorem functions_eq (hsorted : spans.Pairwise fun s t => s.2 < t.1) :
    (Compilation.ofSource setup source).program.functions = spans.map fun s =>
      written (linesAt (Compilation.ofSource setup source).lines fun k =>
        (s.1 ≤ k ∧ k ≤ s.2) ∧ formAt? setup.target source k ≠ some .record) := by
  have hin : ∀ s ∈ spans, 0 ≤ s.1 ∧ s.1 ≤ s.2 ∧
      s.2 < (Compilation.ofSource setup source).lines.length := by
    intro s hs
    have hp := ((hspans s).mp hs).partners
    refine ⟨Nat.zero_le _, hp.lt.le, ?_⟩
    rw [Compilation.length_lines]
    exact lt_of_delimiter hp.closes
  have hstretch : ∀ s ∈ spans, Program.textsOf .functions
      (((Compilation.ofSource setup source).lines.drop s.1).take (s.2 + 1 - s.1)) =
        written (linesAt (Compilation.ofSource setup source).lines fun k =>
          (s.1 ≤ k ∧ k ≤ s.2) ∧ formAt? setup.target source k ≠ some .record) := by
    intro s hs
    obtain ⟨-, hle, hlt⟩ := hin s hs
    rw [← linesAt_stretch hle hlt]
    refine Program.textsOf_linesAt fun k l hl => and_congr_right fun hk => ?_
    rw [part_eq_functions_iff_span hfine hspans hl]
    exact and_iff_left ⟨s, hs, hk⟩
  refine (Program.groupFunctions_stretches hsorted hin ?_ ?_ ?_).trans
    (List.map_congr_left hstretch)
  · intro k l _ hl
    rw [endsRoutine_iff hfine hl]
    constructor
    · rintro ⟨i, hi⟩
      exact ⟨(i, k), (hspans _).mpr hi, rfl⟩
    · rintro ⟨s, hs, rfl⟩
      exact ⟨s.1, (hspans s).mp hs⟩
  · intro k l _ hl hp
    exact ((part_eq_functions_iff_span hfine hspans hl).mp hp).2
  · intro s hs
    obtain ⟨-, hle, hlt⟩ := hin s hs
    obtain ⟨l, hl⟩ : ∃ l, (Compilation.ofSource setup source).lines[s.1]? = some l :=
      ⟨_, List.getElem?_eq_getElem (hle.trans_lt hlt)⟩
    have hform := ((hspans s).mp hs).form
    have hpart := (part_eq_functions_iff_span hfine hspans hl).mpr
      ⟨by simp [hform], s, hs, le_rfl, hle⟩
    exact Program.textsOf_stretch_ne_nil hle hl hpart (text_ne_nil_at hfine hl (.inl hform))

omit hspans in
theorem declarations_eq : (Compilation.ofSource setup source).program.declarations =
    (linesAt (Compilation.ofSource setup source).lines fun k =>
      formAt? setup.target source k = some .record).map OutputLine.text := by
  refine (Program.textsOf_eq_written fun k l hl => part_eq_declarations_iff hfine hl).trans ?_
  refine List.filter_eq_self.mpr fun t ht => ?_
  obtain ⟨l, hmem, rfl⟩ := List.mem_map.mp ht
  obtain ⟨k, hl, hk⟩ := mem_linesAt hmem
  simpa using text_ne_nil_at hfine hl (.inr hk)

theorem main_eq : (Compilation.ofSource setup source).program.main =
    written (linesAt (Compilation.ofSource setup source).lines fun k =>
      formAt? setup.target source k ≠ some .record ∧ ∀ s ∈ spans, ¬ (s.1 ≤ k ∧ k ≤ s.2)) := by
  refine Program.textsOf_eq_written fun k l hl => ?_
  have hmain : l.part = .main ↔ l.part ≠ .declarations ∧ l.part ≠ .functions := by
    cases l.part <;> simp
  rw [hmain, Ne, part_eq_declarations_iff hfine hl, Ne, part_eq_functions_iff_span hfine hspans hl]
  refine and_congr_right fun hr => ?_
  rw [and_iff_right hr]
  push Not
  rfl

end Success

/-- The functions of a program are its routines, each as a whole and in the order of the source,
if none begins inside of another. Record definitions are taken out of all of them, and the rest
is the main algorithm. -/
theorem compile_hoists {target : Target} {options : Options} {source text : Text}
    (h : compile target options source = .ok text)
    (hflat : ∀ i s, formAt? target source i = some .function →
      Routine (.ofOptions target options) source s → ¬ (s.1 < i ∧ i < s.2)) :
    let c := Compilation.ofSource (.ofOptions target options) source
    let form := formAt? target source
    text = target.compose c.program options.unit ∧
    ∃ spans : List (Nat × Nat),
      spans.map Prod.fst =
        (List.range c.lines.length).filter (fun k => form k = some .function) ∧
      (∀ s ∈ spans, Routine (.ofOptions target options) source s) ∧
      c.program.functions = spans.map (fun s =>
        written (linesAt c.lines fun k => (s.1 ≤ k ∧ k ≤ s.2) ∧ form k ≠ some .record)) ∧
      c.program.declarations =
        (linesAt c.lines fun k => form k = some .record).map OutputLine.text ∧
      c.program.main = written (linesAt c.lines fun k =>
        form k ≠ some .record ∧ ∀ s ∈ spans, ¬ (s.1 ≤ k ∧ k ≤ s.2)) := by
  intro c form
  have hfine : c.faults = [] := by
    obtain ⟨q, outs, hr, hn, -⟩ := compile_eq_ok_iff.mp h
    exact Compilation.faults_eq_nil_iff.mpr ⟨q, outs, hr, hn⟩
  refine ⟨Except.ok.inj (h.symm.trans (compile_eq_ok hfine)), ?_⟩
  obtain ⟨spans, hfirst, hspans, hsorted⟩ := exists_spans hfine hflat
  exact ⟨spans, hfirst, fun s hs => (hspans s).mp hs, functions_eq hfine hspans hsorted,
    declarations_eq hfine, main_eq hfine hspans⟩

/-- A procedure inside of a loop, with a record definition inside of it, and a function. -/
def hoistedSource : Text :=
  "for i 0 3\nfx void f\nstruct p int x\nprint i\nend\nend\nfx int g\nreturn 1\nend"

theorem compile_hoists_loop :
    let c := Compilation.ofSource (.ofOptions .cpp {}) hoistedSource
    let form := formAt? .cpp hoistedSource
    ∃ text, compile .cpp {} hoistedSource = .ok text ∧
      ∃ spans : List (Nat × Nat), spans.map Prod.fst = [1, 6] ∧
        c.program.functions = spans.map (fun s =>
          written (linesAt c.lines fun k => (s.1 ≤ k ∧ k ≤ s.2) ∧ form k ≠ some .record)) := by
  intro c form
  have hok := compile_eq_ok (show c.faults = [] by decide +kernel)
  have hfx : ∀ i, form i = some .function → i = 1 ∨ i = 6 := by
    intro i hi
    have hlt : i < 9 := by
      obtain ⟨line, hl, -⟩ := Option.map_eq_some_iff.mp hi
      exact (List.getElem?_eq_some_iff.mp hl).1
    have hall : ∀ i < 9, form i = some .function → i = 1 ∨ i = 6 := by decide +kernel
    exact hall i hlt hi
  have hfirst : Partners (delimiterAt? (.ofOptions .cpp {}) hoistedSource) 1 4 :=
    ⟨by decide, ⟨.procedure, by decide +kernel⟩, by decide +kernel,
      (show segment (delimiterAt? (.ofOptions .cpp {}) hoistedSource) 2 4 = [] by
        decide +kernel) ▸ .nil⟩
  have hflat : ∀ i s, form i = some .function → Routine (.ofOptions .cpp {}) hoistedSource s →
      ¬ (s.1 < i ∧ i < s.2) := by
    rintro i ⟨first, last⟩ hi ⟨hform, hp⟩ ⟨hlt, hlt'⟩
    dsimp only at hform hp hlt hlt'
    have := hfx i hi
    obtain rfl : first = 1 := by
      have := hfx first hform
      omega
    have := hfirst.right_unique hp
    omega
  obtain ⟨-, spans, hspans, -, hfunctions, -⟩ := compile_hoists hok hflat
  exact ⟨_, hok, spans, hspans.trans (by decide +kernel), hfunctions⟩

end Pseudocode
