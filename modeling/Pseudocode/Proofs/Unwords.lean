import Pseudocode.Proofs.Separators

/-!
# Words joined by single spaces

The arguments of a statement are written with one space between neighbours, whatever separated them
in the source. Nothing is lost by that: the text is read as the same words again
(`Word.ofText_unwords`). A word may hold spaces of its own, inside of quotes, and a quote may be
glued to others. What makes it one word wherever it stands is that its characters can be read by
themselves, since no quote is open where a word starts or ends (`Mark.IsWord`).
-/
namespace Pseudocode

namespace QuoteState

variable {state : QuoteState} {pos : Nat} {t : Text} {ms ns : List Mark}

theorem eq_outside_of_marks (h : state.marks pos t = .ok ms)
    (hback : ∀ m ∈ ms.head?, m.inWord = false) : state = outside := by
  cases t with
  | nil =>
    cases state with
    | outside => rfl
    | inside opened | escaped opened => cases h
  | cons c t =>
    obtain ⟨m, state', ns, hn, -, rfl⟩ := exists_of_marks_cons h
    have hm := hback m rfl
    cases state with
    | outside => rfl
    | inside opened | escaped opened =>
      simp only [next] at hn
      split_ifs at hn <;> cases hn <;> simp [Mark.inWord] at hm

/-- Marks that are parted in front of a separator are those of two texts, each by itself. -/
theorem marks_split (h : state.marks pos t = .ok (ms ++ ns))
    (hback : ∀ m ∈ ns.head?, m.inWord = false) :
    state.marks pos (ms.map Mark.char) = .ok ms ∧
      outside.marks (pos + Text.bytes (ms.map Mark.char)) (ns.map Mark.char) = .ok ns := by
  induction ms generalizing state pos t with
  | nil =>
    obtain rfl : state = outside := eq_outside_of_marks h hback
    rw [List.nil_append] at h
    rw [map_char_marks h]
    exact ⟨rfl, h⟩
  | cons m ms ih =>
    cases t with
    | nil => cases state <;> cases h
    | cons c t =>
      obtain ⟨m', state', ns', hn, hs, heq⟩ := exists_of_marks_cons h
      obtain ⟨rfl, rfl⟩ := List.cons.inj heq
      obtain ⟨hfront, hrest⟩ := ih hs
      have hc : m.char = c := (next_eq hn).1
      rw [List.map_cons, hc, marks_cons hn, hfront, Text.bytes, ← Nat.add_assoc]
      exact ⟨rfl, hrest⟩

theorem marks_outside_iff (pos : Nat) :
    outside.marks pos t = .ok ms ↔ outside.marks 0 t = .ok ms := by
  have hmoved := marks_moved pos 0 .outside t
  rw [Nat.zero_add, show outside.moved pos = outside from rfl] at hmoved
  rw [hmoved]
  cases outside.marks 0 t <;> simp [Except.mapError]

end QuoteState

open QuoteState

/-- Marks of a word, wherever it stands: they are those of its characters by themselves. -/
structure Mark.IsWord (run : List Mark) : Prop where
  ne_nil : run ≠ []
  inWord : ∀ m ∈ run, m.inWord = true
  marks : outside.marks 0 (run.map Mark.char) = .ok run

namespace Word

def content (w : Word) : Text × Bool := (w.text, w.quoted)

/-- Every word of a line is one wherever it stands. -/
theorem exists_isWord {pos : Nat} {t : Text} {ms : List Mark} (h : outside.marks pos t = .ok ms) :
    ∀ w ∈ gather pos ms, ∃ run, Mark.IsWord run ∧ w.content = (ofMarks 0 run).content := by
  induction ms using Mark.run_induction generalizing pos t with
  | nil => simp [gather]
  | gap m ms hm ih =>
    rw [gather_gap hm]
    cases t with
    | nil => cases h
    | cons c t =>
      obtain ⟨m', state', ns, hn, hs, heq⟩ := exists_of_marks_cons h
      obtain ⟨rfl, rfl⟩ := List.cons.inj heq
      obtain ⟨hc, hout, -⟩ := next_eq hn
      rw [hout hm] at hs
      rw [hc]
      exact ih hs
  | run run rest hrun ih =>
    obtain ⟨hfront, hrest⟩ := marks_split h hrun.back
    rw [gather_run hrun]
    intro w hw
    rcases List.mem_cons.mp hw with rfl | hw
    · exact ⟨run, ⟨hrun.ne_nil, hrun.inWord, (marks_outside_iff pos).mp hfront⟩, rfl⟩
    · exact ih hrest w hw

/-- Words that are parted by single spaces are read one by one. -/
theorem gather_unwords {runs : List (List Mark)} (h : ∀ run ∈ runs, Mark.IsWord run) (pos : Nat) :
    ∃ ms, outside.marks pos (Text.unwords (runs.map (List.map Mark.char))) = .ok ms ∧
      (gather pos ms).map content = runs.map fun run => (ofMarks 0 run).content := by
  induction runs generalizing pos with
  | nil => exact ⟨[], rfl, rfl⟩
  | cons run runs ih =>
    have hword := h run List.mem_cons_self
    have hmarks := (marks_outside_iff pos).mpr hword.marks
    cases runs with
    | nil =>
      have hrun : Mark.IsRun [] run [] := ⟨hword.ne_nil, hword.inWord, by simp, by simp⟩
      refine ⟨run, by simpa [Text.unwords] using hmarks, ?_⟩
      rw [← List.append_nil run, gather_run hrun]
      simp [gather, content, ofMarks]
    | cons next runs =>
      obtain ⟨ms, hms, hwords⟩ := ih (fun r hr => h r (List.mem_cons_of_mem _ hr))
        (pos + Text.bytes (run.map Mark.char) + ' '.utf8Size)
      have hrun : Mark.IsRun [] run (⟨' ', false⟩ :: ms) :=
        ⟨hword.ne_nil, hword.inWord, by simp, by simp [Mark.inWord, Word.isSeparator]⟩
      refine ⟨run ++ ⟨' ', false⟩ :: ms, ?_, ?_⟩
      · have hspace : outside.next (pos + Text.bytes (run.map Mark.char)) ' ' =
            .ok (⟨' ', false⟩, outside) := rfl
        rw [List.map_cons, List.map_cons, Text.unwords, List.intercalate_cons_cons,
          List.append_assoc, marks_append hmarks, List.singleton_append, marks_cons hspace]
        rw [List.map_cons, Text.unwords] at hms
        rw [hms]
        rfl
      · rw [gather_run hrun, gather_gap rfl, List.map_cons, hwords]
        rfl

/-- Words of a line that are joined by single spaces are read as the same words again, with the same
quotes. They may be all words of the line, or some of them in their order. -/
theorem ofText_unwords {t : Text} {ws vs : List Word} (h : ofText t = .ok ws)
    (hv : vs.Sublist ws) :
    ∃ us, ofText (Text.unwords (vs.map Word.text)) = .ok us ∧
      us.map Word.text = vs.map Word.text ∧ us.map Word.quoted = vs.map Word.quoted := by
  obtain ⟨ms, hm, rfl⟩ := ofText_eq_ok_iff.mp h
  choose! runOf hword hcontent using fun v (hin : v ∈ vs) => exists_isWord hm v (hv.subset hin)
  have hruns : ∀ run ∈ vs.map runOf, Mark.IsWord run := by
    simpa using hword
  obtain ⟨ns, hns, hread⟩ := gather_unwords hruns 0
  have htexts : (vs.map runOf).map (List.map Mark.char) = vs.map Word.text := by
    rw [List.map_map]
    exact List.map_congr_left fun v hin => (congrArg Prod.fst (hcontent v hin)).symm
  have hsame : (gather 0 ns).map content = vs.map content := by
    rw [hread, List.map_map]
    exact List.map_congr_left fun v hin => (hcontent v hin).symm
  refine ⟨gather 0 ns, ofText_eq_ok_iff.mpr ⟨ns, by rw [← htexts, hns], rfl⟩, ?_, ?_⟩
  · simpa [content, Function.comp_def] using congrArg (List.map Prod.fst) hsame
  · simpa [content, Function.comp_def] using congrArg (List.map Prod.snd) hsame

/-- A backslash outside of quotes in front of the space, two literals that are glued to a letter,
and a tab inside of a literal. -/
theorem ofText_unwords_glued :
    let ws : List Word := [⟨"x\\", 2, 4, false⟩, ⟨"\"a \\\" b\"\"\tc\"d", 5, 18, true⟩,
      ⟨"é", 20, 22, false⟩]
    ofText "  x\\\t\"a \\\" b\"\"\tc\"d  é\r" = .ok ws ∧
      ∃ us, ofText "x\\ \"a \\\" b\"\"\tc\"d é" = .ok us ∧
        us.map Word.text = ws.map Word.text ∧ us.map Word.quoted = [false, true, false] := by
  intro ws
  have h : ofText "  x\\\t\"a \\\" b\"\"\tc\"d  é\r" = .ok ws := by decide
  exact ⟨h, ofText_unwords h (List.Sublist.refl ws)⟩

end Word

end Pseudocode
