import Pseudocode.Proofs.Lockstep
import Pseudocode.Proofs.Context
import Pseudocode.Proofs.Partners
import Pseudocode.Proofs.Words

/-!
# Faults and their places

A line that is refused is written down as an empty line with one fault, and leaves nothing behind
but a mark on the innermost block (`feed_refused`). The lines of a compilation cover the source
byte by byte, one newline between neighbours, and every fault is about the bytes of the line whose
number it tells (`compile_anchored`). Only a literal that is left open is told more closely, from
its quote on.
-/
namespace Pseudocode

/-! ### What a refused line leaves behind -/

/-- The progress `q` is the progress `p`, where the innermost block may have been given a body. -/
structure Progress.Spared (p q : Progress) : Prop where
  openers : q.nesting.map Block.opener = p.nesting.map Block.opener
  outer : q.nesting.tail = p.nesting.tail
  innermost : p.nesting.hasBody = true → q.nesting.hasBody = true
  closed : q.closed? = p.closed?
  window : q.hasWindow = p.hasWindow
  usage : q.usage = p.usage

namespace Progress

theorem Spared.refl (p : Progress) : p.Spared p := ⟨rfl, rfl, id, rfl, rfl, rfl⟩

theorem spared_enter (p : Progress) (form : Form) : p.Spared (p.enter form) := by
  by_cases hb : form.givesBody = true
  · have he : p.enter form = { p with nesting := p.nesting.giveBody } := if_pos hb
    refine ⟨p.openers_enter form, ?_, ?_, ?_, ?_, ?_⟩ <;> rw [he]
    · cases p.nesting <;> rfl
    · intro _
      cases p.nesting <;> rfl
  · have he : p.enter form = p := if_neg hb
    rw [he]
    exact .refl p

/-- A line with a fault gives no output, and spares the progress. -/
theorem step_of_fault {setup : Setup} {p : Progress} {line : SourceLine} {fault : Fault}
    (h : (p.step setup line).2.fault? = some fault) :
    (p.step setup line).2.line = .empty line.range ∧ p.Spared (p.step setup line).1 := by
  cases hs : Statement.ofLine line with
  | error f =>
    rw [step_of_error hs]
    exact ⟨rfl, .refl p⟩
  | ok s =>
    cases hrun : (Handling.line setup s).run p with
    | ok output q => simp [step, hs, hrun] at h
    | error cause q =>
      simp only [step, hs, hrun, Handling.eq_enter_of_run_line hrun, true_and]
      exact p.spared_enter _

end Progress

namespace Session

theorem lines_feed (s : Session) (line : SourceLine) :
    (s.feed line).lines = s.lines ++ [(s.progress.step s.setup line).2.line] := rfl

theorem faults_feed (s : Session) (line : SourceLine) :
    (s.feed line).faults = s.faults ++ (s.progress.step s.setup line).2.fault?.toList := rfl

/-- If a line is found at fault, then one fault and one empty line are written down, and the
progress is spared. -/
theorem feed_refused {s : Session} {line : SourceLine} (h : (s.feed line).faults ≠ s.faults) :
    (∃ fault, (s.feed line).faults = s.faults ++ [fault]) ∧
      (s.feed line).lines = s.lines ++ [.empty line.range] ∧
      s.progress.Spared (s.feed line).progress := by
  obtain ⟨fault, hf⟩ : ∃ fault, (s.progress.step s.setup line).2.fault? = some fault := by
    apply Option.ne_none_iff_exists'.mp
    intro hnone
    apply h
    rw [faults_feed, hnone]
    exact List.append_nil _
  obtain ⟨hline, hspared⟩ := Progress.step_of_fault hf
  refine ⟨⟨fault, ?_⟩, ?_, hspared⟩
  · rw [faults_feed, hf]
    rfl
  · rw [lines_feed, hline]

/-- A drawing before there is a window is refused, and yet gives the block around it a body. -/
theorem feed_refused_drawing :
    let s := Session.feed { setup := .ofOptions .cpp {} } (.placed 0 0 "if x")
    let line := SourceLine.placed 1 5 "circle 1 2 3"
    s.progress.nesting = [⟨.ifElse, 0, false⟩] ∧ (s.feed line).faults ≠ s.faults ∧
      s.progress.Spared (s.feed line).progress ∧
      (s.feed line).progress.nesting = [⟨.ifElse, 0, true⟩] := by
  intro s line
  have h : (s.feed line).faults ≠ s.faults := by decide +kernel
  exact ⟨rfl, h, (feed_refused h).2.2, rfl⟩

end Session

/-! ### The bytes of the lines -/

theorem length_pieces {α : Type} [DecidableEq α] (sep : α) (xs : List α) :
    (pieces sep xs).length = xs.count sep + 1 := by
  induction xs with
  | nil => rfl
  | cons x xs ih =>
    rw [pieces_cons, List.count_cons]
    by_cases hx : x = sep
    · simp [hx, ih]
    · simp [hx, ih, List.length_modifyHead]

namespace SourceLine

/-- A placed line covers its own bytes of the text that the lines make up. -/
theorem exists_split {index start k : Nat} {ts : List Text} {line : SourceLine}
    (h : (placeAll index start ts)[k]? = some line) :
    ∃ before behind, Text.unlines ts = before ++ line.text ++ behind ∧
      line.range = ⟨start + before.bytes, start + before.bytes + line.text.bytes⟩ := by
  induction ts generalizing index start k with
  | nil => simp [placeAll] at h
  | cons t ts ih =>
    cases k with
    | zero =>
      simp only [placeAll, List.getElem?_cons_zero, Option.some.injEq] at h
      obtain ⟨behind, hb⟩ : ∃ behind, Text.unlines (t :: ts) = t ++ behind := by
        cases ts with
        | nil => exact ⟨[], by simp [Text.unlines]⟩
        | cons u ts =>
          refine ⟨['\n'] ++ Text.unlines (u :: ts), ?_⟩
          rw [Text.unlines, List.intercalate_cons_cons, List.append_assoc]
          rfl
      refine ⟨[], behind, ?_, ?_⟩
      · rw [hb, ← h]
        rfl
      · rw [← h]
        rfl
    | succ k =>
      rw [placeAll, List.getElem?_cons_succ] at h
      obtain ⟨before, behind, htext, hrange⟩ := ih h
      have hts : ts ≠ [] := by
        intro hnil
        rw [hnil] at h
        simp [placeAll] at h
      obtain ⟨u, us, rfl⟩ := List.exists_cons_of_ne_nil hts
      have hbytes : Text.bytes (t ++ '\n' :: before) = t.bytes + 1 + before.bytes := by
        have hn : Char.utf8Size '\n' = 1 := by rfl
        rw [Text.bytes_append, Text.bytes, hn]
        omega
      refine ⟨t ++ '\n' :: before, behind, ?_, ?_⟩
      · rw [Text.unlines, List.intercalate_cons_cons, ← Text.unlines, htext]
        simp
      · rw [hrange, hbytes, ByteRange.mk.injEq]
        omega

theorem isChain_placeAll (index start : Nat) (ts : List Text) :
    (placeAll index start ts).IsChain fun l m => m.range.start = l.range.stop + 1 := by
  induction ts generalizing index start with
  | nil => exact .nil
  | cons t ts ih =>
    cases ts with
    | nil => exact .singleton _
    | cons u ts =>
      apply List.isChain_cons_cons.mpr
      exact ⟨rfl, ih _ _⟩

theorem stop_of_getLast? {index start : Nat} {ts : List Text} {line : SourceLine}
    (h : (placeAll index start ts).getLast? = some line) :
    line.range.stop = start + (Text.unlines ts).bytes := by
  induction ts generalizing index start with
  | nil => cases h
  | cons t ts ih =>
    cases ts with
    | nil =>
      simp only [placeAll, List.getLast?_singleton, Option.some.injEq] at h
      rw [← h]
      simp [placed, Text.unlines]
    | cons u ts =>
      rw [placeAll, placeAll, List.getLast?_cons_cons] at h
      have hn : Text.bytes ['\n'] = 1 := by rfl
      rw [ih h, Text.unlines, Text.unlines, List.intercalate_cons_cons, Text.bytes_append,
        Text.bytes_append, hn]
      omega

end SourceLine

/-! ### The bytes of a literal that is left open -/

theorem Scan.exists_mark {t : Text} {opened? : Option Nat} (h : Scan t opened?) :
    ∀ opened ∈ opened?, ∃ before behind : Text, t = before ++ '"' :: behind ∧
      opened = before.bytes := by
  have hlonger : ∀ {t : Text} {opened : Nat} (u : Text),
      (∃ before behind : Text, t = before ++ '"' :: behind ∧ opened = before.bytes) →
      ∃ before behind : Text, t ++ u = before ++ '"' :: behind ∧ opened = before.bytes := by
    rintro _ _ u ⟨before, behind, rfl, rfl⟩
    exact ⟨before, behind ++ u, by simp, rfl⟩
  induction h with
  | start | plain | closes => rintro _ ⟨⟩
  | @opens t => rintro _ ⟨⟩; exact ⟨t, [], rfl, rfl⟩
  | inner _ _ _ _ ih => rintro _ ⟨⟩; exact hlonger _ (ih _ rfl)
  | escape _ _ ih => rintro _ ⟨⟩; exact hlonger _ (ih _ rfl)

theorem Word.exists_quote {t : Text} {offset : Nat} (hn : '\n' ∉ t) (h : ofText t = .error offset) :
    ∃ before behind : Text, t = before ++ '"' :: behind ∧ offset = before.bytes := by
  cases ofText_eq_error_iff.mp h with
  | newline | inside | escaped => simp at hn
  | unclosed hs => exact hs.exists_mark _ rfl
  | backslash hs =>
    obtain ⟨before, behind, rfl, rfl⟩ := hs.exists_mark _ rfl
    exact ⟨before, behind ++ ['\\'], by simp, rfl⟩

/-! ### The places of the faults -/

/-- The bytes that a fault is about: those of its line, or those of the line from an open quote
on. -/
def Fault.Covers (source : Text) (l : OutputLine) (f : Fault) : Prop :=
  if f.cause = .openQuote then
    source.utf8Encode.extract f.range.start (f.range.start + 1) = ['"'].utf8Encode ∧
      l.range.start ≤ f.range.start ∧ f.range.start < l.range.stop ∧ f.range.stop = l.range.stop
  else f.range = l.range

/-- All that a compilation tells about places is true of the source. -/
structure Compilation.Anchored (source : Text) (c : Compilation) : Prop where
  length : c.lines.length = source.count '\n' + 1
  bytes : ∀ (i : Nat) (l : OutputLine), c.lines[i]? = some l → ∃ line : Text,
    source.lines[i]? = some line ∧
      source.utf8Encode.extract l.range.start l.range.stop = line.utf8Encode
  first : ∀ l, c.lines.head? = some l → l.range.start = 0
  next : c.lines.IsChain fun l m => m.range.start = l.range.stop + 1
  last : ∀ l, c.lines.getLast? = some l → l.range.stop = source.utf8Encode.size
  order : ∃ (told : List Fault) (unclosed? : Option Fault),
    c.faults = told ++ unclosed?.toList ∧ told.Pairwise (fun f g => f.line < g.line) ∧
      (∀ f ∈ told, f.cause.isUnclosed = false) ∧ ∀ f ∈ unclosed?, f.cause.isUnclosed = true
  place : ∀ f ∈ c.faults, 1 ≤ f.line ∧ f.line ≤ c.lines.length ∧
    ∃ l, c.lines[f.line - 1]? = some l ∧ f.Covers source l ∧
      (f.cause.isUnclosed = false → l = .empty l.range)

/-- Faults come in the order of their lines. -/
theorem Progress.faults_run (setup : Setup) (p : Progress) (index start : Nat) (ts : List Text) :
    let faults := (p.run setup (SourceLine.placeAll index start ts)).2.filterMap Outcome.fault?
    (∀ f ∈ faults, index < f.line) ∧ faults.Pairwise fun f g => f.line < g.line := by
  induction ts generalizing p index start with
  | nil => simp [SourceLine.placeAll, run]
  | cons t ts ih =>
    obtain ⟨hlater, hsorted⟩ :=
      ih (p.step setup (.placed index start t)).1 (index + 1) (start + t.bytes + 1)
    simp only [SourceLine.placeAll, run, List.filterMap_cons]
    split
    · refine ⟨fun f hf => ?_, hsorted⟩
      have := hlater f hf
      omega
    · next fault hfault =>
      have hline : fault.line = index + 1 := (fault_step hfault).1
      constructor
      · intro f hf
        rcases List.mem_cons.mp hf with rfl | hf
        · omega
        · have := hlater f hf
          omega
      · apply List.pairwise_cons.mpr
        refine ⟨fun f hf => ?_, hsorted⟩
        have := hlater f hf
        omega

namespace Compilation

open Progress

variable {setup : Setup} {source : Text} {k : Nat} {line : SourceLine}

theorem exists_split (hl : (SourceLine.ofSource source)[k]? = some line) :
    ∃ before behind, source = before ++ line.text ++ behind ∧
      line.range = ⟨before.bytes, before.bytes + line.text.bytes⟩ := by
  obtain ⟨before, behind, htext, hrange⟩ := SourceLine.exists_split hl
  rw [Text.unlines_lines] at htext
  rw [Nat.zero_add] at hrange
  exact ⟨before, behind, htext, hrange⟩

theorem covers_of_ofLine {fault : Fault} {l : OutputLine}
    (hl : (SourceLine.ofSource source)[k]? = some line) (hrange : l.range = line.range)
    (he : Statement.ofLine line = .error fault) : fault.Covers source l := by
  obtain ⟨offset, hwords, rfl⟩ := Statement.ofLine_error he
  obtain ⟨before, behind, hsource, hline⟩ := exists_split hl
  have hn : '\n' ∉ line.text :=
    Text.notMem_of_mem_lines (SourceLine.text_mem_lines (List.mem_of_getElem? hl))
  obtain ⟨left, right, htext, rfl⟩ := Word.exists_quote hn hwords
  have hquote : Char.utf8Size '"' = 1 := by rfl
  have hbytes : line.text.bytes = left.bytes + (1 + right.bytes) := by
    rw [htext, Text.bytes_append, Text.bytes, hquote]
  rw [Fault.Covers, if_pos rfl, hrange, hline]
  simp only [ByteRange.slice]
  refine ⟨?_, by omega, by omega, trivial⟩
  have hcut := Text.extract_utf8Encode (before ++ left) ['"'] (right ++ behind)
  have hone : Text.bytes ['"'] = 1 := by rfl
  rw [Text.bytes_append, hone] at hcut
  rw [hsource, htext, ← hcut]
  simp

theorem place_of_step {fault : Fault} (hl : (SourceLine.ofSource source)[k]? = some line)
    (hf : ((before setup (SourceLine.ofSource source) k).step setup line).2.fault? = some fault) :
    fault.line = k + 1 ∧ (ofSource setup source).lines[k]? = some (.empty line.range) ∧
      fault.Covers source (.empty line.range) := by
  have hline := (fault_step hf).1
  have hout := (step_of_fault hf).1
  refine ⟨?_, ?_, ?_⟩
  · rw [hline, SourceLine.number, SourceLine.index_of_getElem? hl]
  · rw [getElem?_lines, hl, Option.map_some, hout]
  · rcases step_cases setup (before setup (SourceLine.ofSource source) k) line with
      ⟨f, he⟩ | ⟨s, cause, hr⟩ | ⟨s, ha⟩
    · rw [step_of_error he] at hf
      cases hf
      exact covers_of_ofLine hl rfl he
    · rw [hr.step_eq] at hf
      cases hf
      rw [Fault.Covers, if_neg (objection_spec hr.objects).2.1]
      rfl
    · rw [ha.step_eq] at hf
      cases hf

theorem place_of_mem {fault : Fault} (h : fault ∈ (ofSource setup source).faults) :
    1 ≤ fault.line ∧ fault.line ≤ (ofSource setup source).lines.length ∧
      ∃ l, (ofSource setup source).lines[fault.line - 1]? = some l ∧ fault.Covers source l ∧
        (fault.cause.isUnclosed = false → l = .empty l.range) := by
  suffices hsuff : ∃ k l, fault.line = k + 1 ∧ (ofSource setup source).lines[k]? = some l ∧
      fault.Covers source l ∧ (fault.cause.isUnclosed = false → l = .empty l.range) by
    obtain ⟨k, l, hline, hl, hrest⟩ := hsuff
    have hlt := (List.getElem?_eq_some_iff.mp hl).1
    refine ⟨by omega, by omega, l, ?_, hrest⟩
    rw [hline, Nat.add_sub_cancel, hl]
  cases hcause : fault.cause.isUnclosed with
  | false =>
    obtain ⟨k, line, hl, hf⟩ : ∃ k line, (SourceLine.ofSource source)[k]? = some line ∧
        ((before setup (SourceLine.ofSource source) k).step setup line).2.fault? = some fault := by
      rw [faults_eq, List.mem_append] at h
      rcases h with h | h
      · exact mem_lineFaults_iff.mp h
      · rw [Option.mem_toList] at h
        simp [isUnclosed_of_unclosed h] at hcause
    obtain ⟨hline, hout, hcovers⟩ := place_of_step hl hf
    exact ⟨k, _, hline, hout, hcovers, fun _ => rfl⟩
  | true =>
    rcases unclosed_cases setup source with ⟨-, hnone⟩ |
      ⟨i, kind, line, earlier, -, hl, hfaults, hearlier⟩
    · simp [hnone fault h] at hcause
    · rw [hfaults, List.mem_append, List.mem_singleton] at h
      rcases h with h | rfl
      · simp [hearlier fault h] at hcause
      · have hout := getElem?_lines setup source i
        rw [hl, Option.map_some] at hout
        refine ⟨i, _, rfl, hout, ?_, by simp⟩
        rw [Fault.Covers, if_neg (by simp), range_step]

theorem exists_line {l : OutputLine} (hl : (ofSource setup source).lines[k]? = some l) :
    ∃ line, (SourceLine.ofSource source)[k]? = some line ∧ l.range = line.range := by
  rw [getElem?_lines] at hl
  obtain ⟨line, hline, rfl⟩ := Option.map_eq_some_iff.mp hl
  exact ⟨line, hline, range_step ..⟩

theorem bytes_line {l : OutputLine} (hl : (ofSource setup source).lines[k]? = some l) :
    ∃ line : Text, source.lines[k]? = some line ∧
      source.utf8Encode.extract l.range.start l.range.stop = line.utf8Encode := by
  obtain ⟨line, hline, hrange⟩ := exists_line hl
  obtain ⟨before, behind, hsource, hplace⟩ := exists_split hline
  refine ⟨line.text, ?_, ?_⟩
  · rw [← SourceLine.map_text_ofSource, List.getElem?_map, hline, Option.map_some]
  · rw [hrange, hplace]
    conv_lhs => rw [hsource]
    exact Text.extract_utf8Encode before line.text behind

theorem start_head {l : OutputLine} (hl : (ofSource setup source).lines.head? = some l) :
    l.range.start = 0 := by
  rw [List.head?_eq_getElem?] at hl
  obtain ⟨line, hline, hrange⟩ := exists_line hl
  obtain ⟨t, ts, hts⟩ := List.exists_cons_of_ne_nil source.lines_ne_nil
  rw [SourceLine.ofSource, hts] at hline
  rw [hrange, ← Option.some.inj hline]
  rfl

theorem isChain_lines (setup : Setup) (source : Text) :
    (ofSource setup source).lines.IsChain fun l m => m.range.start = l.range.stop + 1 := by
  have hchain := SourceLine.isChain_placeAll 0 0 source.lines
  apply (List.isChain_map (R := fun r r' => r'.start = r.stop + 1) OutputLine.range).mp
  rw [map_range_lines]
  exact (List.isChain_map SourceLine.range).mpr hchain

theorem stop_getLast {l : OutputLine} (hl : (ofSource setup source).lines.getLast? = some l) :
    l.range.stop = source.utf8Encode.size := by
  have hlast : (SourceLine.ofSource source).getLast?.map SourceLine.range = some l.range := by
    rw [← List.getLast?_map, ← map_range_lines setup, List.getLast?_map, hl, Option.map_some]
  obtain ⟨line, hline, heq⟩ := Option.map_eq_some_iff.mp hlast
  rw [← heq, SourceLine.stop_of_getLast? hline, Text.unlines_lines, Text.size_utf8Encode,
    Nat.zero_add]

theorem order_faults (setup : Setup) (source : Text) :
    ∃ (told : List Fault) (unclosed? : Option Fault),
      (ofSource setup source).faults = told ++ unclosed?.toList ∧
        told.Pairwise (fun f g => f.line < g.line) ∧
        (∀ f ∈ told, f.cause.isUnclosed = false) ∧ ∀ f ∈ unclosed?, f.cause.isUnclosed = true := by
  refine ⟨_, _, faults_eq setup source, (faults_run setup {} 0 0 source.lines).2, ?_, ?_⟩
  · intro f hf
    obtain ⟨k, line, -, hstep⟩ := mem_lineFaults_iff.mp hf
    exact (fault_step hstep).2
  · intro f hf
    exact isUnclosed_of_unclosed hf

theorem anchored (setup : Setup) (source : Text) : (ofSource setup source).Anchored source where
  length := by
    rw [length_lines, ← List.length_map (f := SourceLine.text), SourceLine.map_text_ofSource]
    exact length_pieces '\n' source
  bytes _ _ hl := bytes_line hl
  first _ hl := start_head hl
  next := isChain_lines setup source
  last _ hl := stop_getLast hl
  order := order_faults setup source
  place _ hf := place_of_mem hf

end Compilation

/-- The output and the faults of a compilation are about the bytes of the source that they name,
and the first fault is what is reported. -/
theorem compile_anchored (target : Target) (options : Options) (source : Text) :
    let c := Compilation.ofSource (.ofOptions target options) source
    c.Anchored source ∧
      ∀ fault, c.faults.head? = some fault ↔ compile target options source = .error fault := by
  intro c
  refine ⟨Compilation.anchored _ source, fun fault => ?_⟩
  change _ ↔ c.result (.ofOptions target options) = .error fault
  unfold Compilation.result
  cases c.faults with
  | nil => simp
  | cons first rest => simp

end Pseudocode
