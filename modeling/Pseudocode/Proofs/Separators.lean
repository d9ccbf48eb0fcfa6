import Pseudocode.Proofs.Composition
import Pseudocode.Proofs.Provenance

/-!
# Separators around a line

A line says the same whatever separators stand around it. In front of a line they move its words
(`Word.ofText_separators_append`), behind it they change nothing, not even the place of a quote that
is left open (`Word.ofText_append_separators`). They are blanks too, so that the text of a comment
and the line without the blanks around it stay the same, and no name of a function contains one.
What a line says is its `Statement.reading?`, which leaves out the place of the line.
-/
namespace Pseudocode

namespace Text

def strip (t : Text) : Text := (t.dropWhile Word.isSeparator).rdropWhile Word.isSeparator

/-- `t` is the text `core` with separators around it. -/
def Padded (core t : Text) : Prop :=
  ∃ front back : Text, (∀ c ∈ front, Word.isSeparator c = true) ∧
    (∀ c ∈ back, Word.isSeparator c = true) ∧ t = front ++ (core ++ back)

theorem padded_strip (t : Text) : t.strip.Padded t := by
  refine ⟨t.takeWhile Word.isSeparator, (t.dropWhile Word.isSeparator).rtakeWhile Word.isSeparator,
    fun c => List.mem_takeWhile_imp, fun c => List.mem_rtakeWhile_imp, ?_⟩
  rw [strip, List.rdropWhile_append_rtakeWhile, List.takeWhile_append_dropWhile]

end Text

/-! ### The words -/

namespace QuoteState

def moved (offset : Nat) : QuoteState → QuoteState
  | outside => outside
  | inside opened => inside (opened + offset)
  | escaped opened => escaped (opened + offset)

theorem marks_moved (offset pos : Nat) (state : QuoteState) (t : Text) :
    (state.moved offset).marks (pos + offset) t = (state.marks pos t).mapError (· + offset) := by
  induction t generalizing state pos with
  | nil => cases state <;> rfl
  | cons c t ih =>
    have hnext : (state.moved offset).next (pos + offset) c =
        ((state.next pos c).map fun r => (r.1, r.2.moved offset)).mapError (· + offset) := by
      cases state <;> simp only [moved, next] <;> split_ifs <;> rfl
    rw [marks, marks, hnext]
    cases state.next pos c with
    | error opened => rfl
    | ok r =>
      have htail := ih (pos + c.utf8Size) r.2
      rw [Nat.add_right_comm] at htail
      simp only [Except.map, Except.mapError, htail]
      cases r.2.marks (pos + c.utf8Size) t <;> rfl

variable {pad : Text}

theorem marks_separators (h : ∀ c ∈ pad, Word.isSeparator c = true) (state : QuoteState)
    (pos : Nat) :
    state.marks pos pad = state.finish.map fun _ => pad.map (⟨·, false⟩) := by
  induction pad generalizing state pos with
  | nil => cases state <;> rfl
  | cons c pad ih =>
    have hc := Word.isSeparator_iff.mp (h c List.mem_cons_self)
    have htail := ih fun d hd => h d (List.mem_cons_of_mem _ hd)
    have hne : c ≠ '\n' ∧ c ≠ '"' ∧ c ≠ '\\' := by
      rcases hc with rfl | rfl | rfl | rfl <;> decide
    cases state <;> simp [marks, next, hne, htail, finish, Except.map]

theorem marks_append_separators (h : ∀ c ∈ pad, Word.isSeparator c = true) (state : QuoteState)
    (pos : Nat) (t : Text) :
    state.marks pos (t ++ pad) = (state.marks pos t).map (· ++ pad.map (⟨·, false⟩)) := by
  induction t generalizing state pos with
  | nil =>
    rw [List.nil_append, marks_separators h]
    cases state <;> rfl
  | cons c t ih =>
    rw [List.cons_append, marks, marks]
    cases state.next pos c with
    | error opened => rfl
    | ok r =>
      simp only [ih]
      cases r.2.marks (pos + c.utf8Size) t <;> rfl

end QuoteState

namespace Word

def moved (offset : Nat) (w : Word) : Word :=
  { w with start := w.start + offset, stop := w.stop + offset }

theorem glue_moved (offset : Nat) (w : Word) (ws : List Word) :
    (w.moved offset).glue (ws.map (moved offset)) = (w.glue ws).map (moved offset) := by
  cases ws with
  | nil => rfl
  | cons v vs =>
    have hnext : v.start + offset = w.stop + offset ↔ v.start = w.stop := by omega
    simp only [List.map_cons, glue, moved, hnext]
    split_ifs <;> rfl

theorem gather_moved (offset pos : Nat) (ms : List Mark) :
    gather (pos + offset) ms = (gather pos ms).map (moved offset) := by
  induction ms generalizing pos with
  | nil => rfl
  | cons m ms ih =>
    have htail := ih (pos + m.char.utf8Size)
    have hfirst : ofMarks (pos + offset) [m] = (ofMarks pos [m]).moved offset := by
      simp [ofMarks, moved, Nat.add_right_comm]
    rw [Nat.add_right_comm] at htail
    simp only [gather, htail, hfirst, glue_moved]
    split_ifs <;> rfl

theorem gather_eq_nil {ms : List Mark} (h : ∀ m ∈ ms, m.inWord = false) (pos : Nat) :
    gather pos ms = [] := by
  induction ms generalizing pos with
  | nil => rfl
  | cons m ms ih =>
    rw [gather, ih fun n hn => h n (List.mem_cons_of_mem _ hn), h m List.mem_cons_self]
    rfl

theorem gather_append_blank {ns : List Mark} (h : ∀ m ∈ ns, m.inWord = false) (pos : Nat)
    (ms : List Mark) : gather pos (ms ++ ns) = gather pos ms := by
  induction ms generalizing pos with
  | nil => exact gather_eq_nil h pos
  | cons m ms ih => simp only [List.cons_append, gather, ih]

section Separators

variable {pad : Text} (h : ∀ c ∈ pad, Word.isSeparator c = true)

include h

theorem inWord_separators : ∀ m ∈ pad.map (Mark.mk · false), m.inWord = false := by
  intro m hm
  obtain ⟨c, hc, rfl⟩ := List.mem_map.mp hm
  simp [Mark.inWord, h c hc]

theorem ofText_append_separators (t : Text) : ofText (t ++ pad) = ofText t := by
  rw [ofText_eq_gather, ofText_eq_gather, QuoteState.marks_append_separators h]
  cases QuoteState.outside.marks 0 t with
  | error offset => rfl
  | ok ms => exact congrArg Except.ok (gather_append_blank (inWord_separators h) 0 ms)

theorem ofText_separators_append (t : Text) :
    ofText (pad ++ t) =
      ((ofText t).map (List.map (moved pad.bytes))).mapError (· + pad.bytes) := by
  have hmarks := QuoteState.marks_moved pad.bytes 0 .outside t
  have hplain : ∀ c ∈ pad, c ≠ '"' ∧ c ≠ '\n' := by
    intro c hc
    rcases Word.isSeparator_iff.mp (h c hc) with rfl | rfl | rfl | rfl <;> decide
  rw [ofText_eq_gather, ofText_eq_gather, QuoteState.marks_unquoted_append hplain]
  rw [QuoteState.moved] at hmarks
  rw [hmarks]
  cases QuoteState.outside.marks 0 t with
  | error offset => rfl
  | ok ms =>
    refine congrArg Except.ok ?_
    rw [gather_blank_append (inWord_separators h), List.map_map, ← gather_moved]
    simp [Function.comp_def]

end Separators

def texts? (t : Text) : Option (List Text) := (ofText t).toOption.map (List.map Word.text)

theorem texts_padded {core t : Text} (h : core.Padded t) : texts? t = texts? core := by
  obtain ⟨front, back, hfront, hback, rfl⟩ := h
  rw [texts?, texts?, ofText_separators_append hfront, ofText_append_separators hback]
  cases ofText core with
  | error offset => rfl
  | ok ws =>
    refine congrArg some ?_
    rw [List.map_map]
    rfl

theorem isSeparator_of_gather_eq_nil {pos : Nat} {ms : List Mark} (h : gather pos ms = []) :
    ∀ c ∈ ms.map Mark.char, Word.isSeparator c = true := by
  induction ms using Mark.run_induction generalizing pos with
  | nil => simp
  | gap m ms hm ih =>
    rw [gather_gap hm] at h
    rw [List.map_cons, List.forall_mem_cons]
    exact ⟨Mark.isSeparator_of_inWord (by simp [hm]), ih h⟩
  | run run rest hrun ih =>
    rw [gather_run hrun] at h
    cases h

theorem padded_of_gather {pos : Nat} {ms : List Mark} {w : Word} (h : gather pos ms = [w]) :
    w.text.Padded (ms.map Mark.char) := by
  induction ms using Mark.run_induction generalizing pos with
  | nil => cases h
  | gap m ms hm ih =>
    rw [gather_gap hm] at h
    obtain ⟨front, back, hfront, hback, htext⟩ := ih h
    refine ⟨m.char :: front, back, ?_, hback, ?_⟩
    · rw [List.forall_mem_cons]
      exact ⟨Mark.isSeparator_of_inWord (by simp [hm]), hfront⟩
    · rw [List.map_cons, htext]
      rfl
  | run run rest hrun ih =>
    rw [gather_run hrun, List.cons.injEq] at h
    obtain ⟨rfl, hrest⟩ := h
    refine ⟨[], rest.map Mark.char, by simp, isSeparator_of_gather_eq_nil hrest, ?_⟩
    rw [List.map_append]
    rfl

theorem padded_of_texts {word t : Text} (h : texts? t = some [word]) : word.Padded t := by
  rw [texts?, ofText_eq_gather] at h
  cases hm : QuoteState.outside.marks 0 t with
  | error offset => simp [hm, Except.map, Except.toOption] at h
  | ok ms =>
    simp only [hm, Except.map, Except.toOption, Option.map_some, Option.some.injEq,
      List.map_eq_singleton_iff] at h
    obtain ⟨w, hw, rfl⟩ := h
    have hpadded := padded_of_gather hw
    rwa [QuoteState.map_char_marks hm] at hpadded

end Word

/-! ### Comments, and the line without the blanks around it -/

namespace Text

theorem isBlank_separators {pad : Text} (h : ∀ c ∈ pad, Word.isSeparator c = true) :
    ∀ c ∈ pad, isBlank c = true := by
  intro c hc
  rcases Word.isSeparator_iff.mp (h c hc) with rfl | rfl | rfl | rfl <;> decide

theorem trimStart_append_left {front : Text} (h : ∀ c ∈ front, isBlank c = true) (t : Text) :
    trimStart (front ++ t) = t.trimStart :=
  List.dropWhile_append_of_pos h

theorem trimStart_append_right {back : Text} (h : ∀ c ∈ back, isBlank c = true) (t : Text) :
    trimStart (t ++ back) = if t.trimStart = [] then [] else t.trimStart ++ back := by
  have hback : back.dropWhile isBlank = [] := List.dropWhile_eq_nil_iff.mpr h
  rw [trimStart, List.dropWhile_append, hback]
  simp only [List.isEmpty_iff]
  rfl

theorem trimEnd_append {back : Text} (h : ∀ c ∈ back, isBlank c = true) (t : Text) :
    trimEnd (t ++ back) = t.trimEnd := by
  have hrev : ∀ c ∈ back.reverse, isBlank c = true := fun c hc => h c (List.mem_reverse.mp hc)
  rw [trimEnd, List.reverse_append, List.dropWhile_append_of_pos hrev]
  rfl

theorem trim_append {back : Text} (h : ∀ c ∈ back, isBlank c = true) (t : Text) :
    trim (t ++ back) = t.trim := by
  rw [trim, trim, trimStart_append_right h]
  split_ifs with hn
  · rw [hn]
  · exact trimEnd_append h _

theorem trim_padded {core t : Text} (h : core.Padded t) : t.trim = core.trim := by
  obtain ⟨front, back, hfront, hback, rfl⟩ := h
  rw [trim, trimStart_append_left (isBlank_separators hfront)]
  exact trim_append (isBlank_separators hback) core

/-- A mark is found in front of a text whatever stands behind the text, if that has none of its
characters. -/
theorem isPrefixOf?_append {mark back : Text} (h : ∀ c ∈ back, c ∉ mark) (t : Text) :
    mark.isPrefixOf? (t ++ back) = (mark.isPrefixOf? t).map (· ++ back) := by
  induction mark generalizing t with
  | nil => rfl
  | cons m mark ih =>
    have htail := ih fun c hc => (not_or.mp (List.mem_cons.not.mp (h c hc))).2
    cases t with
    | nil =>
      cases back with
      | nil => rfl
      | cons c back =>
        have hne : m ≠ c := Ne.symm (not_or.mp (List.mem_cons.not.mp (h c List.mem_cons_self))).1
        simp [List.isPrefixOf?, hne]
    | cons c t =>
      simp only [List.cons_append, List.isPrefixOf?, htail]
      split <;> rfl

end Text

namespace Statement

def comment? (t : Text) : Option Text := (commentMark.isPrefixOf? t.trimStart).map Text.trim

theorem comment_padded {core t : Text} (h : core.Padded t) : comment? t = comment? core := by
  obtain ⟨front, back, hfront, hback, rfl⟩ := h
  have hblank := Text.isBlank_separators hback
  have hmark : ∀ c ∈ back, c ∉ commentMark := by
    intro c hc
    rcases Word.isSeparator_iff.mp (hback c hc) with rfl | rfl | rfl | rfl <;> decide
  rw [comment?, comment?, Text.trimStart_append_left (Text.isBlank_separators hfront),
    Text.trimStart_append_right hblank]
  split_ifs with hn
  · rw [hn]
  · rw [Text.isPrefixOf?_append hmark, Option.map_map]
    exact congrArg (Option.map · _) (funext fun t => Text.trim_append hblank t)

/-- What a line says, wherever it stands: its head, its arguments, and whether it is a comment. -/
def reading? (t : Text) : Option (Text × List Text × Bool) :=
  match comment? t with
  | some comment => some (commentMark, [comment], true)
  | none => (Word.texts? t).map fun words => (words.headD [], words.tail, false)

theorem reading_padded {core t : Text} (h : core.Padded t) : reading? t = reading? core := by
  rw [reading?, reading?, comment_padded h, Word.texts_padded h]

/-- A statement is what its line says, at the place of the line. -/
theorem ofLine_eq_ok_iff {line : SourceLine} {s : Statement} :
    ofLine line = .ok s ↔
      s.line = line ∧ reading? line.text = some (s.head, s.args, s.isComment) := by
  have hwords : ∀ words : List Word, ofWords line words =
      ⟨line, (words.map Word.text).headD [], (words.map Word.text).tail, false⟩ := by
    intro words
    cases words <;> rfl
  obtain ⟨place, head, args, isComment⟩ := s
  rw [ofLine, reading?, comment?, Word.texts?]
  cases commentMark.isPrefixOf? line.text.trimStart with
  | some comment => simp [eq_comm]
  | none =>
    cases Word.ofText line.text with
    | error offset => simp [Except.toOption]
    | ok words => simp [Except.toOption, hwords, eq_comm]

end Statement

/-! ### The features in use -/

namespace Usage

theorem ofSource_padded {core t : Text} (h : core.Padded t) : ofSource t = ofSource core := by
  have hfront : ∀ {pad : Text}, (∀ c ∈ pad, Word.isSeparator c = true) →
      ∀ t, ofSource (pad ++ t) = ofSource t := by
    intro pad hp t
    induction pad with
    | nil => rfl
    | cons c pad ih =>
      have hcons := ofSource_append_cons (.inr (hp c List.mem_cons_self)) [] (pad ++ t)
      rw [List.nil_append, ih fun d hd => hp d (List.mem_cons_of_mem _ hd)] at hcons
      rw [List.cons_append, hcons]
      rfl
  obtain ⟨front, back, hf, hb, rfl⟩ := h
  rw [hfront hf]
  cases back with
  | nil => rw [List.append_nil]
  | cons c back =>
    have hback := hfront (fun d hd => hb d (List.mem_cons_of_mem _ hd)) []
    rw [List.append_nil] at hback
    rw [ofSource_append_cons (.inr (hb c List.mem_cons_self)), hback]
    exact union_default _

end Usage

/-! ### Idle lines -/

/-- A line that changes nothing: it has no other characters than separators, or its only word is the
one that may stand in front of the body of a function. -/
def Text.Idle (t : Text) : Prop :=
  (∀ c ∈ t, Word.isSeparator c = true) ∨ Word.texts? t = some [("fx_start" : Text)]

namespace Text.Idle

instance (t : Text) : Decidable t.Idle :=
  -- a search through the text, where the default is one through all characters
  haveI : Decidable (∀ c ∈ t, Word.isSeparator c = true) := List.decidableBAll _ t
  inferInstanceAs (Decidable (_ ∨ _))

variable {t : Text} (h : t.Idle)

include h

theorem padded : Padded [] t ∨ Padded "fx_start" t := by
  rcases h with h | h
  · exact .inl ⟨t, [], h, by simp, by simp⟩
  · exact .inr (Word.padded_of_texts h)

theorem reading : ∃ head, (head = [] ∨ head = ("fx_start" : Text)) ∧
    Statement.reading? t = some (head, [], false) := by
  rcases h.padded with h | h
  · exact ⟨_, .inl rfl, Statement.reading_padded h⟩
  · exact ⟨_, .inr rfl, Statement.reading_padded h⟩

theorem usage : Usage.ofSource t = {} := by
  rcases h.padded with h | h
  · exact Usage.ofSource_padded h
  · exact Usage.ofSource_padded h

end Text.Idle

end Pseudocode
