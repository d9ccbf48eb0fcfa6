import Pseudocode.Proofs.Partners
import Pseudocode.Proofs.Separators

/-!
# Keywords in front of an assignment

A keyword says of which form a line is, unless the line is an assignment. A line is one if its first
argument ends with an equals sign, whether or not that argument is an operator of its own. So
`while a <= 3` opens a block, and `while a<= 3` is passed on as it stands and opens none
(`Statement.form_of_keyword`).
-/
namespace Pseudocode

/-! ### Lines of words without quotes -/

/-- The text is one word, wherever it stands between separators. -/
def Text.IsBare (t : Text) : Prop :=
  t ≠ [] ∧ ∀ c ∈ t, (c ≠ '"' ∧ c ≠ '\n') ∧ Word.isSeparator c = false

instance (t : Text) : Decidable t.IsBare :=
  haveI : Decidable (∀ c ∈ t, (c ≠ '"' ∧ c ≠ '\n') ∧ Word.isSeparator c = false) :=
    List.decidableBAll _ t
  inferInstanceAs (Decidable (_ ∧ _))

theorem Text.IsBare.append {t u : Text} (ht : t.IsBare) (hu : u.IsBare) : IsBare (t ++ u) :=
  ⟨by simp [ht.1], List.forall_mem_append.mpr ⟨ht.2, hu.2⟩⟩

namespace Word

theorem inWord_head {pos : Nat} {t : Text} {ms : List Mark}
    (h : ∀ c ∈ t.head?, Word.isSeparator c = true) (hm : QuoteState.outside.marks pos t = .ok ms) :
    ∀ m ∈ ms.head?, m.inWord = false := by
  cases t with
  | nil =>
    cases hm
    simp
  | cons c t =>
    have hc := h c rfl
    have hnext : QuoteState.outside.next pos c = .ok (⟨c, false⟩, .outside) := by
      rcases Word.isSeparator_iff.mp hc with rfl | rfl | rfl | rfl <;> rfl
    obtain ⟨m, state', ns, hn, -, rfl⟩ := QuoteState.exists_of_marks_cons hm
    cases hnext.symm.trans hn
    simp [Mark.inWord, hc]

theorem texts_bare_append {word t : Text} (hw : word.IsBare)
    (ht : ∀ c ∈ t.head?, Word.isSeparator c = true) :
    texts? (word ++ t) = (texts? t).map (word :: ·) := by
  have hmarks := QuoteState.marks_moved word.bytes 0 .outside t
  rw [QuoteState.moved] at hmarks
  rw [texts?, texts?, ofText_eq_gather, ofText_eq_gather,
    QuoteState.marks_unquoted_append fun c hc => (hw.2 c hc).1, hmarks]
  cases hm : QuoteState.outside.marks 0 t with
  | error offset => rfl
  | ok ms =>
    have hchars : (word.map (Mark.mk · false)).map Mark.char = word := by
      rw [List.map_map]
      exact List.map_id word
    have hrun : Mark.IsRun [] (word.map (Mark.mk · false)) ms := by
      refine ⟨by simpa using hw.1, ?_, by simp, inWord_head ht hm⟩
      intro m hmem
      obtain ⟨c, hc, rfl⟩ := List.mem_map.mp hmem
      simp [Mark.inWord, (hw.2 c hc).2]
    simp only [Except.map, Except.mapError, Except.toOption, Option.map_some]
    rw [gather_run hrun, hchars, gather_moved, List.map_cons, List.map_map]
    exact congrArg (fun first => some (first :: _)) hchars

theorem texts_space (t : Text) : texts? (' ' :: t) = texts? t :=
  texts_padded ⟨[' '], [], by simp [Word.isSeparator], by simp, by simp⟩

end Word

/-! ### Keywords -/

/-- The form that a keyword has for a target language, which may not be able to draw. -/
def Form.onTarget (t : Target) : Form → Form
  | .draw op => if t.hasDrawing then .draw op else .other
  | form => form

/-- A keyword is a bare word, and starts neither with a blank nor as a comment does. -/
theorem Form.bare_keyword {word : Text} {form : Form} (h : ofKeyword? word = some form) :
    word.IsBare ∧ ∀ c ∈ word.head?, c ≠ '/' ∧ Text.isBlank c = false := by
  have hall : ∀ e ∈ keywords,
      e.1.IsBare ∧ e.1.head?.all (fun c => c ≠ '/' ∧ Text.isBlank c = false) = true := by
    decide
  obtain ⟨hbare, hfirst⟩ := hall _ (mem_keywords h)
  exact ⟨hbare, by simpa [Option.all_eq_true] using hfirst⟩

namespace Statement

theorem isAssignment_iff {s : Statement} :
    s.isAssignment = true ↔ ∃ arg ∈ s.args.head?, arg.getLast? = some '=' := by
  rw [isAssignment]
  cases s.args <;> simp

theorem form_eq_onTarget {s : Statement} {form : Form} (hc : s.isComment = false)
    (hk : Form.ofKeyword? s.head = some form) (ha : s.isAssignment = false) (t : Target) :
    s.form t = form.onTarget t := by
  have hb : s.isBlank = false := by simpa [isBlank] using (Form.bare_keyword hk).1.1
  simp only [Statement.form, hc, hb, ha, hk]
  cases form <;> rfl

theorem form_eq_other {s : Statement} {form : Form} (hc : s.isComment = false)
    (hk : Form.ofKeyword? s.head = some form) (ha : s.isAssignment = true) (t : Target) :
    s.form t = .other := by
  have hb : s.isBlank = false := by simpa [isBlank] using (Form.bare_keyword hk).1.1
  simp [Statement.form, hc, hb, ha]

/-- An assignment is accepted wherever it stands, and is passed on without its blanks. It opens no
block and closes none. -/
theorem step_assignment {setup : Setup} {line : SourceLine} {s : Statement}
    (hs : Statement.ofLine line = .ok s) (hf : s.form setup.target = .other)
    (ha : s.isAssignment = true) (p : Progress) :
    (p.step setup line).2.fault? = none ∧
      (p.step setup line).1.nesting.map Block.opener = p.nesting.map Block.opener ∧
      (p.step setup line).2.line.text =
        Text.indent ((p.step setup line).1.depth .other) setup.unit
          (setup.target.rename (setup.target.spell (.verbatim line.text.trim))) := by
  have hacc : Accepted setup p line s := by
    refine ⟨hs, ?_⟩
    rw [hf]
    simp [Progress.objection?, Nesting.misplacement?, isPlain, ha]
  rw [Progress.openers_step, hacc.step_eq]
  refine ⟨rfl, ?_, ?_⟩
  · simp [Delimiter.across, SourceLine.delimiter?, hs, hf, Form.opens?]
  · simp only [Progress.output, hf, Progress.place]
    rw [← hacc.line_eq]
    rfl

section Comparison

variable {word operand operator tail : Text} {form : Form} {words : List Text} {line : SourceLine}

/-- A line with a keyword in front is read as its words are. -/
theorem ofLine_of_texts (hk : Form.ofKeyword? word = some form)
    (hl : line.text = word ++ tail) (hw : Word.texts? line.text = some (word :: words)) :
    Statement.ofLine line = .ok ⟨line, word, words, false⟩ := by
  obtain ⟨⟨hne, -⟩, hfirst⟩ := Form.bare_keyword hk
  obtain ⟨c, rest, rfl⟩ := List.exists_cons_of_ne_nil hne
  obtain ⟨hslash, hblank⟩ := hfirst c rfl
  have hcomment : comment? line.text = none := by
    simp [hl, comment?, Text.trimStart, hblank, commentMark, List.isPrefixOf?, hslash.symm]
  rw [ofLine_eq_ok_iff, reading?, hcomment, hw]
  exact ⟨rfl, rfl⟩

theorem isSeparator_head (t : Text) : ∀ c ∈ List.head? (' ' :: t), Word.isSeparator c = true := by
  simp [Word.isSeparator]

variable (hk : Form.ofKeyword? word = some form) (hoperand : operand.IsBare)
  (hoperator : operator.IsBare) (htail : ∀ c ∈ tail.head?, Word.isSeparator c = true)
  (hwords : Word.texts? tail = some words)

include hk hoperand hoperator htail hwords

theorem form_spaced (hlast : operand.getLast? ≠ some '=') (t : Target)
    (hl : line.text = word ++ ' ' :: (operand ++ ' ' :: (operator ++ tail))) :
    line.form t = form.onTarget t := by
  have htexts : Word.texts? line.text = some (word :: operand :: operator :: words) := by
    rw [hl, Word.texts_bare_append (Form.bare_keyword hk).1 (isSeparator_head _), Word.texts_space,
      Word.texts_bare_append hoperand (isSeparator_head _), Word.texts_space,
      Word.texts_bare_append hoperator htail, hwords]
    rfl
  rw [SourceLine.form_of_ofLine (ofLine_of_texts hk hl htexts)]
  exact form_eq_onTarget rfl hk (by simpa [isAssignment] using hlast) t

theorem form_glued (hend : operator.getLast? = some '=') (t : Target)
    (hl : line.text = word ++ ' ' :: (operand ++ (operator ++ tail))) : line.form t = .other := by
  have htexts : Word.texts? line.text = some (word :: (operand ++ operator) :: words) := by
    rw [hl, Word.texts_bare_append (Form.bare_keyword hk).1 (isSeparator_head _), Word.texts_space,
      ← List.append_assoc, Word.texts_bare_append (hoperand.append hoperator) htail, hwords]
    rfl
  rw [SourceLine.form_of_ofLine (ofLine_of_texts hk hl htexts)]
  exact form_eq_other rfl hk (by simp [isAssignment, List.getLast?_append, hend]) t

end Comparison

/-- A keyword says of which form a line is, unless its first argument ends with an equals sign. Then
the line is passed on as it stands, in whatever place, and opens and closes no block. So a keyword
in front of a comparison is found if a blank separates the operator from the first operand, and not
if the two are one word that ends with the equals sign. -/
theorem form_of_keyword (setup : Setup) {word : Text} {form : Form}
    (hk : Form.ofKeyword? word = some form) :
    (∀ line s, Statement.ofLine line = .ok s → s.isComment = false → s.head = word →
      ((∀ arg ∈ s.args.head?, arg.getLast? ≠ some '=') →
        s.form setup.target = form.onTarget setup.target) ∧
      ((∃ arg ∈ s.args.head?, arg.getLast? = some '=') →
        s.form setup.target = .other ∧ ∀ p : Progress,
          (p.step setup line).2.fault? = none ∧
          (p.step setup line).1.nesting.map Block.opener = p.nesting.map Block.opener ∧
          (p.step setup line).2.line.text =
            Text.indent ((p.step setup line).1.depth .other) setup.unit
              (setup.target.rename (setup.target.spell (.verbatim line.text.trim))))) ∧
    ∀ (operand operator tail : Text) (words : List Text), operand.IsBare →
      operand.getLast? ≠ some '=' → operator.IsBare → operator.getLast? = some '=' →
      (∀ c ∈ tail.head?, Word.isSeparator c = true) → Word.texts? tail = some words →
      ∀ line : SourceLine,
        (line.text = word ++ ' ' :: (operand ++ ' ' :: (operator ++ tail)) →
          line.form setup.target = form.onTarget setup.target) ∧
        (line.text = word ++ ' ' :: (operand ++ (operator ++ tail)) →
          line.form setup.target = .other) := by
  refine ⟨?_, ?_⟩
  · intro line s hs hc hhead
    subst hhead
    refine ⟨fun hlast => ?_, fun hlast => ?_⟩
    · apply form_eq_onTarget hc hk
      rw [← Bool.not_eq_true, isAssignment_iff]
      rintro ⟨arg, harg, hend⟩
      exact hlast arg harg hend
    · have ha := isAssignment_iff.mpr hlast
      have hf := form_eq_other hc hk ha setup.target
      exact ⟨hf, step_assignment hs hf ha⟩
  · intro operand operator tail words hoperand hlast hoperator hend htail hwords line
    exact ⟨form_spaced hk hoperand hoperator htail hwords hlast setup.target,
      form_glued hk hoperand hoperator htail hwords hend setup.target⟩

/-- One blank decides whether a loop is opened. -/
theorem form_of_keyword_while :
    Form.ofKeyword? "while" = some .whileCond ∧
      (SourceLine.placed 0 0 "while a <= 3").form .python = .whileCond ∧
      (SourceLine.placed 0 0 "while a<= 3").form .python = .other ∧
      (SourceLine.placed 0 0 "while a<=3").form .python = .whileCond := by
  have hk : Form.ofKeyword? "while" = some .whileCond := by decide
  have h := form_of_keyword ⟨.python, "    ", false⟩ hk
  have hcompare := h.2 "a" "<=" " 3" ["3"] (by decide) (by decide) (by decide) (by decide)
    (isSeparator_head _) (by decide)
  have hs : Statement.ofLine (SourceLine.placed 0 0 "while a<=3") =
      .ok ⟨SourceLine.placed 0 0 "while a<=3", "while", ["a<=3"], false⟩ := by decide
  refine ⟨hk, (hcompare _).1 rfl, (hcompare _).2 rfl, ?_⟩
  rw [SourceLine.form_of_ofLine hs]
  exact (h.1 _ _ hs rfl rfl).1 (by simp)

end Statement

end Pseudocode
