import Pseudocode.Proofs.Unwords

/-!
# Words that pass for literals

A word is made of pieces, which are quotations and single characters outside of them
(`Scan.exists_pieces`). Whether it is a literal is told from its two ends (`Word.isLiteral`). A word
that is one quotation passes, and so does a word that begins with a quotation and ends with another
one, whatever pieces stand between them (`Word.isLiteral_iff_quotation`).
-/
namespace Pseudocode

namespace Text

/-! ### Quotations -/

/-- The character behind the text is escaped: the backslashes right in front of it are odd in
number. -/
def Escapes (t : Text) : Prop := Odd (t.rtakeWhile (· == '\\')).length

instance (t : Text) : Decidable t.Escapes := inferInstanceAs (Decidable (Odd _))

theorem escapes_snoc_backslash {t : Text} : Escapes (t ++ ['\\']) ↔ ¬ t.Escapes := by
  rw [Escapes, List.rtakeWhile_concat_pos _ _ _ (by decide), List.length_append,
    List.length_singleton, Nat.odd_add_one]
  rfl

theorem not_escapes_snoc {t : Text} {c : Char} (hc : c ≠ '\\') : ¬ Escapes (t ++ [c]) := by
  rw [Escapes, List.rtakeWhile_concat_neg _ _ _ (by simpa using hc)]
  decide

/-- What can stand between the marks of a quotation: every mark in it is escaped, and the one behind
it is not. -/
structure IsQuotable (body : Text) : Prop where
  escaped : ∀ u : Text, u ++ ['"'] <+: body → u.Escapes
  closes : ¬ body.Escapes

/-- The text starts with a quotation mark, and the first one behind it that is not escaped is the
last character. -/
def IsQuotation (t : Text) : Prop := ∃ body, t = '"' :: (body ++ ['"']) ∧ IsQuotable body

/-- Only the beginnings of a text can stand in front of a mark in it. -/
instance (body : Text) : Decidable (IsQuotable body) :=
  decidable_of_iff ((∀ u ∈ body.inits, u ++ ['"'] <+: body → Escapes u) ∧ ¬ body.Escapes) <| by
    constructor
    · rintro ⟨hescaped, hcloses⟩
      refine ⟨fun u hu => hescaped u ?_ hu, hcloses⟩
      exact (List.mem_inits _ _).mpr ((List.prefix_append _ _).trans hu)
    · rintro ⟨hescaped, hcloses⟩
      exact ⟨fun u _ => hescaped u, hcloses⟩

instance (t : Text) : Decidable (IsQuotation t) :=
  decidable_of_iff (t = '"' :: (t.tail.dropLast ++ ['"']) ∧ IsQuotable t.tail.dropLast) <| by
    constructor
    · rintro ⟨ht, hbody⟩
      exact ⟨_, ht, hbody⟩
    · rintro ⟨body, rfl, hbody⟩
      simpa using hbody

theorem isQuotable_nil : IsQuotable [] := by decide

theorem IsQuotable.snoc {body : Text} {c : Char} (h : IsQuotable body) (hq : c ≠ '"')
    (hb : c ≠ '\\') : IsQuotable (body ++ [c]) := by
  refine ⟨fun u hu => ?_, not_escapes_snoc hb⟩
  rcases List.prefix_concat_iff.mp hu with heq | hu
  · obtain ⟨-, hc⟩ := List.append_inj' heq rfl
    exact absurd (List.singleton_inj.mp hc).symm hq
  · exact h.escaped u hu

/-- A backslash that is not escaped takes the next character along, be it a mark or a backslash. -/
theorem IsQuotable.escape {body : Text} (h : IsQuotable body) (c : Char) :
    IsQuotable (body ++ ['\\', c]) := by
  have hback : Escapes (body ++ ['\\']) := escapes_snoc_backslash.mpr h.closes
  rw [show body ++ ['\\', c] = body ++ ['\\'] ++ [c] by simp]
  constructor
  · intro u hu
    rcases List.prefix_concat_iff.mp hu with heq | hu
    · obtain ⟨rfl, -⟩ := List.append_inj' heq rfl
      exact hback
    · rcases List.prefix_concat_iff.mp hu with heq | hu
      · obtain ⟨-, hc⟩ := List.append_inj' heq rfl
        exact absurd hc (by decide)
      · exact h.escaped u hu
  · by_cases hc : c = '\\'
    · rw [hc, escapes_snoc_backslash, not_not]
      exact hback
    · exact not_escapes_snoc hc

/-! ### Pieces -/

def IsPiece (t : Text) : Prop := IsQuotation t ∨ ∃ c, c ≠ '"' ∧ t = [c]

/-- The text begins with a quotation and ends with another one, with pieces between them. -/
def JoinsQuotations (t : Text) : Prop :=
  ∃ (first : Text) (middle : List Text) (last : Text), t = first ++ middle.flatten ++ last ∧
    IsQuotation first ∧ (∀ p ∈ middle, IsPiece p) ∧ IsQuotation last

def HasMarks (t : Text) : Prop := t.head? = some '"' ∧ t.getLast? = some '"'

theorem IsQuotation.hasMarks {t : Text} (h : IsQuotation t) : t.HasMarks := by
  obtain ⟨body, rfl, -⟩ := h
  exact ⟨rfl, by rw [← List.cons_append, List.getLast?_concat]⟩

theorem JoinsQuotations.hasMarks {t : Text} (h : JoinsQuotations t) : t.HasMarks := by
  obtain ⟨first, middle, last, rfl, hfirst, -, hlast⟩ := h
  simp [HasMarks, hfirst.hasMarks.1, hlast.hasMarks.2]

theorem IsQuotation.not_joinsQuotations {t : Text} (h : IsQuotation t) : ¬ JoinsQuotations t := by
  rintro ⟨first, middle, last, rfl, ⟨body, rfl, hbody⟩, -, ⟨body', rfl, -⟩⟩
  obtain ⟨whole, heq, hwhole⟩ := h
  have hparts : whole ++ ['"'] = body ++ ['"'] ++ (middle.flatten ++ '"' :: body') ++ ['"'] := by
    simpa using heq.symm
  obtain ⟨rfl, -⟩ := List.append_inj' hparts rfl
  -- the mark that closes `first` now stands inside of the whole, where only escaped marks can
  exact hbody.closes (hwhole.escaped body (List.prefix_append _ _))

theorem IsPiece.ne_nil {p : Text} (h : IsPiece p) : p ≠ [] := by
  rcases h with ⟨body, rfl, -⟩ | ⟨c, -, rfl⟩ <;> simp

theorem IsPiece.isQuotation {p : Text} (h : IsPiece p)
    (hmark : p.head? = some '"' ∨ p.getLast? = some '"') : IsQuotation p := by
  rcases h with h | ⟨c, hc, rfl⟩
  · exact h
  · simp [hc] at hmark

/-- Pieces with marks at both ends are one quotation, or begin and end with different ones. -/
theorem isQuotation_or_joinsQuotations {ps : List Text} (h : ∀ p ∈ ps, IsPiece p)
    (hmarks : HasMarks ps.flatten) : IsQuotation ps.flatten ∨ JoinsQuotations ps.flatten := by
  obtain ⟨hhead, hlast⟩ := hmarks
  cases ps with
  | nil => simp at hhead
  | cons first rest =>
    have hp := h first List.mem_cons_self
    rw [List.flatten_cons, List.head?_append_of_ne_nil _ hp.ne_nil] at hhead
    have hfirst := hp.isQuotation (.inl hhead)
    rcases List.eq_nil_or_concat rest with rfl | ⟨middle, last, rfl⟩
    · left
      simpa using hfirst
    · right
      rw [List.concat_eq_append] at h hlast ⊢
      have hp := h last (by simp)
      have hflat : (first :: (middle ++ [last])).flatten = first ++ middle.flatten ++ last := by simp
      rw [hflat, List.getLast?_append_of_ne_nil _ hp.ne_nil] at hlast
      exact ⟨first, middle, last, hflat, hfirst, fun p hm => h p (by simp [hm]),
        hp.isQuotation (.inr hlast)⟩

end Text

open Text

/-! ### A text that is read is made of pieces -/

/-- What has been read since the last piece: nothing, or the quotation that is open. -/
def Scan.OpenPart : Option Nat → Text → Prop
  | none, rest => rest = []
  | some _, rest => ∃ body, rest = '"' :: body ∧ IsQuotable body

theorem Scan.exists_pieces {t : Text} {opened? : Option Nat} (h : Scan t opened?) :
    ∃ (ps : List Text) (rest : Text), t = ps.flatten ++ rest ∧ (∀ p ∈ ps, IsPiece p) ∧
      OpenPart opened? rest := by
  induction h with
  | start => exact ⟨[], [], rfl, by simp, rfl⟩
  | @plain t c _ hq _ ih =>
    obtain ⟨ps, _, rfl, hps, rfl⟩ := ih
    refine ⟨ps ++ [[c]], [], by simp, ?_, rfl⟩
    exact List.forall_mem_append.mpr ⟨hps, by simpa using .inr ⟨c, hq, rfl⟩⟩
  | opens _ ih =>
    obtain ⟨ps, _, rfl, hps, rfl⟩ := ih
    exact ⟨ps, ['"'], by simp, hps, [], rfl, isQuotable_nil⟩
  | @inner t opened c _ hq hb _ ih =>
    obtain ⟨ps, _, rfl, hps, body, rfl, hbody⟩ := ih
    exact ⟨ps, '"' :: (body ++ [c]), by simp, hps, _, rfl, hbody.snoc hq hb⟩
  | @escape t opened c _ _ ih =>
    obtain ⟨ps, _, rfl, hps, body, rfl, hbody⟩ := ih
    exact ⟨ps, '"' :: (body ++ ['\\', c]), by simp, hps, _, rfl, hbody.escape c⟩
  | closes _ ih =>
    -- only here the open quotation becomes a piece
    obtain ⟨ps, _, rfl, hps, body, rfl, hbody⟩ := ih
    refine ⟨ps ++ ['"' :: (body ++ ['"'])], [], by simp, ?_, rfl⟩
    exact List.forall_mem_append.mpr ⟨hps, by simpa using .inl ⟨body, rfl, hbody⟩⟩

namespace Word

variable {t : Text} {ws : List Word} {w : Word}

/-- A word is read outside of quotes from its start to its end, and is quoted if it starts with a
mark. -/
theorem scan_of_mem_ofText (h : ofText t = .ok ws) (hw : w ∈ ws) :
    Scan w.text none ∧ (w.text.head? = some '"' → w.quoted = true) := by
  obtain ⟨ms, hm, rfl⟩ := ofText_eq_ok_iff.mp h
  obtain ⟨run, hrun, hcontent⟩ := exists_isWord hm w hw
  obtain ⟨htext, hquoted⟩ := Prod.mk.inj hcontent
  have hmarks : QuoteState.outside.marks 0 w.text = .ok run := htext ▸ hrun.marks
  refine ⟨exists_ofText_iff.mp ⟨_, ofText_eq_ok_iff.mpr ⟨run, hmarks, rfl⟩⟩, fun hhead => ?_⟩
  obtain ⟨rest, hrest⟩ := List.head?_eq_some_iff.mp hhead
  rw [hrest] at hmarks
  obtain ⟨m, state', ns, hn, -, rfl⟩ := QuoteState.exists_of_marks_cons hmarks
  cases hn
  rw [hquoted]
  rfl

theorem isLiteral_iff_hasMarks (h : ofText t = .ok ws) (hw : w ∈ ws) :
    w.isLiteral = true ↔ w.text.HasMarks := by
  have hquoted := (scan_of_mem_ofText h hw).2
  rw [isLiteral, HasMarks, Bool.and_eq_true, Bool.and_eq_true, beq_iff_eq, beq_iff_eq, and_assoc]
  exact ⟨And.right, fun hmarks => ⟨hquoted hmarks.1, hmarks⟩⟩

/-- A word of a line passes for a literal if it is one quotation, and also if it begins with a
quotation and ends with another one. No word is both. -/
theorem isLiteral_iff_quotation (h : ofText t = .ok ws) (hw : w ∈ ws) :
    (w.isLiteral = true ↔ w.text.IsQuotation ∨ w.text.JoinsQuotations) ∧
      ¬ (w.text.IsQuotation ∧ w.text.JoinsQuotations) := by
  refine ⟨(isLiteral_iff_hasMarks h hw).trans ⟨fun hmarks => ?_, fun hends => ?_⟩, fun hboth => ?_⟩
  · obtain ⟨ps, _, htext, hps, rfl⟩ := (scan_of_mem_ofText h hw).1.exists_pieces
    rw [List.append_nil] at htext
    rw [htext] at hmarks ⊢
    exact isQuotation_or_joinsQuotations hps hmarks
  · exact hends.elim IsQuotation.hasMarks JoinsQuotations.hasMarks
  · exact hboth.1.not_joinsQuotations hboth.2

/-- A literal that holds escaped marks, and two literals without anything between them. Both words
pass for literals, and only the first is one. -/
theorem isLiteral_iff_quotation_pair :
    let one : Word := ⟨"\"say \\\"hi\\\"\"", 0, 12, true⟩
    let two : Word := ⟨"\"a\"\"b\"", 0, 6, true⟩
    (ofText one.text = .ok [one] ∧ one.isLiteral = true ∧ one.text.IsQuotation) ∧
      ofText two.text = .ok [two] ∧ two.isLiteral = true ∧ ¬ two.text.IsQuotation := by
  intro one two
  have hone : ofText one.text = .ok [one] := by decide
  have htwo : ofText two.text = .ok [two] := by decide
  have hquotation : one.text.IsQuotation := by decide
  have hjoins : two.text.JoinsQuotations :=
    ⟨"\"a\"", [], "\"b\"", by decide, by decide, by simp, by decide⟩
  obtain ⟨hfirst, -⟩ := isLiteral_iff_quotation hone (List.mem_singleton_self one)
  obtain ⟨hsecond, hnot⟩ := isLiteral_iff_quotation htwo (List.mem_singleton_self two)
  exact ⟨⟨hone, hfirst.mpr (.inl hquotation), hquotation⟩, htwo, hsecond.mpr (.inr hjoins),
    fun hq => hnot ⟨hq, hjoins⟩⟩

end Word

end Pseudocode
