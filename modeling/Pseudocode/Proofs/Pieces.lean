import Pseudocode.Proofs.Marks
import Pseudocode.Proofs.Patterns

/-!
# Pieces of a line and marks of its characters

A line is cut into the longest pieces that match a pattern, and pieces that touch become one word.
The same words come out if the characters are marked one at a time (`Word.ofText_eq_gather`). A piece
at the front of a text is a run of separators, a run of plain characters, or all from a quotation
mark to the one that closes it (`PieceKind.exists_front`), and no piece starts at a newline or at a
quotation mark that nothing closes (`PieceKind.longest?_eq_none`).
-/
namespace Pseudocode

open QuoteState

/-! ### Quotes -/

/-- What can stand between the marks of a quote. -/
inductive QuoteBody : Text → Prop
  | nil : QuoteBody []
  | ordinary {c : Char} {t : Text} (hq : c ≠ '"') (hb : c ≠ '\\') (hn : c ≠ '\n')
      (h : QuoteBody t) : QuoteBody (c :: t)
  | escape {c : Char} {t : Text} (hn : c ≠ '\n') (h : QuoteBody t) : QuoteBody ('\\' :: c :: t)

namespace QuoteBody

variable {body : Text}

theorem mem_language_iff :
    body ∈ (Pattern.many (.either (.char fun c => c != '"' && c != '\\' && c != '\n')
      (.seq (.char (· == '\\')) (.char (· != '\n'))))).language ↔ QuoteBody body := by
  rw [Pattern.language]
  constructor
  · intro h
    obtain ⟨parts, rfl, hparts⟩ := Language.mem_kstar.mp h
    clear h
    induction parts with
    | nil => exact .nil
    | cons part parts ih =>
      obtain ⟨hpart, hrest⟩ := List.forall_mem_cons.mp hparts
      rcases hpart with ⟨c, hc, rfl⟩ | hescape
      · simp only [Bool.and_eq_true, bne_iff_ne] at hc
        exact .ordinary hc.1.1 hc.1.2 hc.2 (ih hrest)
      · obtain ⟨_, ⟨b, hb, rfl⟩, _, ⟨c, hc, rfl⟩, rfl⟩ := Language.mem_mul.mp hescape
        obtain rfl := eq_of_beq hb
        exact .escape (bne_iff_ne.mp hc) (ih hrest)
  · intro h
    induction h with
    | nil => exact Language.nil_mem_kstar _
    | @ordinary c t hq hb hn _ ih =>
      exact cons_mem_kstar_iff.mpr ⟨[], t, rfl, .inl ⟨c, by simp [hq, hb, hn], rfl⟩, ih⟩
    | @escape c t hn _ ih =>
      have hescape : ['\\', c] ∈
          (Pattern.seq (.char (· == '\\')) (.char (· != '\n'))).language :=
        Language.mem_mul.mpr ⟨['\\'], ⟨_, rfl, rfl⟩, [c], ⟨c, by simp [hn], rfl⟩, rfl⟩
      exact cons_mem_kstar_iff.mpr ⟨[c], t, rfl, .inr hescape, ih⟩

/-- The mark that closes a quote is the first that no backslash takes along. -/
theorem eq_of_append {other t u : Text} (h : QuoteBody body) (ho : QuoteBody other)
    (heq : body ++ '"' :: t = other ++ '"' :: u) : body = other := by
  induction h generalizing other with
  | nil =>
    cases ho with
    | nil => rfl
    | ordinary hq => exact absurd (List.cons.inj heq).1.symm hq
    | escape => cases (List.cons.inj heq).1
  | ordinary hq hb hn _ ih =>
    cases ho with
    | nil => exact absurd (List.cons.inj heq).1 hq
    | ordinary _ _ _ ho =>
      obtain ⟨rfl, htail⟩ := List.cons.inj heq
      rw [ih ho htail]
    | escape => exact absurd (List.cons.inj heq).1 hb
  | escape hn _ ih =>
    cases ho with
    | nil => cases (List.cons.inj heq).1
    | ordinary _ hb => exact absurd (List.cons.inj heq).1.symm hb
    | escape _ ho =>
      obtain ⟨rfl, htail⟩ := List.cons.inj (List.cons.inj heq).2
      rw [ih ho htail]

theorem marks_inside (h : QuoteBody body) (opened pos : Nat) (rest : Text) :
    (inside opened).marks pos (body ++ '"' :: rest) =
      (outside.marks (pos + Text.bytes (body ++ ['"'])) rest).map
        ((body ++ ['"']).map (⟨·, true⟩) ++ ·) := by
  induction h generalizing pos with
  | nil =>
    have hnext : (inside opened).next pos '"' = .ok (⟨'"', true⟩, outside) := rfl
    exact marks_cons hnext rest
  | @ordinary c t hq hb hn _ ih =>
    have hnext : (inside opened).next pos c = .ok (⟨c, true⟩, inside opened) := by
      simp [next, hq, hb, hn]
    rw [List.cons_append, marks_cons hnext, ih, List.cons_append, Text.bytes, Nat.add_assoc]
    cases outside.marks (pos + (c.utf8Size + Text.bytes (t ++ ['"']))) rest <;> rfl
  | @escape c t hn _ ih =>
    have hfirst : (inside opened).next pos '\\' = .ok (⟨'\\', true⟩, escaped opened) := rfl
    have hsecond : (escaped opened).next (pos + '\\'.utf8Size) c = .ok (⟨c, true⟩, inside opened) := by
      simp [next, hn]
    rw [List.cons_append, List.cons_append, marks_cons hfirst, marks_cons hsecond, ih,
      List.cons_append, List.cons_append, Text.bytes, Text.bytes, Nat.add_assoc, Nat.add_assoc]
    cases outside.marks (pos + ('\\'.utf8Size + (c.utf8Size + Text.bytes (t ++ ['"'])))) rest <;> rfl

end QuoteBody

/-- In a quote that nothing closes a reading fails. -/
theorem QuoteState.marks_unclosed {t : Text}
    (h : ∀ body rest, QuoteBody body → t ≠ body ++ '"' :: rest) (opened pos : Nat) :
    (inside opened).marks pos t = .error opened := by
  -- a backslash takes a character along, so the rest may be shorter by two
  induction hn : t.length using Nat.strong_induction_on generalizing t pos with
  | _ n ih =>
    subst hn
    cases t with
    | nil => rfl
    | cons c t =>
      by_cases hq : c = '"'
      · exact absurd (hq ▸ rfl) (h [] t .nil)
      by_cases hl : c = '\n'
      · simp [marks, next, hl]
      by_cases hb : c = '\\'
      · have hnext : (inside opened).next pos c = .ok (⟨c, true⟩, escaped opened) := by
          simp [next, hb]
        rw [marks_cons hnext]
        cases t with
        | nil => rfl
        | cons d t =>
          by_cases hd : d = '\n'
          · simp [marks, next, hd, Except.map]
          have hsecond : (escaped opened).next (pos + c.utf8Size) d =
              .ok (⟨d, true⟩, inside opened) := by
            simp [next, hd]
          have hrest : ∀ body rest, QuoteBody body → t ≠ body ++ '"' :: rest := by
            rintro body rest hbody rfl
            exact h ('\\' :: d :: body) rest (.escape hd hbody) (by rw [hb]; rfl)
          rw [marks_cons hsecond, ih t.length (by simp) hrest _ rfl]
          rfl
      · have hnext : (inside opened).next pos c = .ok (⟨c, true⟩, inside opened) := by
          simp [next, hq, hb, hl]
        have hrest : ∀ body rest, QuoteBody body → t ≠ body ++ '"' :: rest := by
          rintro body rest hbody rfl
          exact h (c :: body) rest (.ordinary hq hb hl hbody) rfl
        rw [marks_cons hnext, ih t.length (by simp) hrest _ rfl]
        rfl

/-! ### The longest piece -/

namespace PieceKind

variable {c : Char} {t body rest : Text}

theorem mem_language_quote :
    t ∈ quote.pattern.language ↔ ∃ body, QuoteBody body ∧ t = '"' :: (body ++ ['"']) := by
  constructor
  · intro h
    obtain ⟨_, ⟨a, ha, rfl⟩, _, hinner, rfl⟩ := Language.mem_mul.mp h
    obtain ⟨body, hbody, _, ⟨b, hb, rfl⟩, rfl⟩ := Language.mem_mul.mp hinner
    obtain ⟨rfl, rfl⟩ := And.intro (eq_of_beq ha) (eq_of_beq hb)
    exact ⟨body, QuoteBody.mem_language_iff.mp hbody, rfl⟩
  · rintro ⟨body, hbody, rfl⟩
    exact Language.mem_mul.mpr ⟨['"'], ⟨_, rfl, rfl⟩, _, Language.mem_mul.mpr
      ⟨body, QuoteBody.mem_language_iff.mpr hbody, ['"'], ⟨_, rfl, rfl⟩, rfl⟩, rfl⟩

theorem longest?_quote (h : QuoteBody body) :
    quote.pattern.longest? ('"' :: (body ++ '"' :: rest)) =
      some ('"' :: (body ++ ['"'])).length := by
  refine Pattern.longest?_eq_of_isLongest ⟨⟨rest, by simp⟩, mem_language_quote.mpr ⟨body, h, rfl⟩, ?_⟩
  rintro v ⟨w, hw⟩ hv
  obtain ⟨other, hother, rfl⟩ := mem_language_quote.mp hv
  have htail : other ++ '"' :: w = body ++ '"' :: rest := by simpa using hw
  rw [hother.eq_of_append h htail]

theorem longest?_quote_eq_none
    (h : ∀ body rest, QuoteBody body → c :: t ≠ '"' :: (body ++ '"' :: rest)) :
    quote.pattern.longest? (c :: t) = none := by
  refine Pattern.longest?_eq_none_iff.mpr ?_
  rintro v ⟨w, hw⟩ hv
  obtain ⟨body, hbody, rfl⟩ := mem_language_quote.mp hv
  exact h body w hbody (by simpa using hw.symm)

def marked (kind : PieceKind) (piece : Text) : List Mark := piece.map (⟨·, kind == quote⟩)

theorem map_char_marked (kind : PieceKind) (piece : Text) :
    (kind.marked piece).map Mark.char = piece := by
  simp [marked, Function.comp_def]

/-- A text starts with a piece that belongs to words unless it is a gap. -/
structure IsFront (kind : PieceKind) (piece rest : Text) : Prop where
  ne_nil : piece ≠ []
  longest : longest? (piece ++ rest) all = some (kind, piece.length)
  inWord : ∀ m ∈ kind.marked piece, m.inWord = (kind != gap)
  marks : ∀ pos, outside.marks pos (piece ++ rest) =
    (outside.marks (pos + piece.bytes) rest).map (kind.marked piece ++ ·)

theorem isFront_run {kind : PieceKind} {isIn : Char → Bool} (hkind : (kind == quote) = false)
    (hc : isIn c = true)
    (hin : ∀ d, isIn d = true → (d ≠ '"' ∧ d ≠ '\n') ∧ (⟨d, false⟩ : Mark).inWord = (kind != gap))
    (hlongest : longest? (c :: t) all = some (kind, ((c :: t).takeWhile isIn).length)) :
    kind.IsFront ((c :: t).takeWhile isIn) ((c :: t).dropWhile isIn) := by
  have hrun : ∀ d ∈ (c :: t).takeWhile isIn, isIn d = true := fun d hd => List.mem_takeWhile_imp hd
  refine ⟨by simp [hc], ?_, ?_, fun pos => ?_⟩
  · rwa [List.takeWhile_append_dropWhile]
  · intro m hm
    rw [marked, hkind] at hm
    obtain ⟨d, hd, rfl⟩ := List.mem_map.mp hm
    exact (hin d (hrun d hd)).2
  · rw [marked, hkind]
    exact marks_unquoted_append (fun d hd => (hin d (hrun d hd)).1) pos _

theorem isFront_gap (hc : Word.isSeparator c = true) (t : Text) :
    gap.IsFront ((c :: t).takeWhile Word.isSeparator) ((c :: t).dropWhile Word.isSeparator) := by
  have hgap : gap.pattern.longest? (c :: t) = _ := Pattern.longest?_oneOrMore_char hc
  have hplain : plain.pattern.longest? (c :: t) = none :=
    Pattern.longest?_oneOrMore_char_eq_none (by simp [isPlain, hc])
  have hquote : quote.pattern.longest? (c :: t) = none := by
    refine longest?_quote_eq_none fun _ _ _ heq => ?_
    rw [(List.cons.inj heq).1] at hc
    cases hc
  refine isFront_run rfl hc (fun d hd => ⟨?_, by simp [Mark.inWord, hd]⟩)
    (by simp only [all, longest?, hgap, hplain, hquote])
  constructor <;> rintro rfl <;> cases hd

theorem isFront_plain (hc : isPlain c = true) (t : Text) :
    plain.IsFront ((c :: t).takeWhile isPlain) ((c :: t).dropWhile isPlain) := by
  have hclass : ∀ d, isPlain d = true → (Word.isSeparator d = false ∧ d ≠ '\n') ∧ d ≠ '"' := by
    simp [isPlain]
  have hplain : plain.pattern.longest? (c :: t) = _ := Pattern.longest?_oneOrMore_char hc
  have hgap : gap.pattern.longest? (c :: t) = none :=
    Pattern.longest?_oneOrMore_char_eq_none (hclass c hc).1.1
  have hquote : quote.pattern.longest? (c :: t) = none :=
    longest?_quote_eq_none fun _ _ _ heq => (hclass c hc).2 (List.cons.inj heq).1
  refine isFront_run rfl hc (fun d hd => ?_) (by simp only [all, longest?, hgap, hplain, hquote])
  obtain ⟨⟨hsep, hn⟩, hq⟩ := hclass d hd
  exact ⟨⟨hq, hn⟩, by simp [Mark.inWord, hsep]⟩

theorem isFront_quote (h : QuoteBody body) (rest : Text) :
    quote.IsFront ('"' :: (body ++ ['"'])) rest := by
  have hall : '"' :: (body ++ ['"']) ++ rest = '"' :: (body ++ '"' :: rest) := by simp
  refine ⟨by simp, ?_, ?_, fun pos => ?_⟩
  · have hgap : gap.pattern.longest? ('"' :: (body ++ '"' :: rest)) = none :=
      Pattern.longest?_oneOrMore_char_eq_none (by decide)
    have hplain : plain.pattern.longest? ('"' :: (body ++ '"' :: rest)) = none :=
      Pattern.longest?_oneOrMore_char_eq_none (by decide)
    rw [hall]
    simp only [all, longest?, hgap, hplain, longest?_quote h]
  · intro m hm
    obtain ⟨d, -, rfl⟩ := List.mem_map.mp hm
    rfl
  · have hnext : outside.next pos '"' = .ok (⟨'"', true⟩, inside pos) := rfl
    rw [hall, marks_cons hnext, h.marks_inside, Text.bytes, Nat.add_assoc]
    cases outside.marks (pos + ('"'.utf8Size + Text.bytes (body ++ ['"']))) rest <;> rfl

/-- No piece starts at a newline, or at a mark that opens a quote if nothing closes it. -/
theorem longest?_eq_none (hc : c = '\n' ∨ c = '"')
    (hq : ∀ body rest, QuoteBody body → c :: t ≠ '"' :: (body ++ '"' :: rest)) :
    longest? (c :: t) all = none := by
  have hgap : gap.pattern.longest? (c :: t) = none :=
    Pattern.longest?_oneOrMore_char_eq_none (by rcases hc with rfl | rfl <;> rfl)
  have hplain : plain.pattern.longest? (c :: t) = none :=
    Pattern.longest?_oneOrMore_char_eq_none (by rcases hc with rfl | rfl <;> rfl)
  simp only [all, longest?, hgap, hplain, longest?_quote_eq_none hq]

/-- A text starts with a piece, or can be neither cut nor marked. -/
theorem exists_front (c : Char) (t : Text) :
    (∃ kind piece rest, c :: t = piece ++ rest ∧ IsFront kind piece rest) ∨
      longest? (c :: t) all = none ∧ ∀ pos, outside.marks pos (c :: t) = .error pos := by
  by_cases hsep : Word.isSeparator c = true
  · exact .inl ⟨gap, _, _, List.takeWhile_append_dropWhile.symm, isFront_gap hsep t⟩
  by_cases hplain : isPlain c = true
  · exact .inl ⟨plain, _, _, List.takeWhile_append_dropWhile.symm, isFront_plain hplain t⟩
  by_cases hquote : ∃ body rest, QuoteBody body ∧ c :: t = '"' :: (body ++ '"' :: rest)
  · obtain ⟨body, rest, hbody, heq⟩ := hquote
    exact .inl ⟨quote, _, rest, by simpa using heq, isFront_quote hbody rest⟩
  have hunclosed : ∀ body rest, QuoteBody body → c :: t ≠ '"' :: (body ++ '"' :: rest) :=
    fun body rest hbody heq => hquote ⟨body, rest, hbody, heq⟩
  have hc : c = '\n' ∨ c = '"' := by
    by_contra hne
    exact hplain (by simp_all [isPlain])
  refine .inr ⟨longest?_eq_none hc hunclosed, fun pos => ?_⟩
  rcases hc with rfl | rfl
  · rfl
  · have hnext : outside.next pos '"' = .ok (⟨'"', true⟩, inside pos) := rfl
    rw [marks_cons hnext, marks_unclosed]
    · rfl
    · rintro body rest hbody rfl
      exact hunclosed body rest hbody rfl

end PieceKind

/-! ### Cutting -/

namespace Piece

theorem cut_skip (skip pos : Nat) (t : Text) :
    cut skip pos t = cut 0 (pos + Text.bytes (t.take skip)) (t.drop skip) := by
  induction t generalizing skip pos with
  | nil => cases skip <;> rfl
  | cons c t ih =>
    cases skip with
    | zero => rfl
    | succ skip => rw [cut, ih, List.take_succ_cons, List.drop_succ_cons, Text.bytes, Nat.add_assoc]

/-- The longest piece at the front of a text is cut off, and is left out if it is a gap. -/
theorem cut_front {kind : PieceKind} {piece rest : Text} (h : kind.IsFront piece rest) (pos : Nat) :
    cut 0 pos (piece ++ rest) =
      (cut 0 (pos + piece.bytes) rest).map fun pieces =>
        if kind = .gap then pieces else ⟨kind, piece, pos⟩ :: pieces := by
  have hlongest := h.longest
  obtain ⟨c, tail, rfl⟩ := List.exists_cons_of_ne_nil h.ne_nil
  rw [List.cons_append] at hlongest ⊢
  have hlen : (c :: tail).length - 1 = tail.length := rfl
  rw [cut, hlongest]
  dsimp only
  rw [hlen, cut_skip, List.take_left, List.drop_left, ← List.cons_append, List.take_left, Text.bytes,
    Nat.add_assoc]
  cases cut 0 (pos + (c.utf8Size + Text.bytes tail)) rest with
  | error offset => rfl
  | ok pieces => split_ifs <;> simp [Except.map, *]

end Piece

/-! ### Words -/

namespace Word

/-- Pieces are attached one by one from the left, or glued together from the right. -/
theorem foldl_attach_cons (w : Word) (pieces : List Piece) (words : List Word) :
    pieces.foldl attach (words ++ [w]) = words ++ w.glue (pieces.foldr (glue ∘ ofPiece) []) := by
  induction pieces generalizing w words with
  | nil => rfl
  | cons p pieces ih =>
    rw [List.foldl_cons, List.foldr_cons, Function.comp_apply, attach, List.getLast?_concat,
      List.dropLast_concat]
    dsimp only
    split_ifs with hstop
    · have hstart : (ofPiece p).start = w.stop := hstop.symm
      rw [ih, glue_glue hstart]
      rfl
    · have hstart : (ofPiece p).start ≠ w.stop := Ne.symm hstop
      rw [ih, glue_glue_of_ne hstart, List.append_assoc, List.singleton_append]

theorem foldl_attach (pieces : List Piece) :
    pieces.foldl attach [] = pieces.foldr (glue ∘ ofPiece) [] := by
  cases pieces with
  | nil => rfl
  | cons p pieces => exact foldl_attach_cons (ofPiece p) pieces []

theorem ofMarks_marked {kind : PieceKind} {piece : Text} (h : piece ≠ []) (pos : Nat) :
    ofMarks pos (kind.marked piece) = ofPiece ⟨kind, piece, pos⟩ := by
  have hquoted : (kind.marked piece).any Mark.quoted = (kind == .quote) := by
    obtain ⟨c, tail, rfl⟩ := List.exists_cons_of_ne_nil h
    cases kind <;> simp [PieceKind.marked]
  rw [ofMarks, PieceKind.map_char_marked, hquoted]
  rfl

def gluePiece (p : Piece) (words : List Word) : List Word :=
  if p.kind = .gap then words else (ofPiece p).glue words

theorem gather_front {kind : PieceKind} {piece rest : Text} (h : kind.IsFront piece rest) (pos : Nat)
    (ms : List Mark) :
    gather pos (kind.marked piece ++ ms) =
      gluePiece ⟨kind, piece, pos⟩ (gather (pos + piece.bytes) ms) := by
  have hin := h.inWord
  rw [gluePiece]
  split_ifs with hkind
  · obtain rfl : kind = .gap := hkind
    rw [gather_blank_append hin, PieceKind.map_char_marked]
  · have hword : ∀ m ∈ kind.marked piece, m.inWord = true := fun m hm => by
      simpa [hin m hm] using hkind
    have hne : kind.marked piece ≠ [] := by simpa [PieceKind.marked] using h.ne_nil
    rw [gather_append hne hword, PieceKind.map_char_marked, ofMarks_marked h.ne_nil]

theorem cut_eq_marks (pos : Nat) (t : Text) :
    (Piece.cut 0 pos t).map (List.foldr (glue ∘ ofPiece) []) =
      (outside.marks pos t).map (gather pos) := by
  induction hn : t.length using Nat.strong_induction_on generalizing t pos with
  | _ n ih =>
    subst hn
    cases t with
    | nil => rfl
    | cons c t =>
      rcases PieceKind.exists_front c t with ⟨kind, piece, rest, heq, hfront⟩ | ⟨hnone, hmarks⟩
      · have hlen : rest.length < (c :: t).length := by
          rw [heq, List.length_append]
          exact Nat.lt_add_of_pos_left (List.length_pos_of_ne_nil hfront.ne_nil)
        have hrest := ih _ hlen (pos + Text.bytes piece) rest rfl
        let front := gluePiece ⟨kind, piece, pos⟩
        rw [heq]
        calc (Piece.cut 0 pos (piece ++ rest)).map (List.foldr (glue ∘ ofPiece) [])
          _ = ((Piece.cut 0 (pos + Text.bytes piece) rest).map
                (List.foldr (glue ∘ ofPiece) [])).map front := by
            rw [Piece.cut_front hfront]
            cases Piece.cut 0 (pos + Text.bytes piece) rest with
            | error offset => rfl
            | ok pieces =>
              simp only [Except.map, front, gluePiece]
              split_ifs <;> rfl
          _ = ((outside.marks (pos + Text.bytes piece) rest).map
                (gather (pos + Text.bytes piece))).map front := by rw [hrest]
          _ = (outside.marks pos (piece ++ rest)).map (gather pos) := by
            rw [hfront.marks]
            cases outside.marks (pos + Text.bytes piece) rest with
            | error offset => rfl
            | ok ms => exact congrArg Except.ok (gather_front hfront pos ms).symm
      · rw [hmarks, Piece.cut, hnone]
        rfl

theorem ofText_eq_gather (t : Text) : ofText t = (outside.marks 0 t).map (gather 0) := by
  rw [← cut_eq_marks, ofText]
  cases Piece.cut 0 0 t with
  | error offset => rfl
  | ok pieces => exact congrArg Except.ok (foldl_attach pieces)

end Word

end Pseudocode
