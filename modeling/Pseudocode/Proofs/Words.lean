import Pseudocode.Proofs.Pieces

/-!
# The words of a line

A line is read from left to right, outside of quotes or inside of one. `Scan` tells where the
reading stands behind a text, and `Scan.Fails` what it cannot pass. The words that the pieces of a
line make up are those of its marks (`Word.ofText_eq_gather`). They are the longest runs of
characters that are quoted or are no separators (`Word.mem_gather_iff`), and a line has words unless
its reading fails (`Word.ofText_scan`).
-/
namespace Pseudocode

/-! ### Reading a line -/

/-- Where the reading of a line stands behind the text that has been read: outside of quotes, or in
the quote that was opened at an offset. In a quote a backslash takes the next character along. -/
inductive Scan : Text → Option Nat → Prop
  | start : Scan [] none
  | plain {t : Text} {c : Char} (h : Scan t none) (hq : c ≠ '"') (hn : c ≠ '\n') :
      Scan (t ++ [c]) none
  | opens {t : Text} (h : Scan t none) : Scan (t ++ ['"']) (some t.bytes)
  | inner {t : Text} {opened : Nat} {c : Char} (h : Scan t (some opened)) (hq : c ≠ '"')
      (hb : c ≠ '\\') (hn : c ≠ '\n') : Scan (t ++ [c]) (some opened)
  | escape {t : Text} {opened : Nat} {c : Char} (h : Scan t (some opened)) (hn : c ≠ '\n') :
      Scan (t ++ ['\\', c]) (some opened)
  | closes {t : Text} {opened : Nat} (h : Scan t (some opened)) : Scan (t ++ ['"']) none

/-- The reading of a line fails at a newline, and at the end if a quote is open. The offset is that
of the quote that is open, or that of a newline outside of quotes. -/
inductive Scan.Fails : Text → Nat → Prop
  | newline {t : Text} (h : Scan t none) (rest : Text) : Fails (t ++ '\n' :: rest) t.bytes
  | inside {t : Text} {opened : Nat} (h : Scan t (some opened)) (rest : Text) :
      Fails (t ++ '\n' :: rest) opened
  | escaped {t : Text} {opened : Nat} (h : Scan t (some opened)) (rest : Text) :
      Fails (t ++ '\\' :: '\n' :: rest) opened
  | unclosed {t : Text} {opened : Nat} (h : Scan t (some opened)) : Fails t opened
  | backslash {t : Text} {opened : Nat} (h : Scan t (some opened)) : Fails (t ++ ['\\']) opened

/-- The character behind a text is part of a quote: it opens one, or it is read inside of one, its
last character included, or a backslash inside of one takes it along. -/
inductive Quoted (before : Text) (c : Char) : Prop
  | opens (h : Scan before none) (hc : c = '"')
  | inside {opened : Nat} (h : Scan before (some opened))
  | escaped {t : Text} {opened : Nat} (h : Scan t (some opened)) (ht : before = t ++ ['\\'])

def InWord (before : Text) (c : Char) : Prop := Quoted before c ∨ c ∉ [' ', '\t', '\r', '\x0c']

/-- The characters of `run` belong to words, and the run cannot be made longer on either side. -/
structure LongestRun (before run behind : Text) : Prop where
  ne_nil : run ≠ []
  inWord : ∀ u c v, run = u ++ c :: v → InWord (before ++ u) c
  front : ∀ u c, before = u ++ [c] → ¬ InWord u c
  back : ∀ c v, behind = c :: v → ¬ InWord (before ++ run) c

/-- The word is a longest run of the text, at the bytes that it tells, and is quoted if any of its
characters is. -/
def Word.Covers (t : Text) (w : Word) : Prop :=
  ∃ before behind, t = before ++ w.text ++ behind ∧ LongestRun before w.text behind ∧
    w.start = before.bytes ∧ w.stop = (before ++ w.text).bytes ∧
    (w.quoted = true ↔ ∃ u c v, w.text = u ++ c :: v ∧ Quoted (before ++ u) c)

/-! ### The marks follow the reading -/

namespace QuoteState

def Reached (t : Text) (state : QuoteState) : Prop :=
  ∃ ms : List Mark, ∀ rest : Text,
    outside.marks 0 (t ++ rest) = (state.marks t.bytes rest).map (ms ++ ·)

theorem Reached.snoc {t : Text} {state state' : QuoteState} {c : Char} {m : Mark}
    (h : Reached t state) (hn : state.next t.bytes c = .ok (m, state')) :
    Reached (t ++ [c]) state' := by
  obtain ⟨ms, hms⟩ := h
  refine ⟨ms ++ [m], fun rest => ?_⟩
  rw [List.append_assoc, hms, List.singleton_append, marks_cons hn, Text.bytes_append,
    show Text.bytes [c] = c.utf8Size from rfl]
  cases state'.marks (t.bytes + c.utf8Size) rest with
  | error offset => rfl
  | ok ns => simp [Except.map]

def ofScan : Option Nat → QuoteState
  | none => outside
  | some opened => inside opened

end QuoteState

open QuoteState

theorem Scan.reached {t : Text} {opened? : Option Nat} (h : Scan t opened?) :
    Reached t (ofScan opened?) := by
  induction h with
  | start =>
    refine ⟨[], fun rest => ?_⟩
    cases hm : outside.marks 0 rest <;> simp [ofScan, Text.bytes, hm, Except.map]
  | @plain t c _ hq hn ih =>
    have hnext : outside.next t.bytes c = .ok (⟨c, false⟩, outside) := by simp [next, hq, hn]
    exact ih.snoc hnext
  | @opens t _ ih =>
    have hnext : outside.next t.bytes '"' = .ok (⟨'"', true⟩, inside t.bytes) := rfl
    exact ih.snoc hnext
  | @inner t opened c _ hq hb hn ih =>
    have hnext : (inside opened).next t.bytes c = .ok (⟨c, true⟩, inside opened) := by
      simp [next, hq, hb, hn]
    exact ih.snoc hnext
  | @escape t opened c _ hn ih =>
    have hfirst : (inside opened).next t.bytes '\\' = .ok (⟨'\\', true⟩, escaped opened) := rfl
    have hsecond : (escaped opened).next (Text.bytes (t ++ ['\\'])) c =
        .ok (⟨c, true⟩, inside opened) := by
      simp [next, hn]
    have hboth := (ih.snoc hfirst).snoc hsecond
    rwa [List.append_assoc] at hboth
  | @closes t opened _ ih =>
    have hnext : (inside opened).next t.bytes '"' = .ok (⟨'"', true⟩, outside) := rfl
    exact ih.snoc hnext

theorem Scan.exists_marks {t : Text} (h : Scan t none) : ∃ ms, outside.marks 0 t = .ok ms := by
  obtain ⟨ms, hms⟩ := h.reached
  have hall := hms []
  rw [List.append_nil] at hall
  exact ⟨_, hall⟩

theorem Scan.Fails.marks_eq {t : Text} {offset : Nat} (h : Fails t offset) :
    outside.marks 0 t = .error offset := by
  cases h with
  | @newline t h rest =>
    obtain ⟨ms, hms⟩ := h.reached
    rw [hms]
    simp [ofScan, marks, next, Except.map]
  | @inside t opened h rest =>
    obtain ⟨ms, hms⟩ := h.reached
    rw [hms]
    simp [ofScan, marks, next, Except.map]
  | @escaped t opened h rest =>
    obtain ⟨ms, hms⟩ := h.reached
    rw [hms]
    simp [ofScan, marks, next, Except.map]
  | unclosed h =>
    obtain ⟨ms, hms⟩ := h.reached
    have hall := hms []
    rw [List.append_nil] at hall
    exact hall
  | @backslash t opened h =>
    obtain ⟨ms, hms⟩ := h.reached
    rw [hms]
    simp [ofScan, marks, next, finish, Except.map]

/-- Behind a text that is read to its end outside of quotes nothing has failed. -/
theorem Scan.not_fails {t : Text} {offset : Nat} (h : Scan t none) : ¬ Fails t offset := by
  intro hf
  obtain ⟨ms, hms⟩ := h.exists_marks
  rw [hf.marks_eq] at hms
  cases hms

theorem Scan.eq_of_quoted {t : Text} {c : Char} (h : Scan t none) (hc : Quoted t c) : c = '"' := by
  cases hc with
  | opens _ hc => exact hc
  | inside hi => exact absurd (.unclosed hi) h.not_fails
  | escaped hi ht =>
    rw [ht] at h
    exact absurd (.backslash hi) h.not_fails

/-- The state in which the next character is marked, told by the reading of the text before it. -/
def QuoteState.StandsBehind (t : Text) : QuoteState → Prop
  | outside => Scan t none
  | inside opened => Scan t (some opened)
  | escaped opened => ∃ u, t = u ++ ['\\'] ∧ Scan u (some opened)

theorem QuoteState.StandsBehind.next {t : Text} {state state' : QuoteState} {pos : Nat} {c : Char}
    {m : Mark} (h : state.StandsBehind t) (hpos : pos = t.bytes)
    (hn : state.next pos c = .ok (m, state')) :
    state'.StandsBehind (t ++ [c]) ∧ m.char = c ∧ (m.quoted = true ↔ Quoted t c) := by
  subst hpos
  cases state with
  | outside =>
    simp only [QuoteState.next] at hn
    split_ifs at hn with hl hq
    · cases hn
      exact ⟨hq ▸ .opens h, rfl, iff_of_true rfl (.opens h hq)⟩
    · cases hn
      exact ⟨.plain h hq hl, rfl, iff_of_false (by simp) fun hc => hq (h.eq_of_quoted hc)⟩
  | inside opened =>
    simp only [QuoteState.next] at hn
    split_ifs at hn with hl hq hb
    · cases hn
      exact ⟨hq ▸ Scan.closes h, rfl, iff_of_true rfl (.inside h)⟩
    · cases hn
      exact ⟨⟨t, hb ▸ rfl, h⟩, rfl, iff_of_true rfl (.inside h)⟩
    · cases hn
      exact ⟨.inner h hq hb hl, rfl, iff_of_true rfl (.inside h)⟩
  | escaped opened =>
    simp only [QuoteState.next] at hn
    split_ifs at hn with hl
    cases hn
    obtain ⟨u, rfl, hu⟩ := h
    refine ⟨?_, rfl, iff_of_true rfl (.escaped hu rfl)⟩
    change Scan (u ++ ['\\'] ++ [c]) (some opened)
    rw [List.append_assoc]
    exact .escape hu hl

theorem QuoteState.StandsBehind.fails {t rest : Text} {state : QuoteState} {pos offset : Nat}
    (h : state.StandsBehind t) (hpos : pos = t.bytes)
    (hm : state.marks pos rest = .error offset) : Scan.Fails (t ++ rest) offset := by
  induction rest generalizing t state pos with
  | nil =>
    rw [List.append_nil]
    cases state with
    | outside => cases hm
    | inside opened =>
      cases hm
      exact .unclosed h
    | escaped opened =>
      cases hm
      obtain ⟨u, rfl, hu⟩ := h
      exact .backslash hu
  | cons c rest ih =>
    cases hn : state.next pos c with
    | ok r =>
      obtain ⟨m, state'⟩ := r
      rw [marks_cons hn] at hm
      have htail : state'.marks (pos + c.utf8Size) rest = .error offset := by
        cases hs : state'.marks (pos + c.utf8Size) rest with
        | error o => simpa [hs, Except.map] using hm
        | ok ms => simp [hs, Except.map] at hm
      have hpos' : pos + c.utf8Size = Text.bytes (t ++ [c]) := by
        rw [Text.bytes_append, hpos]
        rfl
      have hfails := ih (h.next hpos hn).1 hpos' htail
      rwa [List.append_assoc] at hfails
    | error o =>
      rw [marks, hn] at hm
      cases hm
      -- nothing but a newline stops the marks
      cases state with
      | outside =>
        simp only [QuoteState.next] at hn
        split_ifs at hn with hl
        cases hn
        exact hpos ▸ hl ▸ .newline h rest
      | inside opened =>
        simp only [QuoteState.next] at hn
        split_ifs at hn with hl
        cases hn
        exact hl ▸ .inside h rest
      | escaped opened =>
        simp only [QuoteState.next] at hn
        split_ifs at hn with hl
        cases hn
        obtain ⟨u, rfl, hu⟩ := h
        rw [List.append_assoc]
        exact hl ▸ .escaped hu rest

theorem marks_eq_error_iff {t : Text} {offset : Nat} :
    outside.marks 0 t = .error offset ↔ Scan.Fails t offset := by
  constructor
  · intro h
    have hstart : outside.StandsBehind [] := Scan.start
    exact hstart.fails rfl h
  · intro h
    exact h.marks_eq

theorem QuoteState.StandsBehind.quoted_iff {t rest : Text} {state : QuoteState} {pos : Nat}
    {front behind : List Mark} {m : Mark} (h : state.StandsBehind t) (hpos : pos = t.bytes)
    (hm : state.marks pos rest = .ok (front ++ m :: behind)) :
    m.quoted = true ↔ Quoted (t ++ front.map Mark.char) m.char := by
  induction rest generalizing t state pos front with
  | nil => cases state <;> simp [marks, finish] at hm
  | cons c rest ih =>
    obtain ⟨first, state', ns, hn, hs, heq⟩ := exists_of_marks_cons hm
    obtain ⟨hstate, hchar, hquoted⟩ := h.next hpos hn
    cases front with
    | nil =>
      obtain ⟨rfl, -⟩ := List.cons.inj heq
      rw [List.map_nil, List.append_nil, hchar]
      exact hquoted
    | cons f front =>
      obtain ⟨rfl, rfl⟩ := List.cons.inj heq
      have hpos' : pos + c.utf8Size = Text.bytes (t ++ [c]) := by
        rw [Text.bytes_append, hpos]
        rfl
      have htail := ih hstate hpos' hs
      rwa [List.append_assoc, List.singleton_append, ← hchar] at htail

theorem QuoteState.map_char_marks {state : QuoteState} {pos : Nat} {t : Text} {ms : List Mark}
    (h : state.marks pos t = .ok ms) : ms.map Mark.char = t := by
  induction t generalizing state pos ms with
  | nil => cases state <;> simp_all [marks, finish]
  | cons c t ih =>
    obtain ⟨m, state', ns, hn, hs, rfl⟩ := exists_of_marks_cons h
    rw [List.map_cons, (next_eq hn).1, ih hs]

/-! ### Longest runs of marks -/

theorem Word.isSeparator_iff {c : Char} :
    isSeparator c = true ↔ c = ' ' ∨ c = '\t' ∨ c = '\r' ∨ c = '\x0c' := by
  simp [isSeparator, or_assoc]

namespace Mark

theorem isSeparator_of_inWord {m : Mark} (h : ¬ m.inWord = true) :
    Word.isSeparator m.char = true := by
  simp only [inWord, Bool.or_eq_true, Bool.not_eq_true', not_or, Bool.not_eq_false] at h
  exact h.2

structure IsRun (before run behind : List Mark) : Prop where
  ne_nil : run ≠ []
  inWord : ∀ m ∈ run, m.inWord = true
  front : ∀ m ∈ before.getLast?, m.inWord = false
  back : ∀ m ∈ behind.head?, m.inWord = false

theorem IsRun.of_append {a before run behind : List Mark} (h : IsRun (a ++ before) run behind) :
    IsRun before run behind := by
  refine ⟨h.ne_nil, h.inWord, fun m hm => h.front m ?_, h.back⟩
  rw [List.getLast?_append, Option.mem_def.mp hm]
  rfl

theorem head_dropWhile (ms : List Mark) : ∀ m ∈ (ms.dropWhile inWord).head?, m.inWord = false := by
  intro m hm
  have hnot := List.head?_dropWhile_not inWord ms
  rw [Option.mem_def] at hm
  simpa only [hm] using hnot

/-- Marks are taken one by one outside of words, and a whole run at a time inside of them. -/
theorem run_induction {motive : List Mark → Prop} (nil : motive [])
    (gap : ∀ m ms, m.inWord = false → motive ms → motive (m :: ms))
    (run : ∀ run rest, IsRun [] run rest → motive rest → motive (run ++ rest)) (ms : List Mark) :
    motive ms := by
  induction hn : ms.length using Nat.strong_induction_on generalizing ms with
  | _ n ih =>
    subst hn
    cases ms with
    | nil => exact nil
    | cons m ms =>
      cases hm : m.inWord with
      | false => exact gap m ms hm (ih _ (by simp) ms rfl)
      | true =>
        have hrun : IsRun [] (m :: ms.takeWhile inWord) (ms.dropWhile inWord) := by
          refine ⟨by simp, ?_, by simp, head_dropWhile ms⟩
          intro n hn
          rcases List.mem_cons.mp hn with rfl | hn
          · exact hm
          · exact List.mem_takeWhile_imp hn
        have hlen : (ms.dropWhile inWord).length < (m :: ms).length := by
          have := (List.dropWhile_sublist (l := ms) inWord).length_le
          simp only [List.length_cons]
          omega
        have hall := run _ _ hrun (ih _ hlen _ rfl)
        rwa [List.cons_append, List.takeWhile_append_dropWhile] at hall

end Mark

namespace Word

open Mark

theorem le_start_of_mem_gather {pos : Nat} {ms : List Mark} {w : Word} (h : w ∈ gather pos ms) :
    pos ≤ w.start := by
  induction ms generalizing pos w with
  | nil => cases h
  | cons m ms ih =>
    rw [gather] at h
    split_ifs at h with hm
    · have hrest : ∀ v ∈ gather (pos + m.char.utf8Size) ms, pos ≤ v.start := by
        intro v hv
        exact (Nat.le_add_right _ _).trans (ih hv)
      generalize gather (pos + m.char.utf8Size) ms = ws at h hrest
      cases ws with
      | nil =>
        rw [glue, List.mem_singleton] at h
        rw [h]
        exact le_rfl
      | cons v vs =>
        rw [glue] at h
        split_ifs at h
        · rcases List.mem_cons.mp h with rfl | h
          · exact le_rfl
          · exact hrest w (List.mem_cons_of_mem _ h)
        · rcases List.mem_cons.mp h with rfl | h
          · exact le_rfl
          · exact hrest w h
    · exact (Nat.le_add_right _ _).trans (ih h)

theorem start_ne_of_mem_gather {pos : Nat} {ms : List Mark} {w : Word}
    (hback : ∀ m ∈ ms.head?, m.inWord = false) (h : w ∈ gather pos ms) : w.start ≠ pos := by
  cases ms with
  | nil => cases h
  | cons m ms =>
    rw [gather_gap (hback m rfl)] at h
    have := le_start_of_mem_gather h
    have := m.char.utf8Size_pos
    omega

/-- A longest run at the front of the marks is the first word. -/
theorem gather_run {run rest : List Mark} (h : IsRun [] run rest) (pos : Nat) :
    gather pos (run ++ rest) =
      ofMarks pos run :: gather (pos + Text.bytes (run.map Mark.char)) rest := by
  have hstart : ∀ w ∈ gather (pos + Text.bytes (run.map Mark.char)) rest,
      w.start ≠ (ofMarks pos run).stop :=
    fun _ => start_ne_of_mem_gather h.back
  rw [gather_append h.ne_nil h.inWord]
  cases hw : gather (pos + Text.bytes (run.map Mark.char)) rest with
  | nil => rfl
  | cons w ws => rw [glue, if_neg (hstart w (by simp [hw]))]

theorem mem_gather_of_isRun {before run behind : List Mark} (h : IsRun before run behind)
    (pos : Nat) :
    ofMarks (pos + Text.bytes (before.map Mark.char)) run ∈
      gather pos (before ++ run ++ behind) := by
  induction before using run_induction generalizing pos with
  | nil =>
    rw [List.nil_append, gather_run h]
    exact List.mem_cons_self
  | gap m before hm ih =>
    rw [List.cons_append, List.cons_append, gather_gap hm, List.map_cons, Text.bytes,
      ← Nat.add_assoc]
    exact ih (h.of_append (a := [m])) _
  | run first before hfirst ih =>
    -- the first run ends before the marks do, because no run ends where another starts
    have hback : ∀ m ∈ (before ++ run ++ behind).head?, m.inWord = false := by
      cases before with
      | cons m before => exact hfirst.back
      | nil =>
        obtain ⟨m, hlast⟩ := Option.ne_none_iff_exists'.mp
          (mt List.getLast?_eq_none_iff.mp hfirst.ne_nil)
        have hin := hfirst.inWord m (List.mem_of_getLast? hlast)
        rw [h.front m (by simpa using hlast)] at hin
        cases hin
    rw [List.append_assoc, List.append_assoc, gather_run ⟨hfirst.ne_nil, hfirst.inWord, by simp,
      by simpa only [List.append_assoc] using hback⟩, List.map_append, Text.bytes_append,
      ← Nat.add_assoc, ← List.append_assoc]
    exact List.mem_cons_of_mem _ (ih h.of_append _)

theorem exists_isRun_of_mem_gather {pos : Nat} {ms : List Mark} {w : Word} (h : w ∈ gather pos ms) :
    ∃ before run behind, ms = before ++ run ++ behind ∧ IsRun before run behind ∧
      w = ofMarks (pos + Text.bytes (before.map Mark.char)) run := by
  induction ms using run_induction generalizing pos with
  | nil => cases h
  | gap m ms hm ih =>
    rw [gather_gap hm] at h
    obtain ⟨before, run, behind, rfl, hrun, rfl⟩ := ih h
    refine ⟨m :: before, run, behind, rfl, ⟨hrun.ne_nil, hrun.inWord, ?_, hrun.back⟩, ?_⟩
    · intro n hn
      rw [List.getLast?_cons, Option.mem_some_iff] at hn
      cases hl : before.getLast? with
      | none => rw [← hn, hl, Option.getD_none, hm]
      | some l => exact hrun.front n (by rw [hl, Option.mem_some_iff, ← hn, hl, Option.getD_some])
    · rw [List.map_cons, Text.bytes, Nat.add_assoc]
  | run first rest hfirst ih =>
    rw [gather_run hfirst, List.mem_cons] at h
    rcases h with rfl | h
    · exact ⟨[], first, rest, rfl, hfirst, rfl⟩
    · obtain ⟨before, run, behind, rfl, hrun, rfl⟩ := ih h
      refine ⟨first ++ before, run, behind, by simp, ⟨hrun.ne_nil, hrun.inWord, ?_, hrun.back⟩, ?_⟩
      · intro n hn
        cases before with
        | cons m before =>
          rw [List.getLast?_append_of_ne_nil _ (by simp)] at hn
          exact hrun.front n hn
        | nil =>
          obtain ⟨m, run, rfl⟩ := List.exists_cons_of_ne_nil hrun.ne_nil
          have hin := hrun.inWord m List.mem_cons_self
          rw [hfirst.back m rfl] at hin
          cases hin
      · rw [List.map_append, Text.bytes_append, Nat.add_assoc]

/-- The words are the longest runs of marks. -/
theorem mem_gather_iff {pos : Nat} {ms : List Mark} {w : Word} :
    w ∈ gather pos ms ↔ ∃ before run behind, ms = before ++ run ++ behind ∧
      IsRun before run behind ∧ w = ofMarks (pos + Text.bytes (before.map Mark.char)) run := by
  constructor
  · exact exists_isRun_of_mem_gather
  · rintro ⟨before, run, behind, rfl, hrun, rfl⟩
    exact mem_gather_of_isRun hrun pos

/-- Something stands between a word and the next one. -/
theorem isChain_gather (pos : Nat) (ms : List Mark) :
    (gather pos ms).IsChain fun v w => v.stop < w.start := by
  induction ms using run_induction generalizing pos with
  | nil => exact .nil
  | gap m ms hm ih =>
    rw [gather_gap hm]
    exact ih _
  | run run rest hrun ih =>
    rw [gather_run hrun, List.isChain_cons]
    refine ⟨fun w hw => ?_, ih _⟩
    have hmem := List.mem_of_mem_head? hw
    exact lt_of_le_of_ne (le_start_of_mem_gather hmem) (start_ne_of_mem_gather hrun.back hmem).symm

/-- A byte that no word covers is a separator. -/
theorem exists_separator {pos k : Nat} {ms : List Mark} (hpos : pos ≤ k)
    (hk : k < pos + Text.bytes (ms.map Mark.char))
    (h : ∀ w ∈ gather pos ms, ¬ (w.start ≤ k ∧ k < w.stop)) :
    ∃ before m behind, ms = before ++ m :: behind ∧ isSeparator m.char = true ∧
      pos + Text.bytes (before.map Mark.char) = k := by
  induction ms using run_induction generalizing pos with
  | nil => exact absurd hk (by simpa [Text.bytes] using hpos)
  | gap m ms hm ih =>
    have hsep := isSeparator_of_inWord (m := m) (by simp [hm])
    have hsize : m.char.utf8Size = 1 := by
      rcases isSeparator_iff.mp hsep with h | h | h | h <;> rw [h] <;> rfl
    rw [List.map_cons, Text.bytes, hsize] at hk
    rw [gather_gap hm, hsize] at h
    by_cases hfirst : pos = k
    · exact ⟨[], m, ms, rfl, hsep, hfirst⟩
    · obtain ⟨before, n, behind, rfl, hn, hbytes⟩ := ih (by omega) (by omega) h
      refine ⟨m :: before, n, behind, rfl, hn, ?_⟩
      rw [List.map_cons, Text.bytes, hsize, ← Nat.add_assoc, hbytes]
  | run run rest hrun ih =>
    rw [gather_run hrun, List.forall_mem_cons] at h
    obtain ⟨hword, h⟩ := h
    have hbehind : pos + Text.bytes (run.map Mark.char) ≤ k := by
      by_contra hlt
      exact hword ⟨hpos, by simpa [ofMarks] using hlt⟩
    rw [List.map_append, Text.bytes_append, ← Nat.add_assoc] at hk
    obtain ⟨before, n, behind, rfl, hn, hbytes⟩ := ih hbehind hk h
    refine ⟨run ++ before, n, behind, by simp, hn, ?_⟩
    rw [List.map_append, Text.bytes_append, ← Nat.add_assoc, hbytes]

end Word

/-! ### The words of a line are its longest runs -/

section Runs

variable {t : Text} {ms before run behind : List Mark} {m : Mark}

theorem Mark.quoted_iff (h : outside.marks 0 t = .ok (before ++ m :: behind)) :
    m.quoted = true ↔ Quoted (before.map Mark.char) m.char := by
  have hstart : outside.StandsBehind [] := Scan.start
  exact hstart.quoted_iff rfl h

theorem Mark.inWord_iff (h : outside.marks 0 t = .ok (before ++ m :: behind)) :
    m.inWord = true ↔ InWord (before.map Mark.char) m.char := by
  have hsep : m.char ∉ [' ', '\t', '\r', '\x0c'] ↔ Word.isSeparator m.char = false := by
    rw [← Bool.not_eq_true, Word.isSeparator_iff]
    simp
  rw [InWord, ← quoted_iff h, hsep, inWord, Bool.or_eq_true, Bool.not_eq_true']

theorem Mark.isRun_iff (h : outside.marks 0 t = .ok (before ++ run ++ behind)) :
    IsRun before run behind ↔
      LongestRun (before.map Mark.char) (run.map Mark.char) (behind.map Mark.char) := by
  have hin : ∀ u n v, run = u ++ n :: v →
      (n.inWord = true ↔ InWord (before.map Mark.char ++ u.map Mark.char) n.char) := by
    rintro u n v rfl
    have hall : outside.marks 0 t = .ok (before ++ u ++ n :: (v ++ behind)) := by simpa using h
    rw [← List.map_append]
    exact inWord_iff hall
  have hfront : ∀ u n, before = u ++ [n] → (n.inWord = true ↔ InWord (u.map Mark.char) n.char) := by
    rintro u n rfl
    have hall : outside.marks 0 t = .ok (u ++ n :: (run ++ behind)) := by simpa using h
    exact inWord_iff hall
  have hback : ∀ n v, behind = n :: v →
      (n.inWord = true ↔ InWord (before.map Mark.char ++ run.map Mark.char) n.char) := by
    rintro n v rfl
    rw [← List.map_append]
    exact inWord_iff h
  constructor
  · intro hr
    refine ⟨by simpa using hr.ne_nil, ?_, ?_, ?_⟩
    · intro u c v heq
      obtain ⟨u, _, rfl, rfl, hv⟩ := List.map_eq_append_iff.mp heq
      obtain ⟨n, v, rfl, rfl, rfl⟩ := List.map_eq_cons_iff.mp hv
      exact (hin u n v rfl).mp (hr.inWord n (by simp))
    · intro u c heq
      obtain ⟨u, _, rfl, rfl, hv⟩ := List.map_eq_append_iff.mp heq
      obtain ⟨n, rfl, rfl⟩ := List.map_eq_singleton_iff.mp hv
      rw [← hfront u n rfl, hr.front n (by simp)]
      simp
    · intro c v heq
      obtain ⟨n, v, rfl, rfl, rfl⟩ := List.map_eq_cons_iff.mp heq
      rw [← hback n v rfl, hr.back n rfl]
      simp
  · intro hr
    refine ⟨fun hnil => hr.ne_nil (by simp [hnil]), ?_, ?_, ?_⟩
    · intro n hn
      obtain ⟨u, v, rfl⟩ := List.append_of_mem hn
      exact (hin u n v rfl).mpr (hr.inWord _ _ (v.map Mark.char) (by simp))
    · intro n hn
      obtain ⟨u, rfl⟩ := List.getLast?_eq_some_iff.mp hn
      rw [← Bool.not_eq_true, hfront u n rfl]
      exact hr.front _ _ (by simp)
    · intro n hn
      obtain ⟨v, rfl⟩ := List.head?_eq_some_iff.mp hn
      rw [← Bool.not_eq_true, hback n v rfl]
      exact hr.back _ (v.map Mark.char) (by simp)

theorem Mark.any_quoted_iff (h : outside.marks 0 t = .ok (before ++ run ++ behind)) :
    run.any Mark.quoted = true ↔
      ∃ u c v, run.map Mark.char = u ++ c :: v ∧ Quoted (before.map Mark.char ++ u) c := by
  have hq : ∀ u n v, run = u ++ n :: v →
      (n.quoted = true ↔ Quoted (before.map Mark.char ++ u.map Mark.char) n.char) := by
    rintro u n v rfl
    have hall : outside.marks 0 t = .ok (before ++ u ++ n :: (v ++ behind)) := by simpa using h
    rw [← List.map_append]
    exact quoted_iff hall
  rw [List.any_eq_true]
  constructor
  · rintro ⟨n, hn, hquoted⟩
    obtain ⟨u, v, rfl⟩ := List.append_of_mem hn
    exact ⟨u.map Mark.char, n.char, v.map Mark.char, by simp, (hq u n v rfl).mp hquoted⟩
  · rintro ⟨u, c, v, heq, hquoted⟩
    obtain ⟨u, _, rfl, rfl, hv⟩ := List.map_eq_append_iff.mp heq
    obtain ⟨n, v, rfl, rfl, rfl⟩ := List.map_eq_cons_iff.mp hv
    exact ⟨n, by simp, (hq u n v rfl).mpr hquoted⟩

/-- The words of a line are its longest runs. -/
theorem Word.mem_gather_iff_covers (h : outside.marks 0 t = .ok ms) {w : Word} :
    w ∈ gather 0 ms ↔ w.Covers t := by
  have hchars := map_char_marks h
  rw [mem_gather_iff]
  constructor
  · rintro ⟨before, run, behind, rfl, hrun, rfl⟩
    rw [Nat.zero_add]
    refine ⟨before.map Mark.char, behind.map Mark.char, ?_, (Mark.isRun_iff h).mp hrun, rfl, ?_,
      Mark.any_quoted_iff h⟩
    · rw [← hchars, List.map_append, List.map_append]
      rfl
    · rw [Text.bytes_append]
      rfl
  · rintro ⟨before, behind, rfl, hrun, hstart, hstop, hquoted⟩
    obtain ⟨_, behind, rfl, heq, rfl⟩ := List.map_eq_append_iff.mp hchars
    obtain ⟨before, run, rfl, rfl, htext⟩ := List.map_eq_append_iff.mp heq
    rw [← htext] at hrun hstop hquoted
    refine ⟨before, run, behind, rfl, (Mark.isRun_iff h).mpr hrun, ?_⟩
    rw [← Mark.any_quoted_iff h, ← Bool.eq_iff_iff] at hquoted
    rw [Text.bytes_append, ← hstart] at hstop
    rw [Nat.zero_add, ← hstart, ofMarks, ← hstop, ← hquoted, htext]

end Runs

theorem QuoteState.StandsBehind.scan {t rest : Text} {state : QuoteState} {pos : Nat}
    {ms : List Mark} (h : state.StandsBehind t) (hpos : pos = t.bytes)
    (hm : state.marks pos rest = .ok ms) : Scan (t ++ rest) none := by
  induction rest generalizing t state pos ms with
  | nil =>
    rw [List.append_nil]
    cases state with
    | outside => exact h
    | inside opened => cases hm
    | escaped opened => cases hm
  | cons c rest ih =>
    obtain ⟨m, state', ns, hn, hs, -⟩ := exists_of_marks_cons hm
    have hpos' : pos + c.utf8Size = Text.bytes (t ++ [c]) := by
      rw [Text.bytes_append, hpos]
      rfl
    have hscan := ih (h.next hpos hn).1 hpos' hs
    rwa [List.append_assoc] at hscan

namespace Word

theorem ofText_eq_ok_iff {t : Text} {ws : List Word} :
    ofText t = .ok ws ↔ ∃ ms, outside.marks 0 t = .ok ms ∧ gather 0 ms = ws := by
  rw [ofText_eq_gather]
  cases outside.marks 0 t <;> simp [Except.map]

theorem ofText_eq_error_iff {t : Text} {offset : Nat} :
    ofText t = .error offset ↔ Scan.Fails t offset := by
  rw [← marks_eq_error_iff, ofText_eq_gather]
  cases outside.marks 0 t <;> simp [Except.map]

theorem exists_ofText_iff {t : Text} : (∃ ws, ofText t = .ok ws) ↔ Scan t none := by
  simp only [ofText_eq_ok_iff]
  constructor
  · rintro ⟨ws, ms, hm, -⟩
    have hstart : outside.StandsBehind [] := Scan.start
    exact hstart.scan rfl hm
  · intro h
    obtain ⟨ms, hm⟩ := h.exists_marks
    exact ⟨_, ms, hm, rfl⟩

theorem exists_ofText_iff_not_fails {t : Text} :
    (∃ ws, ofText t = .ok ws) ↔ ¬ ∃ offset, Scan.Fails t offset := by
  simp only [← ofText_eq_error_iff]
  cases ofText t <;> simp

theorem infix_of_mem_ofText {t : Text} {ws : List Word} {w : Word} (h : ofText t = .ok ws)
    (hw : w ∈ ws) : w.text <:+: t := by
  obtain ⟨ms, hm, rfl⟩ := ofText_eq_ok_iff.mp h
  obtain ⟨before, behind, rfl, -⟩ := (mem_gather_iff_covers hm).mp hw
  exact ⟨before, behind, rfl⟩

theorem extract_of_covers {t : Text} {w : Word} (h : w.Covers t) :
    t.utf8Encode.extract w.start w.stop = w.text.utf8Encode := by
  obtain ⟨before, behind, rfl, -, hstart, hstop, -⟩ := h
  rw [hstart, hstop, Text.bytes_append]
  exact Text.extract_utf8Encode before w.text behind

/-- A line has words if it can be read to its end, and otherwise an error tells where it cannot. Its
words are its longest runs, in their order and with something between them, and all that stands
outside of them are separators. -/
theorem ofText_scan (t : Text) :
    (∀ offset, ofText t = .error offset ↔ Scan.Fails t offset) ∧
      ((∃ ws, ofText t = .ok ws) ↔ ¬ ∃ offset, Scan.Fails t offset) ∧
      ((∃ ws, ofText t = .ok ws) ↔ Scan t none) ∧
      ∀ ws, ofText t = .ok ws →
        (∀ w, w ∈ ws ↔ w.Covers t) ∧
        (∀ w ∈ ws, t.utf8Encode.extract w.start w.stop = w.text.utf8Encode) ∧
        ws.IsChain (fun v w => v.stop < w.start) ∧
        ∀ k < t.utf8Encode.size, (∀ w ∈ ws, ¬ (w.start ≤ k ∧ k < w.stop)) →
          ∃ c ∈ [' ', '\t', '\r', '\x0c'], t.utf8Encode.extract k (k + 1) = [c].utf8Encode := by
  refine ⟨fun _ => ofText_eq_error_iff, exists_ofText_iff_not_fails, exists_ofText_iff, ?_⟩
  intro ws h
  obtain ⟨ms, hm, rfl⟩ := ofText_eq_ok_iff.mp h
  have hcovers : ∀ w, w ∈ gather 0 ms ↔ w.Covers t := fun _ => mem_gather_iff_covers hm
  refine ⟨hcovers, fun w hw => extract_of_covers ((hcovers w).mp hw), isChain_gather 0 ms, ?_⟩
  intro k hk hout
  have hchars := map_char_marks hm
  rw [Text.size_utf8Encode, ← hchars, ← Nat.zero_add (Text.bytes _)] at hk
  obtain ⟨before, m, behind, rfl, hsep, rfl⟩ := exists_separator (Nat.zero_le k) hk hout
  have hsize : Text.bytes [m.char] = 1 := by
    rcases Word.isSeparator_iff.mp hsep with h | h | h | h <;> rw [h] <;> rfl
  refine ⟨m.char, by simpa using Word.isSeparator_iff.mp hsep, ?_⟩
  have hbyte := Text.extract_utf8Encode (before.map Mark.char) [m.char] (behind.map Mark.char)
  rwa [hsize, List.append_assoc, List.singleton_append, ← List.map_cons, ← List.map_append, hchars,
    ← Nat.zero_add (Text.bytes _)] at hbyte

/-- An accent takes two bytes, a quote goes on behind `=` and holds a blank and an escaped quote. -/
theorem ofText_scan_quotes :
    ofText "é=\"a \\\"b\"  c" =
        .ok [⟨"é=\"a \\\"b\"", 0, 10, true⟩, ⟨"c", 12, 13, false⟩] ∧
      Word.Covers "é=\"a \\\"b\"  c" ⟨"é=\"a \\\"b\"", 0, 10, true⟩ ∧
      ¬ Word.Covers "é=\"a \\\"b\"  c" ⟨"b\"", 8, 10, true⟩ ∧
      Scan.Fails "é \"b\\" 3 := by
  have hwords : ofText "é=\"a \\\"b\"  c" =
      .ok [⟨"é=\"a \\\"b\"", 0, 10, true⟩, ⟨"c", 12, 13, false⟩] := by decide
  have h := ((ofText_scan "é=\"a \\\"b\"  c").2.2.2 _ hwords).1
  exact ⟨hwords, (h _).mp (by decide), fun hc => absurd ((h _).mpr hc) (by decide),
    ((ofText_scan "é \"b\\").1 3).mp (by decide)⟩

end Word

end Pseudocode
