import Pseudocode.Proofs.Lines
import Pseudocode.Word

/-!
# Marks of quoted characters

The characters of a line can be read one at a time: outside of quotes, inside of one, or behind a
backslash inside of one. That tells of each character whether it is quoted (`QuoteState.marks`), and
the words can be gathered from these marks alone (`Word.gather`).
-/
namespace Pseudocode

/-- A character of a line, and whether it is part of a quote. -/
structure Mark where
  char : Char
  quoted : Bool
  deriving DecidableEq, Repr

def Mark.inWord (m : Mark) : Bool := m.quoted || !Word.isSeparator m.char

/-- Where a scan stands: outside of quotes, in the quote opened at an offset, or behind a backslash
in that quote. -/
inductive QuoteState
  | outside
  | inside (opened : Nat)
  | escaped (opened : Nat)
  deriving DecidableEq, Repr

namespace QuoteState

/-- The mark of the next character, at offset `pos`, and the state behind it. An error is the offset
of the quote that the line leaves open, or of a newline outside of quotes. -/
def next (pos : Nat) (c : Char) : QuoteState → Except Nat (Mark × QuoteState)
  | outside =>
    if c = '\n' then .error pos
    else if c = '"' then .ok (⟨c, true⟩, inside pos)
    else .ok (⟨c, false⟩, outside)
  | inside opened =>
    if c = '\n' then .error opened
    else if c = '"' then .ok (⟨c, true⟩, outside)
    else if c = '\\' then .ok (⟨c, true⟩, escaped opened)
    else .ok (⟨c, true⟩, inside opened)
  | escaped opened =>
    if c = '\n' then .error opened else .ok (⟨c, true⟩, inside opened)

def finish : QuoteState → Except Nat (List Mark)
  | outside => .ok []
  | inside opened | escaped opened => .error opened

def marks (state : QuoteState) (pos : Nat) : Text → Except Nat (List Mark)
  | [] => state.finish
  | c :: cs =>
    match state.next pos c with
    | .error offset => .error offset
    | .ok (m, state') =>
      match marks state' (pos + c.utf8Size) cs with
      | .error offset => .error offset
      | .ok ms => .ok (m :: ms)

theorem marks_cons {state state' : QuoteState} {pos : Nat} {c : Char} {m : Mark}
    (h : state.next pos c = .ok (m, state')) (rest : Text) :
    state.marks pos (c :: rest) = (state'.marks (pos + c.utf8Size) rest).map (m :: ·) := by
  simp only [marks, h]
  cases state'.marks (pos + c.utf8Size) rest <;> rfl

/-- What the next character of a line can be: one that belongs to no word stands outside of quotes,
and outside of quotes no word starts with a space or a tab. -/
theorem next_eq {state state' : QuoteState} {pos : Nat} {c : Char} {m : Mark}
    (h : state.next pos c = .ok (m, state')) :
    m.char = c ∧ (m.inWord = false → state' = outside) ∧
      (m.inWord = true → state = outside → c ≠ ' ' ∧ c ≠ '\t') := by
  cases state with
  | outside =>
    simp only [next] at h
    split_ifs at h with hn hq
    · cases h
      simp [Mark.inWord, hq]
    · cases h
      refine ⟨rfl, fun _ => rfl, fun hw _ => ?_⟩
      simp only [Mark.inWord, Word.isSeparator, Bool.false_or, Bool.not_eq_true',
        Bool.or_eq_false_iff, beq_eq_false_iff_ne] at hw
      exact ⟨hw.1.1.1, hw.1.1.2⟩
  | inside opened =>
    simp only [next] at h
    split_ifs at h <;> cases h <;> simp [Mark.inWord]
  | escaped opened =>
    simp only [next] at h
    split_ifs at h
    cases h
    simp [Mark.inWord]

theorem exists_of_marks_cons {state : QuoteState} {pos : Nat} {c : Char} {rest : Text}
    {ms : List Mark} (h : state.marks pos (c :: rest) = .ok ms) :
    ∃ m state' ns, state.next pos c = .ok (m, state') ∧
      state'.marks (pos + c.utf8Size) rest = .ok ns ∧ ms = m :: ns := by
  cases hn : state.next pos c with
  | error offset => simp [marks, hn] at h
  | ok r =>
    obtain ⟨m, state'⟩ := r
    rw [marks_cons hn] at h
    cases hs : state'.marks (pos + c.utf8Size) rest with
    | error offset => simp [hs, Except.map] at h
    | ok ns =>
      simp only [hs, Except.map, Except.ok.injEq] at h
      exact ⟨m, state', ns, rfl, hs, h.symm⟩

/-- Outside of quotes all but a quote and a newline is marked as it stands. -/
theorem marks_unquoted_append {front : Text} (h : ∀ c ∈ front, c ≠ '"' ∧ c ≠ '\n') (pos : Nat)
    (t : Text) :
    outside.marks pos (front ++ t) =
      (outside.marks (pos + front.bytes) t).map (front.map (⟨·, false⟩) ++ ·) := by
  induction front generalizing pos with
  | nil => cases hm : outside.marks pos t <;> simp [Text.bytes, hm, Except.map]
  | cons c front ih =>
    obtain ⟨hq, hn⟩ := h c List.mem_cons_self
    have hnext : outside.next pos c = .ok (⟨c, false⟩, outside) := by simp [next, hq, hn]
    rw [List.cons_append, marks_cons hnext, ih fun d hd => h d (List.mem_cons_of_mem _ hd),
      Text.bytes, ← Nat.add_assoc]
    cases outside.marks (pos + c.utf8Size + Text.bytes front) t <;> rfl

/-- A text that can be read by itself is read in the same way in front of another text, and that is
read outside of quotes. -/
theorem marks_append {state : QuoteState} {pos : Nat} {t : Text} {ms : List Mark}
    (h : state.marks pos t = .ok ms) (u : Text) :
    state.marks pos (t ++ u) = (outside.marks (pos + t.bytes) u).map (ms ++ ·) := by
  induction t generalizing state pos ms with
  | nil =>
    cases state with
    | outside =>
      cases h
      cases hu : outside.marks pos u <;> simp [Text.bytes, hu, Except.map]
    | inside opened | escaped opened => cases h
  | cons c t ih =>
    obtain ⟨m, state', ns, hn, hs, rfl⟩ := exists_of_marks_cons h
    rw [List.cons_append, marks_cons hn, ih hs, Text.bytes, Nat.add_assoc]
    cases outside.marks (pos + (c.utf8Size + Text.bytes t)) u <;> rfl

end QuoteState

namespace Word

/-- Puts a word in front of others: it becomes one with the first if that starts where it ends. -/
def glue (w : Word) : List Word → List Word
  | [] => [w]
  | v :: vs =>
    if v.start = w.stop then ⟨w.text ++ v.text, w.start, v.stop, w.quoted || v.quoted⟩ :: vs
    else w :: v :: vs

def ofMarks (pos : Nat) (run : List Mark) : Word :=
  ⟨run.map Mark.char, pos, pos + Text.bytes (run.map Mark.char), run.any Mark.quoted⟩

def gather (pos : Nat) : List Mark → List Word
  | [] => []
  | m :: ms =>
    let words := gather (pos + m.char.utf8Size) ms
    if m.inWord then (ofMarks pos [m]).glue words else words

theorem glue_glue {w v : Word} (h : v.start = w.stop) (vs : List Word) :
    w.glue (v.glue vs) =
      (⟨w.text ++ v.text, w.start, v.stop, w.quoted || v.quoted⟩ : Word).glue vs := by
  cases vs with
  | nil => simp [glue, h]
  | cons u us =>
    rw [glue, glue]
    split_ifs <;> simp [glue, h, Bool.or_assoc]

theorem glue_glue_of_ne {w v : Word} (h : v.start ≠ w.stop) (vs : List Word) :
    w.glue (v.glue vs) = w :: v.glue vs := by
  cases vs with
  | nil => simp [glue, h]
  | cons u us =>
    rw [glue.eq_def v]
    dsimp only
    split_ifs <;> simp [glue, h]

theorem gather_gap {m : Mark} (h : m.inWord = false) (pos : Nat) (ms : List Mark) :
    gather pos (m :: ms) = gather (pos + m.char.utf8Size) ms := by
  rw [gather, h]
  rfl

theorem gather_blank_append {ns : List Mark} (h : ∀ m ∈ ns, m.inWord = false) (pos : Nat)
    (ms : List Mark) :
    gather pos (ns ++ ms) = gather (pos + Text.bytes (ns.map Mark.char)) ms := by
  induction ns generalizing pos with
  | nil => rfl
  | cons n ns ih =>
    rw [List.cons_append, gather, ih fun m hm => h m (List.mem_cons_of_mem _ hm),
      h n List.mem_cons_self, List.map_cons, Text.bytes, Nat.add_assoc]
    rfl

/-- Marks that belong to words and stand together are glued as one. -/
theorem gather_append {run : List Mark} (hne : run ≠ []) (hin : ∀ m ∈ run, m.inWord = true)
    (pos : Nat) (rest : List Mark) :
    gather pos (run ++ rest) =
      (ofMarks pos run).glue (gather (pos + Text.bytes (run.map Mark.char)) rest) := by
  induction run generalizing pos with
  | nil => exact absurd rfl hne
  | cons m run ih =>
    rw [List.cons_append, gather, if_pos (hin m List.mem_cons_self)]
    cases run with
    | nil => rfl
    | cons n run =>
      have hstart : (ofMarks (pos + m.char.utf8Size) (n :: run)).start = (ofMarks pos [m]).stop := rfl
      rw [ih (by simp) fun m hm => hin m (List.mem_cons_of_mem _ hm), glue_glue hstart]
      simp [ofMarks, Text.bytes, Nat.add_assoc]

end Word

end Pseudocode
