import Mathlib.Computability.Language
import Mathlib.Data.List.TakeWhile
import Pseudocode.Pattern

/-!
# The texts that a pattern matches

A pattern stands for a language (`Pattern.language`). What is left to match behind a character is the
quotient of the language by that character (`Pattern.mem_language_behind`). So the search for a match
finds the longest beginning of a text that belongs to the language
(`Pattern.longest?_eq_of_isLongest`), and finds none only if no beginning does
(`Pattern.longest?_eq_none_iff`).
-/
namespace Pseudocode

open Computability

theorem cons_mem_mul_iff {c : Char} {t : Text} {L M : Language Char} :
    c :: t ∈ L * M ↔ (∃ u v, t = u ++ v ∧ c :: u ∈ L ∧ v ∈ M) ∨ ([] ∈ L ∧ c :: t ∈ M) := by
  rw [Language.mem_mul]
  constructor
  · rintro ⟨u, hu, v, hv, heq⟩
    cases u with
    | nil => exact .inr ⟨hu, heq ▸ hv⟩
    | cons d u =>
      obtain ⟨rfl, rfl⟩ := List.cons.inj heq
      exact .inl ⟨u, v, rfl, hu, hv⟩
  · rintro (⟨u, v, rfl, hu, hv⟩ | ⟨hnil, ht⟩)
    · exact ⟨c :: u, hu, v, hv, rfl⟩
    · exact ⟨[], hnil, c :: t, ht, rfl⟩

theorem cons_mem_kstar_iff {c : Char} {t : Text} {L : Language Char} :
    c :: t ∈ L∗ ↔ ∃ u v, t = u ++ v ∧ c :: u ∈ L ∧ v ∈ L∗ := by
  constructor
  · intro h
    obtain ⟨parts, heq, hparts⟩ := Language.mem_kstar_iff_exists_nonempty.mp h
    cases parts with
    | nil => cases heq
    | cons first rest =>
      obtain ⟨hfirst, hne⟩ := hparts first List.mem_cons_self
      cases first with
      | nil => exact absurd rfl hne
      | cons d u =>
        obtain ⟨rfl, rfl⟩ := List.cons.inj heq
        exact ⟨u, _, rfl, hfirst,
          Language.join_mem_kstar fun part hp => (hparts part (List.mem_cons_of_mem _ hp)).1⟩
  · rintro ⟨u, v, rfl, hu, hv⟩
    have hall : (c :: u) ++ v ∈ L * L∗ := Language.append_mem_mul hu hv
    rw [← Language.one_add_self_mul_kstar_eq_kstar]
    exact .inr hall

namespace Pattern

def language : Pattern → Language Char
  | nothing => 0
  | empty => 1
  | char isIn => {t | ∃ c, isIn c = true ∧ t = [c]}
  | seq first second => first.language * second.language
  | either first second => first.language + second.language
  | many each => each.language∗

variable {p q : Pattern} {c : Char} {t : Text}

theorem mem_language_char {isIn : Char → Bool} :
    t ∈ (char isIn).language ↔ ∃ c, isIn c = true ∧ t = [c] := Iff.rfl

theorem language_before (p q : Pattern) : (p.before q).language = p.language * q.language := by
  cases p <;> simp [before, language]

theorem language_orElse (p q : Pattern) : (p.orElse q).language = p.language + q.language := by
  fun_cases orElse p q with
  | case1 => exact (zero_add _).symm
  | case2 => exact (add_zero _).symm
  | case3 => rfl

theorem matchesEmpty_iff : p.matchesEmpty = true ↔ [] ∈ p.language := by
  induction p with
  | nothing => simp [matchesEmpty, language]
  | empty => simp [matchesEmpty, language]
  | char isIn => simp [matchesEmpty, mem_language_char]
  | seq p q hp hq =>
    rw [matchesEmpty, Bool.and_eq_true, hp, hq, language, Language.mem_mul]
    constructor
    · rintro ⟨h, g⟩
      exact ⟨[], h, [], g, rfl⟩
    · rintro ⟨u, hu, v, hv, heq⟩
      obtain ⟨rfl, rfl⟩ := List.append_eq_nil_iff.mp heq
      exact ⟨hu, hv⟩
  | either p q hp hq =>
    rw [matchesEmpty, Bool.or_eq_true, hp, hq]
    rfl
  | many p _ => exact iff_of_true rfl (Language.nil_mem_kstar _)

theorem mem_language_behind (p : Pattern) (c : Char) (t : Text) :
    t ∈ (p.behind c).language ↔ c :: t ∈ p.language := by
  induction p generalizing t with
  | nothing => simp [behind, language]
  | empty => simp [behind, language]
  | char isIn =>
    rw [behind, mem_language_char]
    split_ifs with hc
    · rw [language, Language.mem_one]
      constructor
      · rintro rfl
        exact ⟨c, hc, rfl⟩
      · rintro ⟨d, -, heq⟩
        exact (List.cons.inj heq).2
    · rw [language]
      refine iff_of_false (Language.notMem_zero t) ?_
      rintro ⟨d, hd, heq⟩
      exact hc ((List.cons.inj heq).1 ▸ hd)
  | seq p q hp hq =>
    have hfirst : t ∈ ((p.behind c).before q).language ↔
        ∃ u v, t = u ++ v ∧ c :: u ∈ p.language ∧ v ∈ q.language := by
      rw [language_before, Language.mem_mul]
      constructor
      · rintro ⟨u, hu, v, hv, rfl⟩
        exact ⟨u, v, rfl, (hp u).mp hu, hv⟩
      · rintro ⟨u, v, rfl, hu, hv⟩
        exact ⟨u, (hp u).mpr hu, v, hv, rfl⟩
    rw [language, cons_mem_mul_iff, ← matchesEmpty_iff, behind]
    split_ifs with he
    · rw [language_orElse, Language.mem_add, hfirst, hq]
      simp [he]
    · rw [hfirst]
      simp [he]
  | either p q hp hq =>
    rw [behind, language_orElse, Language.mem_add, hp, hq]
    rfl
  | many p hp =>
    rw [behind, language_before, language, cons_mem_kstar_iff, Language.mem_mul]
    constructor
    · rintro ⟨u, hu, v, hv, rfl⟩
      exact ⟨u, v, rfl, (hp u).mp hu, hv⟩
    · rintro ⟨u, v, rfl, hu, hv⟩
      exact ⟨u, (hp u).mpr hu, v, hv, rfl⟩

/-! ### The longest match -/

/-- `u` is the longest beginning of the text that belongs to the language. -/
structure IsLongest (L : Language Char) (t u : Text) : Prop where
  front : u <+: t
  mem : u ∈ L
  le : ∀ v, v <+: t → v ∈ L → v.length ≤ u.length

theorem longest?_nothing (t : Text) : nothing.longest? t = none := by
  cases t <;> rfl

/-- The search may go on where nothing can match, without a change to what is found. -/
theorem longest?_cons (p : Pattern) (c : Char) (cs : Text) :
    p.longest? (c :: cs) =
      match (p.behind c).longest? cs with
      | some n => some (n + 1)
      | none => if p.matchesEmpty then some 0 else none := by
  rw [longest?]
  cases hrest : p.behind c with
  | nothing => simp [isNothing, longest?_nothing]
  | _ => rfl

theorem longest?_le {n : Nat} (h : p.longest? t = some n) : n ≤ t.length := by
  induction t generalizing p n with
  | nil =>
    rw [longest?] at h
    split_ifs at h
    cases h
    exact le_rfl
  | cons c cs ih =>
    rw [longest?_cons] at h
    cases hrest : (p.behind c).longest? cs with
    | some m =>
      rw [hrest] at h
      cases h
      exact Nat.succ_le_succ (ih hrest)
    | none =>
      rw [hrest] at h
      dsimp only at h
      split_ifs at h
      cases h
      exact Nat.zero_le _

theorem isLongest_nil (he : p.matchesEmpty = true)
    (h : ∀ u, u <+: t → u ∈ p.language → u = []) : IsLongest p.language t [] :=
  ⟨List.nil_prefix, matchesEmpty_iff.mp he, fun v hv hm => by rw [h v hv hm]⟩

theorem notMem_of_longest? (h : p.longest? t = none) : ∀ u, u <+: t → u ∉ p.language := by
  induction t generalizing p with
  | nil =>
    intro u hu hm
    rw [List.prefix_nil.mp hu, ← matchesEmpty_iff] at hm
    simp [longest?, hm] at h
  | cons c cs ih =>
    rw [longest?_cons] at h
    cases hrest : (p.behind c).longest? cs with
    | some m => simp [hrest] at h
    | none =>
      intro u hu hm
      cases u with
      | nil => simp [hrest, matchesEmpty_iff.mpr hm] at h
      | cons d u =>
        obtain ⟨rfl, htail⟩ := List.cons_prefix_cons.mp hu
        exact ih hrest u htail ((mem_language_behind p d u).mpr hm)

theorem isLongest_of_longest? {n : Nat} (h : p.longest? t = some n) :
    IsLongest p.language t (t.take n) := by
  induction t generalizing p n with
  | nil =>
    rw [List.take_nil]
    refine isLongest_nil ?_ fun u hu _ => List.prefix_nil.mp hu
    rw [longest?] at h
    split_ifs at h with he
    exact he
  | cons c cs ih =>
    rw [longest?_cons] at h
    cases hrest : (p.behind c).longest? cs with
    | some m =>
      rw [hrest] at h
      cases h
      obtain ⟨hfront, hmem, hle⟩ := ih hrest
      rw [List.take_succ_cons]
      refine ⟨List.cons_prefix_cons.mpr ⟨rfl, hfront⟩, (mem_language_behind p c _).mp hmem, ?_⟩
      intro v hv hm
      cases v with
      | nil => exact Nat.zero_le _
      | cons d v =>
        obtain ⟨rfl, htail⟩ := List.cons_prefix_cons.mp hv
        exact Nat.succ_le_succ (hle v htail ((mem_language_behind p d v).mpr hm))
    | none =>
      rw [hrest] at h
      dsimp only at h
      split_ifs at h with he
      cases h
      refine isLongest_nil he fun u hu hm => ?_
      cases u with
      | nil => rfl
      | cons d u =>
        obtain ⟨rfl, htail⟩ := List.cons_prefix_cons.mp hu
        exact absurd ((mem_language_behind p d u).mpr hm) (notMem_of_longest? hrest u htail)

theorem longest?_eq_none_iff : p.longest? t = none ↔ ∀ u, u <+: t → u ∉ p.language := by
  refine ⟨notMem_of_longest?, fun h => Option.eq_none_iff_forall_ne_some.mpr fun n hn => ?_⟩
  obtain ⟨hfront, hmem, -⟩ := isLongest_of_longest? hn
  exact h _ hfront hmem

/-- The search finds the longest beginning of the text that the pattern matches. -/
theorem longest?_eq_of_isLongest {u : Text} (h : IsLongest p.language t u) :
    p.longest? t = some u.length := by
  cases hn : p.longest? t with
  | none => exact absurd h.mem (notMem_of_longest? hn u h.front)
  | some n =>
    obtain ⟨hfront, hmem, hle⟩ := isLongest_of_longest? hn
    have hlen : (t.take n).length = n := List.length_take_of_le (longest?_le hn)
    exact congrArg some ((hlen ▸ h.le _ hfront hmem).antisymm (hlen ▸ hle u h.front h.mem))

/-! ### Runs of characters -/

theorem mem_language_many_char {isIn : Char → Bool} :
    t ∈ (many (char isIn)).language ↔ ∀ c ∈ t, isIn c = true := by
  induction t with
  | nil => exact iff_of_true (Language.nil_mem_kstar _) (by simp)
  | cons c t ih =>
    rw [language, cons_mem_kstar_iff, List.forall_mem_cons, ← ih]
    constructor
    · rintro ⟨u, v, rfl, ⟨d, hd, heq⟩, hv⟩
      obtain ⟨rfl, rfl⟩ := List.cons.inj heq
      exact ⟨hd, hv⟩
    · rintro ⟨hc, ht⟩
      exact ⟨[], t, rfl, ⟨c, hc, rfl⟩, ht⟩

theorem mem_language_oneOrMore_char {isIn : Char → Bool} :
    t ∈ (oneOrMore (char isIn)).language ↔ t ≠ [] ∧ ∀ c ∈ t, isIn c = true := by
  cases t with
  | nil => simp [oneOrMore, ← matchesEmpty_iff, matchesEmpty]
  | cons c t =>
    rw [List.forall_mem_cons, ← mem_language_many_char, oneOrMore, language, cons_mem_mul_iff]
    constructor
    · rintro (⟨u, v, rfl, ⟨d, hd, heq⟩, hv⟩ | ⟨⟨d, -, heq⟩, -⟩)
      · obtain ⟨rfl, rfl⟩ := List.cons.inj heq
        exact ⟨by simp, hd, hv⟩
      · cases heq
    · rintro ⟨-, hc, ht⟩
      exact .inl ⟨[], t, rfl, ⟨c, hc, rfl⟩, ht⟩

/-- A run of characters goes on as long as they are in the class. -/
theorem longest?_oneOrMore_char {isIn : Char → Bool} (hc : isIn c = true) :
    (oneOrMore (char isIn)).longest? (c :: t) = some ((c :: t).takeWhile isIn).length := by
  refine longest?_eq_of_isLongest ⟨List.takeWhile_prefix _, ?_, ?_⟩
  · exact mem_language_oneOrMore_char.mpr ⟨by simp [hc], fun d hd => List.mem_takeWhile_imp hd⟩
  · rintro v ⟨w, hw⟩ hm
    obtain ⟨-, hin⟩ := mem_language_oneOrMore_char.mp hm
    rw [← hw, List.takeWhile_append_of_pos hin, List.length_append]
    exact Nat.le_add_right _ _

theorem longest?_oneOrMore_char_eq_none {isIn : Char → Bool} (hc : isIn c = false) :
    (oneOrMore (char isIn)).longest? (c :: t) = none := by
  refine longest?_eq_none_iff.mpr fun u hu hm => ?_
  obtain ⟨hne, hin⟩ := mem_language_oneOrMore_char.mp hm
  obtain ⟨d, u, rfl⟩ := List.exists_cons_of_ne_nil hne
  obtain ⟨rfl, -⟩ := List.cons_prefix_cons.mp hu
  simp [hc] at hin

end Pattern

end Pseudocode
