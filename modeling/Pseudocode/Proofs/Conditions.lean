import Pseudocode.Phrase
import Pseudocode.Proofs.Lines

/-!
# The connectives of a condition

A word of a condition is respelled if it is a connective behind some opening parentheses and in front
of some closing ones. `Connectives.Respelled` says this of the parts of a word. `Connectives.respell`
finds the parts by trimming the word at its front and then at its end. The two agree on every word
(`Connectives.respelled_iff`), since a connective has no parentheses of its own.
-/
namespace Pseudocode

inductive Connective
  | conj
  | disj
  | neg
  deriving DecidableEq, Repr

namespace Text

def inParentheses (opening closing : Nat) (t : Text) : Text :=
  List.replicate opening '(' ++ t ++ List.replicate closing ')'

def isParenthesis (c : Char) : Bool := c == '(' || c == ')'

def parentheses (t : Text) : Text := t.filter isParenthesis

theorem parentheses_eq_nil {t : Text} (h : '(' ∉ t ∧ ')' ∉ t) : parentheses t = [] := by
  rw [parentheses, List.filter_eq_nil_iff]
  intro c hc
  simp only [isParenthesis, Bool.or_eq_true, beq_iff_eq]
  rintro (rfl | rfl)
  · exact h.1 hc
  · exact h.2 hc

theorem parentheses_inParentheses (opening closing : Nat) {t : Text} (h : parentheses t = []) :
    parentheses (inParentheses opening closing t) =
      List.replicate opening '(' ++ List.replicate closing ')' := by
  rw [parentheses] at h
  rw [parentheses, inParentheses, List.filter_append, List.filter_append, h, List.append_nil,
    List.filter_replicate_of_pos rfl, List.filter_replicate_of_pos rfl]

theorem eq_inParentheses (t : Text) :
    let rest := t.dropWhile (· == '(')
    t = inParentheses (t.takeWhile (· == '(')).length (rest.reverse.takeWhile (· == ')')).length
      (rest.reverse.dropWhile (· == ')')).reverse := by
  intro rest
  have hopening := takeWhile_eq_replicate '(' t
  have hclosing := takeWhile_eq_replicate ')' rest.reverse
  have hrest : rest = (rest.reverse.dropWhile (· == ')')).reverse ++
      List.replicate (rest.reverse.takeWhile (· == ')')).length ')' := by
    rw [← List.reverse_replicate, ← hclosing, ← List.reverse_append,
      List.takeWhile_append_dropWhile, List.reverse_reverse]
  rw [inParentheses, ← hopening, List.append_assoc, ← hrest, List.takeWhile_append_dropWhile]

end Text

open Text

namespace Connectives

variable {c : Connectives} {word word' : Text}

def spelling (c : Connectives) : Connective → Text
  | .conj => c.conj
  | .disj => c.disj
  | .neg => c.neg

/-- How a condition takes a word over: a connective of the pseudocode in the spelling of the
language, with the same parentheses around it, and any other word as it stands. -/
inductive Respelled (c : Connectives) : Text → Text → Prop
  | connective (k : Connective) (opening closing : Nat) :
      Respelled c (inParentheses opening closing (source.spelling k))
        (inParentheses opening closing (c.spelling k))
  | other {word : Text}
      (h : ∀ k opening closing, word ≠ inParentheses opening closing (source.spelling k)) :
      Respelled c word word

theorem spelling?_eq_some_iff {spelling : Text} :
    c.spelling? word = some spelling ↔ ∃ k, word = source.spelling k ∧ spelling = c.spelling k := by
  constructor
  · intro h
    unfold spelling? at h
    split_ifs at h with hconj hdisj hneg
    · exact ⟨.conj, hconj, (Option.some.inj h).symm⟩
    · exact ⟨.disj, hdisj, (Option.some.inj h).symm⟩
    · exact ⟨.neg, hneg, (Option.some.inj h).symm⟩
  · rintro ⟨k, rfl, rfl⟩
    cases k <;> rfl

/-- The trimming stops at a connective on either side. -/
theorem respell_inParentheses (c : Connectives) (opening closing : Nat) (k : Connective) :
    c.respell (inParentheses opening closing (source.spelling k)) =
      inParentheses opening closing (c.spelling k) := by
  have hspelling : c.spelling? (source.spelling k) = some (c.spelling k) :=
    spelling?_eq_some_iff.mpr ⟨k, rfl, rfl⟩
  have hfront : ∀ t, (source.spelling k ++ t).takeWhile (· == '(') = [] ∧
      (source.spelling k ++ t).dropWhile (· == '(') = source.spelling k ++ t := by
    cases k <;> exact fun t => ⟨rfl, rfl⟩
  have hback : (source.spelling k).reverse.takeWhile (· == ')') = [] ∧
      (source.spelling k).reverse.dropWhile (· == ')') = (source.spelling k).reverse := by
    cases k <;> exact ⟨rfl, rfl⟩
  simp [respell, inParentheses, List.takeWhile_append_of_pos, List.dropWhile_append_of_pos, hfront,
    hback, hspelling]

theorem respell_of_forall_ne
    (h : ∀ k opening closing, word ≠ inParentheses opening closing (source.spelling k)) :
    c.respell word = word := by
  unfold respell
  dsimp only
  split
  · next spelling hs =>
    obtain ⟨k, hcore, -⟩ := spelling?_eq_some_iff.mp hs
    have hword := eq_inParentheses word
    dsimp only at hword
    rw [hcore] at hword
    exact absurd hword (h k _ _)
  · rfl

theorem respelled_iff : c.Respelled word word' ↔ word' = c.respell word := by
  constructor
  · intro h
    cases h with
    | connective k opening closing => exact (c.respell_inParentheses opening closing k).symm
    | other h => exact (respell_of_forall_ne h).symm
  · rintro rfl
    by_cases h : ∃ k opening closing, word = inParentheses opening closing (source.spelling k)
    · obtain ⟨k, opening, closing, rfl⟩ := h
      rw [respell_inParentheses]
      exact .connective k opening closing
    · push Not at h
      rw [respell_of_forall_ne h]
      exact .other h

theorem forall₂_respelled_iff {words words' : List Text} :
    List.Forall₂ c.Respelled words words' ↔ words' = words.map c.respell := by
  have hrel : c.Respelled = fun word word' => c.respell word = word' := by
    funext word word'
    exact propext (respelled_iff.trans eq_comm)
  rw [hrel, ← List.forall₂_map_left_iff (R := Eq), List.forall₂_eq_eq_eq, eq_comm]

theorem parentheses_source (k : Connective) : parentheses (source.spelling k) = [] := by
  cases k <;> rfl

theorem parentheses_respell (h : ∀ k, parentheses (c.spelling k) = []) (word : Text) :
    parentheses (c.respell word) = parentheses word := by
  have hword : c.Respelled word (c.respell word) := respelled_iff.mpr rfl
  generalize c.respell word = word' at hword
  cases hword with
  | connective k opening closing =>
    rw [parentheses_inParentheses _ _ (h k), parentheses_inParentheses _ _ (parentheses_source k)]
  | other _ => rfl

theorem respell_source (word : Text) : source.respell word = word := by
  have hword : source.Respelled word (source.respell word) := respelled_iff.mpr rfl
  generalize source.respell word = word' at hword
  cases hword <;> rfl

/-- A condition is its words joined by single spaces, where only connectives are respelled, inside of
their parentheses. So parentheses stay as they are if no spelling has one, and all stays as it is in
the spelling of the pseudocode. -/
theorem condition_respelled (c : Connectives) (words : List Text) :
    (∀ t, c.condition words = t ↔
      ∃ words', List.Forall₂ c.Respelled words words' ∧ t = unwords words') ∧
    ((∀ k, '(' ∉ c.spelling k ∧ ')' ∉ c.spelling k) →
      parentheses (c.condition words) = parentheses (unwords words)) ∧
    source.condition words = unwords words := by
  refine ⟨fun t => ?_, fun h => ?_, ?_⟩
  · simp only [forall₂_respelled_iff, exists_eq_left, condition, eq_comm]
  · have hjoin : ∀ ts, parentheses (unwords ts) = (ts.map parentheses).flatten := by
      intro ts
      rw [parentheses, unwords, filter_intercalate rfl, List.filter_flatten]
      rfl
    have hwords : parentheses ∘ c.respell = parentheses :=
      funext (parentheses_respell fun k => parentheses_eq_nil (h k))
    rw [condition, hjoin, hjoin, List.map_map, hwords]
  · rw [condition, funext respell_source, List.map_id']

/-- Connectives with parentheses on one side, on both and in the wrong order, one that is part of a
longer name, and words of parentheses only. -/
theorem condition_respelled_nested :
    let c : Connectives := ⟨"&&", "||", "!"⟩
    let words : List Text := ["((NON", "é)", "(ET)", ")(ET)", "((", "OU)))", "ETAT", "NON(b)"]
    let t : Text := "((! é) (&&) )(ET) (( ||))) ETAT NON(b)"
    (∀ k, '(' ∉ c.spelling k ∧ ')' ∉ c.spelling k) ∧
      (∃ words', List.Forall₂ c.Respelled words words' ∧ t = unwords words') ∧
      parentheses t = parentheses (unwords words) ∧ source.condition words = unwords words := by
  intro c words t
  have hc : ∀ k, '(' ∉ c.spelling k ∧ ')' ∉ c.spelling k := by
    intro k
    cases k <;> decide
  have ht : c.condition words = t := by decide
  obtain ⟨hwords, hparentheses, hsource⟩ := condition_respelled c words
  exact ⟨hc, (hwords t).mp ht, ht ▸ hparentheses hc, hsource⟩

end Connectives

end Pseudocode
