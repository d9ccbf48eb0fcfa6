import Mathlib
import Pseudocode.CommandLine.Arguments

/-!
# Command lines that differ in the command

Two commands read their words by two grammars, one of which may have more options than the other. The
narrow grammar reads exactly those words that the wide one reads without options of its own
(`Grammar.read_iff`), whichever way the options are spelled. So a file is checked with the words with
which it is compiled, as long as they are about the target and the settings only
(`Invocation.ofWords_check_iff`).
-/
namespace Pseudocode.CommandLine

/-! ### Names of options -/

theorem find_name_iff {α β : Type} [DecidableEq β] {xs : List α} {name : α → β} {b : β}
    (h : ∀ x y, name x = b → name y = b → x = y) {x : α} :
    xs.find? (fun x => name x = b) = some x ↔ x ∈ xs ∧ name x = b := by
  constructor
  · intro hx
    exact ⟨List.mem_of_find?_eq_some hx, by simpa using List.find?_some hx⟩
  · rintro ⟨hmem, hx⟩
    cases hf : xs.find? (fun x => name x = b) with
    | none => simpa [hx] using List.find?_eq_none.mp hf x hmem
    | some y =>
      have hy : name y = b := by simpa using List.find?_some hf
      rw [h y x hy hx]

namespace Switch

theorem short?_inj {c : Char} (s s' : Switch) (h : s.short? = some c) (h' : s'.short? = some c) :
    s = s' := by
  have hshort : s.short? = s'.short? ∧ s.short? ≠ none := ⟨h.trans h'.symm, by simp [h]⟩
  revert hshort
  clear h h'
  cases s <;> cases s' <;> decide

theorem long_inj {name : Text} (s s' : Switch) (h : s.long = name) (h' : s'.long = name) :
    s = s' := by
  have hlong := h.trans h'.symm
  revert hlong
  clear h h'
  cases s <;> cases s' <;> decide

end Switch

namespace Given

def Within (given : Given) (switches : List Switch) : Prop :=
  ∀ o ∈ given.options, o.1 ∈ switches

theorem within_snoc {given : Given} {switches : List Switch} {o : Switch × Text} :
    Within { given with options := given.options ++ [o] } switches ↔
      given.Within switches ∧ o.1 ∈ switches := by
  simp only [Within, List.mem_append, List.mem_singleton, or_imp, forall_and, forall_eq]

end Given

namespace Grammar

/-- The options that are given, and the one that waits for its value, are among the given ones. -/
def Fits (r : Given × Option Switch) (switches : List Switch) : Prop :=
  r.1.Within switches ∧ ∀ s ∈ r.2, s ∈ switches

/-! ### One option or word -/

/-- Whether a flag is taken does not depend on the grammar, which is named by help only. -/
theorem addFlag_cases (given : Given) (s : Switch) :
    (∃ given', given' = { given with options := given.options ++ [(s, [])] } ∧
        ∀ g : Grammar, g.addFlag given s = .ok given') ∨
      ∀ g : Grammar, ∃ stop, g.addFlag given s = .error stop := by
  by_cases h : s ≠ .help ∧ s ≠ .version ∧ given.has s = false
  · obtain ⟨hhelp, hversion, hhas⟩ := h
    refine .inl ⟨_, rfl, fun g => ?_⟩
    simp [addFlag, hhelp, hversion, hhas]
  · refine .inr fun g => ?_
    unfold addFlag
    split_ifs with hhelp hversion hhas
    · exact ⟨_, rfl⟩
    · exact ⟨_, rfl⟩
    · exact ⟨_, rfl⟩
    · exact absurd ⟨hhelp, hversion, by simpa using hhas⟩ h

theorem addValue_eq_ok {given given' : Given} {s : Switch} {value : Text}
    (h : addValue given s value = .ok given') :
    given' = { given with options := given.options ++ [(s, value)] } := by
  unfold addValue at h
  split_ifs at h
  cases h
  rfl

theorem addWord_eq_ok {g : Grammar} {given given' : Given} {word : Text}
    (h : g.addWord given word = .ok given') : given'.options = given.options := by
  unfold addWord at h
  split_ifs at h
  cases h
  rfl

theorem fits_value {given : Given} {s : Switch} {value : Text} {r : Given × Option Switch}
    (h : (addValue given s value).map (fun given => (given, none)) = .ok r)
    (switches : List Switch) : given.Within switches ∧ s ∈ switches ↔ Fits r switches := by
  cases ha : addValue given s value with
  | error stop =>
    rw [ha] at h
    cases h
  | ok given' =>
    rw [ha] at h
    cases h
    rw [Fits, addValue_eq_ok ha, Given.within_snoc]
    simp

def readLetter (g : Grammar) (given : Given) (s : Switch) (rest : Text) :
    Except Stop (Given × Option Switch) :=
  if s.takesValue then
    match rest with
    | [] => .ok (given, some s)
    | '=' :: value => (addValue given s value).map fun given => (given, none)
    | value => (addValue given s value).map fun given => (given, none)
  else
    match g.addFlag given s with
    | .error stop => .error stop
    | .ok given => g.readLetters given rest

def readNamed (g : Grammar) (given : Given) (s : Switch) :
    Text → Except Stop (Given × Option Switch)
  | [] =>
    if s.takesValue then .ok (given, some s)
    else (g.addFlag given s).map fun given => (given, none)
  | _ :: value =>
    if s.takesValue then (addValue given s value).map fun given => (given, none)
    else .error (.usage (.unexpectedValue s))

theorem readLetters_cons (g : Grammar) (given : Given) (c : Char) (rest : Text) :
    g.readLetters given (c :: rest) =
      (g.switches.find? fun s => s.short? = some c).elim
        (.error (.usage (.unknownOption ['-', c]))) fun s => g.readLetter given s rest := by
  rw [readLetters]
  cases g.switches.find? fun s => s.short? = some c <;> rfl

theorem readLong_eq (g : Grammar) (given : Given) (word : Text) :
    g.readLong given word =
      (g.switches.find? fun s => s.long = word.takeWhile (· != '=')).elim
        (.error (.usage (.unknownOption ("--" ++ word.takeWhile (· != '=')))))
        fun s => g.readNamed given s (word.dropWhile (· != '=')) := by
  rw [readLong]
  cases g.switches.find? fun s => s.long = word.takeWhile (· != '=') with
  | none => rfl
  | some s => cases word.dropWhile (· != '=') <;> rfl

/-! ### Two grammars -/

/-- The wide grammar has the options of the narrow one among its own, and takes as many words. -/
structure Widens (wide narrow : Grammar) : Prop where
  subset : narrow.switches ⊆ wide.switches
  words : narrow.words = wide.words

section Widening

variable {wide narrow : Grammar} (hw : wide.Widens narrow)

include hw

theorem find_narrow {β : Type} [DecidableEq β] {name : Switch → β} {b : β}
    (h : ∀ s s', name s = b → name s' = b → s = s') :
    narrow.switches.find? (fun s => name s = b) =
      (wide.switches.find? fun s => name s = b).filter (· ∈ narrow.switches) := by
  ext s
  simp only [Option.filter_eq_some_iff, find_name_iff h, decide_eq_true_eq]
  constructor
  · rintro ⟨hs, hname⟩
    exact ⟨⟨hw.subset hs, hname⟩, hs⟩
  · rintro ⟨⟨-, hname⟩, hs⟩
    exact ⟨hs, hname⟩

theorem found_iff {β : Type} [DecidableEq β] {name : Switch → β} {b : β}
    (h : ∀ s s', name s = b → name s' = b → s = s') {given : Given} {r : Given × Option Switch}
    (stop : Stop) (f : Grammar → Switch → Except Stop (Given × Option Switch))
    (hf : ∀ s, f narrow s = .ok r ∧ given.Within narrow.switches ∧ s ∈ narrow.switches ↔
      f wide s = .ok r ∧ Fits r narrow.switches) :
    (narrow.switches.find? fun s => name s = b).elim (.error stop) (f narrow) = .ok r ∧
        given.Within narrow.switches ↔
      (wide.switches.find? fun s => name s = b).elim (.error stop) (f wide) = .ok r ∧
        Fits r narrow.switches := by
  rw [find_narrow hw h]
  cases wide.switches.find? fun s => name s = b with
  | none => simp
  | some s =>
    rw [Option.elim_some, ← hf]
    by_cases hs : s ∈ narrow.switches
    · simp [Option.filter, hs]
    · simp [Option.filter, hs]

theorem readLetters_iff {given : Given} {t : Text} {r : Given × Option Switch} :
    narrow.readLetters given t = .ok r ∧ given.Within narrow.switches ↔
      wide.readLetters given t = .ok r ∧ Fits r narrow.switches := by
  induction t generalizing given with
  | nil =>
    refine and_congr_right fun h => ?_
    cases h
    simp [Fits]
  | cons c rest ih =>
    rw [readLetters_cons, readLetters_cons]
    refine found_iff hw Switch.short?_inj _ (fun g s => g.readLetter given s rest) fun s => ?_
    dsimp only [readLetter]
    split_ifs
    · refine and_congr_right fun h => ?_
      split at h
      · cases h
        simp [Fits]
      · exact fits_value h _
      · exact fits_value h _
    · rcases addFlag_cases given s with ⟨given', hgiven, hflag⟩ | hflag
      · rw [hflag, hflag]
        dsimp only
        rw [← ih, hgiven, Given.within_snoc]
      · obtain ⟨_, hnarrow⟩ := hflag narrow
        obtain ⟨_, hwide⟩ := hflag wide
        simp [hnarrow, hwide]

theorem readLong_iff {given : Given} {word : Text} {r : Given × Option Switch} :
    narrow.readLong given word = .ok r ∧ given.Within narrow.switches ↔
      wide.readLong given word = .ok r ∧ Fits r narrow.switches := by
  rw [readLong_eq, readLong_eq]
  refine found_iff hw Switch.long_inj _
    (fun g s => g.readNamed given s (word.dropWhile (· != '='))) fun s => ?_
  cases word.dropWhile (· != '=') with
  | nil =>
    dsimp only [readNamed]
    split_ifs
    · refine and_congr_right fun h => ?_
      cases h
      simp [Fits]
    · rcases addFlag_cases given s with ⟨given', hgiven, hflag⟩ | hflag
      · rw [hflag, hflag]
        refine and_congr_right fun h => ?_
        cases h
        rw [Fits, hgiven, Given.within_snoc]
        simp
      · obtain ⟨_, hnarrow⟩ := hflag narrow
        obtain ⟨_, hwide⟩ := hflag wide
        simp [hnarrow, hwide, Except.map]
  | cons c value =>
    dsimp only [readNamed]
    split_ifs
    · exact and_congr_right fun h => fits_value h _
    · simp

theorem addWord_narrow (given : Given) (word : Text) :
    narrow.addWord given word = wide.addWord given word := by
  rw [addWord, addWord, hw.words]

theorem readWord_iff {given : Given} {word : Text} {r : Given × Option Switch} :
    narrow.readWord given word = .ok r ∧ given.Within narrow.switches ↔
      wide.readWord given word = .ok r ∧ Fits r narrow.switches := by
  unfold readWord
  split
  · exact readLong_iff hw
  · exact readLetters_iff hw
  · rw [addWord_narrow hw]
    refine and_congr_right fun h => ?_
    cases ha : wide.addWord given word with
    | error stop =>
      rw [ha] at h
      cases h
    | ok given' =>
      rw [ha] at h
      cases h
      simp [Fits, Given.Within, addWord_eq_ok ha]

theorem readPlain_iff {given own : Given} {words : List Text} :
    narrow.readPlain given words = .ok own ∧ given.Within narrow.switches ↔
      wide.readPlain given words = .ok own ∧ own.Within narrow.switches := by
  induction words generalizing given with
  | nil =>
    refine and_congr_right fun h => ?_
    cases h
    rfl
  | cons word words ih =>
    rw [readPlain, readPlain, addWord_narrow hw]
    cases ha : wide.addWord given word with
    | error stop => simp
    | ok given' =>
      dsimp only
      rw [← ih]
      simp [Given.Within, addWord_eq_ok ha]

/-- The narrow grammar reads those words that the wide one reads without other options. -/
theorem read_iff {given own : Given} {waiting : Option Switch} {words : List Text} :
    narrow.read given waiting words = .ok own ∧ Fits (given, waiting) narrow.switches ↔
      wide.read given waiting words = .ok own ∧ own.Within narrow.switches := by
  -- options are only ever added, so those of the outcome are in the narrow grammar if all before are
  induction words generalizing given waiting with
  | nil =>
    cases waiting with
    | none =>
      refine and_congr_right fun h => ?_
      cases h
      simp [Fits]
    | some s => simp [read]
  | cons word words ih =>
    cases waiting with
    | some s =>
      rw [read, read]
      split_ifs
      · simp
      · cases ha : addValue given s word with
        | error stop => simp
        | ok given' =>
          dsimp only
          rw [← ih, addValue_eq_ok ha]
          simp [Fits, Given.within_snoc]
    | none =>
      have hfits : Fits (given, none) narrow.switches ↔ given.Within narrow.switches := by
        simp [Fits]
      rw [read, read, hfits]
      split_ifs
      · exact readPlain_iff hw
      · constructor
        · rintro ⟨h, hgiven⟩
          cases hword : narrow.readWord given word with
          | error stop => simp [hword] at h
          | ok r =>
            rw [hword] at h
            obtain ⟨hwide, hfits⟩ := (readWord_iff hw).mp ⟨hword, hgiven⟩
            rw [hwide]
            exact ih.mp ⟨h, hfits⟩
        · rintro ⟨h, hown⟩
          cases hword : wide.readWord given word with
          | error stop => simp [hword] at h
          | ok r =>
            rw [hword] at h
            obtain ⟨hrest, hfits⟩ := ih.mpr ⟨h, hown⟩
            obtain ⟨hnarrow, hgiven⟩ := (readWord_iff hw).mpr ⟨hword, hfits⟩
            rw [hnarrow]
            exact ⟨hrest, hgiven⟩

theorem read_start_iff {own : Given} {words : List Text} :
    narrow.read {} none words = .ok own ↔
      wide.read {} none words = .ok own ∧ own.Within narrow.switches := by
  rw [← read_iff hw, iff_self_and]
  intro _
  simp [Fits, Given.Within]

end Widening

theorem within_of_read {g : Grammar} {own : Given} {words : List Text}
    (h : g.read {} none words = .ok own) : own.Within g.switches :=
  ((read_start_iff ⟨List.Subset.refl _, rfl⟩).mp h).2

end Grammar

/-! ### Checking and compiling -/

namespace Given

theorem has_eq_false_iff {given : Given} {s : Switch} :
    given.has s = false ↔ ∀ o ∈ given.options, o.1 ≠ s := by
  simp [has]

theorem value?_eq_none_iff {given : Given} {s : Switch} :
    given.value? s = none ↔ given.has s = false := by
  rw [value?, List.lookup_eq_none_iff, has_eq_false_iff]
  refine forall₂_congr fun o _ => ?_
  rw [bne_iff_ne, ne_comm]

/-- The options of the command that checks a file are those of the other one without four. -/
theorem within_check_iff {given : Given} (h : given.Within Verb.compile.switches) :
    given.Within Verb.check.switches ↔ given.has .output = false ∧ given.has .emit = false ∧
      given.has .strict = false ∧ given.has .loose = false := by
  have hmem : ∀ s : Switch, s ∈ Verb.compile.switches →
      (s ∈ Verb.check.switches ↔ s ≠ .output ∧ s ≠ .emit ∧ s ≠ .strict ∧ s ≠ .loose) := by
    intro s
    cases s <;> decide
  simp only [has_eq_false_iff, ← forall₂_and]
  exact forall₂_congr fun o ho => hmem o.1 (h o ho)

end Given

def CheckRequest.toCompile (r : CheckRequest) : CompileRequest :=
  { input := r.input, target? := r.target?, settings? := r.settings? }

namespace Command

theorem strictnessOf_eq_none_iff {given : Given} :
    strictnessOf given = none ↔ given.has .strict = false ∧ given.has .loose = false := by
  unfold strictnessOf
  split_ifs <;> simp_all

theorem ofGiven_check_iff {own : Given} {r : CheckRequest} (h : own.Within Verb.compile.switches) :
    ofGiven own .check = .ok (.check r) ∧ own.Within Verb.check.switches ↔
      ofGiven own .compile = .ok (.compile r.toCompile) := by
  rw [Given.within_check_iff h, ofGiven, ofGiven]
  cases own.words with
  | nil =>
    split_ifs <;> simp
  | cons input rest =>
    obtain ⟨input', target', settings'⟩ := r
    split_ifs with hboth
    · simp [hboth]
    · simp only [CheckRequest.toCompile, Except.ok.injEq, check.injEq, compile.injEq,
        CheckRequest.mk.injEq, CompileRequest.mk.injEq, Given.value?_eq_none_iff,
        strictnessOf_eq_none_iff]
      tauto

end Command

/-! ### Whole command lines -/

theorem widens_check : (Grammar.ofVerb .compile).Widens (Grammar.ofVerb .check) :=
  ⟨by decide, rfl⟩

namespace Invocation

theorem readTop_verb_iff {given : Given} {v : Verb} {words : List Text} {i : Invocation} :
    readTop given (v.name :: words) = .ok i ↔
      ∃ own, (Grammar.ofVerb v).read {} none words = .ok own ∧
        Command.ofGiven own v = .ok i.command ∧
        i.verbose = (given.has .verbose || own.has .verbose) := by
  have hv : (Verb.all.find? fun v' => v'.name = v.name) = some v := by
    cases v <;> decide
  rw [readTop.eq_def]
  dsimp only
  rw [hv]
  dsimp only
  cases (Grammar.ofVerb v).read {} none words with
  | error stop => simp
  | ok own =>
    simp only [Except.ok.injEq, exists_eq_left']
    cases Command.ofGiven own v with
    | error stop => simp
    | ok command =>
      obtain ⟨verbose, command'⟩ := i
      simp only [Except.ok.injEq, mk.injEq]
      exact ⟨fun h => ⟨h.2, h.1.symm⟩, fun h => ⟨h.2.symm, h.1⟩⟩

def IsFront (front : List Text) : Prop :=
  ∀ word ∈ front, Grammar.isOption word = true ∧ word ≠ ("--" : Text)

instance (front : List Text) : Decidable (IsFront front) :=
  inferInstanceAs (Decidable (∀ word ∈ front, Grammar.isOption word = true ∧ word ≠ ("--" : Text)))

/-- An option in front of a command is read by itself, and what follows it is read afterwards. -/
theorem readTop_option {word : Text} (hoption : Grammar.isOption word = true)
    (hdashes : word ≠ ("--" : Text)) (given : Given) (words : List Text) :
    (∀ stop, Grammar.top.readWord given word = .error stop →
        readTop given (word :: words) = .error stop) ∧
      ∀ r, Grammar.top.readWord given word = .ok r →
        readTop given (word :: words) = readTop r.1 words := by
  -- no command is spelled as an option
  have hverb : (Verb.all.find? fun v => v.name = word) = none := by
    rw [List.find?_eq_none]
    intro v _ hname
    rw [decide_eq_true_eq] at hname
    subst hname
    cases v <;> cases hoption
  have hhelp : word ≠ ("help" : Text) := by
    rintro rfl
    cases hoption
  rw [readTop.eq_def]
  dsimp only
  rw [hverb]
  dsimp only
  rw [if_neg hhelp, if_neg hdashes, if_pos hoption]
  constructor
  · intro stop hword
    rw [hword]
  · intro r hword
    rw [hword]

/-- Options in front of a command are read in the same way whatever the command is. -/
theorem exists_readTop_front {front : List Text} (h : IsFront front) (given : Given) :
    (∃ stop, ∀ rest, readTop given (front ++ rest) = .error stop) ∨
      ∃ given', ∀ rest, readTop given (front ++ rest) = readTop given' rest := by
  induction front generalizing given with
  | nil => exact .inr ⟨given, fun rest => rfl⟩
  | cons word front ih =>
    obtain ⟨hoption, hdashes⟩ := h word (by simp)
    have hstep := fun rest => readTop_option hoption hdashes given (front ++ rest)
    cases hword : Grammar.top.readWord given word with
    | error stop => exact .inl ⟨stop, fun rest => (hstep rest).1 stop hword⟩
    | ok r =>
      simp only [List.cons_append, fun rest => (hstep rest).2 r hword]
      exact ih (fun w hw => h w (by simp [hw])) r.1

/-- A command line that checks a file has the same words as one that compiles it, without options
that are only for that. -/
theorem ofWords_check_iff {front words : List Text} (h : IsFront front) {verbose : Bool}
    {r : CheckRequest} :
    ofWords (front ++ Verb.check.name :: words) = .ok ⟨verbose, .check r⟩ ↔
      ofWords (front ++ Verb.compile.name :: words) = .ok ⟨verbose, .compile r.toCompile⟩ := by
  rw [ofWords, ofWords]
  rcases exists_readTop_front h {} with ⟨stop, hfront⟩ | ⟨given, hfront⟩
  · simp [hfront]
  · rw [hfront, hfront, readTop_verb_iff, readTop_verb_iff]
    refine exists_congr fun own => ?_
    have hread : (Grammar.ofVerb .check).read {} none words = .ok own ↔
        (Grammar.ofVerb .compile).read {} none words = .ok own ∧ own.Within Verb.check.switches :=
      Grammar.read_start_iff widens_check
    rw [hread, and_assoc]
    refine and_congr_right fun hcompile => ?_
    rw [← Command.ofGiven_check_iff (Grammar.within_of_read hcompile)]
    tauto

end Invocation

end Pseudocode.CommandLine
