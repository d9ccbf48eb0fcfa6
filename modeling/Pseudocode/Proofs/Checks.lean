import Mathlib
import Pseudocode.Compilation

/-!
# Checks come before changes

A handler checks a statement and changes the progress as it goes along. No handler makes a check
behind its first change, so one that refuses a statement has changed nothing
(`Handling.spares_handle`). There are two places where this is not seen from the order alone. An
`end` is refused after the innermost block has been taken off, but only if there was none. A drawing
that the language does not have is handled as no instruction at all, and could be refused behind the
change that opens the window, but every language that takes the word for a drawing can draw it
(`Target.exists_drawing`).

The handling of a statement can therefore be told in three parts: what is wrong with the statement,
the progress behind it, and its text (`Handling.run_handle`).
-/
namespace Pseudocode

namespace Form

/-- The kind of block that the statement adds to the nesting. A function without a result is a
procedure. -/
def opens? (args : List Text) : Form → Option BlockKind
  | forRange => some .forRange
  | forEach => some .forEach
  | whileCond => some .whileCond
  | ifCond => some .ifElse
  | switch => some .switch
  | case => some .case
  | default => some .default
  | function => some (if args.head? = some ("void" : Text) then .procedure else .function)
  | _ => none

def arity (args : List Text) : Form → Arity
  | declaration => if args[1]? = some ['='] then .atLeast 3 else .atLeast 1
  | forRange => .between 3 4
  | forEach => .exactly 3
  | whileCond | ifCond | elseIf | switch | case | record => .atLeast 1
  | input | quit => .exactly 1
  | function | init => .atLeast 2
  | array => .atLeast 3
  | draw op => op.arity
  | _ => .any

end Form

namespace Nesting

/-- Why a statement may not stand in the open blocks. A branch belongs to the innermost block, a
case may be anywhere inside a `switch`. -/
def misplacement? (n : Nesting) : Form → Option Misplacement
  | .elseIf | .otherwise => if n.topKind? = some .ifElse then none else some .notInIf
  | .case | .default => if n.contains .switch then none else some .notInSwitch
  | .returns =>
    if n.contains .procedure then some .withinProcedure
    else if n.contains .function then none
    else some .notInFunction
  | _ => none

end Nesting

namespace Statement

def countObjection? (s : Statement) (form : Form) : Option Cause :=
  let arity := form.arity s.args
  if arity.accepts s.args.length then none
  else if form = .array then some (.incomplete s.head "does not have all its parameters set")
  else some (.argumentCount s.head arity s.args.length)

end Statement

namespace Progress

def enter (p : Progress) (form : Form) : Progress :=
  if form.givesBody then { p with nesting := p.nesting.giveBody } else p

/-- What is wrong with a statement. Its place is looked at before its arguments are counted. -/
def objection? (strict : Bool) (p : Progress) (s : Statement) (form : Form) : Option Cause :=
  match p.nesting.misplacement? form with
  | some reason => some (.misplaced s.head reason)
  | none =>
    match form with
    | .blockEnd => if p.nesting.isEmpty then some .strayEnd else none
    | .other => if strict && !s.isPlain then some (.unknownHead s.head) else none
    | .draw op =>
      if op ≠ .openWindow ∧ !p.hasWindow then some (.noWindow s.head)
      else s.countObjection? form
    | _ => s.countObjection? form

def after (p : Progress) (s : Statement) (form : Form) : Progress :=
  match form with
  | .elseIf | .otherwise => { p with nesting := p.nesting.startBranch }
  | .blockEnd =>
    match p.nesting with
    | [] => p
    | b :: outer => { p with nesting := outer, closed? := some b.kind }
  | .record => { p with usage := { p.usage with records := true } }
  | .draw .openWindow => { p with hasWindow := true, usage := { p.usage with window := true } }
  | _ =>
    match form.opens? s.args with
    | some kind => { p with nesting := p.nesting.push kind s.line.index }
    | none => p

end Progress

namespace Target

/-- The text behind which a branch of a block ends. In a language where a branch needs a statement,
one is put in front of the text, a level deeper, if there is none. -/
def endBranch (t : Target) (b : Block) (text : Text) : Text :=
  if b.hasBody then text
  else
    match t.emptyBody? b.kind with
    | none => text
    | some body => if text.isEmpty then body.deeper else body.deeper ++ "\n" ++ text

def wording (t : Target) (n : Nesting) (s : Statement) (form : Form) : Text :=
  match form, n with
  | .blockEnd, b :: _ => t.endBranch b (t.spell (.blockEnd b.kind))
  | .elseIf, b :: _ | .otherwise, b :: _ => t.endBranch b (t.spell (s.phrase t form))
  | .draw op, _ => (t.drawing? op s.args).getD (t.spell (s.phrase t form))
  | _, _ => t.spell (s.phrase t form)

end Target

/-- The body of an empty branch, one level deeper and on lines of its own, in front of a text. -/
def Python.fillerBefore (kind : BlockKind) (text : Text) : Text :=
  (Python.emptyBody kind).deeper ++ if text = [] then [] else '\n' :: text

theorem Target.endBranch_eq (t : Target) (b : Block) (text : Text) :
    t.endBranch b text =
      if t = .python ∧ b.hasBody = false then Python.fillerBefore b.kind text else text := by
  unfold endBranch
  cases hb : b.hasBody with
  | true => simp
  | false => cases t <;> cases text <;> simp [emptyBody?, Python.fillerBefore]

/-- Nothing but the body of an empty branch is put in front of what ends it. -/
theorem Target.endBranch_cases (t : Target) (b : Block) (text : Text) :
    t.endBranch b text = text ∨
      t = .python ∧ t.endBranch b text = Python.fillerBefore b.kind text := by
  rw [endBranch_eq]
  split_ifs with h
  · exact .inr ⟨h.1, rfl⟩
  · exact .inl rfl

theorem Arity.accepts_atLeast (least n : Nat) : (atLeast least).accepts n = decide (least ≤ n) :=
  Bool.and_true _

/-! ### The order of checks and changes -/

namespace Handling

variable {α β : Type} {h : Handling α} {f : α → Handling β}

def IsCheck (h : Handling α) : Prop :=
  ∀ p, (∃ a, h.run p = .ok a p) ∨ ∃ cause, h.run p = .error cause p

def IsChange (h : Handling α) : Prop := ∀ p, ∃ a q, h.run p = .ok a q

/-- What ends the handling finds the progress as it was. -/
def Spares (h : Handling α) : Prop := ∀ p cause q, h.run p = .error cause q → q = p

theorem IsChange.spares (hh : IsChange h) : Spares h := by
  intro p cause q heq
  obtain ⟨a, r, hok⟩ := hh p
  rw [hok] at heq
  cases heq

theorem IsChange.bind (hh : IsChange h) (hf : ∀ a, IsChange (f a)) : IsChange (h >>= f) := by
  intro p
  obtain ⟨a, q, hok⟩ := hh p
  obtain ⟨b, r, hnext⟩ := hf a q
  exact ⟨b, r, by rw [EStateM.run_bind, hok, ← hnext]⟩

theorem IsCheck.bind (hh : IsCheck h) (hf : ∀ a, IsCheck (f a)) : IsCheck (h >>= f) := by
  intro p
  rw [EStateM.run_bind]
  rcases hh p with ⟨a, hok⟩ | ⟨cause, herr⟩
  · rw [hok]
    exact hf a p
  · rw [herr]
    exact .inr ⟨cause, rfl⟩

/-- A check may stand in front of whatever spares the progress. -/
theorem IsCheck.spares_bind (hh : IsCheck h) (hf : ∀ a, Spares (f a)) : Spares (h >>= f) := by
  intro p cause q heq
  rw [EStateM.run_bind] at heq
  rcases hh p with ⟨a, hok⟩ | ⟨other, herr⟩
  · rw [hok] at heq
    exact hf a p cause q heq
  · rw [herr] at heq
    cases heq
    rfl

/-- Changes may stand behind whatever spares the progress. -/
theorem Spares.bind (hh : Spares h) (hf : ∀ a, IsChange (f a)) : Spares (h >>= f) := by
  intro p cause q heq
  rw [EStateM.run_bind] at heq
  cases hrun : h.run p with
  | ok a r =>
    obtain ⟨b, t, hok⟩ := hf a r
    rw [hrun] at heq
    cases hok.symm.trans heq
  | error other r =>
    rw [hrun] at heq
    cases heq
    exact hh p cause q hrun

theorem isChange_pure (a : α) : IsChange (pure a : Handling α) := fun p => ⟨a, p, rfl⟩

theorem isChange_modify (g : Progress → Progress) : IsChange (modify g : Handling Unit) :=
  fun p => ⟨(), g p, rfl⟩

theorem isChange_modifyGet (g : Progress → α × Progress) : IsChange (modifyGet g : Handling α) :=
  fun p => ⟨(g p).1, (g p).2, rfl⟩

theorem isCheck_get : IsCheck (get : Handling Progress) := fun p => .inl ⟨p, rfl⟩

theorem isCheck_require (holds : Bool) (cause : Cause) : IsCheck (require holds cause) := by
  intro p
  cases holds with
  | true => exact .inl ⟨(), rfl⟩
  | false => exact .inr ⟨cause, rfl⟩

section Handlers

variable (setup : Setup) (s : Statement)

theorem isCheck_requireCount (arity : Arity) : IsCheck (requireCount s arity) := isCheck_require _ _

theorem isCheck_requireIf : IsCheck (requireIf s) := isCheck_get.bind fun _ => isCheck_require _ _

theorem isCheck_requireSwitch : IsCheck (requireSwitch s) :=
  isCheck_get.bind fun _ => isCheck_require _ _

theorem spares_counted (form : Form) (arity : Arity) : Spares (counted setup s form arity) :=
  (isCheck_requireCount s arity).spares_bind fun _ => (isChange_pure _).spares

theorem spares_opening (form : Form) (arity : Arity) (kind : BlockKind) :
    Spares (opening setup s form arity kind) :=
  (isCheck_requireCount s arity).spares_bind fun _ =>
    ((isChange_modify _).bind fun _ => isChange_pure _).spares

theorem spares_declaration : Spares (declaration setup s) := by
  refine (isCheck_requireCount s _).spares_bind fun _ => ?_
  dsimp only
  split_ifs
  · exact (isCheck_requireCount s _).spares_bind fun _ => (isChange_pure _).spares
  · exact (isChange_pure _).spares

theorem isChange_branch (header : Text) : IsChange (branch setup header) := by
  refine (isChange_modifyGet _).bind fun hasBody => ?_
  split_ifs
  · exact isChange_pure _
  · cases setup.target.emptyBody? .ifElse <;> exact isChange_pure _

theorem spares_elseIf : Spares (elseIf setup s) :=
  (isCheck_requireIf s).spares_bind fun _ =>
    (isCheck_requireCount s _).spares_bind fun _ => (isChange_branch setup _).spares

theorem spares_otherwise : Spares (otherwise setup s) :=
  (isCheck_requireIf s).spares_bind fun _ => (isChange_branch setup _).spares

theorem spares_case : Spares (case setup s) :=
  (isCheck_requireSwitch s).spares_bind fun _ => spares_opening setup s _ _ _

theorem spares_default : Spares (default setup s) :=
  (isCheck_requireSwitch s).spares_bind fun _ =>
    ((isChange_modify _).bind fun _ => isChange_pure _).spares

theorem run_blockEnd (p : Progress) :
    (blockEnd setup).run p =
      match p.nesting with
      | [] => .error .strayEnd p
      | b :: outer =>
        .ok (setup.target.endBranch b (setup.target.spell (.blockEnd b.kind)))
          { p with nesting := outer, closed? := some b.kind } := by
  rw [blockEnd, EStateM.run_bind, closeBlock, EStateM.run_modifyGet]
  cases hn : p.nesting with
  | nil => rfl
  | cons b outer =>
    dsimp only
    rw [EStateM.run_bind, EStateM.run_modify, Target.endBranch]
    dsimp only
    cases b.hasBody with
    | true => rfl
    | false => cases setup.target.emptyBody? b.kind <;> rfl

/-- There is nothing to close where an `end` is refused. -/
theorem spares_blockEnd : Spares (blockEnd setup) := by
  intro p cause q heq
  rw [run_blockEnd] at heq
  split at heq <;> cases heq
  rfl

theorem spares_function : Spares (function setup s) := spares_opening setup s _ _ _

theorem spares_returns : Spares (returns setup s) :=
  isCheck_get.spares_bind fun _ =>
    (isCheck_require _ _).spares_bind fun _ =>
      (isCheck_require _ _).spares_bind fun _ => (isChange_pure _).spares

theorem spares_array : Spares (array setup s) :=
  (isCheck_require _ _).spares_bind fun _ => (isChange_pure _).spares

theorem spares_record : Spares (record setup s) :=
  (isCheck_requireCount s _).spares_bind fun _ =>
    ((isChange_modify _).bind fun _ => isChange_pure _).spares

theorem spares_other : Spares (other setup s) :=
  (isCheck_require _ _).spares_bind fun _ => (isChange_pure _).spares

theorem spares_draw {op : Drawing} {text : Text}
    (hdraw : setup.target.drawing? op s.args = some text) : Spares (draw setup s op) := by
  refine isCheck_get.spares_bind fun p => (isCheck_require _ _).spares_bind fun _ =>
    (isCheck_requireCount s _).spares_bind fun _ => ?_
  rw [hdraw]
  dsimp only
  split_ifs
  · exact ((isChange_modify _).bind fun _ => isChange_pure _).spares
  · exact (isChange_pure _).spares

end Handlers

end Handling

/-- A language that takes a word for a drawing can draw it. -/
theorem Target.exists_drawing {t : Target} {s : Statement} {op : Drawing}
    (h : s.form t = .draw op) (args : List Text) : ∃ text, t.drawing? op args = some text := by
  have ht : t.hasDrawing = true := by
    unfold Statement.form at h
    split at h
    · cases h
    split at h
    · cases h
    split at h
    · cases h
    split at h
    · split at h
      · assumption
      · cases h
    · next hother _ => exact absurd h (hother op)
    · split at h <;> cases h
  cases t with
  | python => cases ht
  | cpp | algorithmic => exact ⟨_, rfl⟩

theorem Nesting.exists_of_topKind {n : Nesting} {kind : BlockKind} (h : n.topKind? = some kind) :
    ∃ b outer, n = b :: outer ∧ b.kind = kind := by
  cases n with
  | nil => cases h
  | cons b outer => exact ⟨b, outer, rfl, Option.some.inj h⟩

namespace Handling

theorem spares_handle (setup : Setup) (s : Statement) :
    Spares (handle setup s (s.form setup.target)) := by
  cases hf : s.form setup.target with
  | blank | functionBody | comment | print | note => exact (isChange_pure _).spares
  | declaration => exact spares_declaration setup s
  | forRange | forEach | whileCond | ifCond | switch => exact spares_opening setup s _ _ _
  | elseIf => exact spares_elseIf setup s
  | otherwise => exact spares_otherwise setup s
  | case => exact spares_case setup s
  | default => exact spares_default setup s
  | blockEnd => exact spares_blockEnd setup
  | input | quit | init => exact spares_counted setup s _ _
  | function => exact spares_function setup s
  | returns => exact spares_returns setup s
  | array => exact spares_array setup s
  | record => exact spares_record setup s
  | draw op =>
    obtain ⟨text, hdraw⟩ := Target.exists_drawing hf s.args
    exact spares_draw setup s hdraw
  | other => exact spares_other setup s

/-- A statement that counts for the block around it does so before it is handled. -/
theorem run_line (setup : Setup) (s : Statement) (p : Progress) :
    (line setup s).run p =
      (do
        let text ← handle setup s (s.form setup.target)
        let q ← get
        return q.place setup (s.form setup.target) text s.line.range : Handling OutputLine).run
          (p.enter (s.form setup.target)) := by
  unfold line Progress.enter
  dsimp only
  split_ifs <;> rfl

/-- A line that is refused leaves behind what it counts for, and nothing else. -/
theorem eq_enter_of_run_line {setup : Setup} {s : Statement} {p q : Progress} {cause : Cause}
    (h : (line setup s).run p = .error cause q) : q = p.enter (s.form setup.target) := by
  rw [run_line] at h
  refine (spares_handle setup s).bind (fun text => ?_) _ cause q h
  exact fun r => ⟨_, r, rfl⟩

/-! ### The handling of a statement in one piece -/

section Runs

variable (setup : Setup) (s : Statement) (p : Progress)

theorem run_require_bind {α : Type} (holds : Bool) (cause : Cause) (f : Unit → Handling α) :
    (require holds cause >>= f).run p = if holds then (f ()).run p else .error cause p := by
  cases holds <;> rfl

theorem run_requireCount_bind {α : Type} (form : Form) (h : form ≠ .array)
    (f : Unit → Handling α) :
    (requireCount s (form.arity s.args) >>= f).run p =
      match s.countObjection? form with
      | some cause => .error cause p
      | none => (f ()).run p := by
  rw [requireCount, run_require_bind, Statement.countObjection?, if_neg h]
  split_ifs <;> rfl

theorem run_requireIf_bind {α : Type} (f : Unit → Handling α) :
    (requireIf s >>= f).run p =
      if p.nesting.topKind? = some .ifElse then (f ()).run p
      else .error (.misplaced s.head .notInIf) p := by
  have hrun : (requireIf s >>= f).run p =
      (require (p.nesting.topKind? == some .ifElse) (.misplaced s.head .notInIf) >>= f).run p := rfl
  rw [hrun, run_require_bind]
  simp only [beq_iff_eq]

theorem run_requireSwitch_bind {α : Type} (f : Unit → Handling α) :
    (requireSwitch s >>= f).run p =
      if p.nesting.contains .switch then (f ()).run p
      else .error (.misplaced s.head .notInSwitch) p :=
  run_require_bind p (p.nesting.contains .switch) (.misplaced s.head .notInSwitch) f

theorem run_declaration :
    (declaration setup s).run p =
      match s.countObjection? .declaration with
      | some cause => .error cause p
      | none => .ok (spelled setup s .declaration) p := by
  rw [declaration]
  by_cases heq : s.args[1]? = some ['=']
  · -- an equals sign is an argument itself, so the first count is passed
    have hfirst : (Arity.atLeast 1).accepts s.args.length = true := by
      have hlen := (List.getElem?_eq_some_iff.mp heq).1
      rw [Arity.accepts_atLeast, decide_eq_true_eq]
      omega
    have harity : Form.declaration.arity s.args = .atLeast 3 := if_pos heq
    simp only [if_pos heq]
    rw [requireCount, run_require_bind, if_pos hfirst, ← harity]
    exact run_requireCount_bind s p .declaration (by simp) _
  · have harity : Form.declaration.arity s.args = .atLeast 1 := if_neg heq
    simp only [if_neg heq]
    rw [← harity]
    exact run_requireCount_bind s p .declaration (by simp) _

theorem isEmpty_header {form : Form} (h : form = .elseIf ∨ form = .otherwise) :
    (spelled setup s form).isEmpty = false := by
  rcases h with rfl | rfl <;> rw [spelled] <;> cases setup.target <;> rfl

theorem run_branch {form : Form} (hf : form = .elseIf ∨ form = .otherwise)
    (htop : p.nesting.topKind? = some .ifElse) :
    (branch setup (spelled setup s form)).run p =
      .ok (setup.target.wording p.nesting s form) (p.after s form) := by
  have hne := isEmpty_header setup s hf
  obtain ⟨b, outer, hn, hb⟩ := Nesting.exists_of_topKind htop
  have hafter : p.after s form = { p with nesting := p.nesting.startBranch } := by
    rcases hf with rfl | rfl <;> rfl
  have hword : setup.target.wording p.nesting s form =
      setup.target.endBranch b (spelled setup s form) := by
    rw [hn]
    rcases hf with rfl | rfl <;> rfl
  rw [hafter, hword, branch, EStateM.run_bind, startBranch, EStateM.run_modifyGet, Target.endBranch,
    hn, hb, hne]
  cases hbody : b.hasBody with
  | true => simp [Nesting.hasBody, hbody]
  | false => cases setup.target.emptyBody? .ifElse <;> simp [Nesting.hasBody, hbody]

theorem run_returns :
    (returns setup s).run p =
      match p.nesting.misplacement? .returns with
      | some reason => .error (.misplaced s.head reason) p
      | none => .ok (spelled setup s .returns) p := by
  have hrun : (returns setup s).run p =
      (require (!p.nesting.contains .procedure) (.misplaced s.head .withinProcedure) >>= fun _ =>
        require (p.nesting.contains .function) (.misplaced s.head .notInFunction) >>= fun _ =>
          return spelled setup s .returns).run p := rfl
  rw [hrun, run_require_bind, run_require_bind, Nesting.misplacement?]
  cases p.nesting.contains .procedure <;> cases p.nesting.contains .function <;> rfl

theorem run_array :
    (array setup s).run p =
      match s.countObjection? .array with
      | some cause => .error cause p
      | none => .ok (spelled setup s .array) p := by
  rw [array, run_require_bind, Statement.countObjection?, Form.arity, Arity.accepts_atLeast,
    if_pos (rfl : Form.array = .array)]
  split_ifs <;> rfl

theorem run_other :
    (other setup s).run p =
      if setup.strict && !s.isPlain then .error (.unknownHead s.head) p
      else .ok (spelled setup s .other) p := by
  rw [other, run_require_bind]
  cases setup.strict <;> cases s.isPlain <;> rfl

theorem run_draw {op : Drawing} {text : Text} (hdraw : setup.target.drawing? op s.args = some text) :
    (draw setup s op).run p =
      if op ≠ .openWindow ∧ !p.hasWindow then .error (.noWindow s.head) p
      else
        match s.countObjection? (.draw op) with
        | some cause => .error cause p
        | none => .ok text (p.after s (.draw op)) := by
  rw [draw, EStateM.run_bind, EStateM.run_get]
  dsimp only
  rw [run_require_bind]
  by_cases hop : op = .openWindow
  · subst hop
    refine (run_requireCount_bind s p (.draw .openWindow) (by simp) _).trans ?_
    rw [hdraw]
    rfl
  · have hafter : p.after s (.draw op) = p := by
      cases op with
      | openWindow => exact absurd rfl hop
      | _ => rfl
    rw [hafter, hdraw, beq_eq_false_iff_ne.mpr hop, Bool.false_or]
    simp only [hop, ne_eq, not_false_eq_true, true_and, if_false]
    cases p.hasWindow with
    | true => exact run_requireCount_bind s p (.draw op) (by simp) _
    | false => rfl

end Runs

/-- The handling of a statement, told by what is wrong with it, the progress behind it and its
text. -/
theorem run_handle (setup : Setup) (s : Statement) (p : Progress) :
    (handle setup s (s.form setup.target)).run p =
      match p.objection? setup.strict s (s.form setup.target) with
      | some cause => .error cause p
      | none => .ok (setup.target.wording p.nesting s (s.form setup.target))
          (p.after s (s.form setup.target)) := by
  cases hf : s.form setup.target with
  | blank | functionBody | comment | print | note => rfl
  | declaration => exact run_declaration setup s p
  | forRange => exact run_requireCount_bind s p .forRange (by simp) _
  | forEach => exact run_requireCount_bind s p .forEach (by simp) _
  | whileCond => exact run_requireCount_bind s p .whileCond (by simp) _
  | ifCond => exact run_requireCount_bind s p .ifCond (by simp) _
  | switch => exact run_requireCount_bind s p .switch (by simp) _
  | input => exact run_requireCount_bind s p .input (by simp) _
  | quit => exact run_requireCount_bind s p .quit (by simp) _
  | init => exact run_requireCount_bind s p .init (by simp) _
  | function => exact run_requireCount_bind s p .function (by simp) _
  | record => exact run_requireCount_bind s p .record (by simp) _
  | elseIf =>
    rw [handle, elseIf, run_requireIf_bind]
    simp only [Progress.objection?, Nesting.misplacement?]
    split_ifs with htop
    · rw [← run_branch setup s p (.inl rfl) htop]
      exact run_requireCount_bind s p .elseIf (by simp) _
    · rfl
  | otherwise =>
    rw [handle, otherwise, run_requireIf_bind]
    simp only [Progress.objection?, Nesting.misplacement?]
    split_ifs with htop
    · exact run_branch setup s p (.inr rfl) htop
    · rfl
  | case =>
    rw [handle, case, run_requireSwitch_bind]
    simp only [Progress.objection?, Nesting.misplacement?]
    split_ifs
    · exact run_requireCount_bind s p .case (by simp) _
    · rfl
  | default =>
    rw [handle, default, run_requireSwitch_bind]
    simp only [Progress.objection?, Nesting.misplacement?]
    split_ifs <;> rfl
  | blockEnd =>
    rw [handle, run_blockEnd, Progress.objection?, Progress.after]
    cases hn : p.nesting <;> rfl
  | returns =>
    rw [handle, run_returns]
    simp only [Progress.objection?]
    cases p.nesting.misplacement? .returns <;> rfl
  | array => exact run_array setup s p
  | draw op =>
    obtain ⟨text, hdraw⟩ := Target.exists_drawing hf s.args
    have hword : setup.target.wording p.nesting s (.draw op) = text := by
      rw [Target.wording, hdraw]
      rfl
    rw [handle, run_draw setup s p hdraw, hword]
    simp only [Progress.objection?, Nesting.misplacement?]
    split_ifs <;> rfl
  | other =>
    rw [handle, run_other]
    simp only [Progress.objection?, Nesting.misplacement?]
    split_ifs <;> rfl

end Handling

theorem Progress.step_of_ok {line : SourceLine} {s : Statement} (h : Statement.ofLine line = .ok s)
    (setup : Setup) (p : Progress) :
    p.step setup line =
      let form := s.form setup.target
      let entered := p.enter form
      match entered.objection? setup.strict s form with
      | some cause => (entered, ⟨.empty line.range, some ⟨line.number, line.range, cause⟩⟩)
      | none =>
        let next := entered.after s form
        let text := setup.target.wording entered.nesting s form
        (next, ⟨next.place setup form text s.line.range, none⟩) := by
  simp only [step, h, Handling.run_line, EStateM.run_bind, Handling.run_handle]
  cases (p.enter (s.form setup.target)).objection? setup.strict s (s.form setup.target) <;> rfl

end Pseudocode
