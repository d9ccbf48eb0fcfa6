import Pseudocode.CommandLine.Report
import Pseudocode.Proofs.Arguments

/-!
# What a command leaves behind

A command that compiles a file first finds its settings and its source, and then writes what the
compilation yields. Until then nothing has been printed or saved (`runCompile_cases`). A command that
checks a file goes the same way up to that point, and fails for the same reason (`problem_runCheck`).
-/
namespace Pseudocode.CommandLine

/-- What the compilation of a file yields. The target on the command line comes before that of the
settings, and the strictness on the command line before that of the settings, before the usual one of
the target. -/
def Yields (folder : Folder) (r : CompileRequest) (result : Except Fault Text) : Prop :=
  ∃ settings source, findSettings folder r.settings? = .ok settings ∧
    folder.read? r.input = some source ∧
    let target := r.target?.getD settings.target
    let strict := r.strict?.getD (settings.strict?.getD target.usuallyStrict)
    compile target { unit := settings.unit, strict? := some strict } source = result

theorem result_chooseSetup (target? : Option Target) (strict? : Option Bool) (settings : Settings)
    (source : Text) :
    (Compilation.ofSource (chooseSetup target? strict? settings) source).result
        (chooseSetup target? strict? settings) =
      compile (target?.getD settings.target)
        { unit := settings.unit
          strict? := some (strict?.getD
            (settings.strict?.getD (target?.getD settings.target).usuallyStrict)) } source := by
  have hsetup : chooseSetup target? strict? settings = Setup.ofOptions (target?.getD settings.target)
      { unit := settings.unit
        strict? := some (strict?.getD
          (settings.strict?.getD (target?.getD settings.target).usuallyStrict)) } := by
    cases strict? with
    | none => rfl
    | some strict => rfl
  rw [hsetup, compile]

theorem exitCode_of_loadSettings {folder : Folder} {path : Text} {problem : Problem}
    (h : loadSettings folder path = .error problem) : problem.exitCode = 1 := by
  unfold loadSettings at h
  split at h
  · cases h
    rfl
  · split at h <;> cases h
    rfl

theorem exitCode_of_findSettings {folder : Folder} {path? : Option Text} {problem : Problem}
    (h : findSettings folder path? = .error problem) : problem.exitCode = 1 := by
  cases path? with
  | some path => exact exitCode_of_loadSettings h
  | none =>
    rw [findSettings] at h
    split_ifs at h
    exact exitCode_of_loadSettings h

theorem Yields.unique {folder : Folder} {r : CompileRequest} {a b : Except Fault Text}
    (ha : Yields folder r a) (hb : Yields folder r b) : a = b := by
  obtain ⟨settings, source, hsettings, hsource, rfl⟩ := ha
  obtain ⟨settings', source', hsettings', hsource', rfl⟩ := hb
  cases hsettings.symm.trans hsettings'
  cases hsource.symm.trans hsource'
  rfl

/-- A command that compiles a file fails before the compilation or by a fault, or it delivers the
text. -/
theorem runCompile_cases (folder : Folder) {r : CompileRequest} (h : r.emitLines = false) :
    (∃ log problem, runCompile folder r = .failure log problem ∧ problem.exitCode = 1 ∧
        ∀ result, ¬ Yields folder r result) ∨
      (∃ log fault, runCompile folder r = .failure log (.fault fault) ∧
        Yields folder r (.error fault)) ∨
      ∃ log text, runCompile folder r = deliver folder log text r.output? ∧
        Yields folder r (.ok text) := by
  rw [runCompile]
  cases hsettings : findSettings folder r.settings? with
  | error problem =>
    refine .inl ⟨[], problem, rfl, exitCode_of_findSettings hsettings, ?_⟩
    rintro result ⟨settings, source, hfound, -⟩
    rw [hsettings] at hfound
    cases hfound
  | ok settings =>
    cases hsource : folder.read? r.input with
    | none =>
      refine .inl ⟨_, .sourceUnreadable r.input, rfl, rfl, ?_⟩
      rintro result ⟨settings, source, -, hfound, -⟩
      rw [hsource] at hfound
      cases hfound
    | some source =>
      have hyields := fun result hresult =>
        (⟨settings, source, hsettings, hsource, hresult⟩ : Yields folder r result)
      simp only [h, Bool.false_eq_true, if_false, result_chooseSetup]
      cases hresult : compile (r.target?.getD settings.target)
          { unit := settings.unit
            strict? := some (r.strict?.getD
              (settings.strict?.getD (r.target?.getD settings.target).usuallyStrict)) } source with
      | error fault => exact .inr (.inl ⟨_, fault, rfl, hyields _ hresult⟩)
      | ok text => exact .inr (.inr ⟨_, text, rfl, hyields _ hresult⟩)

theorem problem_runCheck (folder : Folder) (r : CheckRequest) :
    (runCheck folder r).problem? = (runCompile folder r.toCompile).problem? := by
  rw [runCheck, runCompile, CheckRequest.toCompile]
  cases findSettings folder r.settings? with
  | error problem => rfl
  | ok settings =>
    cases folder.read? r.input with
    | none => rfl
    | some source =>
      dsimp only
      simp only [Bool.false_eq_true, if_false]
      cases (Compilation.ofSource (chooseSetup r.target? none settings) source).result
        (chooseSetup r.target? none settings) <;> rfl

theorem exitCode_runCompile_iff (folder : Folder) {r : CompileRequest} (hemit : r.emitLines = false)
    (hout : r.output? = none) :
    (runCompile folder r).exitCode = 0 ↔ ∃ text, Yields folder r (.ok text) := by
  rcases runCompile_cases folder hemit with
    ⟨log, problem, hrun, hcode, hno⟩ | ⟨log, fault, hrun, hyields⟩ | ⟨log, text, hrun, hyields⟩
  · rw [hrun]
    refine iff_of_false ?_ fun ⟨text, h⟩ => hno _ h
    simp [Report.failure, Report.exitCode, hcode]
  · rw [hrun]
    refine iff_of_false (by simp [Report.failure, Report.exitCode, Problem.exitCode]) ?_
    rintro ⟨text, h⟩
    cases h.unique hyields
  · rw [hrun, hout]
    exact iff_of_true rfl ⟨text, hyields⟩

theorem runCompile_of_fault {folder : Folder} {r : CompileRequest} {fault : Fault}
    (hemit : r.emitLines = false) (h : Yields folder r (.error fault)) :
    ∃ log, runCompile folder r = .failure log (.fault fault) := by
  rcases runCompile_cases folder hemit with
    ⟨log, problem, hrun, hcode, hno⟩ | ⟨log, fault', hrun, hyields⟩ | ⟨log, text, hrun, hyields⟩
  · exact absurd h (hno _)
  · cases h.unique hyields
    exact ⟨log, hrun⟩
  · cases h.unique hyields

/-! ### Command lines -/

theorem run_of_ofWords {words : List Text} {i : Invocation}
    (h : Invocation.ofWords words = .ok i) (folder : Folder) :
    ∃ log, run folder words = { runCommand folder i.command with log := log } := by
  rw [run, h]
  exact ⟨_, rfl⟩

/-- The command lines that check a file are those that compile it without an output file, a listing
or a choice of strictness. Of two such lines one ends with success if the other does, which is when
the compilation yields a text. Whatever the options but a listing, a compilation that yields a fault
prints no text, and leaves all files as they are. -/
theorem run_agrees (folder : Folder) :
    (∀ (front words : List Text) (verbose : Bool) (r : CheckRequest), Invocation.IsFront front →
      (Invocation.ofWords (front ++ Verb.check.name :: words) = .ok ⟨verbose, .check r⟩ ↔
        Invocation.ofWords (front ++ Verb.compile.name :: words) =
          .ok ⟨verbose, .compile r.toCompile⟩) ∧
      (Invocation.ofWords (front ++ Verb.check.name :: words) = .ok ⟨verbose, .check r⟩ →
        ((run folder (front ++ Verb.check.name :: words)).exitCode = 0 ↔
          (run folder (front ++ Verb.compile.name :: words)).exitCode = 0) ∧
        ((run folder (front ++ Verb.compile.name :: words)).exitCode = 0 ↔
          ∃ text, Yields folder r.toCompile (.ok text)))) ∧
    ∀ (words : List Text) (verbose : Bool) (r : CompileRequest) (fault : Fault),
      Invocation.ofWords words = .ok ⟨verbose, .compile r⟩ → r.emitLines = false →
      Yields folder r (.error fault) →
      (run folder words).exitCode = 1 ∧ (run folder words).stdout = [] ∧
        (run folder words).filesAfter folder = folder := by
  constructor
  · intro front words verbose r hfront
    refine ⟨Invocation.ofWords_check_iff hfront, fun hcheck => ?_⟩
    have hcompile := (Invocation.ofWords_check_iff hfront).mp hcheck
    obtain ⟨_, hrunCheck⟩ := run_of_ofWords hcheck folder
    obtain ⟨_, hrunCompile⟩ := run_of_ofWords hcompile folder
    have hcode : (run folder (front ++ Verb.check.name :: words)).exitCode =
        (run folder (front ++ Verb.compile.name :: words)).exitCode := by
      rw [hrunCheck, hrunCompile]
      exact congrArg (·.elim 0 Problem.exitCode) (problem_runCheck folder r)
    rw [hcode, hrunCompile]
    exact ⟨Iff.rfl, exitCode_runCompile_iff folder rfl rfl⟩
  · intro words verbose r fault hwords hemit hyields
    obtain ⟨_, hrun⟩ := run_of_ofWords hwords folder
    obtain ⟨log, hfailure⟩ := runCompile_of_fault hemit hyields
    rw [hrun, runCommand, hfailure]
    exact ⟨rfl, rfl, rfl⟩

/-- A line that is no instruction, where the settings are loose and the command line is strict. -/
theorem run_agrees_strict :
    let folder := Folder.ofFiles [("p.algo", "hello world"), ("out.cpp", "old"),
      ("algoline.toml", "target = \"cpp\"\nstrict = false")]
    let fault : Fault := ⟨1, ⟨0, 11⟩, .unknownHead "hello"⟩
    (Invocation.ofWords ["-v", "check", "p.algo"] = .ok ⟨true, .check { input := "p.algo" }⟩ ∧
      ((run folder ["-v", "check", "p.algo"]).exitCode = 0 ↔
        (run folder ["-v", "compile", "p.algo"]).exitCode = 0) ∧
      (run folder ["-v", "check", "p.algo"]).exitCode = 0) ∧
    Invocation.ofWords ["compile", "p.algo", "--strict", "-o", "out.cpp"] = .ok ⟨false, .compile
      { input := "p.algo", output? := some "out.cpp", strict? := some true }⟩ ∧
    Yields folder { input := "p.algo", output? := some "out.cpp", strict? := some true }
      (.error fault) ∧
    (run folder ["compile", "p.algo", "--strict", "-o", "out.cpp"]).exitCode = 1 ∧
    (run folder ["compile", "p.algo", "--strict", "-o", "out.cpp"]).filesAfter folder = folder := by
  intro folder fault
  have hcheck : Invocation.ofWords ["-v", "check", "p.algo"] =
      .ok ⟨true, .check { input := "p.algo" }⟩ := by decide
  have hcompile : Invocation.ofWords ["compile", "p.algo", "--strict", "-o", "out.cpp"] =
      .ok ⟨false, .compile
        { input := "p.algo", output? := some "out.cpp", strict? := some true }⟩ := by decide
  have hyields : Yields folder { input := "p.algo", output? := some "out.cpp", strict? := some true }
      (.error fault) := by
    refine ⟨{ target := .cpp, strict? := some false }, "hello world", ?_, ?_, ?_⟩
    · decide
    · decide
    · decide
  obtain ⟨hagree, hfailed⟩ := run_agrees folder
  have hexit := ((hagree ["-v"] ["p.algo"] true { input := "p.algo" } (by decide)).2 hcheck).1
  obtain ⟨hcode, -, hfiles⟩ := hfailed _ false _ fault hcompile rfl hyields
  exact ⟨⟨hcheck, hexit, by decide⟩, hcompile, hyields, hcode, hfiles⟩

end Pseudocode.CommandLine
