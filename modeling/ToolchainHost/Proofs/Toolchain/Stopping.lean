import ToolchainHost.Proofs.Toolchain.Plans
import ToolchainHost.Proofs.Worker

/-!
# A failure stops the pipeline

A plan is broken off at the first task that fails. That task's stage is blamed, and the state it leaves is the last
one: nothing of what was planned after it has happened.

* `Engine.Unstaged`: an engine whose own failures name no stage.
* `BreaksOff`: how a plan ends that is not carried out.
* `Toolchain.pipeline_stops`: so end a source, a driver line and a request with several lines.
-/

namespace ToolchainHost

open Toolchain

variable {σ μ γ α β : Type} {engine : Engine σ μ γ}

/-- No failure of the engine itself names a stage. -/
structure Engine.Unstaged (engine : Engine σ μ γ) : Prop where
  compileNamed (name : String) : (engine.compileNamed name).Unstaged
  compileBytes (bytes : List UInt8) : (engine.compileBytes bytes).Unstaged
  instantiate (module : μ) : (engine.instantiate module).Unstaged
  memory {module : μ} {s s' : σ} {memory : Except Failure Memory} {code : γ}
    (h : engine.instantiate module s = .ok (memory, code) s') : ToolchainHost.Unstaged memory

/-- A plan that starts on a toolchain `t` is broken off: a task of it fails for some cause and leaves the toolchain
`t'`. All tasks before it were done, and none after it. -/
inductive BreaksOff (engine : Engine σ μ γ) (t : Toolchain σ μ) :
    List Task → Stage → (cause : Failure) → (t' : Toolchain σ μ) → Prop where
  | task {before after : List Task} {stage : Stage} {deed : Deed} {hand : Hand μ} {t1 t' : Toolchain σ μ}
      {cause : Failure} (hdone : performAll engine before {} t = .ok hand t1)
      (hfails : deed.perform engine hand t1 = .error cause t') :
      BreaksOff engine t (before ++ (stage, deed) :: after) stage cause t'

/-- The program whose guest a deed starts. -/
def Deed.program? : Deed → Option String
  | start program _ => some program
  | shown _ deed => deed.program?
  | _ => none

/-! ### Causes -/

section Causes

variable {P : Failure → Prop}

lemma Toolchain.failsOnly_onFiles {x : Op FileSystem α} (hx : x.FailsOnly P) :
    (onFiles x : Op (Toolchain σ μ) α).FailsOnly P := (hx.onPart _ _).onPart _ _

lemma Toolchain.failsOnly_whileShown {x : Op (Toolchain σ μ) α} (hx : x.FailsOnly P) (rewriter : Rewriter) :
    (whileShown rewriter x).FailsOnly P := by
  intro t e u h
  rw [whileShown_apply] at h
  cases hr : x (t.withRewriter (some rewriter)) with
  | ok a v =>
    rw [hr] at h
    cases h
  | error e' v =>
    rw [hr] at h
    cases h
    exact hx _ _ _ hr

/-- A guest that fails names no stage. -/
lemma Launch.unstaged_report (termination : Termination) : (report termination).Unstaged := by
  cases termination with
  | normal code => exact Op.failsOnly_pure _
  | trap trap => exact (Op.failsOnly_modify _).bind fun _ => Op.failsOnly_throw rfl
  | exit code =>
    exact Op.FailsOnly.ite (Op.failsOnly_pure _) ((Op.failsOnly_modify _).bind fun _ => Op.failsOnly_throw rfl)

variable (hengine : engine.Unstaged)
include hengine

lemma Toolchain.unstaged_getModule (name : String) : (getModule engine name).Unstaged := by
  refine Op.failsOnly_get.bind fun t => ?_
  cases t.cached? name with
  | some module => exact Op.failsOnly_pure _
  | none =>
    have hcompile : (onEngine (engine.compileNamed name) : Op (Toolchain σ μ) μ).Unstaged :=
      (hengine.compileNamed name).onPart _ _
    exact hcompile.bind fun _ => (Op.failsOnly_modify _).bind fun _ => Op.failsOnly_pure _

lemma Toolchain.unstaged_launch (module : μ) (program : String) (arguments : List String) :
    (launch engine module program arguments).Unstaged := by
  refine Op.failsOnly_get.bind fun t => (Op.failsOnly_set _).bind fun _ => Op.FailsOnly.onPart ?_ _ _
  have hinstantiate := Launch.failsOnly_instantiate (hengine.instantiate module) hengine.memory
  refine ((hinstantiate _).onPart _ _).bind fun i => Op.failsOnly_get.bind fun p => ?_
  refine (Op.failsOnly_set _).bind fun _ => ?_
  exact (Launch.unstaged_report _).onPart _ _

/-- No deed blames a stage for its failure. That is left to those who perform it. -/
lemma unstaged_perform (deed : Deed) (hand : Hand μ) :
    (deed.perform engine hand).Unstaged := by
  have hfiles {α : Type} {x : Op FileSystem α} (hx : x.Simple) : (onFiles x : Op (Toolchain σ μ) α).Unstaged :=
    failsOnly_onFiles hx.unstaged
  induction deed with
  | write path text =>
    exact (hfiles (FileSystem.simple_addFile _ _)).bind fun _ => Op.failsOnly_pure _
  | find path =>
    have hrequire : (require path : Op (Toolchain σ μ) Unit).Unstaged :=
      (hfiles (FileSystem.simple_fileExists path)).bind fun _ =>
        Op.FailsOnly.ite (Op.failsOnly_throw (P := (·.isStaged = false)) rfl) (Op.failsOnly_pure _)
    exact hrequire.bind fun _ => Op.failsOnly_pure _
  | identify source language =>
    exact Op.FailsOnly.ite (Op.failsOnly_throw_bind (P := (·.isStaged = false)) rfl _) (Op.failsOnly_pure _)
  | request name => exact (unstaged_getModule hengine name).bind fun _ => Op.failsOnly_pure _
  | start program arguments =>
    unfold Deed.perform
    cases hand.module? with
    | none => exact Op.failsOnly_throw rfl
    | some module =>
      exact (Op.failsOnly_modify _).bind fun _ => (unstaged_launch hengine _ _ _).bind fun _ => Op.failsOnly_pure _
  | read path => exact (hfiles (FileSystem.simple_contents _)).bind fun _ => Op.failsOnly_pure _
  | check =>
    have hcheck : Unstaged (Module.check hand.bytes) :=
      (Module.simple_check _).mono fun _ => Failure.isStaged_of_isSimple
    exact (Op.failsOnly_lift hcheck).bind fun _ => Op.failsOnly_pure _
  | compile =>
    have hcompile : (onEngine (engine.compileBytes hand.bytes) : Op (Toolchain σ μ) μ).Unstaged :=
      (hengine.compileBytes _).onPart _ _
    exact hcompile.bind fun _ => Op.failsOnly_pure _
  | shown rewriter deed ih => exact failsOnly_whileShown ih rewriter

end Causes

/-! ### Plans that are broken off -/

/-- A plan that fails does so at one of its tasks. -/
lemma exists_task_of_error {plan : List Task} {hand : Hand μ} {t t' : Toolchain σ μ} {e : Failure}
    (h : performAll engine plan hand t = .error e t') :
    ∃ before stage deed after hand' t1 cause, plan = before ++ (stage, deed) :: after ∧
      performAll engine before hand t = .ok hand' t1 ∧ deed.perform engine hand' t1 = .error cause t' ∧
      e = cause.inStage stage := by
  induction plan generalizing hand t with
  | nil => cases h
  | cons task plan ih =>
    rw [performAll_cons] at h
    obtain h | ⟨hand1, t1, hfirst, h⟩ := Op.bind_eq_error.1 h
    · obtain ⟨cause, hfails, he⟩ := Op.inStage_eq_error.1 h
      exact ⟨[], task.1, task.2, plan, hand, t, cause, rfl, rfl, hfails, he⟩
    · obtain ⟨before, stage, deed, after, hand', t2, cause, rfl, hdone, hfails, he⟩ := ih h
      refine ⟨task :: before, stage, deed, after, hand', t2, cause, rfl, ?_, hfails, he⟩
      rw [performAll_cons, Op.bind_of_ok hfirst, hdone]

/-- A plan that fails is broken off, and the stage of the failing task is blamed. -/
lemma breaksOff_of_error (hengine : engine.Unstaged) {plan : List Task} {t t' : Toolchain σ μ} {e : Failure}
    (h : performAll engine plan {} t = .error e t') :
    ∃ stage cause, e = .stageFailed stage cause ∧ cause.isStaged = false ∧ BreaksOff engine t plan stage cause t' := by
  obtain ⟨before, stage, deed, after, hand, t1, cause, rfl, hdone, hfails, rfl⟩ := exists_task_of_error h
  have hcause := unstaged_perform hengine deed hand _ _ _ hfails
  exact ⟨stage, cause, Failure.inStage_of_not_isStaged hcause stage, hcause, .task hdone hfails⟩

/-! ### Sources, lines and requests -/

/-- Operations that are run for each element of a list stop at the first that fails. -/
lemma Op.exists_of_forM_error {f : α → Op σ PUnit} {l : List α} {s t : σ} {e : Failure} (h : l.forM f s = .error e t) :
    ∃ before a after u, l = before ++ a :: after ∧ before.forM f s = .ok ⟨⟩ u ∧ f a u = .error e t := by
  induction l generalizing s with
  | nil => cases h
  | cons a l ih =>
    obtain h | ⟨_, u, hfirst, h⟩ := Op.bind_eq_error.1 h
    · exact ⟨[], a, l, s, rfl, rfl, h⟩
    · obtain ⟨before, b, after, v, rfl, hdone, hfails⟩ := ih h
      exact ⟨a :: before, b, after, v, rfl, (Op.bind_of_ok hfirst).trans hdone, hfails⟩

namespace Toolchain

section Follows

variable {P : α → β → Prop} {x : Op (Toolchain σ μ) α} {y : Op (Toolchain σ μ) β} {t t' : Toolchain σ μ} {e : Failure}
  {a : α}

lemma Follows.of_error (h : Follows t.config P x y) (hx : x t = .error e t') : y t = .error e t' := by
  obtain ⟨a, b, u, hx', -⟩ | ⟨e', u, hx', hy, -⟩ := h.cases rfl
  · cases hx.symm.trans hx'
  · cases hx.symm.trans hx'
    exact hy

lemma Follows.of_ok (h : Follows t.config P x y) (hx : x t = .ok a t') : ∃ b, y t = .ok b t' ∧ P a b := by
  obtain ⟨a', b, u, hx', hy, -, hp⟩ | ⟨e', u, hx', -⟩ := h.cases rfl
  · cases hx.symm.trans hx'
    exact ⟨b, hy, hp⟩
  · cases hx.symm.trans hx'

end Follows

/-- Three guests are planned for a source. -/
lemma programs_plan (config : Config) (source text : String) (arguments : List String) :
    (plan config source text arguments).filterMap (·.2.program?) =
      ["clang", "wasm-ld", Path.baseName (Path.binary source)] := rfl

/-- A failure on one of the sources ends the compilation of all of them. -/
lemma compileSources_of_failing {line : Command.DriverLine} {before after : List (String × Language)} {source : String}
    {language : Language} {objects : List String} {t t1 t' : Toolchain σ μ} {e : Failure}
    (hbefore : compileSources engine line before t = .ok objects t1)
    (hfails : compileFile engine source (objectFor line source) language line.optLevel t1 = .error e t') :
    compileSources engine line (before ++ (source, language) :: after) t = .error e t' := by
  induction before generalizing t objects with
  | nil =>
    cases hbefore
    exact Op.bind_of_error hfails
  | cons s before ih =>
    obtain ⟨_, u, hfirst, h⟩ := Op.bind_eq_ok.1 hbefore
    obtain ⟨rest, v, hrest, h⟩ := Op.bind_eq_ok.1 h
    cases h
    exact (Op.bind_of_ok hfirst).trans (Op.bind_of_error (ih hrest))

lemma drive_of_failing {language language' : Language} {arguments : List String} {line : Command.DriverLine}
    (hcc1 : arguments.contains "-cc1" = false) (hl : Command.DriverLine.parse language arguments = .ok line)
    {before after : List (String × Language)} {source : String} {objects : List String} {t t1 t' : Toolchain σ μ}
    {e : Failure} (hsources : line.sources = before ++ (source, language') :: after)
    (hbefore : compileSources engine line before t = .ok objects t1)
    (hfails : compileFile engine source (objectFor line source) language' line.optLevel t1 = .error e t') :
    drive engine language arguments t = .error e t' := by
  unfold drive
  rw [hcc1, hl]
  have hcompile : compileSources engine line line.sources t = .error e t' := by
    rw [hsources]
    exact compileSources_of_failing hbefore hfails
  exact Op.bind_of_error hcompile

end Toolchain

/-- A request with several lines ends at the first one that fails, or before all of them. -/
lemma Worker.runCommand_of_error {active : String} {lines : List String} {files : List SourceFile}
    {t t' : Toolchain σ μ} {e : Failure} (h : runCommand engine active lines files t = .error e t') :
    writeFiles files t = .error e t' ∨
      ∃ t0 before line after t1, writeFiles files t = .ok ⟨⟩ t0 ∧ lines = before ++ line :: after ∧
        (before.forM fun line => runCommandLine engine (Command.fillIn line (Path.baseName active))) t0 = .ok ⟨⟩ t1 ∧
        runCommandLine engine (Command.fillIn line (Path.baseName active)) t1 = .error e t' := by
  obtain h | ⟨_, t0, hfiles, h⟩ := Op.bind_eq_error.1 h
  · exact Or.inl h
  · obtain ⟨before, line, after, t1, hlines, hbefore, hfails⟩ := Op.exists_of_forM_error h
    exact Or.inr ⟨t0, before, line, after, t1, hfiles, hlines, hbefore, hfails⟩

/-- **A failing stage stops the pipeline and is blamed.** A source that fails has broken its plan off at a task, the
cause is blamed on that task's stage and on no other, and the state that the task has left is the last one; a source
that succeeds has carried out its plan, and has run the front end, the linker and the program once each. A driver line
that fails has broken off its plan alike: a failure on one source is the line's, whatever sources follow. A request ends
at its first line that fails. -/
theorem pipeline_stops (hengine : engine.Unstaged) :
    (∀ source text arguments (t : Toolchain σ μ),
      (∀ e t', compileLinkRun engine source text arguments t = .error e t' →
        ∃ stage cause, e = .stageFailed stage cause ∧ cause.isStaged = false ∧
          BreaksOff engine t (plan t.config source text arguments) stage cause t') ∧
      ∀ r t', compileLinkRun engine source text arguments t = .ok r t' →
        (∃ hand, performAll engine (plan t.config source text arguments) {} t = .ok hand t' ∧ hand.ended? = some r) ∧
        (plan t.config source text arguments).filterMap (·.2.program?) =
          ["clang", "wasm-ld", Path.baseName (Path.binary source)]) ∧
    (∀ language arguments line (t : Toolchain σ μ), arguments.contains "-cc1" = false →
      Command.DriverLine.parse language arguments = .ok line →
      (∀ e t', drive engine language arguments t = .error e t' →
        ∃ stage cause, e = .stageFailed stage cause ∧ cause.isStaged = false ∧
          BreaksOff engine t (drivePlan t.config line) stage cause t') ∧
      ∀ before source language' after objects t1 e t', line.sources = before ++ (source, language') :: after →
        compileSources engine line before t = .ok objects t1 →
        compileFile engine source (objectFor line source) language' line.optLevel t1 = .error e t' →
        drive engine language arguments t = .error e t') ∧
    ∀ active lines files (t : Toolchain σ μ) e t', Worker.runCommand engine active lines files t = .error e t' →
      Worker.writeFiles files t = .error e t' ∨
        ∃ t0 before line after t1, Worker.writeFiles files t = .ok ⟨⟩ t0 ∧ lines = before ++ line :: after ∧
          (before.forM fun line => runCommandLine engine (Command.fillIn line (Path.baseName active))) t0 = .ok ⟨⟩ t1 ∧
          runCommandLine engine (Command.fillIn line (Path.baseName active)) t1 = .error e t' := by
  refine ⟨fun source text arguments t => ⟨fun e t' h => ?_, fun r t' h => ?_⟩,
    fun language arguments line t hcc1 hl => ⟨fun e t' h => ?_, ?_⟩, fun active lines files t e t' h => ?_⟩
  · exact breaksOff_of_error hengine ((follows_compileLinkRun source text arguments).of_error h)
  · exact ⟨(follows_compileLinkRun source text arguments).of_ok h, programs_plan _ _ _ _⟩
  · exact breaksOff_of_error hengine ((follows_drive hcc1 hl).of_error h)
  · intro before source language' after objects t1 e t' hsources hbefore hfails
    exact drive_of_failing hcc1 hl hsources hbefore hfails
  · exact Worker.runCommand_of_error h

lemma Worker.unstaged_trapping : trapping.Unstaged where
  compileNamed _ := Op.failsOnly_pure _
  compileBytes _ := Op.failsOnly_pure _
  instantiate _ := Op.failsOnly_pure _
  memory h := by
    cases h
    exact failsOnly_ok _

/-- A source whose path is that of a directory cannot be written, and its plan is broken off at once. -/
theorem pipeline_stops_directory :
    Worker.trapping.Unstaged ∧ ∃ t : Toolchain Unit Unit, t.host.files.kindOf "lib" = some .directory ∧
      compileLinkRun Worker.trapping "lib" "" [] t =
        .error (.stageFailed .compile (.pathConflict "lib" .directory)) t ∧
      BreaksOff Worker.trapping t (plan t.config "lib" "" []) .compile (.pathConflict "lib" .directory) t := by
  let t : Toolchain Unit Unit := ⟨{}, (), { files := ⟨.empty, [("lib", .directory)]⟩ }, [], 0⟩
  have hkind : t.host.files.kindOf "lib" = some .directory := by decide
  have hfails : compileLinkRun Worker.trapping "lib" "" [] t =
      .error (.stageFailed .compile (.pathConflict "lib" .directory)) t := rfl
  obtain ⟨stage, cause, he, -, hbreaks⟩ := ((pipeline_stops Worker.unstaged_trapping).1 "lib" "" [] t).1 _ _ hfails
  cases he
  exact ⟨Worker.unstaged_trapping, t, hkind, hfails, hbreaks⟩

end ToolchainHost
