import ToolchainHost.Proofs.Toolchain.Reports

/-!
# The toolchain reports

Guests are started in one place only, which shows how they ended. Everything else that the toolchain does leaves its
failures for later, so all of it reports, whatever the engine's guests do.

* `Launch.reports_run`: starting a guest.
* `Toolchain.reports_compileLinkRun`, `reports_runCommandLine`: what requests are made of.
-/

namespace ToolchainHost

variable {σ μ γ α : Type} {engine : Engine σ μ γ} {interpreter : Option Interpreter}

/-! ### Guests -/

namespace Launch

/-- Making an instance fails as the engine does. -/
lemma failsOnly_instantiate {P : Failure → Prop} {module : μ} (hi : (engine.instantiate module).FailsOnly P)
    (hm : ∀ {s s' : σ} {memory : Except Failure Memory} {code : γ},
      engine.instantiate module s = .ok (memory, code) s' → FailsOnly P memory) (launch : Launch) :
    (launch.instantiate engine module).FailsOnly P := by
  intro s e t h
  obtain h | ⟨⟨memory, code⟩, u, hu, h⟩ := Op.bind_eq_error.1 h
  · exact hi s e t h
  · obtain h | ⟨m, v, -, h⟩ := Op.bind_eq_error.1 h
    · exact hm hu e (Op.lift_eq_error.1 h).1
    · cases h

/-- How a guest ended is shown if it is a failure. -/
lemma reaches_report {h h' : Host} {t : Termination} (ht : engine.Enters h t h') :
    Reaches engine interpreter id h (report t h') := by
  have hguest : h.Proceeds engine interpreter h' := .single (.guest ht)
  cases t with
  | normal code => exact hguest
  | trap trap =>
    have hshown := Host.events_emit trap.render_ne_empty h'
    exact ⟨h', hguest, .shown rfl (.trap ht) hshown⟩
  | exit code =>
    have hshown := Host.events_emit (Failure.guestExit code).render_ne_empty h'
    unfold report
    dsimp only
    split_ifs with hc
    · exact hguest
    · obtain ⟨hne, hs⟩ := not_or.1 hc
      exact ⟨h', hguest, .shown rfl (.exit ht hne (Bool.eq_false_iff.2 hs)) hshown⟩

lemma run_of_error {module : μ} {launch : Launch} {s s' : σ} {e : Failure}
    (hi : launch.instantiate engine module s = .error e s') (h : Host) :
    launch.run engine module (s, h) = .error e (s', h) := Op.bind_of_error (Op.onPart_of_error hi)

lemma run_of_ok {module : μ} {launch : Launch} {s s' : σ} {i : Instance γ}
    (hi : launch.instantiate engine module s = .ok i s') (h : Host) :
    launch.run engine module (s, h) = Op.onPart Prod.snd (fun h p => (p.1, h))
      (report (i.enter engine Interface.startExport h).1) (s', (i.enter engine Interface.startExport h).2.2) :=
  Op.bind_of_ok (Op.onPart_of_ok hi)

/-- **A guest's failure is shown when it ends**, and an instance that cannot be made is not. -/
theorem reports_run (hengine : engine.Unreported) (module : μ) (launch : Launch) :
    Op.Reports engine interpreter Prod.snd (launch.run engine module) := by
  rintro ⟨s, h⟩
  cases hi : launch.instantiate engine module s with
  | error e s' =>
    rw [run_of_error hi]
    have hown := failsOnly_instantiate (hengine.instantiate module) hengine.memory launch s e s' hi
    exact ⟨h, .refl, .unshown hown rfl⟩
  | ok i s' =>
    rw [run_of_ok hi]
    refine Reaches.onPart (reaches_report (.started hi)) ?_
    exact fun _ => rfl

end Launch

namespace Toolchain

/-! ### Parts of the toolchain -/

lemma reports_onEngine {x : Op σ α} (hx : x.Unreported) :
    Op.Reports engine interpreter Toolchain.host (onEngine x : Op (Toolchain σ μ) α) :=
  Op.Unreported.reports (Op.FailsOnly.onPart hx _ _) <|
    Op.within_onPart (R := fun t t' : Toolchain σ μ => t'.host.events = t.host.events) fun _ => rfl

lemma reports_onFiles {x : Op FileSystem α} (hx : x.Unreported) :
    Op.Reports engine interpreter Toolchain.host (onFiles x : Op (Toolchain σ μ) α) := by
  have hfiles : (Host.onFiles x).Unreported := Op.FailsOnly.onPart hx _ _
  refine Op.Unreported.reports (Op.FailsOnly.onPart hfiles _ _) ?_
  refine Op.within_onPart (R := fun t t' : Toolchain σ μ => t'.host.events = t.host.events) fun t => ?_
  exact Op.within_onPart (R := fun h h' : Host => h'.events = h.events) (fun _ => rfl) t.host

lemma reports_require (path : String) :
    Op.Reports engine interpreter Toolchain.host (require path : Op (Toolchain σ μ) Unit) := by
  refine (reports_onFiles (FileSystem.simple_fileExists path).unreported).bind fun found => ?_
  exact Op.Reports.ite (Op.reports_throw rfl) (Op.reports_pure _)

lemma reports_isBinary (path : String) :
    Op.Reports engine interpreter Toolchain.host (isBinary path : Op (Toolchain σ μ) Bool) := by
  refine Op.reports_get.bind fun t => ?_
  exact Op.Reports.ite (Op.reports_pure _) (reports_onFiles (FileSystem.simple_fileExists path).unreported)

lemma reports_echo (program : String) (arguments : List String) :
    Op.Reports engine interpreter Toolchain.host (echo program arguments : Op (Toolchain σ μ) Unit) := by
  refine Op.reports_modify fun t => ?_
  split_ifs
  · exact .echo _ _ _
  · exact .work rfl

section Requests

variable (hengine : engine.Unreported)
include hengine

lemma reports_getModule (name : String) :
    Op.Reports engine interpreter Toolchain.host (getModule engine name) := by
  refine Op.reports_get.bind fun t => ?_
  cases t.cached? name with
  | some module => exact Op.reports_pure _
  | none =>
    refine (reports_onEngine (hengine.compileNamed name)).bind fun module => ?_
    refine Op.Reports.bind (Op.reports_modify fun t => ?_) fun _ => Op.reports_pure _
    exact .work rfl

lemma reports_launch (module : μ) (program : String) (arguments : List String) :
    Op.Reports engine interpreter Toolchain.host (launch engine module program arguments) := by
  intro t
  have hrun (request : Launch) : Op.Reports engine interpreter Toolchain.host
      (Op.onPart (fun t : Toolchain σ μ => (t.engine, t.host)) (fun p t => { t with engine := p.1, host := p.2 })
        (request.run engine module)) :=
    (Launch.reports_run hengine module request).onPart (fun _ => rfl) fun _ _ => rfl
  exact hrun _ { t with launches := t.launches + 1 }

lemma reports_runTool (moduleName program : String) (arguments : List String) :
    Op.Reports engine interpreter Toolchain.host (runTool engine moduleName program arguments) :=
  (reports_getModule hengine moduleName).bind fun module => (reports_echo program arguments).bind fun _ =>
    reports_launch hengine module program arguments

/-! ### Stages -/

lemma reports_compileFile (source object : String) (language : Language) (optLevel : Option String) :
    Op.Reports engine interpreter Toolchain.host (compileFile engine source object language optLevel) := by
  refine Op.Reports.inStage ?_ .compile
  refine (reports_require source).bind fun _ => ?_
  cases language.frontEndName? with
  | none => exact Op.reports_throw rfl
  | some languageName =>
    refine Op.reports_get.bind fun t => Op.Reports.bind (Op.reports_modify fun t => ?_) fun _ => ?_
    · exact .work rfl
    · exact (reports_runTool hengine _ _ _).finally (fun _ => rfl) fun _ => reports_require object

lemma reports_compile (source text object : String) (language : Language) :
    Op.Reports engine interpreter Toolchain.host (compile engine source text object language) :=
  ((reports_onFiles (FileSystem.simple_addFile _ _).unreported).inStage .compile).bind fun _ =>
    reports_compileFile hengine _ _ _ _

lemma reports_linkObjects (objects : List String) (output : String) :
    Op.Reports engine interpreter Toolchain.host (linkObjects engine objects output) := by
  refine Op.Reports.inStage ?_ .link
  refine (Op.reports_forM reports_require objects).bind fun _ => Op.reports_get.bind fun t => ?_
  exact (reports_runTool hengine _ _ _).bind fun _ => reports_require output

lemma reports_runBinary (binary : String) (arguments : List String) :
    Op.Reports engine interpreter Toolchain.host (runBinary engine binary arguments) := by
  refine Op.Reports.inStage ?_ .run
  refine (reports_require binary).bind fun _ => ?_
  refine (reports_onFiles (FileSystem.simple_contents binary).unreported).bind fun bytes => ?_
  refine (Op.reports_lift (Module.simple_check bytes).unreported).bind fun _ => ?_
  refine (reports_onEngine (hengine.compileBytes bytes)).bind fun module => ?_
  exact (reports_echo _ _).bind fun _ => reports_launch hengine _ _ _

/-- Compiling, linking and running one source. -/
theorem reports_compileLinkRun (source text : String) (arguments : List String) :
    Op.Reports engine interpreter Toolchain.host (compileLinkRun engine source text arguments) :=
  (reports_compile hengine _ _ _ _).bind fun _ => (reports_linkObjects hengine _ _).bind fun _ =>
    reports_runBinary hengine _ _

/-! ### Command lines -/

lemma reports_compileSources (line : Command.DriverLine) (sources : List (String × Language)) :
    Op.Reports engine interpreter Toolchain.host (compileSources engine line sources) := by
  induction sources with
  | nil => exact Op.reports_pure _
  | cons s rest ih =>
    exact (reports_compileFile hengine _ _ _ _).bind fun _ => ih.bind fun _ => Op.reports_pure _

lemma reports_drive (language : Language) (arguments : List String) :
    Op.Reports engine interpreter Toolchain.host (drive engine language arguments) := by
  unfold drive
  refine Op.Reports.ite ?_ ?_
  · exact Op.reports_get.bind fun t => ((reports_runTool hengine _ _ _).inStage .compile).bind fun _ =>
      Op.reports_pure _
  · cases Command.DriverLine.parse language arguments with
    | error e => exact Op.reports_throw rfl
    | ok line =>
      refine (reports_compileSources hengine line line.sources).bind fun compiled => ?_
      exact Op.Reports.ite (reports_linkObjects hengine _ _) (Op.reports_pure _)

/-- A command line, whatever tool or program it names. -/
theorem reports_runCommandLine (line : String) :
    Op.Reports engine interpreter Toolchain.host (runCommandLine engine line) := by
  have hlink (arguments : List String) :
      Op.Reports engine interpreter Toolchain.host (runWords.link engine arguments) :=
    Op.reports_get.bind fun t => ((reports_runTool hengine _ _ _).inStage .link).bind fun _ => Op.reports_pure _
  have hrun (binary : String) (arguments : List String) :
      Op.Reports engine interpreter Toolchain.host (runWords.run engine binary arguments) :=
    (reports_runBinary hengine _ _).bind fun _ => Op.reports_pure _
  unfold runCommandLine runWords
  split
  · exact Op.reports_pure _
  · exact reports_drive hengine _ _
  · exact reports_drive hengine _ _
  · exact hlink _
  · exact hlink _
  · exact Op.reports_throw rfl
  · exact hrun _ _
  · refine (reports_isBinary _).bind fun found => ?_
    exact Op.Reports.ite (hrun _ _) (Op.reports_throw rfl)

end Requests

end Toolchain

end ToolchainHost
