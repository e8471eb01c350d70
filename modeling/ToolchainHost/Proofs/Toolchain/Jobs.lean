import ToolchainHost.Proofs.Toolchain.Guests

/-!
# Jobs

Whatever a toolchain is asked for, it performs a plan. The plan is settled by the configuration, and for a line also by
whether its first word names a directory.

* `Job`, `Job.perform`: what a toolchain can be asked for.
* `Job.plan`, `Job.after_perform`: a job leaves what the performance of its plan leaves.
* `Planned`, `Job.allPlanned`: the deeds that jobs are made of.
* `Moment`, `history`: the deeds of a plan that are tried, each with what it finds.
* `Toolchain.Allows`: the relations between toolchains within which deeds and jobs stay.
-/

namespace ToolchainHost

open Toolchain

variable {σ μ γ α β : Type} {engine : Engine σ μ γ}

/-- What a toolchain can be asked for. -/
inductive Job where
  /-- Writes a source and compiles it. -/
  | compile (source text object : String) (language : Language)
  | link (objects : List String) (output : String)
  | run (binary : String) (arguments : List String)
  /-- Compiles, links and runs one source. -/
  | build (source text : String) (arguments : List String)
  | line (text : String)

/-- Does a job. -/
def Job.perform (engine : Engine σ μ γ) : Job → Op (Toolchain σ μ) Unit
  | compile source text object language => Toolchain.compile engine source text object language
  | link objects output => linkObjects engine objects output
  | run binary arguments => do
    let _ ← runBinary engine binary arguments
  | build source text arguments => do
    let _ ← compileLinkRun engine source text arguments
  | line text => runCommandLine engine text

/-! ### The plan of a job -/

/-- The plan for arguments of the compiler driver. Nothing is planned if they are not understood. -/
def driverPlan (config : Config) (language : Language) (arguments : List String) : List Task :=
  if arguments.contains "-cc1" then Stage.compile.tasks [.request config.clangModule, .start "clang" arguments]
  else
    match Command.DriverLine.parse language arguments with
    | .ok line => drivePlan config line
    | .error _ => []

/-- The plan for arguments of the linker. -/
def linkerPlan (config : Config) (arguments : List String) : List Task :=
  Stage.link.tasks [.request config.lldModule, .start "wasm-ld" arguments]

/-- The plan for the words of a line. A program that is named by itself is looked for twice. -/
def wordsPlan (t : Toolchain σ μ) : List String → List Task
  | [] => []
  | "clang" :: arguments => driverPlan t.config .c arguments
  | "clang++" :: arguments => driverPlan t.config .cxx arguments
  | "wasm-ld" :: arguments => linkerPlan t.config arguments
  | "lld" :: arguments => linkerPlan t.config arguments
  | ["run"] => []
  | "run" :: binary :: arguments => Stage.run.tasks (runDeeds binary arguments)
  | name :: arguments =>
    if t.host.files.kindOf name = some .directory then []
    else Stage.run.tasks (.find name :: runDeeds name arguments)

/-- The plan for a job. -/
def Job.plan (t : Toolchain σ μ) : Job → List Task
  | compile source text object language =>
    Stage.compile.tasks (.write source text :: compileDeeds t.config source object language none)
  | link objects output => Stage.link.tasks (linkDeeds t.config objects output)
  | run binary arguments => Stage.run.tasks (runDeeds binary arguments)
  | build source text arguments => Toolchain.plan t.config source text arguments
  | line text => wordsPlan t (Command.words text)

/-! ### Jobs are their plans -/

lemma Toolchain.Follows.after {P : α → β → Prop} {x : Op (Toolchain σ μ) α} {y : Op (Toolchain σ μ) β}
    {t : Toolchain σ μ} (h : Follows t.config P x y) : Op.after x t = Op.after y t := by
  rcases h.cases rfl with ⟨a, b, u, hx, hy, -, -⟩ | ⟨e, u, hx, hy, -⟩
  · rw [Op.after_of_ok hx, Op.after_of_ok hy]
  · rw [Op.after_of_error hx, Op.after_of_error hy]

section Lines

variable (engine) (t : Toolchain σ μ) (arguments : List String)

/-- A tool by itself in its stage. -/
lemma after_stageTool (stage : Stage) (moduleName program : String) :
    Op.after (Op.inStage stage (runTool engine moduleName program arguments) >>= fun _ => pure ()) t =
      Op.after (performAll engine (stage.tasks [.request moduleName, .start program arguments]) {}) t := by
  rw [Op.after_bind_pure, performAll_tasks]
  exact ((follows_runTool moduleName program arguments).inStage stage).after

lemma after_drive (language : Language) : Op.after (drive engine language arguments) t =
    Op.after (performAll engine (driverPlan t.config language arguments) {}) t := by
  unfold driverPlan
  split_ifs with hcc1
  · have hx : drive engine language arguments t =
        (Op.inStage .compile (runTool engine t.config.clangModule "clang" arguments) >>= fun _ => pure ()) t := by
      unfold drive
      rw [if_pos hcc1]
      rfl
    rw [Op.after_congr hx]
    exact after_stageTool engine t arguments .compile _ _
  · cases hl : Command.DriverLine.parse language arguments with
    | ok line => exact (follows_drive (Bool.eq_false_iff.2 hcc1) hl).after
    | error e =>
      have hx : drive engine language arguments t = .error (.stageFailed .compile (.protocol e.message)) t := by
        unfold drive
        rw [if_neg hcc1, hl]
        rfl
      exact Op.after_of_error hx

lemma after_runWords_link : Op.after (runWords.link engine arguments) t =
    Op.after (performAll engine (linkerPlan t.config arguments) {}) t :=
  after_stageTool engine t arguments .link _ _

lemma after_runWords_run (binary : String) : Op.after (runWords.run engine binary arguments) t =
    Op.after (performAll engine (Stage.run.tasks (runDeeds binary arguments)) {}) t := by
  have hx : runWords.run engine binary arguments = runBinary engine binary arguments >>= fun _ => pure () := rfl
  rw [hx, Op.after_bind_pure]
  exact (follows_runBinary binary arguments).after

/-- A program that is named by itself. -/
lemma after_isBinary_run (name : String) :
    Op.after (do if ← isBinary name then runWords.run engine name arguments else throw (.commandNotFound name)) t =
      Op.after (performAll engine (if t.host.files.kindOf name = some .directory then []
        else Stage.run.tasks (.find name :: runDeeds name arguments)) {}) t := by
  have hget : (isBinary name : Op (Toolchain σ μ) Bool) t =
      (if t.host.files.kindOf name = some .directory then pure false else onFiles (FileSystem.fileExists name)) t := rfl
  split_ifs at hget ⊢ with hdirectory
  · exact Op.after_bind_of_ok hget
  · have htask : performAll engine (Stage.run.tasks (.find name :: runDeeds name arguments)) ({} : Hand μ) =
        Op.inStage .run (Deed.perform engine {} (.find name)) >>=
          performAll engine (Stage.run.tasks (runDeeds name arguments)) := rfl
    have hfind : Deed.perform engine {} (.find name) t =
        (require name >>= fun _ => pure {} : Op (Toolchain σ μ) (Hand μ)) t := rfl
    rw [htask]
    cases hx : onFiles (FileSystem.fileExists name) t with
    | error e u =>
      have hrequire : require name t = .error e u := Op.bind_of_error hx
      rw [Op.after_bind_of_error (hget.trans hx),
        Op.after_bind_of_error (Op.inStage_of_error (hfind.trans (Op.bind_of_error hrequire)) .run)]
    | ok found u =>
      rw [Op.after_bind_of_ok (hget.trans hx)]
      cases found with
      | false =>
        have hrequire : require name t = .error (.notFound name) u := Op.bind_of_ok hx
        rw [Op.after_bind_of_error (Op.inStage_of_error (hfind.trans (Op.bind_of_error hrequire)) .run)]
        rfl
      | true =>
        have hrequire : require name t = .ok ⟨⟩ u := Op.bind_of_ok hx
        rw [Op.after_bind_of_ok (Op.inStage_of_ok (hfind.trans (Op.bind_of_ok hrequire)) .run)]
        exact after_runWords_run engine u arguments name

end Lines

lemma after_runWords (engine : Engine σ μ γ) (words : List String) (t : Toolchain σ μ) :
    Op.after (runWords engine words) t = Op.after (performAll engine (wordsPlan t words) {}) t := by
  unfold runWords
  split
  · rfl
  · exact after_drive engine t _ _
  · exact after_drive engine t _ _
  · exact after_runWords_link engine t _
  · exact after_runWords_link engine t _
  · rfl
  · exact after_runWords_run engine t _ _
  · rw [wordsPlan]
    · exact after_isBinary_run engine t _ _
    all_goals assumption

/-- **A job leaves what the performance of its plan leaves**, also where it fails. -/
theorem Job.after_perform (engine : Engine σ μ γ) (job : Job) (t : Toolchain σ μ) :
    Op.after (job.perform engine) t = Op.after (performAll engine (job.plan t) {}) t := by
  cases job with
  | compile source text object language => exact (follows_compile source text object language).after
  | link objects output => exact (follows_linkObjects objects output).after
  | run binary arguments => exact after_runWords_run engine t arguments binary
  | build source text arguments =>
    rw [perform, Op.after_bind_pure]
    exact (follows_compileLinkRun source text arguments).after
  | line text => exact after_runWords engine _ t

/-! ### What is planned -/

/-- The name of the module that a deed asks for. -/
def Deed.requested? : Deed → Option String
  | request name => some name
  | shown _ deed => deed.requested?
  | _ => none

/-- How the terminal shows a path while a deed is performed. -/
def Deed.rewriter? : Deed → Option Rewriter
  | shown rewriter _ => some rewriter
  | _ => none

/-- The deeds that are planned with a configuration. Only the tools are asked for by name, and a path is shown as
another text only while the front end compiles the source with that path. -/
inductive Planned (c : Config) : Deed → Prop
  | plain {deed : Deed} (hr : deed.requested? = none) (hs : deed.rewriter? = none) : Planned c deed
  | frontEnd : Planned c (.request c.clangModule)
  | linker : Planned c (.request c.lldModule)
  | shownFrontEnd (source : String) : Planned c (.shown ⟨source, Path.baseName source⟩ (.request c.clangModule))
  | compiling (source object languageName optLevel : String) :
      Planned c (.shown ⟨source, Path.baseName source⟩
        (.start "clang" (frontEndArguments c source object languageName optLevel)))

section Planned

variable {c : Config} {deeds : List Deed} {plan plan' : List Task}

/-- Every task of the plan is planned with the configuration. -/
def AllPlanned (c : Config) (plan : List Task) : Prop := ∀ task ∈ plan, Planned c task.2

lemma allPlanned_tasks {stage : Stage} (h : ∀ deed ∈ deeds, Planned c deed) : AllPlanned c (stage.tasks deeds) := by
  intro task ht
  obtain ⟨deed, hd, rfl⟩ := List.mem_map.1 ht
  exact h deed hd

lemma AllPlanned.append (h : AllPlanned c plan) (h' : AllPlanned c plan') : AllPlanned c (plan ++ plan') := by
  intro task ht
  rcases List.mem_append.1 ht with ht | ht
  · exact h task ht
  · exact h' task ht

lemma planned_compileDeeds (source object : String) (language : Language) (optLevel : Option String) :
    ∀ deed ∈ compileDeeds c source object language optLevel, Planned c deed := by
  simp only [compileDeeds, List.forall_mem_cons]
  exact ⟨.plain rfl rfl, .plain rfl rfl, .shownFrontEnd source, .compiling .., .plain rfl rfl, List.forall_mem_nil _⟩

lemma planned_linkDeeds (objects : List String) (output : String) :
    ∀ deed ∈ linkDeeds c objects output, Planned c deed := by
  simp only [linkDeeds, List.forall_mem_append, List.forall_mem_map, List.forall_mem_cons]
  exact ⟨fun _ _ => .plain rfl rfl, .linker, .plain rfl rfl, .plain rfl rfl, List.forall_mem_nil _⟩

lemma planned_runDeeds (binary : String) (arguments : List String) :
    ∀ deed ∈ runDeeds binary arguments, Planned c deed := by
  simp only [runDeeds, List.forall_mem_cons]
  exact ⟨.plain rfl rfl, .plain rfl rfl, .plain rfl rfl, .plain rfl rfl, .plain rfl rfl, List.forall_mem_nil _⟩

lemma allPlanned_drivePlan (line : Command.DriverLine) : AllPlanned c (drivePlan c line) := by
  refine AllPlanned.append (fun task ht => ?_) ?_
  · obtain ⟨s, -, ht⟩ := List.mem_flatMap.1 ht
    exact allPlanned_tasks (planned_compileDeeds s.1 _ s.2 _) task ht
  · split_ifs
    · exact List.forall_mem_nil _
    · exact allPlanned_tasks (planned_linkDeeds _ _)

lemma allPlanned_driverPlan (language : Language) (arguments : List String) :
    AllPlanned c (driverPlan c language arguments) := by
  unfold driverPlan
  split_ifs
  · apply allPlanned_tasks
    simp only [List.forall_mem_cons]
    exact ⟨.frontEnd, .plain rfl rfl, List.forall_mem_nil _⟩
  · split
    · exact allPlanned_drivePlan _
    · exact List.forall_mem_nil _

lemma allPlanned_linkerPlan (arguments : List String) : AllPlanned c (linkerPlan c arguments) := by
  apply allPlanned_tasks
  simp only [List.forall_mem_cons]
  exact ⟨.linker, .plain rfl rfl, List.forall_mem_nil _⟩

lemma allPlanned_wordsPlan (t : Toolchain σ μ) (words : List String) : AllPlanned t.config (wordsPlan t words) := by
  unfold wordsPlan
  split
  · exact List.forall_mem_nil _
  · exact allPlanned_driverPlan _ _
  · exact allPlanned_driverPlan _ _
  · exact allPlanned_linkerPlan _
  · exact allPlanned_linkerPlan _
  · exact List.forall_mem_nil _
  · exact allPlanned_tasks (planned_runDeeds _ _)
  · split_ifs
    · exact List.forall_mem_nil _
    · exact allPlanned_tasks (List.forall_mem_cons.2 ⟨.plain rfl rfl, planned_runDeeds _ _⟩)

/-- **Whatever the job**, its deeds are planned with the toolchain's configuration. -/
theorem Job.allPlanned (job : Job) (t : Toolchain σ μ) : AllPlanned t.config (job.plan t) := by
  have hcompile (source text object : String) (language : Language) : AllPlanned t.config
      (Stage.compile.tasks (.write source text :: compileDeeds t.config source object language none)) :=
    allPlanned_tasks (List.forall_mem_cons.2 ⟨.plain rfl rfl, planned_compileDeeds _ _ _ _⟩)
  cases job with
  | compile source text object language => exact hcompile source text object language
  | link objects output => exact allPlanned_tasks (planned_linkDeeds _ _)
  | run binary arguments => exact allPlanned_tasks (planned_runDeeds _ _)
  | build source text arguments =>
    exact (hcompile source text _ _).append
      ((allPlanned_tasks (planned_linkDeeds _ _)).append (allPlanned_tasks (planned_runDeeds _ _)))
  | line text => exact allPlanned_wordsPlan t _

end Planned

/-! ### Moments -/

/-- A deed that is tried, with what is at hand and the toolchain that it finds. -/
structure Moment (σ μ : Type) where
  deed : Deed
  hand : Hand μ
  toolchain : Toolchain σ μ

/-- The guest that is started in a moment, as it is entered. -/
def Moment.guest? (engine : Engine σ μ γ) (m : Moment σ μ) : Option (Instance.Entry γ) :=
  m.deed.guest? engine m.hand m.toolchain

/-- The toolchain after a moment. -/
def Moment.after (engine : Engine σ μ γ) (m : Moment σ μ) : Toolchain σ μ :=
  Op.after (m.deed.perform engine m.hand) m.toolchain

/-- The deeds of a plan that are tried, in order. None is tried behind one that fails. -/
def history (engine : Engine σ μ γ) : List Task → Hand μ → Toolchain σ μ → List (Moment σ μ)
  | [], _, _ => []
  | (_, deed) :: plan, hand, t =>
    ⟨deed, hand, t⟩ ::
      match deed.perform engine hand t with
      | .ok hand t => history engine plan hand t
      | .error .. => []

/-- The deeds of a job that are tried. -/
def Job.history (engine : Engine σ μ γ) (job : Job) (t : Toolchain σ μ) : List (Moment σ μ) :=
  ToolchainHost.history engine (job.plan t) {} t

/-- The toolchain after jobs, whatever came of them. -/
def Toolchain.afterJobs (engine : Engine σ μ γ) (t : Toolchain σ μ) (jobs : List Job) : Toolchain σ μ :=
  jobs.foldl (fun t job => Op.after (job.perform engine) t) t

/-- The deeds that are tried for jobs. A job that fails does not keep the next one from being done. -/
def Toolchain.jobsHistory (engine : Engine σ μ γ) : List Job → Toolchain σ μ → List (Moment σ μ)
  | [], _ => []
  | job :: jobs, t => job.history engine t ++ jobsHistory engine jobs (Op.after (job.perform engine) t)

section History

variable {plan : List Task} {hand : Hand μ} {t : Toolchain σ μ} {job : Job}

/-- Every deed that is tried was planned. -/
lemma deed_mem_of_mem_history {m : Moment σ μ} (hm : m ∈ history engine plan hand t) :
    ∃ task ∈ plan, task.2 = m.deed := by
  induction plan generalizing hand t with
  | nil => cases hm
  | cons task plan ih =>
    rw [history] at hm
    rcases List.mem_cons.1 hm with rfl | hm
    · exact ⟨task, List.mem_cons_self, rfl⟩
    · cases hx : task.2.perform engine hand t with
      | ok hand' t' =>
        rw [hx] at hm
        obtain ⟨task', ht, he⟩ := ih hm
        exact ⟨task', List.mem_cons_of_mem _ ht, he⟩
      | error e t' =>
        rw [hx] at hm
        cases hm

/-- **What every deed preserves** holds when each of them is tried, and when the plan has been performed. -/
theorem history_of_invariant {I : Toolchain σ μ → Prop}
    (hI : ∀ task ∈ plan, ∀ (hand : Hand μ) t, I t → I (Op.after (task.2.perform engine hand) t)) (ht : I t) :
    (∀ m ∈ history engine plan hand t, I m.toolchain) ∧ I (Op.after (performAll engine plan hand) t) := by
  induction plan generalizing hand t with
  | nil => exact ⟨List.forall_mem_nil _, ht⟩
  | cons task plan ih =>
    have hfirst := hI task List.mem_cons_self hand t ht
    rw [history, performAll_cons]
    cases hx : task.2.perform engine hand t with
    | ok hand' t' =>
      rw [Op.after_of_ok hx] at hfirst
      obtain ⟨hrest, hend⟩ := ih (fun task' h => hI task' (List.mem_cons_of_mem _ h)) hfirst
      rw [Op.after_bind_of_ok (Op.inStage_of_ok hx task.1)]
      exact ⟨List.forall_mem_cons.2 ⟨ht, hrest⟩, hend⟩
    | error e t' =>
      rw [Op.after_of_error hx] at hfirst
      rw [Op.after_bind_of_error (Op.inStage_of_error hx task.1)]
      exact ⟨List.forall_mem_singleton.2 ht, hfirst⟩

end History

/-! ### Relations within which the toolchain stays -/

lemma Toolchain.after_whileShown (rewriter : Rewriter) (x : Op (Toolchain σ μ) α) (t : Toolchain σ μ) :
    Op.after (whileShown rewriter x) t = (Op.after x (t.withRewriter (some rewriter))).withRewriter none := by
  unfold Op.after
  rw [whileShown_apply]
  cases x (t.withRewriter (some rewriter)) <;> rfl

namespace Toolchain

/-- The relation allows whatever deeds do, other than to ask for modules by their names and to start guests. -/
structure Allows (engine : Engine σ μ γ) (R : Toolchain σ μ → Toolchain σ μ → Prop) : Prop where
  files {α : Type} (x : Op FileSystem α) : Op.Within R (onFiles x)
  bytes (bytes : List UInt8) : Op.Within R (onEngine (engine.compileBytes bytes))
  shown {α : Type} (rewriter : Rewriter) {x : Op (Toolchain σ μ) α} (hx : Op.Within R x) :
    Op.Within R (whileShown rewriter x)

/-- The relation allows a program to be started, and its command to be shown. -/
structure AllowsGuests (engine : Engine σ μ γ) (R : Toolchain σ μ → Toolchain σ μ → Prop) (program : String) :
    Prop where
  echo (arguments : List String) : Op.Within R (echo program arguments)
  launch (module : μ) (arguments : List String) : Op.Within R (launch engine module program arguments)

variable {R : Toolchain σ μ → Toolchain σ μ → Prop} [IsPreorder (Toolchain σ μ) R]

lemma Allows.within_require (h : Allows engine R) (path : String) : Op.Within R (require path) :=
  (h.files _).bind fun _ => (Op.within_throw _).ite (Op.within_pure _)

end Toolchain

section Allows

variable {R : Toolchain σ μ → Toolchain σ μ → Prop} [IsPreorder (Toolchain σ μ) R]

/-- A deed stays within such a relation if getting what it asks for does, and starting its guest. -/
lemma Deed.within_perform (h : Allows engine R) {deed : Deed}
    (hnamed : ∀ name, deed.requested? = some name → Op.Within R (getModule engine name))
    (hguests : ∀ program, deed.program? = some program → AllowsGuests engine R program) (hand : Hand μ) :
    Op.Within R (deed.perform engine hand) := by
  induction deed with
  | write path text => exact (h.files _).bind fun _ => Op.within_pure _
  | find path => exact (h.within_require path).bind fun _ => Op.within_pure _
  | identify source language => exact (Op.within_throw_bind _ _).ite (Op.within_pure _)
  | request name => exact (hnamed name rfl).bind fun _ => Op.within_pure _
  | start program arguments =>
    unfold Deed.perform
    cases hand.module? with
    | none => exact Op.within_throw _
    | some module =>
      have hg := hguests program rfl
      exact (hg.echo arguments).bind fun _ => (hg.launch module arguments).bind fun _ => Op.within_pure _
  | read path => exact (h.files _).bind fun _ => Op.within_pure _
  | check => exact (Op.within_lift _).bind fun _ => Op.within_pure _
  | compile => exact (h.bytes _).bind fun _ => Op.within_pure _
  | shown rewriter deed ih => exact h.shown rewriter (ih hnamed hguests)

/-- **A job stays within** whatever relation allows everything that deeds do. -/
theorem Job.within_perform (h : Allows engine R) (hnamed : ∀ name, Op.Within R (getModule engine name))
    (hguests : ∀ program, AllowsGuests engine R program) (job : Job) : Op.Within R (job.perform engine) := by
  intro t
  rw [job.after_perform]
  exact within_performAll (fun task _ => task.2.within_perform h (fun name _ => hnamed name)
    fun program _ => hguests program) {} t

end Allows

/-- The configuration stays as it is. -/
lemma Deed.keepsConfig (deed : Deed) (hand : Hand μ) : Op.Within KeepsConfig (deed.perform engine hand) := by
  refine deed.within_perform ⟨keepsConfig_onFiles, fun _ => keepsConfig_onEngine _, fun rewriter _ hx => ?_⟩
    (fun name _ => within_getModule (fun _ _ _ => rfl) engine name)
    (fun program _ => ⟨keepsConfig_echo program, fun module => keepsConfig_launch engine module program⟩) hand
  exact within_whileShown (fun _ _ => rfl) hx rewriter

/-- Every deed of a job that is tried was planned with the configuration that it finds. What every deed preserves holds
whenever one is tried, and when the job is done. -/
theorem Job.mem_history {I : Toolchain σ μ → Prop}
    (hI : ∀ (deed : Deed) (hand : Hand μ) t, I t → I (Op.after (deed.perform engine hand) t)) {t : Toolchain σ μ}
    (ht : I t) (job : Job) : (∀ m ∈ job.history engine t, I m.toolchain ∧ Planned m.toolchain.config m.deed) ∧
      I (Op.after (job.perform engine) t) := by
  have hstep (task : Task) (hand : Hand μ) (u : Toolchain σ μ) (hu : I u ∧ u.config = t.config) :
      I (Op.after (task.2.perform engine hand) u) ∧ (Op.after (task.2.perform engine hand) u).config = t.config :=
    ⟨hI task.2 hand u hu.1, (task.2.keepsConfig hand u).trans hu.2⟩
  obtain ⟨hmoments, hend⟩ : (∀ m ∈ job.history engine t, I m.toolchain ∧ m.toolchain.config = t.config) ∧ _ :=
    history_of_invariant (I := fun u => I u ∧ u.config = t.config) (fun task _ => hstep task) ⟨ht, rfl⟩
  rw [job.after_perform]
  refine ⟨fun m hm => ?_, hend.1⟩
  obtain ⟨task, htask, hdeed⟩ := deed_mem_of_mem_history hm
  obtain ⟨hm, hconfig⟩ := hmoments m hm
  rw [hconfig, ← hdeed]
  exact ⟨hm, job.allPlanned t task htask⟩

/-! ### What happens to the host -/

/-- The relation allows what a toolchain does to its host: it uses the files and the terminal, it enters guests, and it
shows a path as another text for as long as something takes. -/
structure Host.Permits (engine : Engine σ μ γ) (S : Host → Host → Prop) : Prop where
  files (h : Host) (fs : FileSystem) : S h (h.withFiles fs)
  emit (text : String) (h : Host) : S h (h.emit text)
  enter (i : Instance γ) (h : Host) : S h (i.enter engine Interface.startExport h).2.2
  shown (rewriter : Rewriter) {h h' : Host} (hs : S (h.setRewriter (some rewriter)) h') : S h (h'.setRewriter none)

/-- The hosts of the two toolchains are related. -/
def Toolchain.OnHosts (S : Host → Host → Prop) (t t' : Toolchain σ μ) : Prop := S t.host t'.host

section OnHosts

variable {S : Host → Host → Prop} [IsPreorder Host S]

instance : IsPreorder (Toolchain σ μ) (OnHosts S) where
  refl t := refl_of S t.host
  trans _ _ _ h1 h2 := trans_of S h1 h2

/-- Getting a module does nothing to the host. -/
lemma Toolchain.within_getModule_onHosts (engine : Engine σ μ γ) (name : String) :
    Op.Within (OnHosts S) (getModule engine name) :=
  within_getModule (fun t _ _ => refl_of S t.host) engine name

lemma Launch.within_report (hemit : ∀ text h, S h (h.emit text)) (t : Termination) : Op.Within S (report t) := by
  cases t with
  | normal code => exact Op.within_pure _
  | trap trap => exact (Op.within_modify fun h => hemit _ h).bind fun _ => Op.within_throw _
  | exit code =>
    exact (Op.within_pure _).ite ((Op.within_modify fun h => hemit _ h).bind fun _ => Op.within_throw _)

/-- A relation between hosts that allows so much is one between toolchains that allows what deeds do. -/
lemma Toolchain.allows_onHosts (h : Host.Permits engine S) :
    Allows engine (OnHosts S : Toolchain σ μ → Toolchain σ μ → Prop) where
  files x := Op.within_onPart fun t => Op.within_onPart (R := S) (fun host => h.files host _) t.host
  bytes bytes := Op.within_onPart fun t => refl_of S t.host
  shown rewriter x hx := by
    intro t
    rw [after_whileShown]
    exact h.shown rewriter (hx (t.withRewriter (some rewriter)))

/-- Starting a guest stays within what a relation between hosts permits. -/
lemma Toolchain.allowsGuests_onHosts (h : Host.Permits engine S) (program : String) :
    AllowsGuests engine (OnHosts S : Toolchain σ μ → Toolchain σ μ → Prop) program where
  echo arguments := by
    refine Op.within_modify fun t => ?_
    split_ifs
    · exact h.emit ("> " ++ program ++ " " ++ " ".intercalate arguments ++ "\n") t.host
    · exact refl_of S t.host
  launch module arguments := by
    intro t
    rw [Op.after_congr (launch_apply ..), Op.after_onPart]
    cases hi : (t.request program arguments).instantiate engine module t.engine with
    | error e s =>
      rw [Op.after_of_error (Launch.run_of_error hi t.host)]
      exact refl_of S t.host
    | ok i s =>
      rw [Op.after_congr (Launch.run_of_ok hi t.host), Op.after_onPart]
      exact trans_of S (h.enter i t.host) (Launch.within_report h.emit _ _)

end OnHosts

end ToolchainHost
