import ToolchainHost.Proofs.Failures
import ToolchainHost.Toolchain.CommandLine

/-!
# Plans

What the toolchain does for a source or a driver line is settled beforehand: a list of deeds, each of which belongs to
a stage. The stages, nested as they are, perform that list in order, up to the first deed that fails.

* `Deed`, `Deed.perform`: the smallest steps of the stages.
* `performAll`: a plan. Each task is blamed on its own stage.
* `Toolchain.plan`, `drivePlan`: the plans for one source, and for a driver line.
* `Toolchain.follows_compileLinkRun`, `follows_drive`: these are what is performed.
-/

namespace ToolchainHost

variable {σ μ γ α β : Type} {engine : Engine σ μ γ}

/-! ### Deeds -/

/-- What a deed hands over to those after it. -/
structure Hand (μ : Type) where
  bytes : List UInt8 := []
  module? : Option μ := none
  /-- How the last guest ended. -/
  ended? : Option Termination := none

/-- The smallest steps of the stages. -/
inductive Deed where
  | write (path text : String)
  /-- Makes sure that there is a node with a path. -/
  | find (path : String)
  /-- Makes sure that the front end knows the language of a source. -/
  | identify (source : String) (language : Language)
  /-- Gets the module with a name. -/
  | request (name : String)
  /-- Runs the module at hand as a new guest. -/
  | start (program : String) (arguments : List String)
  | read (path : String)
  /-- Checks the bytes at hand. -/
  | check
  /-- Compiles the bytes at hand. -/
  | compile
  /-- Does something while the terminal shows a path as another text. -/
  | shown (rewriter : Rewriter) (deed : Deed)

namespace Toolchain

/-- The toolchain with a rewriter, or with none. -/
def withRewriter (rewriter : Option Rewriter) (t : Toolchain σ μ) : Toolchain σ μ :=
  { t with host := t.host.setRewriter rewriter }

/-- Runs an operation while a rewriter is installed. Afterwards there is none, however it ended. -/
def whileShown (rewriter : Rewriter) (x : Op (Toolchain σ μ) α) : Op (Toolchain σ μ) α := do
  modify (withRewriter (some rewriter))
  let outcome ← Op.attempt x
  modify (withRewriter none)
  outcome

end Toolchain

open Toolchain

/-- Performs a deed with what is at hand. -/
def Deed.perform (engine : Engine σ μ γ) (hand : Hand μ) : Deed → Op (Toolchain σ μ) (Hand μ)
  | write path text => do
    onFiles (FileSystem.addFile path (Utf8.encode text))
    return hand
  | find path => do
    require path
    return hand
  | identify source language => do
    if language.frontEndName?.isNone then throw (.commandNotFound s!"compiler for {source}")
    return hand
  | request name => return { hand with module? := some (← getModule engine name) }
  | start program arguments => do
    let some module := hand.module? | throw .crash
    echo program arguments
    return { hand with ended? := some (← launch engine module program arguments) }
  | read path => return { hand with bytes := ← onFiles (FileSystem.contents path) }
  | check => do
    Module.check hand.bytes
    return hand
  | compile => return { hand with module? := some (← onEngine (engine.compileBytes hand.bytes)) }
  | shown rewriter deed => whileShown rewriter (deed.perform engine hand)

/-- Performs deeds one after the other. -/
def performDeeds (engine : Engine σ μ γ) (deeds : List Deed) (hand : Hand μ) : Op (Toolchain σ μ) (Hand μ) :=
  deeds.foldlM (Deed.perform engine) hand

/-- A deed, and the stage that is blamed if it fails. -/
abbrev Task := Stage × Deed

/-- Performs tasks one after the other. -/
def performAll (engine : Engine σ μ γ) (plan : List Task) (hand : Hand μ) : Op (Toolchain σ μ) (Hand μ) :=
  plan.foldlM (fun hand task => Op.inStage task.1 (task.2.perform engine hand)) hand

/-- The tasks of a stage. -/
def Stage.tasks (stage : Stage) (deeds : List Deed) : List Task := deeds.map (Prod.mk stage)

/-! ### What is planned -/

namespace Toolchain

/-- The deeds for a source that is in the files. -/
def compileDeeds (config : Config) (source object : String) (language : Language) (optLevel : Option String) :
    List Deed :=
  let rewriter : Rewriter := ⟨source, Path.baseName source⟩
  let arguments := frontEndArguments config source object (language.frontEndName?.getD "")
    (optLevel.getD config.optLevel)
  [.find source, .identify source language, .shown rewriter (.request config.clangModule),
    .shown rewriter (.start "clang" arguments), .find object]

/-- The deeds for objects that are in the files. -/
def linkDeeds (config : Config) (objects : List String) (output : String) : List Deed :=
  objects.map .find ++
    [.request config.lldModule, .start "wasm-ld" (linkerArguments config objects output), .find output]

/-- The deeds for a program that is in the files. -/
def runDeeds (binary : String) (arguments : List String) : List Deed :=
  [.find binary, .read binary, .check, .compile, .start (Path.baseName binary) arguments]

/-- The plan for one source. -/
def plan (config : Config) (source text : String) (arguments : List String) : List Task :=
  let language := (Language.ofPath? source).getD .c
  Stage.compile.tasks (.write source text :: compileDeeds config source (Path.object source) language none) ++
    (Stage.link.tasks (linkDeeds config [Path.object source] (Path.binary source)) ++
      Stage.run.tasks (runDeeds (Path.binary source) arguments))

/-- The plan for a driver line. -/
def drivePlan (config : Config) (line : Command.DriverLine) : List Task :=
  let compiled := line.sources.map fun s => objectFor line s.1
  (line.sources.flatMap fun s =>
      Stage.compile.tasks (compileDeeds config s.1 (objectFor line s.1) s.2 line.optLevel)) ++
    if line.compileOnly then []
    else Stage.link.tasks (linkDeeds config (line.objects ++ compiled) (line.output.getD "a.out"))

end Toolchain

/-! ### Blaming a stage -/

namespace Op

lemma inStage_of_ok {x : Op σ α} {s t : σ} {a : α} (h : x s = .ok a t) (stage : Stage) :
    inStage stage x s = .ok a t := by simp [inStage, h]

lemma inStage_of_error {x : Op σ α} {s t : σ} {e : Failure} (h : x s = .error e t) (stage : Stage) :
    inStage stage x s = .error (e.inStage stage) t := by simp [inStage, h]

lemma inStage_eq_ok {x : Op σ α} {s t : σ} {a : α} {stage : Stage} :
    inStage stage x s = .ok a t ↔ x s = .ok a t := by
  unfold inStage
  cases x s <;> simp

lemma inStage_eq_error {x : Op σ α} {s t : σ} {e : Failure} {stage : Stage} :
    inStage stage x s = .error e t ↔ ∃ cause, x s = .error cause t ∧ e = cause.inStage stage := by
  unfold inStage
  cases x s <;> simp [eq_comm, and_comm]

lemma Within.inStage {R : σ → σ → Prop} {x : Op σ α} (hx : Within R x) (stage : Stage) :
    Within R (Op.inStage stage x) := by
  intro s
  have h := hx s
  unfold after Op.inStage at *
  cases hr : x s with
  | ok a t => rwa [hr] at h
  | error e t => rwa [hr] at h

/-- Blaming a stage for two operations blames it for each of them. -/
lemma inStage_bind (stage : Stage) (x : Op σ α) (f : α → Op σ β) :
    inStage stage (x >>= f) = inStage stage x >>= fun a => inStage stage (f a) := by
  funext s
  cases hx : x s with
  | ok a t => rw [bind_of_ok (inStage_of_ok hx stage), inStage, inStage, bind_of_ok hx]
  | error e t => rw [bind_of_error (inStage_of_error hx stage), inStage_of_error (bind_of_error hx) stage]

end Op

section Plans

variable {plan plan' : List Task} {hand : Hand μ}

lemma performDeeds_cons (deed : Deed) (deeds : List Deed) (hand : Hand μ) :
    performDeeds engine (deed :: deeds) hand = deed.perform engine hand >>= performDeeds engine deeds := rfl

lemma performDeeds_append (deeds deeds' : List Deed) (hand : Hand μ) :
    performDeeds engine (deeds ++ deeds') hand = performDeeds engine deeds hand >>= performDeeds engine deeds' :=
  List.foldlM_append ..

lemma performAll_cons (task : Task) (plan : List Task) (hand : Hand μ) :
    performAll engine (task :: plan) hand =
      Op.inStage task.1 (task.2.perform engine hand) >>= performAll engine plan := rfl

lemma performAll_append (plan plan' : List Task) (hand : Hand μ) :
    performAll engine (plan ++ plan') hand = performAll engine plan hand >>= performAll engine plan' :=
  List.foldlM_append ..

lemma performDeeds_singleton (deed : Deed) (hand : Hand μ) :
    performDeeds engine [deed] hand = deed.perform engine hand := bind_pure _

/-- The tasks of one stage are that stage. -/
lemma performAll_tasks (stage : Stage) (deeds : List Deed) (hand : Hand μ) :
    performAll engine (stage.tasks deeds) hand = Op.inStage stage (performDeeds engine deeds hand) := by
  induction deeds generalizing hand with
  | nil => rfl
  | cons deed deeds ih =>
    rw [performDeeds_cons, Op.inStage_bind]
    exact congrArg (Op.inStage stage (deed.perform engine hand) >>= ·) (funext ih)

end Plans

namespace Toolchain

/-! ### The configuration stays -/

/-- The configuration is the same. -/
def KeepsConfig (t t' : Toolchain σ μ) : Prop := t'.config = t.config

instance : IsPreorder (Toolchain σ μ) KeepsConfig where
  refl _ := rfl
  trans _ _ _ h1 h2 := h2.trans h1

/-- The host is the same. -/
def KeepsHost (t t' : Toolchain σ μ) : Prop := t'.host = t.host

instance : IsPreorder (Toolchain σ μ) KeepsHost where
  refl _ := rfl
  trans _ _ _ h1 h2 := h2.trans h1

lemma keepsConfig_onEngine (x : Op σ α) : Op.Within KeepsConfig (onEngine x : Op (Toolchain σ μ) α) :=
  Op.within_onPart fun _ => rfl

lemma keepsConfig_onFiles (x : Op FileSystem α) : Op.Within KeepsConfig (onFiles x : Op (Toolchain σ μ) α) :=
  Op.within_onPart fun _ => rfl

lemma keepsConfig_require (path : String) : Op.Within KeepsConfig (require path : Op (Toolchain σ μ) Unit) :=
  (keepsConfig_onFiles _).bind fun _ => (Op.within_throw _).ite (Op.within_pure _)

/-- Getting a module touches only the engine and the cache. -/
lemma within_getModule {R : Toolchain σ μ → Toolchain σ μ → Prop} [IsPreorder (Toolchain σ μ) R]
    (hR : ∀ t engine cache, R t { t with engine, cache }) (engine : Engine σ μ γ) (name : String) :
    Op.Within R (getModule engine name) := by
  refine Op.within_get.bind fun t => ?_
  cases t.cached? name with
  | some module => exact Op.within_pure _
  | none =>
    have hremember (module : μ) : Op.Within R
        (modify fun t => { t with cache := t.cache ++ [(name, module)] } : Op (Toolchain σ μ) PUnit) :=
      Op.within_modify fun t => hR t t.engine _
    have hcompile : Op.Within R (onEngine (engine.compileNamed name) : Op (Toolchain σ μ) μ) :=
      Op.within_onPart fun t => hR t _ t.cache
    exact hcompile.bind fun module => (hremember module).bind fun _ => Op.within_pure _

lemma keepsConfig_echo (program : String) (arguments : List String) :
    Op.Within KeepsConfig (echo program arguments : Op (Toolchain σ μ) Unit) := by
  refine Op.within_modify fun t => ?_
  split_ifs <;> rfl

lemma keepsConfig_launch (engine : Engine σ μ γ) (module : μ) (program : String) (arguments : List String) :
    Op.Within KeepsConfig (launch engine module program arguments) := by
  intro t
  have hrun (request : Launch) : Op.Within KeepsConfig
      (Op.onPart (fun t : Toolchain σ μ => (t.engine, t.host)) (fun p t => { t with engine := p.1, host := p.2 })
        (request.run engine module)) := Op.within_onPart fun _ => rfl
  exact hrun _ { t with launches := t.launches + 1 }

/-! ### Operations that follow a plan -/

/-- The two operations do the same on every toolchain with a configuration, and what they give is related. -/
def Follows (c : Config) (P : α → β → Prop) (x : Op (Toolchain σ μ) α) (y : Op (Toolchain σ μ) β) : Prop :=
  ∀ t, t.config = c → Op.Lockstep (fun t t' => t = t' ∧ t.config = c) P (x t) (y t)

section Follows

variable {c : Config} {P : α → β → Prop} {x : Op (Toolchain σ μ) α} {y : Op (Toolchain σ μ) β} {hand : Hand μ}

/-- Both do well, or both fail alike. -/
lemma Follows.cases {t : Toolchain σ μ} (h : Follows c P x y) (hc : t.config = c) :
    (∃ a b u, x t = .ok a u ∧ y t = .ok b u ∧ u.config = c ∧ P a b) ∨
      ∃ e u, x t = .error e u ∧ y t = .error e u ∧ u.config = c := by
  obtain ⟨a, u, b, _, hx, hy, ⟨rfl, hu⟩, hp⟩ | ⟨e, u, _, hx, hy, rfl, hu⟩ := (h t hc).cases
  · exact Or.inl ⟨a, b, u, hx, hy, hu, hp⟩
  · exact Or.inr ⟨e, u, hx, hy, hu⟩

/-- An operation follows itself, whatever is made of what it gives. -/
lemma follows_self (hx : Op.Within KeepsConfig x) (g : α → β) :
    Follows c (fun a b => b = g a) x (do return g (← x)) := by
  intro t hc
  have hk := hx t
  cases hr : x t with
  | ok a u =>
    rw [Op.after_of_ok hr] at hk
    rw [Op.bind_of_ok hr]
    exact .ok ⟨rfl, hk.trans hc⟩ rfl
  | error e u =>
    rw [Op.after_of_error hr] at hk
    rw [Op.bind_of_error hr]
    exact .error e ⟨rfl, hk.trans hc⟩

lemma follows_pure {a : α} {b : β} (h : P a b) :
    Follows c P (pure a : Op (Toolchain σ μ) α) (pure b) := fun _ hc => .ok ⟨rfl, hc⟩ h

lemma follows_throw (e : Failure) : Follows c P (throw e : Op (Toolchain σ μ) α) (throw e) :=
  fun _ hc => .error e ⟨rfl, hc⟩

lemma Follows.bind {α' β' : Type} {Q : α' → β' → Prop} {f : α → Op (Toolchain σ μ) α'}
    {g : β → Op (Toolchain σ μ) β'} (h : Follows c P x y) (hf : ∀ {a b}, P a b → Follows c Q (f a) (g b)) :
    Follows c Q (x >>= f) (y >>= g) := by
  intro t hc
  obtain ⟨a, b, u, hx, hy, hu, hp⟩ | ⟨e, u, hx, hy, hu⟩ := h.cases hc
  · rw [Op.bind_of_ok hx, Op.bind_of_ok hy]
    exact hf hp u hu
  · rw [Op.bind_of_error hx, Op.bind_of_error hy]
    exact .error e ⟨rfl, hu⟩

lemma follows_get_bind {f : Toolchain σ μ → Op (Toolchain σ μ) α} (hf : ∀ t, t.config = c → Follows c P (f t) y) :
    Follows c P (get >>= f) y := fun t hc => hf t hc t hc

lemma Follows.mono {Q : α → β → Prop} (h : Follows c P x y) (hpq : ∀ {a b}, P a b → Q a b) : Follows c Q x y := by
  intro t hc
  obtain ⟨a, b, u, hx, hy, hu, hp⟩ | ⟨e, u, hx, hy, hu⟩ := h.cases hc
  · rw [hx, hy]
    exact .ok ⟨rfl, hu⟩ (hpq hp)
  · rw [hx, hy]
    exact .error e ⟨rfl, hu⟩

lemma Follows.symm (h : Follows c P x y) : Follows c (fun b a => P a b) y x := by
  intro t hc
  obtain ⟨a, b, u, hx, hy, hu, hp⟩ | ⟨e, u, hx, hy, hu⟩ := h.cases hc
  · rw [hx, hy]
    exact .ok ⟨rfl, hu⟩ hp
  · rw [hx, hy]
    exact .error e ⟨rfl, hu⟩

lemma Follows.inStage (h : Follows c P x y) (stage : Stage) :
    Follows c P (Op.inStage stage x) (Op.inStage stage y) := by
  intro t hc
  obtain ⟨a, b, u, hx, hy, hu, hp⟩ | ⟨e, u, hx, hy, hu⟩ := h.cases hc
  · rw [Op.inStage_of_ok hx, Op.inStage_of_ok hy]
    exact .ok ⟨rfl, hu⟩ hp
  · rw [Op.inStage_of_error hx, Op.inStage_of_error hy]
    exact .error _ ⟨rfl, hu⟩

end Follows

/-! ### While a path is shown as another text -/

section WhileShown

variable {x : Op (Toolchain σ μ) α} {t u : Toolchain σ μ} {a : α} {rewriter : Rewriter}

lemma whileShown_of_ok (h : x (t.withRewriter (some rewriter)) = .ok a u) :
    whileShown rewriter x t = .ok a (u.withRewriter none) := by
  unfold whileShown
  rw [Op.modify_bind_apply, Op.bind_of_ok (Op.attempt_of_ok h)]
  rfl

lemma whileShown_of_error {e : Failure} (h : x (t.withRewriter (some rewriter)) = .error e u) :
    whileShown rewriter x t = .error e (u.withRewriter none) := by
  unfold whileShown
  rw [Op.modify_bind_apply, Op.bind_of_ok (Op.attempt_of_error h)]
  rfl

/-- The rewriter may be installed anew in the middle, since the first operation leaves it alone. -/
lemma whileShown_bind (hx : Op.Within KeepsHost x) (f : α → Op (Toolchain σ μ) β)
    (rewriter : Rewriter) :
    whileShown rewriter (x >>= f) = whileShown rewriter x >>= fun a => whileShown rewriter (f a) := by
  funext t
  have hk := hx (t.withRewriter (some rewriter))
  cases hr : x (t.withRewriter (some rewriter)) with
  | error e u => rw [Op.bind_of_error (whileShown_of_error hr), whileShown_of_error (Op.bind_of_error hr)]
  | ok a u =>
    rw [Op.after_of_ok hr] at hk
    have hu : (u.withRewriter none).withRewriter (some rewriter) = u := by
      have hh : (u.host.setRewriter none).setRewriter (some rewriter) = u.host := by
        rw [show u.host = t.host.setRewriter (some rewriter) from hk]
        rfl
      show { u with host := (u.host.setRewriter none).setRewriter (some rewriter) } = u
      rw [hh]
    rw [Op.bind_of_ok (whileShown_of_ok hr)]
    cases hf : f a u with
    | ok b v => rw [whileShown_of_ok ((Op.bind_of_ok hr).trans hf), whileShown_of_ok (by rw [hu, hf])]
    | error e v => rw [whileShown_of_error ((Op.bind_of_ok hr).trans hf), whileShown_of_error (by rw [hu, hf])]

lemma whileShown_apply (rewriter : Rewriter) (x : Op (Toolchain σ μ) α) (t : Toolchain σ μ) :
    whileShown rewriter x t = match x (t.withRewriter (some rewriter)) with
      | .ok a u => .ok a (u.withRewriter none)
      | .error e u => .error e (u.withRewriter none) := by
  cases hx : x (t.withRewriter (some rewriter)) with
  | ok a u => exact whileShown_of_ok hx
  | error e u => exact whileShown_of_error hx

lemma Follows.whileShown {c : Config} {P : α → β → Prop} {y : Op (Toolchain σ μ) β} (h : Follows c P x y)
    (rewriter : Rewriter) : Follows c P (whileShown rewriter x) (whileShown rewriter y) := by
  intro t hc
  have hshown : (t.withRewriter (some rewriter)).config = c := hc
  obtain ⟨a, b, u, hx, hy, hu, hp⟩ | ⟨e, u, hx, hy, hu⟩ := h.cases hshown
  · rw [whileShown_of_ok hx, whileShown_of_ok hy]
    exact .ok ⟨rfl, hu⟩ hp
  · rw [whileShown_of_error hx, whileShown_of_error hy]
    exact .error e ⟨rfl, hu⟩

end WhileShown

/-! ### The stages -/

section Stages

variable {c : Config} {hand : Hand μ} {P : α → Hand μ → Prop} {x : Op (Toolchain σ μ) α}

/-- An operation that follows the first deed, and one that follows the rest. -/
lemma Follows.step {f : α → Op (Toolchain σ μ) β} {Q : β → Hand μ → Prop} {deed : Deed} {deeds : List Deed}
    (h : Follows c P x (deed.perform engine hand))
    (hf : ∀ {a hand'}, P a hand' → Follows c Q (f a) (performDeeds engine deeds hand')) :
    Follows c Q (x >>= f) (performDeeds engine (deed :: deeds) hand) := h.bind hf

lemma Follows.last {deed : Deed} (h : Follows c P x (deed.perform engine hand)) :
    Follows c P x (performDeeds engine [deed] hand) := by rwa [performDeeds_singleton]

lemma Follows.append {f : α → Op (Toolchain σ μ) β} {Q : β → Hand μ → Prop} {deeds deeds' : List Deed}
    (h : Follows c P x (performDeeds engine deeds hand))
    (hf : ∀ {a hand'}, P a hand' → Follows c Q (f a) (performDeeds engine deeds' hand')) :
    Follows c Q (x >>= f) (performDeeds engine (deeds ++ deeds') hand) := by
  rw [performDeeds_append]
  exact h.bind hf

lemma follows_find (path : String) :
    Follows c (fun _ hand' => hand' = hand) (require path) (Deed.perform engine hand (.find path)) :=
  follows_self (keepsConfig_require path) fun _ => hand

lemma follows_request (name : String) :
    Follows c (fun module hand' => hand' = { hand with module? := some module }) (getModule engine name)
      (Deed.perform engine hand (.request name)) :=
  follows_self (within_getModule (fun _ _ _ => rfl) engine name) _

lemma follows_start {module : μ} (hm : hand.module? = some module) (program : String) (arguments : List String) :
    Follows c (fun termination hand' => hand' = { hand with ended? := some termination })
      (do
        echo program arguments
        launch engine module program arguments)
      (Deed.perform engine hand (.start program arguments)) := by
  have hself := follows_self (c := c) ((keepsConfig_echo program arguments).bind fun _ =>
    keepsConfig_launch engine module program arguments) fun termination => { hand with ended? := some termination }
  rw [bind_assoc] at hself
  obtain ⟨bytes, module?, ended?⟩ := hand
  obtain rfl : module? = some module := hm
  exact hself

lemma follows_runTool (name program : String) (arguments : List String) :
    Follows c (fun _ _ => True) (runTool engine name program arguments)
      (performDeeds engine [.request name, .start program arguments] hand) := by
  refine (follows_request name).step fun {module hand'} hhand => ?_
  have hmodule : hand'.module? = some module := hhand ▸ rfl
  exact ((follows_start hmodule program arguments).mono fun _ => trivial).last

/-- The same while a path is shown as another text. -/
lemma follows_shownTool (rewriter : Rewriter) (name program : String) (arguments : List String) :
    Follows c (fun _ _ => True) (whileShown rewriter (runTool engine name program arguments))
      (performDeeds engine [.shown rewriter (.request name), .shown rewriter (.start program arguments)] hand) := by
  unfold runTool
  rw [whileShown_bind (within_getModule (fun _ _ _ => rfl) engine name)]
  refine ((follows_request name).whileShown rewriter).step fun {module hand'} hhand => ?_
  have hmodule : hand'.module? = some module := hhand ▸ rfl
  exact (((follows_start hmodule program arguments).whileShown rewriter).mono fun _ => trivial).last

lemma follows_compileStage (source object : String) (language : Language) (optLevel : Option String) :
    Follows c (fun _ _ => True) (compileStage engine source object language optLevel)
      (performDeeds engine (compileDeeds c source object language optLevel) hand) := by
  refine (follows_find source).step fun hhand => ?_
  rw [hhand]
  cases hl : language.frontEndName? with
  | none =>
    have hid : Deed.perform engine hand (.identify source language) =
        throw (.commandNotFound s!"compiler for {source}") := by
      unfold Deed.perform
      rw [hl]
      rfl
    rw [performDeeds_cons, hid]
    exact follows_throw _
  | some languageName =>
    have hid : Deed.perform engine hand (.identify source language) = pure hand := by
      unfold Deed.perform
      rw [hl]
      rfl
    rw [performDeeds_cons, hid, pure_bind]
    refine follows_get_bind fun t ht => ?_
    subst ht
    -- The stage installs its rewriter once around both deeds of the tool, the plan around each of them.
    have htool := @follows_shownTool σ μ γ engine t.config hand ⟨source, Path.baseName source⟩
      t.config.clangModule "clang"
      (frontEndArguments t.config source object languageName (optLevel.getD t.config.optLevel))
    have hstage := htool.append fun _ => ((follows_find object).mono fun _ => trivial).last
    unfold whileShown at hstage
    simp only [bind_assoc] at hstage
    exact hstage

/-- Every path is looked for, in order. -/
lemma follows_requires (paths : List String) :
    Follows c (fun _ hand' => hand' = hand) (paths.forM require)
      (performDeeds engine (paths.map Deed.find) hand) := by
  induction paths with
  | nil => exact follows_pure rfl
  | cons path paths ih => exact (follows_find path).step fun hhand => hhand ▸ ih

lemma follows_linkStage (objects : List String) (output : String) :
    Follows c (fun _ _ => True) (linkStage engine objects output)
      (performDeeds engine (linkDeeds c objects output) hand) := by
  refine (follows_requires objects).append fun hhand => ?_
  rw [hhand]
  refine follows_get_bind fun t ht => ?_
  subst ht
  refine (follows_runTool t.config.lldModule "wasm-ld" (linkerArguments t.config objects output)).append ?_
  exact fun _ => ((follows_find output).mono fun _ => trivial).last

lemma follows_runStage (binary : String) (arguments : List String) :
    Follows c (fun termination hand' => hand'.ended? = some termination) (runStage engine binary arguments)
      (performDeeds engine (runDeeds binary arguments) hand) := by
  refine (follows_find binary).step fun hhand => ?_
  rw [hhand]
  refine (follows_self (keepsConfig_onFiles _) fun bytes => { hand with bytes }).step fun hhand => ?_
  rw [hhand]
  refine (follows_self (Op.within_lift _) fun _ => _).step fun hhand => ?_
  rw [hhand]
  refine (follows_self (keepsConfig_onEngine _) _).step fun {module hand'} hhand => ?_
  have hmodule : hand'.module? = some module := hhand ▸ rfl
  exact ((follows_start hmodule _ _).mono fun hhand => hhand ▸ rfl).last

/-! ### Sources and lines -/

lemma follows_compileFile (source object : String) (language : Language) (optLevel : Option String) :
    Follows c (fun _ _ => True) (compileFile engine source object language optLevel)
      (performAll engine (Stage.compile.tasks (compileDeeds c source object language optLevel)) hand) := by
  rw [performAll_tasks]
  exact (follows_compileStage source object language optLevel).inStage .compile

lemma follows_linkObjects (objects : List String) (output : String) :
    Follows c (fun _ _ => True) (linkObjects engine objects output)
      (performAll engine (Stage.link.tasks (linkDeeds c objects output)) hand) := by
  rw [performAll_tasks]
  exact (follows_linkStage objects output).inStage .link

lemma follows_runBinary (binary : String) (arguments : List String) :
    Follows c (fun termination hand' => hand'.ended? = some termination) (runBinary engine binary arguments)
      (performAll engine (Stage.run.tasks (runDeeds binary arguments)) hand) := by
  rw [performAll_tasks]
  exact (follows_runStage binary arguments).inStage .run

lemma follows_compile (source text object : String) (language : Language) :
    Follows c (fun _ _ => True) (compile engine source text object language)
      (performAll engine (Stage.compile.tasks (.write source text :: compileDeeds c source object language none))
        hand) := by
  have hwrite : Follows c (fun _ hand' => hand' = hand) (onFiles (FileSystem.addFile source (Utf8.encode text)))
      (Deed.perform engine hand (.write source text)) := follows_self (keepsConfig_onFiles _) fun _ => hand
  exact (hwrite.inStage .compile).bind fun _ => follows_compileFile source object language none

/-- **Compiling, linking and running one source is performing its plan.** -/
theorem follows_compileLinkRun (source text : String) (arguments : List String) :
    Follows c (fun termination hand' => hand'.ended? = some termination)
      (compileLinkRun engine source text arguments) (performAll engine (plan c source text arguments) hand) := by
  unfold plan
  rw [performAll_append]
  refine (follows_compile source text _ _).bind fun {_ hand1} _ => ?_
  rw [performAll_append]
  exact (follows_linkObjects _ _).bind fun _ => follows_runBinary _ arguments

/-- Compiling the sources of a line is performing the plans of all of them. -/
lemma follows_compileSources (line : Command.DriverLine) (sources : List (String × Language)) :
    Follows c (fun objects _ => objects = sources.map fun s => objectFor line s.1)
      (compileSources engine line sources)
      (performAll engine (sources.flatMap fun s =>
        Stage.compile.tasks (compileDeeds c s.1 (objectFor line s.1) s.2 line.optLevel)) hand) := by
  induction sources generalizing hand with
  | nil => exact follows_pure rfl
  | cons s rest ih =>
    rw [List.flatMap_cons, performAll_append]
    refine (follows_compileFile _ _ _ _).bind fun {_ hand1} _ => ?_
    have hrest := (@ih hand1).bind fun {objects hand2} hobjects =>
      follows_pure (c := c) (P := fun objects _ => objects = (s :: rest).map fun s => objectFor line s.1)
        (a := objectFor line s.1 :: objects) (b := hand2) (by rw [hobjects, List.map_cons])
    rwa [bind_pure] at hrest

/-- **A driver line is performing its plan.** -/
theorem follows_drive {language : Language} {arguments : List String} {line : Command.DriverLine}
    (hcc1 : arguments.contains "-cc1" = false) (hl : Command.DriverLine.parse language arguments = .ok line) :
    Follows c (fun _ _ => True) (drive engine language arguments)
      (performAll engine (drivePlan c line) hand) := by
  unfold drive drivePlan
  rw [hcc1, hl, performAll_append]
  refine (follows_compileSources line line.sources).bind fun {objects hand1} hobjects => ?_
  subst hobjects
  cases line.compileOnly with
  | true => exact follows_pure trivial
  | false => exact follows_linkObjects _ _

end Stages

end Toolchain

end ToolchainHost
