import Mathlib.Logic.Relation
import ToolchainHost.Proofs.Failures
import ToolchainHost.Proofs.Guest.Calls
import ToolchainHost.Worker

/-!
# Who reports a failure

A failure that comes out of a guest or an interpreter is shown where it happens and must not be shown again; every
other failure is left for later. An operation *reports* if it keeps to that.

* `Engine.Enters`: a new guest was started and ended.
* `Host.Proceeds`: what a request may post without a diagnosis.
* `Diagnosed`: the diagnosis that belongs to a failure.
* `Reports`: an operation that shows its failure at most once, as the last thing it posts. Reporting operations can
  be put together.
-/

namespace ToolchainHost

variable {σ τ μ γ α β : Type} {engine : Engine σ μ γ} {interpreter : Option Interpreter}

/-! ### What happens in a request -/

/-- A new instance was entered on the host `h`. It ended with `t` and left the host `h'`. -/
inductive Engine.Enters (engine : Engine σ μ γ) : (h : Host) → (t : Termination) → (h' : Host) → Prop where
  | started {launch : Launch} {module : μ} {s s' : σ} {i : Instance γ} {h : Host}
      (hi : launch.instantiate engine module s = .ok i s') :
      Enters engine h (i.enter engine Interface.startExport h).1 (i.enter engine Interface.startExport h).2.2

/-- A step of a request that is no diagnosis. -/
inductive Host.Step (engine : Engine σ μ γ) (interpreter : Option Interpreter) : (h h' : Host) → Prop where
  /-- The host does its work and posts nothing. -/
  | work {h h' : Host} (he : h'.events = h.events) : Step engine interpreter h h'
  /-- A command is shown before it runs. -/
  | echo (h : Host) (program : String) (arguments : List String) :
      Step engine interpreter h (h.emit ("> " ++ program ++ " " ++ " ".intercalate arguments ++ "\n"))
  /-- A guest is started and ends. -/
  | guest {h h' : Host} {t : Termination} (ht : engine.Enters h t h') : Step engine interpreter h h'
  /-- What an interpreter made of a source is shown. -/
  | output (h : Host) {run : Interpreter} {name source : String} {bytes : List UInt8}
      (hi : interpreter = some run) (hr : run name source = .ok (.text bytes)) :
      Step engine interpreter h (h.emit (Utf8.decode bytes))

/-- The host got from `h` to `h'` without a diagnosis. -/
abbrev Host.Proceeds (engine : Engine σ μ γ) (interpreter : Option Interpreter) : (h h' : Host) → Prop :=
  Relation.ReflTransGen (Host.Step engine interpreter)

/-- The text is the diagnosis of the failure, on a host that reached `h`. -/
inductive Diagnosed (engine : Engine σ μ γ) (interpreter : Option Interpreter) :
    (h : Host) → Failure → (text : String) → Prop where
  /-- The guest that ended last trapped. -/
  | trap {h h' : Host} {t : Trap} (ht : engine.Enters h (.trap t) h') :
      Diagnosed engine interpreter h' (.guestTrap t.message) t.render
  /-- The guest that ended last exited with a failing code. -/
  | exit {h h' : Host} {code : Int} (ht : engine.Enters h (.exit code) h') (hc : code ≠ 0)
      (hs : (Termination.exit code).allowsScheduling = false) :
      Diagnosed engine interpreter h' (.guestExit code) (Failure.guestExit code).render
  /-- The interpreter failed with a traceback, which is shown with the name of the file. -/
  | traceback (h : Host) {run : Interpreter} {name source text : String} (hi : interpreter = some run)
      (hr : run name source = .error text) :
      Diagnosed engine interpreter h (.guestTrap (Rewriter.apply ⟨Worker.executionToken, name⟩ text))
        (highlight (Rewriter.apply ⟨Worker.executionToken, name⟩ text))
  /-- A stage failed since something in it did. -/
  | staged {h : Host} {e : Failure} {text : String} (stage : Stage) (he : e.isReported = true)
      (hd : Diagnosed engine interpreter h e text) : Diagnosed engine interpreter h (.stageFailed stage e) text
  /-- The failure is the host's own. -/
  | own (h : Host) {e : Failure} (he : e.isReported = false) : Diagnosed engine interpreter h e e.render

/-- An operation that fails with `e` on a host that has reached `h` leaves the host `h'`: the failure is shown if
and only if it counts as shown. -/
inductive Leaves (engine : Engine σ μ γ) (interpreter : Option Interpreter) (h : Host) (e : Failure) (h' : Host) :
    Prop where
  | unshown (he : e.isReported = false) (hk : h'.events = h.events)
  | shown {text : String} (he : e.isReported = true) (hd : Diagnosed engine interpreter h e text)
      (hk : h'.events = h.events ++ [.write text])

/-- No failure of the engine itself counts as shown. -/
structure Engine.Unreported (engine : Engine σ μ γ) : Prop where
  compileNamed (name : String) : (engine.compileNamed name).Unreported
  compileBytes (bytes : List UInt8) : (engine.compileBytes bytes).Unreported
  instantiate (module : μ) : (engine.instantiate module).Unreported
  memory {module : μ} {s s' : σ} {memory : Except Failure Memory} {code : γ}
    (h : engine.instantiate module s = .ok (memory, code) s') : ToolchainHost.Unreported memory

/-! ### Terminal text -/

lemma highlight_ne_empty (text : String) : highlight text ≠ "" := by
  intro h
  have hc := congrArg String.toList h
  simp [highlight] at hc

lemma Trap.render_ne_empty (t : Trap) : t.render ≠ "" := by
  unfold Trap.render
  split
  · exact highlight_ne_empty _
  · exact highlight_ne_empty _

lemma Failure.render_ne_empty (e : Failure) : e.render ≠ "" := Trap.render_ne_empty _

lemma Host.events_emit {text : String} (ht : text ≠ "") (h : Host) :
    (h.emit text).events = h.events ++ [.write text] := by rw [emit, if_neg ht, post]

/-! ### Requests go on -/

namespace Instance

lemma events_explain (trap : Trap) (p : ProcessState) (h : Host) : (explain trap p h).2.2.events = h.events := by
  unfold explain ProcessState.takeFault Host.takeFault
  cases p.fault with
  | some failure => rfl
  | none =>
    cases h.fault with
    | some failure => rfl
    | none => rfl

lemma events_conclude (outcome : Except Trap Unit) (p : ProcessState) (h : Host) :
    (conclude outcome p h).2.2.events = h.events := by
  unfold conclude
  split
  · rfl
  · rfl
  · exact events_explain _ _ _

/-- An entry into a guest does not end the request. -/
lemma continues_enter (engine : Engine σ μ γ) (name : String) (i : Instance γ) (h : Host) :
    h.Continues (i.enter engine name h).2.2 := by
  have hrun := (engine.call name i.code).continues_run ⟨i.process, h.bind i.memory⟩
  have hend : (i.enter engine name h).2.2.events =
      ((engine.call name i.code).run ⟨i.process, h.bind i.memory⟩).2.host.events := events_conclude _ _ _
  exact hrun.trans (Host.continues_of_eq hend)

end Instance

lemma Host.Step.continues {h h' : Host} (hs : h.Step engine interpreter h') : h.Continues h' := by
  cases hs with
  | work he => exact continues_of_eq he
  | echo program arguments => exact continues_emit _ _
  | guest ht =>
    cases ht with
    | started hi => exact Instance.continues_enter _ _ _ _
  | output hi hr => exact continues_emit _ _

/-- **Nothing but its completion ends a request.** -/
theorem Host.Proceeds.continues {h h' : Host} (hp : h.Proceeds engine interpreter h') : h.Continues h' := by
  induction hp with
  | refl => exact refl_of Continues h
  | tail _ hs ih => exact ih.trans hs.continues

/-! ### Operations that report -/

/-- How an operation that started on the host `h` ends: without a diagnosis, or with that of its failure at most. -/
def Reaches (engine : Engine σ μ γ) (interpreter : Option Interpreter) (view : τ → Host) (h : Host) :
    EStateM.Result Failure τ α → Prop
  | .ok _ s => h.Proceeds engine interpreter (view s)
  | .error e s => ∃ h', h.Proceeds engine interpreter h' ∧ Leaves engine interpreter h' e (view s)

/-- The operation shows its failure if and only if it counts as shown, once and last. -/
def Op.Reports (engine : Engine σ μ γ) (interpreter : Option Interpreter) (view : τ → Host) (x : Op τ α) : Prop :=
  ∀ s, Reaches engine interpreter view (view s) (x s)

lemma Reaches.of_proceeds {view : τ → Host} {h h' : Host} {r : EStateM.Result Failure τ α}
    (hp : h.Proceeds engine interpreter h') (hr : Reaches engine interpreter view h' r) :
    Reaches engine interpreter view h r := by
  cases r with
  | ok a s => exact hp.trans hr
  | error e s =>
    obtain ⟨h'', hp', hl⟩ := hr
    exact ⟨h'', hp.trans hp', hl⟩

lemma Leaves.of_events {h h' h'' : Host} {e : Failure} (hl : Leaves engine interpreter h e h')
    (hk : h''.events = h'.events) : Leaves engine interpreter h e h'' := by
  cases hl with
  | unshown he hk' => exact .unshown he (hk.trans hk')
  | shown he hd hk' => exact .shown he hd (hk.trans hk')

/-- Blaming a stage neither shows a failure nor hides it. -/
lemma Leaves.inStage {h h' : Host} {e : Failure} (hl : Leaves engine interpreter h e h') (stage : Stage) :
    Leaves engine interpreter h (e.inStage stage) h' := by
  have he' := Failure.isReported_inStage stage e
  cases hl with
  | unshown he hk => exact .unshown (he'.trans he) hk
  | @shown text he hd hk =>
    have hd' : Diagnosed engine interpreter h (e.inStage stage) text := by
      cases e with
      | stageFailed s cause => exact hd
      | _ => exact .staged stage he hd
    exact .shown (he'.trans he) hd' hk

lemma Reaches.onPart {ρ : Type} {part : τ → ρ} {put : ρ → τ → τ} {view : τ → Host} {view' : ρ → Host} {x : Op ρ α}
    {h : Host} {s : τ} (hr : Reaches engine interpreter view' h (x (part s))) (hput : ∀ r, view (put r s) = view' r) :
    Reaches engine interpreter view h (Op.onPart part put x s) := by
  cases hs : x (part s) with
  | ok a r =>
    rw [hs] at hr
    rw [Op.onPart_of_ok hs]
    show h.Proceeds engine interpreter (view (put r s))
    rw [hput]
    exact hr
  | error e r =>
    rw [hs] at hr
    rw [Op.onPart_of_error hs]
    show ∃ h', h.Proceeds engine interpreter h' ∧ Leaves engine interpreter h' e (view (put r s))
    rw [hput]
    exact hr

namespace Op

variable {view : τ → Host} {x : Op τ α} {f : α → Op τ β}

lemma reports_pure (a : α) : Reports engine interpreter view (pure a : Op τ α) := fun _ => .refl

lemma reports_get : Reports engine interpreter view (get : Op τ τ) := fun _ => .refl

lemma reports_throw {e : Failure} (he : e.isReported = false) :
    Reports engine interpreter view (throw e : Op τ α) := fun _ => ⟨_, .refl, .unshown he rfl⟩

lemma reports_modify {g : τ → τ} (hg : ∀ s, (view s).Step engine interpreter (view (g s))) :
    Reports engine interpreter view (modify g : Op τ PUnit) := fun s => .single (hg s)

/-- An operation that posts nothing reports if its failures are not shown yet. -/
lemma Unreported.reports (hx : Unreported x) (hk : ∀ s, (view (after x s)).events = (view s).events) :
    Reports engine interpreter view x := by
  intro s
  have hk := hk s
  cases hr : x s with
  | ok a t =>
    rw [after_of_ok hr] at hk
    exact .single (.work hk)
  | error e t =>
    rw [after_of_error hr] at hk
    exact ⟨view s, .refl, .unshown (hx s e t hr) hk⟩

lemma reports_lift {r : Except Failure α} (hr : ToolchainHost.Unreported r) :
    Reports engine interpreter view (liftM r : Op τ α) :=
  Unreported.reports (failsOnly_lift hr) fun s => by cases r <;> rfl

lemma Reports.bind (hx : Reports engine interpreter view x) (hf : ∀ a, Reports engine interpreter view (f a)) :
    Reports engine interpreter view (x >>= f) := by
  intro s
  have hr := hx s
  cases hs : x s with
  | ok a t =>
    rw [hs] at hr
    rw [bind_of_ok hs]
    exact .of_proceeds hr (hf a t)
  | error e t =>
    rw [hs] at hr
    rwa [bind_of_error hs]

lemma Reports.ite {c : Prop} [Decidable c] {y : Op τ α} (hx : Reports engine interpreter view x)
    (hy : Reports engine interpreter view y) : Reports engine interpreter view (if c then x else y) := by
  split_ifs
  · exact hx
  · exact hy

lemma Reports.inStage (hx : Reports engine interpreter view x) (stage : Stage) :
    Reports engine interpreter view (inStage stage x) := by
  intro s
  have hr := hx s
  unfold Op.inStage
  cases hs : x s with
  | ok a t =>
    rw [hs] at hr
    exact hr
  | error e t =>
    rw [hs] at hr
    obtain ⟨h', hp, hl⟩ := hr
    exact ⟨h', hp, hl.inStage stage⟩

/-- The part of the state on which the operation runs may be all that is viewed. -/
lemma Reports.onPart {ρ : Type} {part : τ → ρ} {put : ρ → τ → τ} {view' : ρ → Host} {y : Op ρ α}
    (hy : Reports engine interpreter view' y) (hget : ∀ s, view' (part s) = view s)
    (hput : ∀ r s, view (put r s) = view' r) : Reports engine interpreter view (onPart part put y) := by
  intro s
  have hr := hy (part s)
  rw [hget s] at hr
  exact hr.onPart fun r => hput r s

lemma reports_forM {g : α → Op τ PUnit} (hg : ∀ a, Reports engine interpreter view (g a)) (l : List α) :
    Reports engine interpreter view (l.forM g) := by
  induction l with
  | nil => exact reports_pure _
  | cons a rest ih => exact (hg a).bind fun _ => ih

/-- What is undone after an operation, however it ended, must not post anything. -/
lemma Reports.finally (hx : Reports engine interpreter view x) {g : τ → τ}
    (hg : ∀ s, (view (g s)).events = (view s).events) (hf : ∀ a, Reports engine interpreter view (f a)) :
    Reports engine interpreter view (do
      let outcome ← attempt x
      modify g
      let a ← outcome
      f a) := by
  intro s
  have hr := hx s
  cases hs : x s with
  | ok a t =>
    rw [hs] at hr
    rw [bind_of_ok (attempt_of_ok hs), modify_bind_apply, lift_ok_bind]
    exact .of_proceeds (Relation.ReflTransGen.tail hr (.work (hg t))) (hf a (g t))
  | error e t =>
    rw [hs] at hr
    obtain ⟨h', hp, hl⟩ := hr
    rw [bind_of_ok (attempt_of_error hs), modify_bind_apply, lift_error_bind]
    exact ⟨h', hp, hl.of_events (hg t)⟩

end Op

end ToolchainHost
