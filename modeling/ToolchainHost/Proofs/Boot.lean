import Mathlib.Data.List.Induction
import ToolchainHost.Proofs.Worker

/-!
# Getting ready

A worker boots at its first `init`. Whether it is ready, or stranded by a boot that failed, is decided by the `init`s
alone.

* `Worker.afterRequests`: a worker after requests. It is stranded iff one of them was an `init` that failed.
* `Worker.Announces`: an `init` that says how it ended, once.
* `Worker.init_announces`: every `init` does, until one has failed. Those after it fail without a word.
* `Worker.exists_init_silent`: there are such.
-/

namespace ToolchainHost

variable {σ μ γ : Type} {engine : Engine σ μ γ} {interpreter : Option Interpreter}

/-! ### Booting -/

/-- No events were posted. -/
def Host.SameEvents (h h' : Host) : Prop := h'.events = h.events

instance : IsPreorder Host Host.SameEvents where
  refl _ := rfl
  trans _ _ _ h1 h2 := Eq.trans h2 h1

section Boot

variable {S : Host → Host → Prop} [IsPreorder Host S]

/-- Booting changes nothing but the files of the host, however it ends. -/
lemma Toolchain.boot_ends (hfiles : ∀ h files, S h { h with files }) (engine : Engine σ μ γ) (config : Config)
    (p : σ × Host) : Op.Ends (boot engine config) p (fun t _ => S p.2 t.host) (fun q => S p.2 q.2) := by
  have hengine {α : Type} (x : Op σ α) (q : σ × Host) :
      Op.Ends (Op.onPart Prod.fst (fun s (p : σ × Host) => (s, p.2)) x) q
        (fun _ q' => S q.2 q'.2) (fun q' => S q.2 q'.2) :=
    (Op.within_onPart (R := fun q q' : σ × Host => S q.2 q'.2) fun q => refl_of S q.2).ends q
  have honFiles {α : Type} (x : Op FileSystem α) (q : σ × Host) :
      Op.Ends (Op.onPart Prod.snd (fun h (p : σ × Host) => (p.1, h)) (Host.onFiles x)) q
        (fun _ q' => S q.2 q'.2) (fun q' => S q.2 q'.2) :=
    (Op.within_onPart (R := fun q q' : σ × Host => S q.2 q'.2) fun q =>
      Op.within_onPart (R := S) (fun h => hfiles h _) q.2).ends q
  refine (hengine _ p).bind fun _ q h1 => ?_
  refine Op.ends_bind_of_ok (t := (q.1, { q.2 with files := .empty })) rfl ?_
  have h1 : S p.2 { q.2 with files := .empty } := trans_of S h1 (hfiles q.2 .empty)
  refine Op.Ends.bind ((hengine _ _).mono (fun _ _ => trans_of S h1) fun _ => trans_of S h1) fun data q h2 => ?_
  refine Op.Ends.bind ((honFiles _ q).mono (fun _ _ => trans_of S h2) fun _ => trans_of S h2) fun _ q h3 => ?_
  exact Op.ends_get_bind (Op.ends_pure h3)

end Boot

namespace Worker

/-! ### The three states of a worker -/

/-- Whether booting has failed. -/
def isStranded : Worker σ μ → Bool
  | stranded _ => true
  | _ => false

lemma isStranded_of_isReady {w : Worker σ μ} (hr : w.isReady = true) : w.isStranded = false := by
  cases w with
  | waiting state host => cases hr
  | stranded host => cases hr
  | ready t => rfl

/-- The worker is as ready as before. -/
structure KeepsState (w w' : Worker σ μ) : Prop where
  isReady : w'.isReady = w.isReady
  isStranded : w'.isStranded = w.isStranded

instance : IsPreorder (Worker σ μ) KeepsState where
  refl _ := ⟨rfl, rfl⟩
  trans _ _ _ h1 h2 := ⟨h2.isReady.trans h1.isReady, h2.isStranded.trans h1.isStranded⟩

lemma keepsState_setHost (h : Host) (w : Worker σ μ) : KeepsState w (w.setHost h) := by
  cases w <;> exact ⟨rfl, rfl⟩

lemma keepsState_onToolchain {α : Type} (x : Op (Toolchain σ μ) α) : Op.Within KeepsState (onToolchain x) := by
  intro w
  cases w with
  | waiting state host => exact refl_of KeepsState _
  | stranded host => exact refl_of KeepsState _
  | ready t =>
    unfold Op.after onToolchain
    dsimp only
    cases x t <;> exact ⟨rfl, rfl⟩

lemma keepsState_finish (outcome : Except Failure Unit) (completion : Event) :
    Op.Within (KeepsState (σ := σ) (μ := μ)) (finish outcome completion) := by
  have hpost (event : Event) : Op.Within (KeepsState (σ := σ) (μ := μ)) (post event) :=
    Op.within_modify fun w => keepsState_setHost _ w
  have hemit (text : String) : Op.Within (KeepsState (σ := σ) (μ := μ)) (emit text) :=
    Op.within_modify fun w => keepsState_setHost _ w
  cases outcome with
  | ok a => exact (hpost completion).bind fun _ => Op.within_pure _
  | error e =>
    refine Op.Within.ite ?_ ((hpost completion).bind fun _ => Op.within_throw _)
    exact (hemit _).bind fun _ => (hpost completion).bind fun _ => Op.within_throw _

/-- A request to run something neither boots a worker nor strands it. -/
lemma keepsState_handle {request : Request} {completion : Event} (hc : request.completion? = some completion) :
    Op.Within (KeepsState (σ := σ) (μ := μ)) (handle engine interpreter request) := by
  cases request with
  | init config => cases hc
  | runSource active files => exact (keepsState_onToolchain _).attempt.bind fun _ => keepsState_finish _ _
  | runCommand token active lines files =>
    exact (keepsState_onToolchain _).attempt.bind fun _ => keepsState_finish _ _

/-! ### An `init` in each of them -/

/-- An `init` on a host ends by saying that the worker is ready, or by showing why it is not, and says no more. -/
inductive Announces (h : Host) : EStateM.Result Failure (Worker σ μ) Unit → Prop where
  | ready {w : Worker σ μ} (hr : w.isReady = true) (hk : w.host.events = h.events ++ [.ready]) :
      Announces h (.ok ⟨⟩ w)
  | failed {w : Worker σ μ} {e : Failure} (hr : w.isStranded = true)
      (hk : w.host.events = h.events ++ [.write e.render]) : Announces h (.error e w)

/-- An `init` of a worker that is not stranded announces how it ended. -/
lemma announces_init (engine : Engine σ μ γ) (config : Config) {w : Worker σ μ} (hw : w.isStranded = false) :
    Announces w.host (init engine config w) := by
  cases w with
  | stranded host => cases hw
  | ready t => exact .ready rfl rfl
  | waiting state host =>
    have hboot := Toolchain.boot_ends (S := Host.SameEvents) (fun _ _ => rfl) engine config (state, host)
    unfold init
    rw [Op.get_bind_apply]
    dsimp only
    cases hb : Toolchain.boot engine config (state, host) with
    | ok t q =>
      have hk : t.host.events = host.events := hboot.ok hb
      exact .ready rfl (congrArg (· ++ [Event.ready]) hk)
    | error e q =>
      obtain ⟨s, h⟩ := q
      have hk : h.events = host.events := hboot.error hb
      refine .failed rfl ?_
      show (h.emit e.render).events = host.events ++ [.write e.render]
      rw [Host.events_emit e.render_ne_empty, hk]

/-- An `init` of a stranded worker fails without a word. -/
lemma init_of_isStranded (engine : Engine σ μ γ) (config : Config) {w : Worker σ μ} (hw : w.isStranded = true) :
    init engine config w = .error .notInitialized w := by
  cases w with
  | waiting state host => cases hw
  | ready t => cases hw
  | stranded host => rfl

/-! ### Sequences of requests -/

/-- The worker after requests, whatever came of them. -/
def afterRequests (engine : Engine σ μ γ) (interpreter : Option Interpreter) (w : Worker σ μ)
    (requests : List Request) : Worker σ μ :=
  requests.foldl (fun w request => Op.after (handle engine interpreter request) w) w

/-- One of the requests was an `init`, and it failed. -/
def InitFailed (engine : Engine σ μ γ) (interpreter : Option Interpreter) (w : Worker σ μ)
    (requests : List Request) : Prop :=
  ∃ before config rest e w', requests = before ++ .init config :: rest ∧
    handle engine interpreter (.init config) (w.afterRequests engine interpreter before) = .error e w'

variable {w : Worker σ μ} {requests : List Request}

lemma afterRequests_concat (requests : List Request) (request : Request) :
    w.afterRequests engine interpreter (requests ++ [request]) =
      Op.after (handle engine interpreter request) (w.afterRequests engine interpreter requests) :=
  List.foldl_append ..

lemma initFailed_concat {request : Request} :
    InitFailed engine interpreter w (requests ++ [request]) ↔ InitFailed engine interpreter w requests ∨
      ∃ config e w', request = .init config ∧
        handle engine interpreter (.init config) (w.afterRequests engine interpreter requests) = .error e w' := by
  constructor
  -- The `init` that failed is the last request, or it stands before it.
  · rintro ⟨before, config, rest, e, w', hl, he⟩
    rcases List.eq_nil_or_concat rest with rfl | ⟨rest, last, rfl⟩
    · obtain ⟨rfl, hr⟩ := List.append_inj' hl rfl
      exact Or.inr ⟨config, e, w', (List.cons.inj hr).1, he⟩
    · rw [List.concat_eq_append, ← List.cons_append, ← List.append_assoc] at hl
      exact Or.inl ⟨before, config, rest, e, w', (List.append_inj' hl rfl).1, he⟩
  · rintro (⟨before, config, rest, e, w', rfl, he⟩ | ⟨config, e, w', rfl, he⟩)
    · exact ⟨before, config, rest ++ [request], e, w', by simp, he⟩
    · exact ⟨requests, config, [], e, w', rfl, he⟩

/-- A request strands a worker iff it is an `init` that fails. -/
lemma isStranded_handle (request : Request) (w : Worker σ μ) :
    (Op.after (handle engine interpreter request) w).isStranded = true ↔ w.isStranded = true ∨
      ∃ config e w', request = .init config ∧ handle engine interpreter (.init config) w = .error e w' := by
  cases request with
  | init config =>
    have hx : handle engine interpreter (.init config) w = init engine (config.getD {}) w := rfl
    by_cases hw : w.isStranded = true
    · rw [Op.after_of_error (hx.trans (init_of_isStranded engine _ hw))]
      simp [hw]
    · have ha := announces_init engine (config.getD {}) (Bool.eq_false_iff.2 hw)
      rw [← hx] at ha
      cases hr : handle engine interpreter (.init config) w with
      | ok a w' =>
        rw [hr] at ha
        rw [Op.after_of_ok hr]
        cases ha with
        | ready hready hk =>
          have hno := isStranded_of_isReady hready
          simp [hw, hno, hr]
      | error e w' =>
        rw [hr] at ha
        rw [Op.after_of_error hr]
        cases ha with
        | failed hstranded hk => simp [hstranded, hr]
  | runSource active files =>
    have hk : Request.completion? (.runSource active files) = some .runCompleted := rfl
    rw [(keepsState_handle hk w).isStranded]
    simp
  | runCommand token active lines files =>
    have hk : Request.completion? (.runCommand token active lines files) = some (.commandCompleted token) := rfl
    rw [(keepsState_handle hk w).isStranded]
    simp

/-- A worker is stranded iff it was before, or an `init` has failed since. -/
lemma isStranded_afterRequests (requests : List Request) :
    (w.afterRequests engine interpreter requests).isStranded = true ↔
      w.isStranded = true ∨ InitFailed engine interpreter w requests := by
  induction requests using List.reverseRecOn with
  | nil => simp [afterRequests, InitFailed]
  | append_singleton requests request ih =>
    rw [afterRequests_concat, isStranded_handle, ih, initFailed_concat, or_assoc]

/-- **Every `init` announces how it ended, until one has failed.** Whatever requests a new worker has answered, with
whatever engine, its next `init` says once that the worker is ready or shows once why it is not; but after an `init`
that failed it changes nothing, fails and says nothing. -/
theorem init_announces (engine : Engine σ μ γ) (interpreter : Option Interpreter) (state : σ) (host : Host)
    (requests : List Request) (config : Option Config) :
    let w := (waiting state host : Worker σ μ).afterRequests engine interpreter requests
    ¬ InitFailed engine interpreter (waiting state host : Worker σ μ) requests ∧
        Announces w.host (handle engine interpreter (.init config) w) ∨
      InitFailed engine interpreter (waiting state host : Worker σ μ) requests ∧
        handle engine interpreter (.init config) w = .error .notInitialized w := by
  intro w
  have hs : w.isStranded = true ↔ _ := isStranded_afterRequests requests
  by_cases hfailed : InitFailed engine interpreter (waiting state host : Worker σ μ) requests
  · exact Or.inr ⟨hfailed, init_of_isStranded engine _ (hs.2 (Or.inr hfailed))⟩
  · have hno : w.isStranded = false := by
      rw [Bool.eq_false_iff, Ne, hs]
      rintro (h | h)
      · cases h
      · exact hfailed h
    exact Or.inl ⟨hfailed, announces_init engine _ hno⟩

/-- An engine whose file store cannot be had. -/
def storeless : Engine Unit Unit Unit :=
  { trapping with instantiateStore := fun name => throw (.fetch name "HTTP 404") }

/-- **An `init` may say nothing at all**: the second one of a worker whose engine has no file store. -/
theorem exists_init_silent :
    ¬ Announces ((waiting () {} : Worker Unit Unit).afterRequests storeless none [.init none]).host
      (handle storeless none (.init none)
        ((waiting () {} : Worker Unit Unit).afterRequests storeless none [.init none])) := by
  intro h
  have hr : handle storeless none (.init none)
        ((waiting () {} : Worker Unit Unit).afterRequests storeless none [.init none]) =
      .error .notInitialized
        ((waiting () {} : Worker Unit Unit).afterRequests storeless none [.init none]) := rfl
  rw [hr] at h
  cases h with
  | failed hs hk => simp at hk

end Worker

end ToolchainHost
