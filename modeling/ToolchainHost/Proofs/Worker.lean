import ToolchainHost.Proofs.Toolchain.Stages

/-!
# How requests end

A request posts what its guests and its interpreter say, then the diagnosis of its failure if it failed, and then
its completion event.

* `Request.completion?`: the event that ends a request.
* `Concludes`: the last events of a request.
* `Worker.handle_concludes`: every request to run something ends like that, in whatever state the worker is.
-/

namespace ToolchainHost

variable {σ μ γ : Type} {engine : Engine σ μ γ} {interpreter : Option Interpreter}

/-- The event that ends a request to run something. -/
def Request.completion? : Request → Option Event
  | .init _ => none
  | .runSource .. => some .runCompleted
  | .runCommand token .. => some (.commandCompleted token)

lemma Request.isCompletion_of_completion? {request : Request} {completion : Event}
    (hc : request.completion? = some completion) : completion.isCompletion = true := by
  cases request with
  | init config => cases hc
  | runSource active files =>
    cases hc
    rfl
  | runCommand token active lines files =>
    cases hc
    rfl

/-- How a request ends whose host has reached `h` without a diagnosis. -/
inductive Concludes (engine : Engine σ μ γ) (interpreter : Option Interpreter) (completion : Event) (h : Host) :
    EStateM.Result Failure (Worker σ μ) Unit → Prop where
  /-- It succeeds, and its completion is all that follows. -/
  | succeeded {w : Worker σ μ} (hk : w.host.events = h.events ++ [completion]) :
      Concludes engine interpreter completion h (.ok ⟨⟩ w)
  /-- It fails, and the diagnosis of its failure comes before its completion. -/
  | failed {w : Worker σ μ} {e : Failure} {text : String} (hd : Diagnosed engine interpreter h e text)
      (hk : w.host.events = h.events ++ [.write text, completion]) :
      Concludes engine interpreter completion h (.error e w)

namespace Worker

/-! ### What requests are made of -/

lemma reports_writeFiles (files : List SourceFile) :
    Op.Reports engine interpreter Toolchain.host (writeFiles files : Op (Toolchain σ μ) Unit) :=
  Op.reports_forM (fun _ => Toolchain.reports_onFiles (FileSystem.simple_addFile _ _).unreported) files

/-- A traceback is shown by the interpreter's caller, and counts as shown. -/
lemma reports_interpret (name source : String) :
    Op.Reports engine interpreter Toolchain.host
      (interpret interpreter name source : Op (Toolchain σ μ) Unit) := by
  intro t
  cases hi : interpreter with
  | none => exact Op.reports_throw rfl t
  | some run =>
    cases hr : run name source with
    | ok output =>
      unfold interpret
      dsimp only
      rw [hr]
      cases output with
      | silent => exact Op.reports_pure _ t
      | text bytes => exact .single (.output t.host rfl hr)
    | error text =>
      have hshown := Host.events_emit (highlight_ne_empty (Rewriter.apply ⟨executionToken, name⟩ text)) t.host
      unfold interpret
      dsimp only
      rw [hr]
      exact ⟨t.host, .refl, .shown rfl (.traceback t.host rfl hr) hshown⟩

lemma reports_sourceText (active : String) (files : List SourceFile) :
    Op.Reports engine interpreter Toolchain.host (sourceText active files : Op (Toolchain σ μ) String) := by
  unfold sourceText
  split
  · exact Op.reports_pure _
  · exact (Toolchain.reports_onFiles (FileSystem.simple_contents _).unreported).bind fun _ => Op.reports_pure _

section Requests

variable (hengine : engine.Unreported)
include hengine

lemma reports_runSource (active : String) (files : List SourceFile) :
    Op.Reports engine interpreter Toolchain.host (runSource engine interpreter active files) := by
  refine (reports_writeFiles files).bind fun _ => (reports_sourceText active files).bind fun source => ?_
  split
  · exact reports_interpret _ _
  · exact (Toolchain.reports_compileLinkRun hengine _ _ _).bind fun _ => Op.reports_pure _
  · exact Op.reports_throw rfl

lemma reports_runCommand (active : String) (lines : List String) (files : List SourceFile) :
    Op.Reports engine interpreter Toolchain.host (runCommand engine active lines files) :=
  (reports_writeFiles files).bind fun _ =>
    Op.reports_forM (fun _ => Toolchain.reports_runCommandLine hengine _) lines

end Requests

section OnToolchain

variable {α : Type} {x : Op (Toolchain σ μ) α} {t t' : Toolchain σ μ}

lemma onToolchain_of_ok {a : α} (h : x t = .ok a t') : onToolchain x (ready t) = .ok a (ready t') := by
  simp [onToolchain, h]

lemma onToolchain_of_error {e : Failure} (h : x t = .error e t') : onToolchain x (ready t) = .error e (ready t') := by
  simp [onToolchain, h]

/-- A worker that is not ready fails without a word. -/
lemma reports_onToolchain (hx : Op.Reports engine interpreter Toolchain.host x) :
    Op.Reports engine interpreter Worker.host (onToolchain x) := by
  intro w
  cases w with
  | waiting state host => exact ⟨host, .refl, .unshown rfl rfl⟩
  | stranded host => exact ⟨host, .refl, .unshown rfl rfl⟩
  | ready t =>
    have hr := hx t
    cases hs : x t with
    | ok a t' =>
      rw [hs] at hr
      rw [onToolchain_of_ok hs]
      exact hr
    | error e t' =>
      rw [hs] at hr
      rw [onToolchain_of_error hs]
      exact hr

end OnToolchain

/-! ### The end of a request -/

lemma host_setHost (h : Host) (w : Worker σ μ) : (w.setHost h).host = h := by
  cases w <;> rfl

lemma setHost_setHost (h h' : Host) (w : Worker σ μ) : (w.setHost h).setHost h' = w.setHost h' := by
  cases w <;> rfl

section Finish

variable {w : Worker σ μ} {e : Failure} {completion : Event}

lemma finish_of_reported (he : e.isReported = true) :
    finish (.error e) completion w = .error e (w.setHost (w.host.post completion)) := by
  unfold finish
  dsimp only
  rw [he]
  rfl

lemma finish_of_not_reported (he : e.isReported = false) :
    finish (.error e) completion w = .error e (w.setHost ((w.host.emit e.render).post completion)) := by
  have hx : finish (.error e) completion w = .error e ((w.setHost (w.host.emit e.render)).setHost
      ((w.setHost (w.host.emit e.render)).host.post completion)) := by
    unfold finish
    dsimp only
    rw [he]
    rfl
  rw [hx, host_setHost, setHost_setHost]

/-- What is not shown yet is shown when the request ends, and nothing is shown twice. -/
lemma concludes_finish {h : Host} {x : Op (Worker σ μ) Unit} (completion : Event)
    (hx : Reaches engine interpreter Worker.host h (x w)) :
    ∃ h', h.Proceeds engine interpreter h' ∧
      Concludes engine interpreter completion h' ((Op.attempt x >>= fun r => finish r completion) w) := by
  cases hs : x w with
  | ok a w' =>
    rw [hs] at hx
    rw [Op.bind_of_ok (Op.attempt_of_ok hs)]
    refine ⟨w'.host, hx, .succeeded ?_⟩
    rw [host_setHost, Host.post]
  | error e w' =>
    rw [hs] at hx
    obtain ⟨h', hp, hl⟩ := hx
    rw [Op.bind_of_ok (Op.attempt_of_error hs)]
    refine ⟨h', hp, ?_⟩
    cases hl with
    | unshown he hk =>
      rw [finish_of_not_reported he]
      refine .failed (.own h' he) ?_
      rw [host_setHost, Host.post, Host.events_emit e.render_ne_empty, hk, List.append_assoc,
        List.singleton_append]
    | shown he hd hk =>
      rw [finish_of_reported he]
      refine .failed hd ?_
      rw [host_setHost, Host.post, hk, List.append_assoc, List.singleton_append]

end Finish

/-- A request to run something proceeds without a diagnosis and concludes. -/
lemma concludes_handle (hengine : engine.Unreported) (interpreter : Option Interpreter) {request : Request}
    {completion : Event} (hc : request.completion? = some completion) (w : Worker σ μ) :
    ∃ h, w.host.Proceeds engine interpreter h ∧
      Concludes engine interpreter completion h (handle engine interpreter request w) := by
  cases request with
  | init config => cases hc
  | runSource active files =>
    cases hc
    exact concludes_finish _ (reports_onToolchain (reports_runSource hengine active files) w)
  | runCommand token active lines files =>
    cases hc
    exact concludes_finish _ (reports_onToolchain (reports_runCommand hengine active lines files) w)

/-- **Every request to run something ends with one completion event**, whatever the worker's state and whatever
engine, guests and interpreter do. It is the last event, and right before it stands the diagnosis of the failure
that is returned, if there is one: the only diagnosis of the request. -/
theorem handle_concludes (hengine : engine.Unreported) (interpreter : Option Interpreter) {request : Request}
    {completion : Event} (hc : request.completion? = some completion) (w : Worker σ μ) :
    ∃ h posted, w.host.Proceeds engine interpreter h ∧
      Concludes engine interpreter completion h (handle engine interpreter request w) ∧
      (Op.after (handle engine interpreter request) w).host.events = w.host.events ++ posted ∧
      posted.filter Event.isCompletion = [completion] := by
  obtain ⟨h, hp, hconcludes⟩ := concludes_handle hengine interpreter hc w
  obtain ⟨events, hevents, hno⟩ := hp.continues
  have hnone : events.filter Event.isCompletion = [] := by
    rw [List.filter_eq_nil_iff]
    intro e he
    rw [hno e he]
    exact Bool.false_ne_true
  have hcompletion : completion.isCompletion = true := Request.isCompletion_of_completion? hc
  cases hr : handle engine interpreter request w with
  | ok a w' =>
    rw [hr] at hconcludes
    rw [Op.after_of_ok hr]
    refine ⟨h, events ++ [completion], hp, hconcludes, ?_, ?_⟩
    · cases hconcludes with
      | succeeded hk => rw [hk, hevents, List.append_assoc]
    · rw [List.filter_append, hnone, List.nil_append, List.filter_cons_of_pos hcompletion, List.filter_nil]
  | error e w' =>
    rw [hr] at hconcludes
    rw [Op.after_of_error hr]
    cases hconcludes with
    | @failed _ _ text hd hk =>
      refine ⟨h, events ++ [.write text, completion], hp, .failed hd hk, ?_, ?_⟩
      · rw [hk, hevents, List.append_assoc]
      · rw [List.filter_append, hnone, List.nil_append, List.filter_cons_of_neg Bool.false_ne_true,
          List.filter_cons_of_pos hcompletion, List.filter_nil]

/-- An engine whose guests trap at once. -/
def trapping : Engine Unit Unit Unit where
  fetch _ := pure []
  compileNamed _ := pure ()
  compileBytes _ := pure ()
  instantiateStore _ := pure ()
  instantiate _ := pure (.ok (Memory.ofPages 1), ())
  call _ _ := .done (.error ⟨"unreachable", none⟩, ())

lemma unreported_trapping : trapping.Unreported where
  compileNamed _ := Op.failsOnly_pure _
  compileBytes _ := Op.failsOnly_pure _
  instantiate _ := Op.failsOnly_pure _
  memory h := by
    cases h
    exact failsOnly_ok _

theorem handle_concludes_trapping :
    trapping.Unreported ∧ (Request.runSource "a.c" [⟨"a.c", "int x;"⟩]).completion? = some .runCompleted ∧
      ∃ h posted, Host.Proceeds trapping none {} h ∧
        Concludes trapping none .runCompleted h
          (handle trapping none (.runSource "a.c" [⟨"a.c", "int x;"⟩]) (.ready ⟨{}, (), {}, [], 0⟩)) ∧
        (Op.after (handle trapping none (.runSource "a.c" [⟨"a.c", "int x;"⟩]))
          (.ready ⟨{}, (), {}, [], 0⟩)).host.events = posted ∧
        posted.filter Event.isCompletion = [.runCompleted] :=
  ⟨unreported_trapping, rfl, handle_concludes unreported_trapping none rfl (.ready ⟨{}, (), {}, [], 0⟩)⟩

example : (Op.after (handle trapping none (.runSource "a.c" [])) (.waiting () {})).host.events =
    [.write "\x1b[91mError: toolchain is not initialized\x1b[0m\n", .runCompleted] := by rfl

end Worker

end ToolchainHost
