import ToolchainHost.Proofs.Boot
import ToolchainHost.Proofs.Requests
import ToolchainHost.Proofs.Toolchain.Shown

/-!
# Between requests

No rewriter is installed between requests, and no guest is bound. So it is also while a request is answered, whenever a
deed is about to be tried: a path is shown as another text only within the deeds of the front end for that path.

* `Host.Quiet`, `Host.Restores`: a host between requests, and what keeps it so.
* `Moment.Proper`: a moment in which nothing is rewritten unless the front end compiles.
* `Request.history`: the moments of a request.
* `Op.Shows`, `Worker.texts_after_handle`: what a request shows.
* `quiet_between_requests`: after any requests and visits the host is quiet, and all moments of the next are proper.
-/

namespace ToolchainHost

open Toolchain
open Instance (Visit)

variable {σ μ γ τ α : Type} {engine : Engine σ μ γ} {interpreter : Option Interpreter}

/-! ### Quiet hosts -/

namespace Host

variable {h h' : Host}

/-- No path is shown as another text, and no guest is bound. -/
structure Quiet (h : Host) : Prop where
  rewriter : h.rewriter = none
  guest : h.guest = none

/-- No rewriter is left installed but one that was there before, and no guest is left bound. -/
structure Restores (h h' : Host) : Prop where
  rewriter : h'.rewriter = h.rewriter ∨ h'.rewriter = none
  guest : h.guest = none → h'.guest = none

instance : IsPreorder Host Restores where
  refl _ := ⟨Or.inl rfl, id⟩
  trans _ _ _ h1 h2 := by
    refine ⟨?_, h2.guest ∘ h1.guest⟩
    rcases h2.rewriter with h2 | h2
    · rw [h2]
      exact h1.rewriter
    · exact Or.inr h2

lemma Restores.quiet (hr : Restores h h') (hq : h.Quiet) : h'.Quiet := by
  refine ⟨?_, hr.guest hq.guest⟩
  rcases hr.rewriter with h | h
  · rw [h, hq.rewriter]
  · exact h

lemma restores_emit (text : String) (h : Host) : Restores h (h.emit text) := by
  unfold emit
  split_ifs <;> exact ⟨Or.inl rfl, id⟩

/-- A guest is unbound when it has been entered, however it ended, and it installs no rewriter. -/
lemma restores_entry (engine : Engine σ μ γ) (e : Instance.Entry γ) : Restores e.host (e.hostAfter engine) :=
  ⟨Or.inl (e.shows engine).rewriter, fun _ => Instance.Entry.guest_hostAfter⟩

lemma permits_restores (engine : Engine σ μ γ) : Permits engine Restores where
  files _ _ := ⟨Or.inl rfl, id⟩
  emit := restores_emit
  enter i h := restores_entry engine ⟨Interface.startExport, i, h⟩
  shown _ {_ _} hs := ⟨Or.inr rfl, hs.guest⟩

end Host

/-- Every deed restores the host. -/
lemma Deed.restores (engine : Engine σ μ γ) (deed : Deed) (hand : Hand μ) :
    Op.Within (OnHosts Host.Restores) (deed.perform engine hand) :=
  deed.within_perform (allows_onHosts (Host.permits_restores engine))
    (fun name _ => within_getModule_onHosts engine name)
    (fun program _ => allowsGuests_onHosts (Host.permits_restores engine) program) hand

/-! ### Proper moments -/

/-- What is done while a source is shown as its base name: the front end is asked for, and it compiles that source. -/
inductive Compiles (c : Config) (source : String) : Deed → Prop
  | asking : Compiles c source (.request c.clangModule)
  | running (object languageName optLevel : String) :
      Compiles c source (.start "clang" (frontEndArguments c source object languageName optLevel))

/-- The host is quiet as the moment comes. Its guest finds the rewriter that the deed is shown with, and a deed is only
shown with one if the front end compiles the source whose path that replaces. -/
structure Moment.Proper (engine : Engine σ μ γ) (m : Moment σ μ) : Prop where
  quiet : m.toolchain.host.Quiet
  guest (e : Instance.Entry γ) (he : m.guest? engine = some e) : e.host.rewriter = m.deed.rewriter?
  shown (hr : m.deed.rewriter? ≠ none) : ∃ source deed,
    m.deed = .shown ⟨source, Path.baseName source⟩ deed ∧ Compiles m.toolchain.config source deed

lemma rewriter_of_start {hand : Hand μ} {t : Toolchain σ μ} {program : String} {arguments : List String}
    {e : Instance.Entry γ} (h : (Deed.start program arguments).guest? engine hand t = some e) : e.host.rewriter = t.host.rewriter := by
  obtain ⟨module, -, h⟩ := Option.bind_eq_some_iff.1 h
  obtain ⟨-, hhost, -⟩ := launch_of_some h
  rw [hhost]
  show (if t.config.echoCommands then _ else t : Toolchain σ μ).host.rewriter = t.host.rewriter
  split_ifs
  · unfold Host.emit
    split_ifs <;> rfl
  · rfl

/-- A planned deed that finds a quiet host makes a proper moment. -/
lemma Planned.proper {m : Moment σ μ} (h : Planned m.toolchain.config m.deed) (hq : m.toolchain.host.Quiet) :
    m.Proper engine := by
  obtain ⟨deed, hand, t⟩ := m
  have h : Planned t.config deed := h
  constructor
  · exact hq
  · intro e he
    have he : deed.guest? engine hand t = some e := he
    show e.host.rewriter = deed.rewriter?
    cases h with
    | plain _ hs =>
      rw [hs]
      cases deed with
      | start program arguments => exact (rewriter_of_start he).trans hq.rewriter
      | shown rewriter deed => cases hs
      | _ => cases he
    | compiling source object languageName optLevel => exact rewriter_of_start he
    | _ => cases he
  · intro hr
    cases h with
    | plain _ hs => exact absurd hs hr
    | frontEnd | linker => exact absurd rfl hr
    | shownFrontEnd source => exact ⟨source, _, rfl, .asking⟩
    | compiling source object languageName optLevel => exact ⟨source, _, rfl, .running ..⟩

/-- The moments of a job that finds a quiet host are proper, and it leaves the host quiet. -/
lemma Job.proper (engine : Engine σ μ γ) {t : Toolchain σ μ} (hq : t.host.Quiet) (job : Job) :
    (∀ m ∈ job.history engine t, m.Proper engine) ∧ (Op.after (job.perform engine) t).host.Quiet := by
  obtain ⟨hmoments, hend⟩ := job.mem_history (I := fun t : Toolchain σ μ => t.host.Quiet)
    (fun deed hand t hq => (deed.restores engine hand t).quiet hq) hq
  exact ⟨fun m hm => (hmoments m hm).2.proper (hmoments m hm).1, hend⟩

/-! ### The moments of a request -/

/-- The moments that follow an operation. There are none if it fails. -/
def momentsAfter (x : Op (Toolchain σ μ) α) (moments : α → Toolchain σ μ → List (Moment σ μ)) (t : Toolchain σ μ) :
    List (Moment σ μ) :=
  match x t with
  | .ok a t => moments a t
  | .error .. => []

/-- The deeds that are tried for jobs, up to the first job that fails. -/
def jobsUntilFailure (engine : Engine σ μ γ) : List Job → Toolchain σ μ → List (Moment σ μ)
  | [], _ => []
  | job :: jobs, t =>
    job.history engine t ++ momentsAfter (job.perform engine) (fun _ => jobsUntilFailure engine jobs) t

/-- The lines of a request, in which the active file is filled in. -/
def linesOf (active : String) (lines : List String) : List Job :=
  lines.map fun line => .line (Command.fillIn line (Path.baseName active))

/-- The deeds that are tried for a request. An interpreter does without. -/
def Request.history (engine : Engine σ μ γ) : Request → Toolchain σ μ → List (Moment σ μ)
  | init _, _ => []
  | runSource active files, t =>
    momentsAfter (Worker.writeFiles files >>= fun _ => Worker.sourceText active files) (fun source t =>
      match Language.ofPath? active with
      | none | some .python => []
      | some _ => (Job.build active source []).history engine t) t
  | runCommand _ active lines files, t =>
    momentsAfter (Worker.writeFiles files) (fun _ => jobsUntilFailure engine (linesOf active lines)) t

/-- The deeds that a worker tries for a request. -/
def Worker.history (engine : Engine σ μ γ) (request : Request) : Worker σ μ → List (Moment σ μ)
  | ready t => request.history engine t
  | _ => []

section Moments

variable {t : Toolchain σ μ}

lemma proper_momentsAfter {x : Op (Toolchain σ μ) α} {moments : α → Toolchain σ μ → List (Moment σ μ)}
    (hx : (Op.after x t).host.Quiet)
    (hmoments : ∀ a (t : Toolchain σ μ), t.host.Quiet → ∀ m ∈ moments a t, m.Proper engine) :
    ∀ m ∈ momentsAfter x moments t, m.Proper engine := by
  unfold momentsAfter
  cases hr : x t with
  | ok a t' =>
    rw [Op.after_of_ok hr] at hx
    exact hmoments a t' hx
  | error e t' => exact List.forall_mem_nil _

lemma proper_jobsUntilFailure (jobs : List Job) (hq : t.host.Quiet) :
    ∀ m ∈ jobsUntilFailure engine jobs t, m.Proper engine := by
  induction jobs generalizing t with
  | nil => exact List.forall_mem_nil _
  | cons job jobs ih =>
    obtain ⟨hfirst, hafter⟩ := job.proper engine hq
    exact List.forall_mem_append.2 ⟨hfirst, proper_momentsAfter hafter fun _ _ hq => ih hq⟩

/-- The moments of a request that finds a quiet host are proper. -/
lemma Request.proper_history (request : Request) (hq : t.host.Quiet) :
    ∀ m ∈ request.history engine t, m.Proper engine := by
  have hallows : Allows engine (OnHosts Host.Restores : Toolchain σ μ → Toolchain σ μ → Prop) :=
    allows_onHosts (Host.permits_restores engine)
  cases request with
  | init config => exact List.forall_mem_nil _
  | runSource active files =>
    have hsource := (Worker.within_writeFiles hallows files).bind fun _ => Worker.within_sourceText hallows active files
    refine proper_momentsAfter ((hsource t).quiet hq) fun source t hq => ?_
    split
    · exact List.forall_mem_nil _
    · exact List.forall_mem_nil _
    · exact ((Job.build active source []).proper engine hq).1
  | runCommand token active lines files =>
    exact proper_momentsAfter ((Worker.within_writeFiles hallows files t).quiet hq) fun _ _ =>
      proper_jobsUntilFailure _

end Moments

/-! ### What a request shows -/

/-- The operation shows the texts, and then one more at most; but no more if it fails with a failure that is not shown
yet. -/
def Op.Shows (host : τ → Host) (texts : List String) (x : Op τ α) (s : τ) : Prop :=
  ∃ closing : List String, closing.length ≤ 1 ∧ (host (after x s)).texts = (host s).texts ++ texts ++ closing ∧
    ∀ e s', x s = .error e s' → e.isReported = false → closing = []

lemma Op.shows_of_texts {host : τ → Host} {texts : List String} {x : Op τ α} {s : τ}
    (h : (host (after x s)).texts = (host s).texts ++ texts) : x.Shows host texts s :=
  ⟨[], Nat.zero_le _, by rw [h, List.append_nil], fun _ _ _ _ => rfl⟩

lemma Host.exists_closing_emit (text : String) (h : Host) :
    ∃ closing : List String, closing.length ≤ 1 ∧ (h.emit text).texts = h.texts ++ closing := by
  by_cases ht : text = ""
  · exact ⟨[], Nat.zero_le _, by simp [emit, ht]⟩
  · exact ⟨[text], le_rfl, texts_emit ht h⟩

/-- What shows nothing leaves it to what follows. -/
lemma shows_bind {β : Type} {x : Op (Toolchain σ μ) α} {f : α → Op (Toolchain σ μ) β}
    {moments : α → Toolchain σ μ → List (Moment σ μ)} (hx : Op.Within SameTexts x)
    (hf : ∀ a t, (f a).Shows Toolchain.host ((moments a t).flatMap (Moment.texts engine)) t) (t : Toolchain σ μ) :
    (x >>= f).Shows Toolchain.host ((momentsAfter x moments t).flatMap (Moment.texts engine)) t := by
  have hsame : (Op.after x t).host.texts = t.host.texts := hx t
  unfold momentsAfter
  cases hr : x t with
  | ok a t' =>
    rw [Op.after_of_ok hr] at hsame
    obtain ⟨closing, hl, htexts, hnone⟩ := hf a t'
    refine ⟨closing, hl, ?_, fun e s' he => hnone e s' ?_⟩
    · rw [Op.after_bind_of_ok hr, htexts, hsame]
    · rw [← he, Op.bind_of_ok hr]
  | error e t' =>
    rw [Op.after_of_error hr] at hsame
    apply Op.shows_of_texts
    rw [Op.after_bind_of_error hr, hsame]
    simp

lemma texts_after_jobs (engine : Engine σ μ γ) (jobs : List Job) (t : Toolchain σ μ) :
    (Op.after (jobs.forM (Job.perform engine)) t).host.texts =
      t.host.texts ++ (jobsUntilFailure engine jobs t).flatMap (Moment.texts engine) := by
  induction jobs generalizing t with
  | nil => simp [jobsUntilFailure, Op.after]
  | cons job jobs ih =>
    have hfirst := job.texts_after_perform engine t
    have hcons : (job :: jobs).forM (Job.perform engine) =
        job.perform engine >>= fun _ => jobs.forM (Job.perform engine) := rfl
    rw [hcons, jobsUntilFailure, momentsAfter]
    cases hr : job.perform engine t with
    | ok a t' =>
      rw [Op.after_of_ok hr] at hfirst
      rw [Op.after_bind_of_ok hr, ih, hfirst]
      simp
    | error e t' =>
      rw [Op.after_of_error hr] at hfirst
      rw [Op.after_bind_of_error hr, hfirst]
      simp

namespace Worker

/-- An interpreter's output is one text at most, and so is a traceback, which counts as shown. -/
lemma shows_interpret (interpreter : Option Interpreter) (name source : String) (t : Toolchain σ μ) :
    (interpret interpreter name source).Shows Toolchain.host [] t := by
  cases interpreter with
  | none => exact Op.shows_of_texts (List.append_nil _).symm
  | some run =>
    unfold interpret
    dsimp only
    cases run name source with
    | ok output =>
      cases output with
      | silent => exact Op.shows_of_texts (List.append_nil _).symm
      | text bytes =>
        obtain ⟨closing, hl, htexts⟩ := t.host.exists_closing_emit (Utf8.decode bytes)
        refine ⟨closing, hl, ?_, fun e s' he => ?_⟩
        · rw [List.append_nil]
          exact htexts
        · cases he
    | error traceback =>
      obtain ⟨closing, hl, htexts⟩ :=
        t.host.exists_closing_emit (highlight (Rewriter.apply ⟨executionToken, name⟩ traceback))
      refine ⟨closing, hl, ?_, fun e s' he hreported => ?_⟩
      · rw [List.append_nil]
        exact htexts
      · cases he
        cases hreported

lemma shows_runSource (engine : Engine σ μ γ) (interpreter : Option Interpreter) (active : String)
    (files : List SourceFile) (t : Toolchain σ μ) : (runSource engine interpreter active files).Shows Toolchain.host
      (((Request.runSource active files).history engine t).flatMap (Moment.texts engine)) t := by
  have hallows := allows_sameTexts (σ := σ) (μ := μ) engine
  have hsource := (within_writeFiles hallows files).bind fun _ => within_sourceText hallows active files
  unfold runSource
  rw [← bind_assoc]
  refine shows_bind hsource (fun source t => ?_) t
  cases Language.ofPath? active with
  | none => exact Op.shows_of_texts (List.append_nil _).symm
  | some language =>
    cases language with
    | python => exact shows_interpret _ _ _ _
    | _ => exact Op.shows_of_texts ((Job.build active source []).texts_after_perform engine t)

lemma shows_runCommand (engine : Engine σ μ γ) (token : Json) (active : String) (lines : List String)
    (files : List SourceFile) (t : Toolchain σ μ) : (runCommand engine active lines files).Shows Toolchain.host
      (((Request.runCommand token active lines files).history engine t).flatMap (Moment.texts engine)) t := by
  have hallows := allows_sameTexts (σ := σ) (μ := μ) engine
  refine shows_bind (within_writeFiles hallows files) (fun _ t => Op.shows_of_texts ?_) t
  rw [← texts_after_jobs, linesOf, List.forM_eq_forM, List.forM_eq_forM, List.forM_map]
  rfl

/-- A worker that is not ready tries nothing. -/
lemma shows_onToolchain {x : Op (Toolchain σ μ) Unit} {request : Request} (hx : ∀ t, x.Shows Toolchain.host
      ((request.history engine t).flatMap (Moment.texts engine)) t) (w : Worker σ μ) :
    (onToolchain x).Shows Worker.host ((w.history engine request).flatMap (Moment.texts engine)) w := by
  cases w with
  | waiting state host => exact Op.shows_of_texts (List.append_nil _).symm
  | stranded host => exact Op.shows_of_texts (List.append_nil _).symm
  | ready t =>
    obtain ⟨closing, hl, htexts, hnone⟩ := hx t
    cases hr : x t with
    | ok a t' =>
      rw [Op.after_of_ok hr] at htexts
      refine ⟨closing, hl, ?_, fun e s' he => ?_⟩
      · rw [Op.after_of_ok (onToolchain_of_ok hr)]
        exact htexts
      · cases (onToolchain_of_ok hr).symm.trans he
    | error e t' =>
      rw [Op.after_of_error hr] at htexts
      refine ⟨closing, hl, ?_, fun e' s' he hreported => ?_⟩
      · rw [Op.after_of_error (onToolchain_of_error hr)]
        exact htexts
      · cases (onToolchain_of_error hr).symm.trans he
        exact hnone _ _ hr hreported

lemma texts_post {event : Event} (he : event.shown? = none) (h : Host) : (h.post event).texts = h.texts := by
  simp [Host.post, Host.texts, he]

/-- Ending a request shows why it failed, unless that was shown already. -/
lemma texts_after_finish {x : Op (Worker σ μ) Unit} {texts : List String} {completion : Event} {w : Worker σ μ}
    (hx : x.Shows Worker.host texts w) (hc : completion.shown? = none) :
    ∃ closing : List String, closing.length ≤ 1 ∧
      (Op.after (Op.attempt x >>= fun r => finish r completion) w).host.texts = w.host.texts ++ texts ++ closing := by
  obtain ⟨closing, hl, htexts, hnone⟩ := hx
  cases hr : x w with
  | ok a w' =>
    rw [Op.after_of_ok hr] at htexts
    refine ⟨closing, hl, ?_⟩
    have hfinish : Op.after (finish (.ok a) completion) w' = w'.setHost (w'.host.post completion) := rfl
    rw [Op.after_bind_of_ok (Op.attempt_of_ok hr), hfinish, host_setHost, texts_post hc, htexts]
  | error e w' =>
    rw [Op.after_of_error hr] at htexts
    rw [Op.after_bind_of_ok (Op.attempt_of_error hr)]
    by_cases he : e.isReported = true
    · refine ⟨closing, hl, ?_⟩
      rw [Op.after_of_error (finish_of_reported he), host_setHost, texts_post hc, htexts]
    · have he : e.isReported = false := Bool.eq_false_iff.2 he
      obtain rfl := hnone e w' hr he
      refine ⟨[e.render], le_rfl, ?_⟩
      rw [Op.after_of_error (finish_of_not_reported he), host_setHost, texts_post hc,
        Host.texts_emit e.render_ne_empty, htexts, List.append_nil]

/-! ### Getting ready -/

/-- How an `init` leaves the host: it may use the files, and it says at the end how it went. -/
lemma host_after_init {S : Host → Host → Prop} [IsPreorder Host S] (hfiles : ∀ h files, S h { h with files })
    (engine : Engine σ μ γ) (config : Config) (w : Worker σ μ) :
    ∃ h, S w.host h ∧ ((Op.after (init engine config) w).host = h ∨
      (Op.after (init engine config) w).host = h.post .ready ∨
      ∃ e : Failure, (Op.after (init engine config) w).host = h.emit e.render) := by
  cases w with
  | ready t => exact ⟨t.host, refl_of S _, Or.inr (Or.inl rfl)⟩
  | stranded host => exact ⟨host, refl_of S _, Or.inl rfl⟩
  | waiting state host =>
    have hboot := Toolchain.boot_ends hfiles engine config (state, host)
    have hget : init engine config (waiting state host) = _ := Op.get_bind_apply _ _
    rw [Op.after_congr hget]
    dsimp only
    cases hb : Toolchain.boot engine config (state, host) with
    | ok t q => exact ⟨t.host, hboot.ok hb, Or.inr (Or.inl rfl)⟩
    | error e q => exact ⟨q.2, hboot.error hb, Or.inr (Or.inr ⟨e, rfl⟩)⟩

/-- **A request shows the texts of its moments**, and then one more at most. -/
theorem texts_after_handle (engine : Engine σ μ γ) (interpreter : Option Interpreter) (request : Request)
    (w : Worker σ μ) : ∃ closing : List String, closing.length ≤ 1 ∧
      (Op.after (handle engine interpreter request) w).host.texts =
        w.host.texts ++ (w.history engine request).flatMap (Moment.texts engine) ++ closing := by
  cases request with
  | init config =>
    have hnone : w.history engine (.init config) = [] := by
      cases w <;> rfl
    obtain ⟨h, hsame, hend⟩ := host_after_init (S := Host.Mute) (fun _ _ => ⟨rfl, rfl⟩) engine (config.getD {}) w
    have hx : Op.after (handle engine interpreter (.init config)) w = Op.after (init engine (config.getD {})) w := rfl
    rw [hnone, hx, List.flatMap_nil, List.append_nil, ← hsame.texts]
    rcases hend with hend | hend | ⟨e, hend⟩
    · exact ⟨[], Nat.zero_le _, by rw [hend, List.append_nil]⟩
    · exact ⟨[], Nat.zero_le _, by rw [hend, texts_post rfl, List.append_nil]⟩
    · exact ⟨[e.render], le_rfl, by rw [hend, Host.texts_emit e.render_ne_empty]⟩
  | runSource active files =>
    exact texts_after_finish (shows_onToolchain (shows_runSource engine interpreter active files) w) rfl
  | runCommand token active lines files =>
    exact texts_after_finish (shows_onToolchain (shows_runCommand engine token active lines files) w) rfl

/-! ### Requests and visits -/

/-- Every request restores the host. -/
lemma restores_handle (engine : Engine σ μ γ) (interpreter : Option Interpreter) (request : Request)
    (w : Worker σ μ) : Host.Restores w.host (Op.after (handle engine interpreter request) w).host := by
  have hpost (event : Event) (h : Host) : Host.Restores h (h.post event) := ⟨Or.inl rfl, id⟩
  cases hc : request.completion? with
  | some completion =>
    obtain ⟨h, hs, hend⟩ := host_after_handle (Host.permits_restores engine) interpreter hc w
    rw [hend]
    exact trans_of Host.Restores hs (hpost _ h)
  | none =>
    cases request with
    | init config =>
      obtain ⟨h, hs, hend⟩ := host_after_init (S := Host.Restores) (fun _ _ => ⟨Or.inl rfl, id⟩) engine
        (config.getD {}) w
      refine trans_of Host.Restores hs ?_
      show Host.Restores h (Op.after (init engine (config.getD {})) w).host
      rcases hend with hend | hend | ⟨e, hend⟩
      · rw [hend]
        exact refl_of Host.Restores h
      · rw [hend]
        exact hpost _ h
      · rw [hend]
        exact Host.restores_emit _ h
    | _ => cases hc

end Worker

/-- Something that happens to a worker: it is sent a request, or a guest that shares its host is visited. -/
inductive Turn (γ : Type) where
  | request (request : Request)
  | visit (visit : Visit) (guest : Instance γ)

namespace Worker

/-- The worker after a turn, whatever came of it. -/
def afterTurn (engine : Engine σ μ γ) (interpreter : Option Interpreter) (w : Worker σ μ) : Turn γ → Worker σ μ
  | .request request => Op.after (handle engine interpreter request) w
  | .visit visit guest => w.setHost (Op.after (visit.run engine) (guest, w.host)).2

/-- The worker after turns. -/
def afterTurns (engine : Engine σ μ γ) (interpreter : Option Interpreter) (w : Worker σ μ) (turns : List (Turn γ)) :
    Worker σ μ :=
  turns.foldl (afterTurn engine interpreter) w

lemma restores_visit (engine : Engine σ μ γ) (visit : Visit) (guest : Instance γ) (h : Host) :
    Host.Restores h (Op.after (visit.run engine) (guest, h)).2 := by
  by_cases ha : visit.Admits guest
  · rw [Op.after_of_ok (Visit.run_of_admits engine h ha)]
    exact Host.restores_entry engine (visit.entry guest h)
  · rw [Op.after_of_error (Visit.run_of_not_admits engine h ha)]
    exact refl_of Host.Restores h

/-- A visit shows the payloads of its guest as the host says, and a visit that is refused shows nothing. -/
lemma texts_after_visit (engine : Engine σ μ γ) (visit : Visit) (guest : Instance γ) (h : Host) :
    (Op.after (visit.run engine) (guest, h)).2.texts = h.texts ++
      textsOf h.rewriter (if visit.Admits guest then (visit.entry guest h).payloads engine else []) := by
  split_ifs with ha
  · rw [Op.after_of_ok (Visit.run_of_admits engine h ha)]
    exact ((visit.entry guest h).shows engine).texts
  · rw [Op.after_of_error (Visit.run_of_not_admits engine h ha)]
    exact (List.append_nil _).symm

lemma quiet_afterTurns (engine : Engine σ μ γ) (interpreter : Option Interpreter) (turns : List (Turn γ))
    {w : Worker σ μ} (hq : w.host.Quiet) : (w.afterTurns engine interpreter turns).host.Quiet := by
  induction turns generalizing w with
  | nil => exact hq
  | cons turn turns ih =>
    apply ih
    cases turn with
    | request request => exact (restores_handle engine interpreter request w).quiet hq
    | visit visit guest =>
      rw [afterTurn, host_setHost]
      exact (restores_visit engine visit guest w.host).quiet hq

end Worker

/-- **Between requests the host is quiet**, whatever requests a worker has answered and whatever guests have been
visited in between, and whatever came of them: no rewriter is installed and no guest is bound. A guest that is visited
then has its texts shown as they are. The host is also quiet whenever a deed of the next request is about to be tried,
so a guest of that request finds no rewriter, unless the front end compiles the source whose path the rewriter replaces;
and but for one text at the end, the request shows nothing that is not of a guest, its command or its failure. -/
theorem quiet_between_requests (engine : Engine σ μ γ) (interpreter : Option Interpreter) (state : σ)
    (stdin : Option Stdin) (turns : List (Turn γ)) :
    let w := (Worker.waiting state { stdin } : Worker σ μ).afterTurns engine interpreter turns
    w.host.Quiet ∧
    (∀ (visit : Visit) (guest : Instance γ), (Op.after (visit.run engine) (guest, w.host)).2.texts = w.host.texts ++
      textsOf none (if visit.Admits guest then (visit.entry guest w.host).payloads engine else [])) ∧
    ∀ request : Request, (∀ m ∈ w.history engine request, m.Proper engine) ∧
      ∃ closing : List String, closing.length ≤ 1 ∧
        (Op.after (Worker.handle engine interpreter request) w).host.texts =
          w.host.texts ++ (w.history engine request).flatMap (Moment.texts engine) ++ closing := by
  intro w
  have hquiet : w.host.Quiet := Worker.quiet_afterTurns engine interpreter turns ⟨rfl, rfl⟩
  refine ⟨hquiet, fun visit guest => ?_, fun request => ⟨?_, Worker.texts_after_handle engine interpreter request w⟩⟩
  · rw [← hquiet.rewriter]
    exact Worker.texts_after_visit engine visit guest w.host
  · cases hw : w with
    | ready t =>
      rw [hw] at hquiet
      exact request.proper_history hquiet
    | _ => exact List.forall_mem_nil _

end ToolchainHost
