import ToolchainHost.Proofs.Guest.Writing
import ToolchainHost.Proofs.Host.Names
import ToolchainHost.Proofs.Toolchain.Stopping

/-!
# The guests of a plan

A plan starts its guests one after the other. Each finds the files as they were left by what came before it, and what
comes after it finds them as it has left them.

* `Deed.guest?`, `guests`: the guest that a deed starts, and those of a plan, in order.
* `Toolchain.KeepsFiles`: what deeds keep that neither write a file nor start a guest.
* `Deed.of_guest?`: a deed that starts a guest.
* `exists_guest_of_ok`, `exists_guest_of_guests`: a plan up to its next guest, and from there on.
-/

namespace ToolchainHost

open Toolchain

variable {σ μ γ α β : Type} {engine : Engine σ μ γ}

/-- How a guest ends that does not fail: it returns, it exits with no failure, or it asks to be entered again. -/
inductive Termination.Succeeds : Termination → Prop
  | returned (code : Int) : Succeeds (.normal code)
  | exited : Succeeds (.exit 0)
  | paused : Succeeds (.exit Interface.continueCode)

/-! ### The guests that are started -/

namespace Toolchain

/-- What a program is given. -/
def request (program : String) (arguments : List String) (t : Toolchain σ μ) : Launch :=
  { program, arguments, environ := t.config.environ, seed := seedOf (t.launches + 1) }

/-- The guest that a launch starts, as it is entered. There is none if there is no instance. -/
def guest? (engine : Engine σ μ γ) (module : μ) (program : String) (arguments : List String) (t : Toolchain σ μ) :
    Option (Instance.Entry γ) :=
  match (t.request program arguments).instantiate engine module t.engine with
  | .ok i _ => some ⟨Interface.startExport, i, t.host⟩
  | .error .. => none

end Toolchain

/-- The guest that a deed starts, as it is entered. -/
def Deed.guest? (engine : Engine σ μ γ) (hand : Hand μ) : Deed → Toolchain σ μ → Option (Instance.Entry γ)
  | start program arguments, t => hand.module?.bind fun module =>
    Toolchain.guest? engine module program arguments (Op.after (echo program arguments) t)
  | shown rewriter deed, t => deed.guest? engine hand (t.withRewriter (some rewriter))
  | _, _ => none

/-- The guests that a plan starts, in order. -/
def guests (engine : Engine σ μ γ) : List Task → Hand μ → Toolchain σ μ → List (Instance.Entry γ)
  | [], _, _ => []
  | (_, deed) :: plan, hand, t =>
    (deed.guest? engine hand t).toList ++
      match deed.perform engine hand t with
      | .ok hand t => guests engine plan hand t
      | .error .. => []

/-! ### What deeds keep -/

namespace Toolchain

/-- Nothing that users of the files see has changed. -/
def KeepsFiles (t t' : Toolchain σ μ) : Prop := t.host.files.store.Sound → t.host.files.Keeps t'.host.files

instance : IsPreorder (Toolchain σ μ) KeepsFiles where
  refl _ hs := .refl hs
  trans _ _ _ h1 h2 hs := (h1 hs).trans (h2 (h1 hs).sound)

/-- The store is still sound. -/
def KeepsSound (t t' : Toolchain σ μ) : Prop := t.host.files.store.Sound → t'.host.files.store.Sound

instance : IsPreorder (Toolchain σ μ) KeepsSound where
  refl _ hs := hs
  trans _ _ _ h1 h2 hs := h2 (h1 hs)

lemma files_after_onFiles (x : Op FileSystem α) (t : Toolchain σ μ) :
    (Op.after (onFiles x) t).host.files = Op.after x t.host.files := by
  rw [onFiles, onHost, Op.after_onPart, Host.onFiles, Op.after_onPart]

/-- The toolchain with other files. -/
def withFiles (files : FileSystem) (t : Toolchain σ μ) : Toolchain σ μ := { t with host := t.host.withFiles files }

section OnFiles

variable {x : Op FileSystem α} {t t' : Toolchain σ μ} {a : α} {fs : FileSystem}

lemma onFiles_of_ok (h : x t.host.files = .ok a fs) : onFiles x t = .ok a (t.withFiles fs) := by
  unfold onFiles onHost
  exact Op.onPart_of_ok (Host.onFiles_of_ok h)

lemma onFiles_of_error {cause : Failure} (h : x t.host.files = .error cause fs) :
    onFiles x t = .error cause (t.withFiles fs) := by
  unfold onFiles onHost Host.onFiles
  exact Op.onPart_of_error (Op.onPart_of_error h)

lemma onFiles_eq_ok : onFiles x t = .ok a t' ↔ ∃ fs, x t.host.files = .ok a fs ∧ t.withFiles fs = t' := by
  constructor
  · intro h
    cases hx : x t.host.files with
    | ok b fs =>
      rw [onFiles_of_ok hx] at h
      cases h
      exact ⟨fs, rfl, rfl⟩
    | error cause fs =>
      rw [onFiles_of_error hx] at h
      cases h
  · rintro ⟨fs, hx, rfl⟩
    exact onFiles_of_ok hx

end OnFiles

lemma keepsFiles_of_files {t t' : Toolchain σ μ} (h : t'.host.files = t.host.files) : KeepsFiles t t' := by
  intro hs
  rw [h]
  exact .refl hs

lemma keepsFiles_onFiles {x : Op FileSystem α} (hx : ∀ {fs : FileSystem}, fs.store.Sound → fs.Keeps (Op.after x fs)) :
    Op.Within KeepsFiles (onFiles x : Op (Toolchain σ μ) α) := by
  intro t hs
  rw [files_after_onFiles]
  exact hx hs

lemma keepsFiles_require (path : String) : Op.Within KeepsFiles (require path : Op (Toolchain σ μ) Unit) :=
  (keepsFiles_onFiles fun hs => FileSystem.keeps_fileExists hs path).bind fun _ =>
    (Op.within_throw _).ite (Op.within_pure _)

lemma within_whileShown {R : Toolchain σ μ → Toolchain σ μ → Prop} [IsPreorder (Toolchain σ μ) R]
    (hR : ∀ rewriter t, R t (t.withRewriter rewriter)) {x : Op (Toolchain σ μ) α} (hx : Op.Within R x)
    (rewriter : Rewriter) : Op.Within R (whileShown rewriter x) :=
  (Op.within_modify (hR _)).bind fun _ => hx.attempt.bind fun _ => (Op.within_modify (hR _)).bind fun _ =>
    Op.within_lift _

lemma files_after_echo (program : String) (arguments : List String) (t : Toolchain σ μ) :
    (Op.after (echo program arguments) t).host.files = t.host.files := by
  show (if t.config.echoCommands then _ else t : Toolchain σ μ).host.files = t.host.files
  split_ifs
  · exact Host.sameFiles_emit _ _
  · rfl

end Toolchain

/-- A deed neither writes a file nor starts a guest. -/
def Deed.isIdle : Deed → Bool
  | write .. | start .. => false
  | shown _ deed => deed.isIdle
  | _ => true

lemma Deed.keepsFiles {deed : Deed} (hd : deed.isIdle = true) (hand : Hand μ) :
    Op.Within KeepsFiles (deed.perform engine hand) := by
  induction deed with
  | write path text => cases hd
  | find path => exact (keepsFiles_require path).bind fun _ => Op.within_pure _
  | identify source language => exact (Op.within_throw_bind _ _).ite (Op.within_pure _)
  | request name =>
    exact (within_getModule (fun _ _ _ => keepsFiles_of_files rfl) engine name).bind fun _ => Op.within_pure _
  | start program arguments => cases hd
  | read path =>
    exact (keepsFiles_onFiles fun hs => FileSystem.keeps_contents hs path).bind fun _ => Op.within_pure _
  | check => exact (Op.within_lift _).bind fun _ => Op.within_pure _
  | compile =>
    have hcompile : Op.Within KeepsFiles (onEngine (engine.compileBytes hand.bytes) : Op (Toolchain σ μ) μ) :=
      Op.within_onPart fun _ => keepsFiles_of_files rfl
    exact hcompile.bind fun _ => Op.within_pure _
  | shown rewriter deed ih => exact within_whileShown (fun _ _ => keepsFiles_of_files rfl) (ih hd) rewriter

lemma Deed.program?_of_isIdle {deed : Deed} (hd : deed.isIdle = true) : deed.program? = none := by
  induction deed with
  | write path text => rfl
  | start program arguments => cases hd
  | shown rewriter deed ih => exact ih hd
  | _ => rfl

/-! ### A guest that is started -/

namespace Launch

lemma report_of_succeeds {t : Termination} (ht : t.Succeeds) (h : Host) : report t h = .ok t h := by
  cases ht with
  | returned code => rfl
  | exited => rfl
  | paused => rfl

/-- Reporting touches no file. -/
lemma sameFiles_report (t : Termination) (h : Host) : h.SameFiles (Op.after (report t) h) := by
  cases t with
  | normal code => rfl
  | trap trap => exact Host.sameFiles_emit _ _
  | exit code =>
    unfold report
    dsimp only
    split_ifs
    · rfl
    · exact Host.sameFiles_emit _ _

end Launch

section Launch

variable {module : μ} {program : String} {arguments : List String} {t : Toolchain σ μ} {e : Instance.Entry γ}

lemma Toolchain.launch_apply (engine : Engine σ μ γ) (module : μ) (program : String) (arguments : List String)
    (t : Toolchain σ μ) : launch engine module program arguments t =
      Op.onPart (fun t : Toolchain σ μ => (t.engine, t.host)) (fun p t => { t with engine := p.1, host := p.2 })
        ((t.request program arguments).run engine module) { t with launches := t.launches + 1 } := rfl

/-- Nothing happens to the host if there is no instance. -/
lemma Toolchain.launch_of_none (h : t.guest? engine module program arguments = none) :
    ∃ cause t', launch engine module program arguments t = .error cause t' ∧ t'.host = t.host := by
  unfold Toolchain.guest? at h
  split at h
  · cases h
  · rename_i cause s' hi
    have hrun := Launch.run_of_error hi t.host
    exact ⟨cause, _, (launch_apply ..).trans (Op.onPart_of_error hrun), rfl⟩

/-- Otherwise the files are left as the guest leaves them. -/
lemma Toolchain.launch_of_some (h : t.guest? engine module program arguments = some e) :
    (∃ s', (t.request program arguments).instantiate engine module t.engine = .ok e.guest s') ∧ e.host = t.host ∧
      (Op.after (launch engine module program arguments) t).host.files = (e.hostAfter engine).files ∧
      ((e.termination engine).Succeeds → ∃ r t', launch engine module program arguments t = .ok r t') := by
  unfold Toolchain.guest? at h
  split at h
  swap
  · cases h
  rename_i i s' hi
  cases h
  have hrun := Launch.run_of_ok hi t.host
  refine ⟨⟨s', hi⟩, rfl, ?_, fun hends => ?_⟩
  · rw [Op.after_congr (launch_apply ..), Op.after_onPart, Op.after_congr hrun, Op.after_onPart]
    exact Launch.sameFiles_report _ _
  · have hok := hrun.trans (Op.onPart_of_ok (Launch.report_of_succeeds hends _))
    exact ⟨_, _, (launch_apply ..).trans (Op.onPart_of_ok hok)⟩

end Launch

/-! ### A deed that starts a guest -/

section Deed

variable {deed : Deed} {hand hand' : Hand μ} {t t' : Toolchain σ μ} {e : Instance.Entry γ}

lemma perform_start {module : μ} (hm : hand.module? = some module) (program : String) (arguments : List String)
    (t : Toolchain σ μ) : (Deed.start program arguments).perform engine hand t =
      (do return { hand with ended? := some (← launch engine module program arguments) } : Op (Toolchain σ μ) (Hand μ))
        (Op.after (echo program arguments) t) := by
  unfold Deed.perform
  rw [hm]
  rfl

lemma files_after_whileShown (rewriter : Rewriter) (x : Op (Toolchain σ μ) α) (t : Toolchain σ μ) :
    (Op.after (whileShown rewriter x) t).host.files = (Op.after x (t.withRewriter (some rewriter))).host.files := by
  unfold Op.after
  rw [whileShown_apply]
  cases x (t.withRewriter (some rewriter)) <;> rfl

/-- **A guest** finds the files as they are, and they are then as it leaves them. If it ends well, so does the deed. -/
theorem Deed.of_guest? (h : deed.guest? engine hand t = some e) :
    e.host.files = t.host.files ∧
      (Op.after (deed.perform engine hand) t).host.files = (e.hostAfter engine).files ∧
      ((e.termination engine).Succeeds → ∃ hand' t', deed.perform engine hand t = .ok hand' t') := by
  induction deed generalizing t with
  | start program arguments =>
    obtain ⟨module, hm, h⟩ := Option.bind_eq_some_iff.1 h
    obtain ⟨-, hhost, hfiles, hends⟩ := launch_of_some h
    have hperform : (Deed.start program arguments).perform engine hand t = _ := perform_start hm program arguments t
    refine ⟨by rw [hhost, files_after_echo], ?_, fun hsucceeds => ?_⟩
    · rw [Op.after_congr hperform, ← hfiles]
      exact congrArg (fun t : Toolchain σ μ => t.host.files) (Op.after_map ..)
    · obtain ⟨r, t', hr⟩ := hends hsucceeds
      exact ⟨_, t', hperform.trans (Op.bind_of_ok hr)⟩
  | shown rewriter deed ih =>
    obtain ⟨hfound, hleft, hends⟩ := ih h
    refine ⟨hfound, ?_, fun hsucceeds => ?_⟩
    · rw [← hleft]
      exact files_after_whileShown rewriter _ t
    · obtain ⟨hand', t', hr⟩ := hends hsucceeds
      exact ⟨hand', _, whileShown_of_ok hr⟩
  | _ => cases h

/-- A program without a guest is not run. -/
lemma start_of_none {program : String} {arguments : List String}
    (h : (Deed.start program arguments).guest? engine hand t = none) :
    ∃ cause t', (Deed.start program arguments).perform engine hand t = .error cause t' ∧
      t'.host.files = t.host.files := by
  cases hm : hand.module? with
  | none =>
    refine ⟨.crash, t, ?_, rfl⟩
    unfold Deed.perform
    rw [hm]
    rfl
  | some module =>
    rw [Deed.guest?, hm, Option.bind_some] at h
    obtain ⟨cause, t', hfails, hhost⟩ := launch_of_none h
    refine ⟨cause, t', (perform_start hm ..).trans (Op.bind_of_error hfails), ?_⟩
    rw [hhost, files_after_echo]

/-- A deed that has run a program has started a guest. -/
lemma Deed.exists_guest? (hp : deed.program?.isSome = true) (h : deed.perform engine hand t = .ok hand' t') :
    ∃ e, deed.guest? engine hand t = some e := by
  induction deed generalizing t t' with
  | start program arguments =>
    by_contra hnone
    obtain ⟨cause, u, hfails, -⟩ := start_of_none (Option.eq_none_iff_forall_ne_some.2 (not_exists.1 hnone))
    cases hfails.symm.trans h
  | shown rewriter deed ih =>
    have hx : whileShown rewriter (deed.perform engine hand) t = .ok hand' t' := h
    rw [whileShown_apply] at hx
    cases hr : deed.perform engine hand (t.withRewriter (some rewriter)) with
    | ok hand1 t1 =>
      rw [hr] at hx
      cases hx
      exact ih hp hr
    | error cause t1 =>
      rw [hr] at hx
      cases hx
  | _ => cases hp

lemma Deed.guest?_of_program?_none (hp : deed.program? = none) (hand : Hand μ) (t : Toolchain σ μ) :
    deed.guest? engine hand t = none := by
  induction deed generalizing t with
  | start program arguments => cases hp
  | shown rewriter deed ih => exact ih hp _
  | _ => rfl

/-- Adding a file keeps the store sound, however it ends. -/
lemma keepsSound_addFile (path : String) (data : List UInt8) :
    Op.Within KeepsSound (onFiles (FileSystem.addFile path data) : Op (Toolchain σ μ) Unit) := by
  intro t hs
  obtain ⟨r, fs, hx, -⟩ := FileSystem.addFile_cases hs path data
  rw [files_after_onFiles, ← Op.after_attempt, Op.after_of_ok hx]
  exact (FileSystem.touches_addFile hs hx).sound

/-- Every deed keeps the store sound. -/
theorem Deed.keepsSound (deed : Deed) (hand : Hand μ) : Op.Within KeepsSound (deed.perform engine hand) := by
  -- Idle deeds keep more than the soundness of the store; only writing and starting are left.
  have hidle {deed : Deed} (hd : deed.isIdle = true) : Op.Within KeepsSound (deed.perform engine hand) :=
    (Deed.keepsFiles hd hand).mono fun _ _ h hs => (h hs).sound
  induction deed with
  | write path text => exact (keepsSound_addFile path (Utf8.encode text)).bind fun _ => Op.within_pure _
  | start program arguments =>
    intro t hs
    cases he : (Deed.start program arguments).guest? engine hand t with
    | some e =>
      obtain ⟨hfound, hleft, -⟩ := Deed.of_guest? he
      rw [hleft]
      exact e.sound_hostAfter engine (hfound ▸ hs)
    | none =>
      obtain ⟨cause, t', hfails, hfiles⟩ := start_of_none he
      rw [Op.after_of_error hfails, hfiles]
      exact hs
  | shown rewriter deed ih => exact within_whileShown (fun _ _ hs => hs) ih rewriter
  | _ => exact hidle rfl

end Deed

/-! ### Plans and their guests -/

section Plans

variable {stretch rest : List Task} {stage : Stage} {deed : Deed} {hand hand' : Hand μ} {t t' : Toolchain σ μ}

lemma within_performAll {R : Toolchain σ μ → Toolchain σ μ → Prop} [IsPreorder (Toolchain σ μ) R]
    (h : ∀ task ∈ stretch, ∀ hand : Hand μ, Op.Within R (task.2.perform engine hand)) (hand : Hand μ) :
    Op.Within R (performAll engine stretch hand) := by
  induction stretch generalizing hand with
  | nil => exact Op.within_pure _
  | cons task stretch ih =>
    have hfirst := (h task List.mem_cons_self hand).inStage task.1
    exact hfirst.bind fun hand' => ih (fun task' ht => h task' (List.mem_cons_of_mem _ ht)) hand'

/-- The store is sound at every stop of a plan. -/
lemma sound_of_performAll (hs : t.host.files.store.Sound) (h : performAll engine stretch hand t = .ok hand' t') :
    t'.host.files.store.Sound := by
  have hkeeps : Op.Within KeepsSound (performAll engine stretch hand) :=
    within_performAll (fun task _ => task.2.keepsSound) hand
  exact Op.after_of_ok h ▸ hkeeps t hs

/-- Idle deeds change nothing that users of the files see. -/
lemma keeps_of_performAll (hs : t.host.files.store.Sound) (hd : ∀ task ∈ stretch, task.2.isIdle = true)
    (h : performAll engine stretch hand t = .ok hand' t') : t.host.files.Keeps t'.host.files := by
  have hkeeps : Op.Within KeepsFiles (performAll engine stretch hand) :=
    within_performAll (fun task ht => Deed.keepsFiles (hd task ht)) hand
  exact Op.after_of_ok h ▸ hkeeps t hs

/-- Every guest of a plan finds a sound store. -/
lemma sound_of_mem_guests {e : Instance.Entry γ} (hs : t.host.files.store.Sound)
    (he : e ∈ guests engine stretch hand t) : e.host.files.store.Sound := by
  induction stretch generalizing hand t with
  | nil => cases he
  | cons task stretch ih =>
    rw [guests, List.mem_append, Option.mem_toList] at he
    obtain he | he := he
    · exact (Deed.of_guest? he).1 ▸ hs
    · cases hdeed : task.2.perform engine hand t with
      | error cause t' =>
        rw [hdeed] at he
        cases he
      | ok hand' t' =>
        rw [hdeed] at he
        have hkeeps : Op.Within KeepsSound (task.2.perform engine hand) := task.2.keepsSound hand
        exact ih (Op.after_of_ok hdeed ▸ hkeeps t hs) he

/-- Deeds that run no program start no guest. -/
lemma guests_eq_nil (hq : ∀ task ∈ stretch, task.2.program? = none) (hand : Hand μ) (t : Toolchain σ μ) :
    guests engine stretch hand t = [] := by
  induction stretch generalizing hand t with
  | nil => rfl
  | cons task stretch ih =>
    have hrest := ih fun task' ht => hq task' (List.mem_cons_of_mem _ ht)
    rw [guests, Deed.guest?_of_program?_none (hq task List.mem_cons_self)]
    cases task.2.perform engine hand t with
    | ok hand' t' => exact hrest hand' t'
    | error cause t' => rfl

lemma guests_append_of_ok (h : performAll engine stretch hand t = .ok hand' t') :
    guests engine (stretch ++ rest) hand t = guests engine stretch hand t ++ guests engine rest hand' t' := by
  induction stretch generalizing hand t with
  | nil =>
    cases h
    rfl
  | cons task stretch ih =>
    obtain ⟨hand1, t1, hfirst, h⟩ := Op.bind_eq_ok.1 h
    rw [List.cons_append, guests, guests, Op.inStage_eq_ok.1 hfirst, List.append_assoc]
    exact congrArg _ (ih h)

lemma guests_append_of_error {cause : Failure} (h : performAll engine stretch hand t = .error cause t') :
    guests engine (stretch ++ rest) hand t = guests engine stretch hand t := by
  induction stretch generalizing hand t with
  | nil => cases h
  | cons task stretch ih =>
    rw [List.cons_append, guests, guests]
    obtain h | ⟨hand1, t1, hfirst, h⟩ := Op.bind_eq_error.1 h
    · obtain ⟨e, hfails, -⟩ := Op.inStage_eq_error.1 h
      rw [hfails]
    · rw [Op.inStage_eq_ok.1 hfirst]
      exact congrArg _ (ih h)

section Next

variable (hq : ∀ task ∈ stretch, task.2.program? = none) (hp : deed.program?.isSome = true)

include hq hp

/-- A plan that is carried out has started the next guest of it, and goes on when that guest has ended. -/
lemma exists_guest_of_ok (h : performAll engine (stretch ++ (stage, deed) :: rest) hand t = .ok hand' t') :
    ∃ hand1 t1 e hand2 t2, performAll engine stretch hand t = .ok hand1 t1 ∧ deed.guest? engine hand1 t1 = some e ∧
      deed.perform engine hand1 t1 = .ok hand2 t2 ∧ performAll engine rest hand2 t2 = .ok hand' t' ∧
      guests engine (stretch ++ (stage, deed) :: rest) hand t = e :: guests engine rest hand2 t2 := by
  rw [performAll_append] at h
  obtain ⟨hand1, t1, hstretch, h⟩ := Op.bind_eq_ok.1 h
  obtain ⟨hand2, t2, hdeed, hrest⟩ := Op.bind_eq_ok.1 h
  have hdeed := Op.inStage_eq_ok.1 hdeed
  obtain ⟨e, he⟩ := Deed.exists_guest? hp hdeed
  refine ⟨hand1, t1, e, hand2, t2, hstretch, he, hdeed, hrest, ?_⟩
  rw [guests_append_of_ok hstretch, guests_eq_nil hq, guests, he, hdeed]
  rfl

/-- A plan that has started a guest has been carried out up to that guest, and goes on if the guest ends well. -/
lemma exists_guest_of_guests {e : Instance.Entry γ} {later : List (Instance.Entry γ)}
    (h : guests engine (stretch ++ (stage, deed) :: rest) hand t = e :: later) :
    ∃ hand1 t1, performAll engine stretch hand t = .ok hand1 t1 ∧ deed.guest? engine hand1 t1 = some e ∧
      (later = [] ∨ ∃ hand2 t2, deed.perform engine hand1 t1 = .ok hand2 t2 ∧ later = guests engine rest hand2 t2) := by
  cases hstretch : performAll engine stretch hand t with
  | error cause t1 =>
    rw [guests_append_of_error hstretch, guests_eq_nil hq] at h
    cases h
  | ok hand1 t1 =>
    refine ⟨hand1, t1, rfl, ?_⟩
    rw [guests_append_of_ok hstretch, guests_eq_nil hq, guests, List.nil_append] at h
    cases hdeed : deed.perform engine hand1 t1 with
    | ok hand2 t2 =>
      obtain ⟨e', he⟩ := Deed.exists_guest? hp hdeed
      rw [he, hdeed] at h
      obtain ⟨rfl, hlater⟩ := List.cons.inj h
      exact ⟨he, Or.inr ⟨hand2, t2, rfl, hlater.symm⟩⟩
    | error cause t2 =>
      rw [hdeed] at h
      cases he : deed.guest? engine hand1 t1 with
      | none =>
        rw [he] at h
        cases h
      | some e' =>
        rw [he] at h
        obtain ⟨rfl, hlater⟩ := List.cons.inj h
        exact ⟨rfl, Or.inl hlater.symm⟩

end Next

end Plans

end ToolchainHost
