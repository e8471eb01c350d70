import ToolchainHost.Proofs.Archive.Loading
import ToolchainHost.Proofs.Boot
import ToolchainHost.Proofs.Files.Addition
import ToolchainHost.Proofs.Requests
import ToolchainHost.Proofs.Text.Plain
import ToolchainHost.Proofs.Toolchain.Artifacts

/-!
# Which source is run

The files that come with a request are written first. The source is then taken from the first of them with the very
name that is to be run, and only if there is none from what is stored. What is stored is what was written last, under
whatever spelling of the path; and the source is written there again before it is compiled.

* `Worker.soundStore_afterRequests`: a worker that has booted has a sound store, whatever it was asked for since.
* `Worker.sent?`, `Worker.stored?`: the file that is run, and the file that is stored.
* `Worker.lookup_of_writeFiles`: what is stored once the files have been written.
* `Toolchain.lookup_of_first_guest`: what the front end finds.
* `Worker.runSource_takes`: which source is run, and when that is the one that is stored.
-/

namespace ToolchainHost

open Toolchain
open FileSystem (storedPath pathLength)

variable {σ μ γ α : Type} {engine : Engine σ μ γ} {interpreter : Option Interpreter}

/-! ### The store of a worker -/

instance : IsPreorder Host Host.SameFiles where
  refl _ := rfl
  trans _ _ _ h1 h2 := Eq.trans h2 h1

/-- A job keeps the store sound. -/
lemma Job.keepsSound (engine : Engine σ μ γ) (job : Job) : Op.Within KeepsSound (job.perform engine) := by
  intro t
  rw [job.after_perform]
  exact within_performAll (fun task _ => task.2.keepsSound) {} t

/-- The store of a toolchain that has just booted is sound. -/
lemma Toolchain.sound_of_boot {config : Config} {p q : σ × Host} {t : Toolchain σ μ}
    (h : boot engine config p = .ok t q) : t.host.files.store.Sound := by
  unfold boot at h
  obtain ⟨_, ⟨s1, h1⟩, -, h⟩ := Op.bind_eq_ok.1 h
  rw [Op.modify_bind_apply] at h
  obtain ⟨data, ⟨s2, h2⟩, hfetch, h⟩ := Op.bind_eq_ok.1 h
  obtain ⟨summary, ⟨s3, h3⟩, hload, h⟩ := Op.bind_eq_ok.1 h
  cases h
  obtain ⟨s, -, hs2⟩ := Op.onPart_eq_ok.1 hfetch
  cases hs2
  obtain ⟨host, hhost, hs3⟩ := Op.onPart_eq_ok.1 hload
  cases hs3
  obtain ⟨files, hfiles, rfl⟩ := Op.onPart_eq_ok.1 hhost
  obtain ⟨l, hl, rfl⟩ := Op.onPart_eq_ok.1 hfiles
  obtain ⟨es, l', r, l'', harrives, hstops⟩ := Archive.exists_stops data ⟨0, .empty⟩
  obtain ⟨hr, rfl⟩ := EStateM.Result.ok.inj ((Op.attempt_of_ok hl).symm.trans (Archive.attempt_load harrives hstops))
  have hsound := harrives.sound FileStore.sound_empty
  cases hstops with
  | ended => exact hsound
  | bad | refused => cases hr

namespace Worker

/-- The store is sound if there is one. -/
def SoundStore : Worker σ μ → Prop
  | ready t => t.host.files.store.Sound
  | _ => True

/-- The store is still sound. -/
def KeepsStore (w w' : Worker σ μ) : Prop := w.SoundStore → w'.SoundStore

instance : IsPreorder (Worker σ μ) KeepsStore where
  refl _ hs := hs
  trans _ _ _ h1 h2 hs := h2 (h1 hs)

lemma keepsStore_post (event : Event) : Op.Within (KeepsStore (σ := σ) (μ := μ)) (post event) :=
  Op.within_modify fun w => by cases w <;> exact id

lemma keepsStore_emit (text : String) : Op.Within (KeepsStore (σ := σ) (μ := μ)) (emit text) := by
  refine Op.within_modify fun w hs => ?_
  cases w with
  | waiting state host => trivial
  | stranded host => trivial
  | ready t =>
    have hfiles : (t.host.emit text).files = t.host.files := Host.sameFiles_emit text t.host
    show (t.host.emit text).files.store.Sound
    rwa [hfiles]

lemma keepsStore_onToolchain {x : Op (Toolchain σ μ) α} (hx : Op.Within KeepsSound x) :
    Op.Within KeepsStore (onToolchain x) := by
  intro w hs
  cases w with
  | waiting state host => trivial
  | stranded host => trivial
  | ready t =>
    have hrun := hx t hs
    cases hr : x t with
    | ok a t' =>
      rw [Op.after_of_ok (onToolchain_of_ok hr)]
      rwa [Op.after_of_ok hr] at hrun
    | error e t' =>
      rw [Op.after_of_error (onToolchain_of_error hr)]
      rwa [Op.after_of_error hr] at hrun

lemma keepsStore_finish (outcome : Except Failure Unit) (completion : Event) :
    Op.Within (KeepsStore (σ := σ) (μ := μ)) (finish outcome completion) := by
  cases outcome with
  | ok a => exact (keepsStore_post completion).bind fun _ => Op.within_pure _
  | error e =>
    refine Op.Within.ite ?_ ((keepsStore_post completion).bind fun _ => Op.within_throw _)
    exact (keepsStore_emit _).bind fun _ => (keepsStore_post completion).bind fun _ => Op.within_throw _

lemma keepsSound_writeFiles (files : List SourceFile) :
    Op.Within KeepsSound (writeFiles files : Op (Toolchain σ μ) Unit) := by
  have hwrite (f : SourceFile) : Op.Within KeepsSound
      (onFiles (FileSystem.addFile f.name (Utf8.encode f.contents)) : Op (Toolchain σ μ) PUnit) :=
    keepsSound_addFile f.name (Utf8.encode f.contents)
  exact Op.within_forM hwrite files

lemma keepsSound_sourceText (active : String) (files : List SourceFile) :
    Op.Within KeepsSound (sourceText active files : Op (Toolchain σ μ) String) := by
  have hread : Op.Within KeepsSound (onFiles (FileSystem.contents active) : Op (Toolchain σ μ) (List UInt8)) :=
    (keepsFiles_onFiles fun hs => FileSystem.keeps_contents hs active).mono fun _ _ h hs => (h hs).sound
  unfold sourceText
  split
  · exact Op.within_pure _
  · exact hread.bind fun _ => Op.within_pure _

/-- No interpreter touches the files. -/
lemma files_after_interpret (interpreter : Option Interpreter) (name source : String) (t : Toolchain σ μ) :
    (Op.after (interpret interpreter name source) t).host.files = t.host.files :=
  within_interpret (R := OnHosts Host.SameFiles) (fun text t => Host.sameFiles_emit text t.host) name source t

/-- Runs a source. -/
def dispatch (engine : Engine σ μ γ) (interpreter : Option Interpreter) (active source : String) :
    Op (Toolchain σ μ) Unit :=
  match Language.ofPath? active with
  | some .python => interpret interpreter active source
  | some _ => do
    let _ ← compileLinkRun engine active source []
  | none => throw (.commandNotFound active)

lemma runSource_eq (engine : Engine σ μ γ) (interpreter : Option Interpreter) (active : String)
    (files : List SourceFile) : runSource engine interpreter active files = (do
      writeFiles files
      let source ← sourceText active files
      dispatch engine interpreter active source) := rfl

lemma keepsSound_dispatch (active source : String) :
    Op.Within KeepsSound (dispatch engine interpreter active source) := by
  unfold dispatch
  split
  · intro t hs
    rwa [files_after_interpret]
  · exact (Job.build active source []).keepsSound engine
  · exact Op.within_throw _

/-- A request keeps the store sound, and a boot makes a sound one. -/
lemma keepsStore_handle (request : Request) : Op.Within KeepsStore (handle engine interpreter request) := by
  cases request with
  | init config =>
    intro w hs
    cases w with
    | stranded host => trivial
    | ready t => exact keepsStore_post (μ := μ) .ready (ready t) hs
    | waiting state host =>
      show SoundStore (Op.after (init engine (config.getD {})) (waiting state host))
      have hget : init engine (config.getD {}) (waiting state host : Worker σ μ) = _ := Op.get_bind_apply ..
      cases hb : Toolchain.boot engine (config.getD {}) (state, host) with
      | ok t q =>
        rw [Op.after_congr hget]
        simp only [hb]
        exact (sound_of_boot hb :)
      | error e q =>
        rw [Op.after_congr hget]
        simp only [hb]
        trivial
  | runSource active files =>
    refine (keepsStore_onToolchain ?_).attempt.bind fun _ => keepsStore_finish _ _
    rw [runSource_eq]
    exact (keepsSound_writeFiles files).bind fun _ => (keepsSound_sourceText active files).bind fun source =>
      keepsSound_dispatch active source
  | runCommand token active lines files =>
    refine (keepsStore_onToolchain ?_).attempt.bind fun _ => keepsStore_finish _ _
    exact (keepsSound_writeFiles files).bind fun _ => Op.within_forM (fun _ => (Job.line _).keepsSound engine) lines

/-- **The store of a worker is sound**, whatever it was asked for. -/
theorem soundStore_afterRequests (engine : Engine σ μ γ) (interpreter : Option Interpreter) (state : σ) (host : Host)
    (requests : List Request) :
    ((waiting state host : Worker σ μ).afterRequests engine interpreter requests).SoundStore := by
  induction requests using List.reverseRecOn with
  | nil => trivial
  | append_singleton requests request ih =>
    rw [afterRequests_concat]
    exact keepsStore_handle request _ ih

end Worker

/-! ### What is stored -/

namespace FileSystem

variable {fs fs' : FileSystem} {path other : String} {data : List UInt8}

/-- A file that was added is there, and its path is not too long. -/
lemma gains_of_addFile (hs : fs.store.Sound) (h : addFile path data fs = .ok ⟨⟩ fs') :
    fs.Gains path (.file data) fs' ∧ pathLength path ≤ Interface.pathLimit := by
  obtain ⟨r, fs'', hx, hadd⟩ := addFile_cases hs path data
  obtain ⟨rfl, rfl⟩ := EStateM.Result.ok.inj ((Op.attempt_of_ok h).symm.trans hx)
  cases hadd with
  | added _ hl _ _ hg => exact ⟨hg, hl⟩

/-- The host has registered a file under the path, and can read it. -/
structure Offers (fs : FileSystem) (path : String) : Prop where
  kind : fs.kindOf path = some .file
  length_le : pathLength path ≤ Interface.pathLimit
  file : ∃ bytes, fs.store.lookup (storedPath path) = some (.file bytes)

lemma offers_of_gains (hg : fs.Gains path (.file data) fs') (hl : pathLength path ≤ Interface.pathLimit) :
    fs'.Offers path where
  kind := hg.kindOf_eq
  length_le := hl
  file := ⟨data, by rw [hg.lookup, Function.update_self]⟩

/-- What the host can read it can also read when another file has been added. -/
lemma Offers.of_gains (ho : fs.Offers path) (hg : fs.Gains other (.file data) fs') : fs'.Offers path where
  kind := by
    by_cases heq : Path.normalize path = Path.normalize other
    · rw [← kindOf_normalize, heq, kindOf_normalize]
      exact hg.kindOf_eq
    · rw [← ho.kind, kindOf, hg.registered, find?_insertSorted heq, kindOf]
  length_le := ho.length_le
  file := by
    obtain ⟨bytes, hbytes⟩ := ho.file
    rw [hg.lookup]
    by_cases heq : storedPath path = storedPath other
    · exact ⟨data, by rw [heq, Function.update_self]⟩
    · exact ⟨bytes, by rw [Function.update_of_ne heq, hbytes]⟩

lemma Offers.contents (ho : fs.Offers path) (hs : fs.store.Sound) : ∃ bytes fs', contents path fs = .ok bytes fs' := by
  obtain ⟨bytes, hbytes⟩ := ho.file
  have hread : fs.ReadsAs (.host path) bytes := by
    refine (readsAs_iff hs).2 ⟨fun hdirectory => ?_, ho.length_le, hbytes⟩
    cases ho.kind.symm.trans hdirectory
  exact ⟨bytes, hread⟩

end FileSystem

namespace Worker

variable {active path : String} {files : List SourceFile} {t t1 : Toolchain σ μ}

/-- The file of a message whose text is run: the first one with the very name. -/
def sent? (active : String) (files : List SourceFile) : Option SourceFile := files.find? fun f => f.name == active

/-- The file of a message that is stored under a path in the end: the last one, however it is spelled. -/
def stored? (active : String) (files : List SourceFile) : Option SourceFile :=
  files.reverse.find? fun f => storedPath f.name == storedPath active

lemma stored?_cons (f : SourceFile) : stored? path (f :: files) =
    (stored? path files).or (if storedPath f.name = storedPath path then some f else none) := by
  unfold stored?
  rw [List.reverse_cons, List.find?_append, List.find?_singleton]
  simp only [beq_iff_eq]

lemma mem_of_sent? {f : SourceFile} (h : sent? active files = some f) : f ∈ files ∧ f.name = active := by
  unfold sent? at h
  exact ⟨List.mem_of_find?_eq_some h, by simpa using List.find?_some h⟩

/-- What is sent is stored, unless something else is stored in its place. -/
lemma isSome_stored? {f : SourceFile} (h : sent? active files = some f) : (stored? active files).isSome = true := by
  obtain ⟨hmem, hname⟩ := mem_of_sent? h
  unfold stored?
  rw [List.find?_isSome]
  exact ⟨f, List.mem_reverse.2 hmem, by rw [hname, beq_self_eq_true]⟩

/-- The files of a message are written one after the other. -/
lemma writeFiles_cons {f : SourceFile} (hs : t.host.files.store.Sound) (h : writeFiles (f :: files) t = .ok ⟨⟩ t1) :
    ∃ t2 : Toolchain σ μ, t.host.files.Gains f.name (.file (Utf8.encode f.contents)) t2.host.files ∧
      pathLength f.name ≤ Interface.pathLimit ∧ writeFiles files t2 = .ok ⟨⟩ t1 := by
  obtain ⟨_, t2, hwrite, hrest⟩ := Op.bind_eq_ok.1 h
  obtain ⟨fs, hadd, rfl⟩ := onFiles_eq_ok.1 hwrite
  obtain ⟨hg, hl⟩ := FileSystem.gains_of_addFile hs hadd
  exact ⟨_, hg, hl, hrest⟩

/-- **What is stored** when the files of a message have been written: the last of them with a path, and where there is
none what was stored before. -/
theorem lookup_of_writeFiles (hs : t.host.files.store.Sound) (h : writeFiles files t = .ok ⟨⟩ t1) :
    t1.host.files.store.Sound ∧ ∀ path, t1.host.files.store.lookup (storedPath path) =
      ((stored? path files).map fun f => Entry.file (Utf8.encode f.contents)).or
        (t.host.files.store.lookup (storedPath path)) := by
  induction files generalizing t with
  | nil =>
    cases h
    exact ⟨hs, fun _ => rfl⟩
  | cons f files ih =>
    obtain ⟨t2, hg, -, hrest⟩ := writeFiles_cons hs h
    obtain ⟨hs1, hlookup⟩ := ih hg.sound hrest
    refine ⟨hs1, fun path => ?_⟩
    rw [hlookup, stored?_cons, hg.lookup]
    cases stored? path files with
    | some g => simp only [Option.some_or, Option.map_some]
    | none =>
      by_cases heq : storedPath f.name = storedPath path
      · simp only [heq, Function.update_self, if_true, Option.map_none, Option.none_or, Option.map_some, Option.some_or]
      · simp only [Function.update_of_ne (Ne.symm heq), if_neg heq, Option.map_none, Option.none_or]

/-- The host can read every file that it has written. -/
lemma offers_of_writeFiles (hs : t.host.files.store.Sound) (h : writeFiles files t = .ok ⟨⟩ t1)
    (ho : t.host.files.Offers active ∨ ∃ f ∈ files, f.name = active) : t1.host.files.Offers active := by
  induction files generalizing t with
  | nil =>
    cases h
    exact ho.resolve_right fun ⟨_, hf, _⟩ => absurd hf List.not_mem_nil
  | cons f files ih =>
    obtain ⟨t2, hg, hl, hrest⟩ := writeFiles_cons hs h
    refine ih hg.sound hrest ?_
    rcases ho with ho | ⟨g, hmem, rfl⟩
    · exact Or.inl (ho.of_gains hg)
    · rcases List.mem_cons.1 hmem with rfl | hmem
      · exact Or.inl (FileSystem.offers_of_gains hg hl)
      · exact Or.inr ⟨g, hmem, rfl⟩

/-- A file that was sent can be read. -/
lemma sent?_eq_none_of_error {cause : Failure} {fs : FileSystem} (hs : t.host.files.store.Sound)
    (hw : writeFiles files t = .ok ⟨⟩ t1) (h : FileSystem.contents active t1.host.files = .error cause fs) :
    sent? active files = none := by
  refine Option.eq_none_iff_forall_ne_some.2 fun f hsent => ?_
  have hoffers := offers_of_writeFiles hs hw (Or.inr ⟨f, mem_of_sent? hsent⟩)
  obtain ⟨bytes, fs', hok⟩ := hoffers.contents (lookup_of_writeFiles hs hw).1
  cases h.symm.trans hok

/-! ### The source that is run -/

/-- The source that is run where the host reads some bytes under the active path. -/
def sourceOf (active : String) (files : List SourceFile) (bytes : List UInt8) : String :=
  match sent? active files with
  | some f => f.contents
  | none => Utf8.decode bytes

/-- The source is taken as it was sent, and looked for only if it was not. -/
lemma sourceText_eq (active : String) (files : List SourceFile) :
    (sourceText active files : Op (Toolchain σ μ) String) = match sent? active files with
      | some f => pure f.contents
      | none => do return Utf8.decode (← onFiles (FileSystem.contents active)) := rfl

lemma sourceText_of_ok (files : List SourceFile) {bytes : List UInt8} {fs : FileSystem}
    (hs : t.host.files.store.Sound) (h : FileSystem.contents active t.host.files = .ok bytes fs) :
    ∃ t' : Toolchain σ μ, sourceText active files t = .ok (sourceOf active files bytes) t' ∧
      t.host.files.Keeps t'.host.files := by
  rw [sourceText_eq, sourceOf]
  cases sent? active files with
  | some f => exact ⟨t, rfl, .refl hs⟩
  | none =>
    refine ⟨t.withFiles fs, Op.bind_of_ok (onFiles_of_ok h), ?_⟩
    have hkeeps := FileSystem.keeps_contents hs active
    rwa [Op.after_of_ok h] at hkeeps

/-- The text that is run is the text that is stored. -/
def SentIsStored (active : String) (files : List SourceFile) : Prop :=
  ∀ f ∈ sent? active files, ∀ g ∈ stored? active files, f.contents = g.contents

section SourceOf

variable {bytes : List UInt8} (hb : ∀ g ∈ stored? active files, bytes = Utf8.encode g.contents)

include hb

/-- The source is the text of the stored bytes unless another text was sent. -/
lemma sourceOf_eq_decode_iff : sourceOf active files bytes = Utf8.decode bytes ↔ SentIsStored active files := by
  unfold sourceOf SentIsStored
  cases hsent : sent? active files with
  | none => simp
  | some f =>
    obtain ⟨g, hg⟩ := Option.isSome_iff_exists.1 (isSome_stored? hsent)
    rw [hb g hg, Utf8.decode_encode, hg]
    simp

/-- Writing the source changes the stored bytes unless they are its own. -/
lemma encode_sourceOf_iff : Utf8.encode (sourceOf active files bytes) = bytes ↔
    SentIsStored active files ∧ (stored? active files = none → Utf8.isValid bytes = true) := by
  unfold sourceOf SentIsStored
  cases hsent : sent? active files with
  | none =>
    cases hstored : stored? active files with
    | none => simp [Utf8.isValid]
    | some g => simp [hb g hstored, Utf8.decode_encode]
  | some f =>
    obtain ⟨g, hg⟩ := Option.isSome_iff_exists.1 (isSome_stored? hsent)
    simp [hb g hg, hg, Utf8.encode_injective.eq_iff]

end SourceOf

end Worker

/-- **The first guest** that is started for a source finds the source in its place, and all else as it was. -/
theorem Toolchain.lookup_of_first_guest {source text : String} {arguments : List String} {t : Toolchain σ μ}
    {e : Instance.Entry γ} {later : List (Instance.Entry γ)} (hs : t.host.files.store.Sound)
    (h : guests engine (plan t.config source text arguments) {} t = e :: later) :
    e.host.files.store.lookup =
      Function.update t.host.files.store.lookup (storedPath source) (some (.file (Utf8.encode text))) := by
  let language := (Language.ofPath? source).getD .c
  let rewriter : Rewriter := ⟨source, Path.baseName source⟩
  let looking : List Task := Stage.compile.tasks
    [.find source, .identify source language, .shown rewriter (.request t.config.clangModule)]
  have hlooking : ∀ task ∈ looking, task.2.isIdle = true := by simp [looking, Stage.tasks, Deed.isIdle]
  have hquiet : ∀ task ∈ (Stage.compile, Deed.write source text) :: looking, task.2.program? = none :=
    List.forall_mem_cons.2 ⟨rfl, fun task ht => Deed.program?_of_isIdle (hlooking task ht)⟩
  obtain ⟨compiler, rest, hcompiler, hplan⟩ : ∃ compiler rest, compiler.program?.isSome = true ∧
      plan t.config source text arguments =
        (Stage.compile, Deed.write source text) :: looking ++ (Stage.compile, compiler) :: rest := ⟨_, _, rfl, rfl⟩
  rw [hplan] at h
  obtain ⟨hand1, t1, hstretch, he, -⟩ := exists_guest_of_guests hquiet hcompiler h
  obtain ⟨hand2, t2, hwrite, hidle⟩ := Op.bind_eq_ok.1 hstretch
  obtain ⟨_, t3, hfiles, hret⟩ := Op.bind_eq_ok.1 (Op.inStage_eq_ok.1 hwrite)
  cases hret
  obtain ⟨fs, hadd, rfl⟩ := onFiles_eq_ok.1 hfiles
  obtain ⟨hg, -⟩ := FileSystem.gains_of_addFile hs hadd
  rw [(Deed.of_guest? he).1, (keeps_of_performAll hg.sound hlooking hidle).lookup]
  exact hg.lookup

namespace Worker

/-- **Which source is run.** A worker that has booted, whatever it was asked for since, writes the files of a request to
run a source. If the host cannot read the active file then, the request fails. Otherwise the source that is run is the
text of what the host reads, exactly if the first file that was sent with the very name has the same text as the last
one with the same path, if there are such. The first guest finds the source in its place, and all else as it was
written; this is what the host reads exactly if, moreover, what was stored before is valid where nothing was sent for
its path. A source that is interpreted or not understood changes no file. -/
theorem runSource_takes (engine : Engine σ μ γ) (interpreter : Option Interpreter) (state : σ) (host : Host)
    (requests : List Request) {t t1 : Toolchain σ μ}
    (hw : (waiting state host : Worker σ μ).afterRequests engine interpreter requests = ready t) {active : String}
    {files : List SourceFile} (hfiles : writeFiles files t = .ok ⟨⟩ t1) :
    (∀ cause fs, FileSystem.contents active t1.host.files = .error cause fs →
      sent? active files = none ∧ ∃ t2, runSource engine interpreter active files t = .error cause t2) ∧
    ∀ bytes fs, FileSystem.contents active t1.host.files = .ok bytes fs →
      some (.file bytes) = ((stored? active files).map fun f => .file (Utf8.encode f.contents)).or
        (t.host.files.store.lookup (storedPath active)) ∧
      (sourceOf active files bytes = Utf8.decode bytes ↔ SentIsStored active files) ∧
      ∃ t2 : Toolchain σ μ, t1.host.files.Keeps t2.host.files ∧
        runSource engine interpreter active files t =
          dispatch engine interpreter active (sourceOf active files bytes) t2 ∧
        (∀ e later, guests engine (plan t2.config active (sourceOf active files bytes) []) {} t2 = e :: later →
          e.host.files.store.lookup = Function.update t1.host.files.store.lookup (storedPath active)
            (some (.file (Utf8.encode (sourceOf active files bytes)))) ∧
          (e.host.files.store.lookup = t1.host.files.store.lookup ↔
            SentIsStored active files ∧ (stored? active files = none → Utf8.isValid bytes = true))) ∧
        (Language.ofPath? active = none ∨ Language.ofPath? active = some .python →
          (Op.after (runSource engine interpreter active files) t).host.files.store.lookup =
            t1.host.files.store.lookup) := by
  have hs : t.host.files.store.Sound := by
    have hstore := soundStore_afterRequests engine interpreter state host requests
    rwa [hw] at hstore
  obtain ⟨hs1, hlookup⟩ := lookup_of_writeFiles hs hfiles
  have hrun : runSource engine interpreter active files t =
      (sourceText active files >>= dispatch engine interpreter active) t1 := Op.bind_of_ok hfiles
  refine ⟨fun cause fs h => ?_, fun bytes fs h => ?_⟩
  · have hnone := sent?_eq_none_of_error hs hfiles h
    refine ⟨hnone, t1.withFiles fs, ?_⟩
    rw [hrun, sourceText_eq, hnone]
    exact Op.bind_of_error (Op.bind_of_error (onFiles_of_error h))
  · obtain ⟨-, -, hbytes⟩ := (FileSystem.readsAs_iff (p := .host active) hs1).1 ⟨fs, h⟩
    have hbytes : t1.host.files.store.lookup (storedPath active) = some (.file bytes) := hbytes
    have hstored : ∀ g ∈ stored? active files, bytes = Utf8.encode g.contents := by
      intro g hg
      rw [hlookup, show stored? active files = some g from hg] at hbytes
      exact (Entry.file.inj (Option.some.inj hbytes)).symm
    obtain ⟨t2, htext, hkeeps⟩ := sourceText_of_ok files hs1 h
    rw [Op.bind_of_ok htext] at hrun
    refine ⟨by rw [← hbytes, hlookup], sourceOf_eq_decode_iff hstored, t2, hkeeps, hrun, fun e later he => ?_,
      fun hlanguage => ?_⟩
    · have hfirst := lookup_of_first_guest hkeeps.sound he
      rw [hkeeps.lookup] at hfirst
      refine ⟨hfirst, ?_⟩
      rw [hfirst, Function.update_eq_self_iff, hbytes, ← encode_sourceOf_iff hstored]
      simp
    · rw [Op.after_congr hrun, ← hkeeps.lookup]
      unfold dispatch
      rcases hlanguage with hlanguage | hlanguage
      · rw [hlanguage]
        rfl
      · rw [hlanguage]
        exact congrArg (fun fs => fs.store.lookup) (files_after_interpret interpreter active _ t2)

/-- A worker boots with an empty archive. -/
lemma exists_booted : ∃ t : Toolchain Unit Unit,
    (waiting () {} : Worker Unit Unit).afterRequests returning none [.init none] = ready t ∧
      t.host.files = .empty := by
  have hload : Archive.load [] ⟨0, .empty⟩ = .ok (Archive.Summary.of []) ⟨0, .empty⟩ :=
    Op.eq_ok_of_attempt (Archive.attempt_load (.here _) (.ended (Archive.entryAt_of_lt (by decide))))
  let p : Unit × Host := ((), {})
  let loadFiles : Op FileSystem Archive.Summary :=
    Op.onPart (fun files => (⟨0, files⟩ : Archive.Loading)) (fun l _ => l.files) (Archive.load [])
  have hfiles : loadFiles .empty = .ok (Archive.Summary.of []) .empty := Op.onPart_of_ok hload
  have hfill : Op.onPart Prod.snd (fun h p => (p.1, h)) (Host.onFiles loadFiles) p = .ok (Archive.Summary.of []) p :=
    Op.onPart_of_ok (Host.onFiles_of_ok hfiles)
  have hboot : boot returning {} p = .ok { config := {}, engine := (), host := {} } p := by
    refine (Op.bind_of_ok (t := p) rfl).trans ((Op.bind_of_ok (t := p) rfl).trans ?_)
    exact (Op.bind_of_ok (a := []) (t := p) rfl).trans ((Op.bind_of_ok hfill).trans rfl)
  let t : Toolchain Unit Unit := { config := {}, engine := (), host := Host.post .ready {} }
  have hinit : init returning {} (waiting () {} : Worker Unit Unit) = .ok ⟨⟩ (ready t) := by
    unfold init
    rw [Op.get_bind_apply]
    dsimp only
    rw [show boot returning {} ((), {}) = _ from hboot]
    rfl
  exact ⟨t, Op.after_of_ok hinit, rfl⟩

/-- The same path is sent twice. -/
def twice : List SourceFile := [⟨"a.py", "one"⟩, ⟨"a.py", "two"⟩]

/-- Both are written, and the host then reads the second. -/
lemma exists_written_twice {t : Toolchain Unit Unit} (h : t.host.files = .empty) : ∃ t1 fs,
    writeFiles twice t = .ok ⟨⟩ t1 ∧ FileSystem.contents "a.py" t1.host.files = .ok (Utf8.encode "two") fs := by
  obtain ⟨fs1, hx1, hg1, htop1⟩ := exists_gains_small FileStore.sound_empty
    (by decide : FileSystem.empty.store.top ≤ 0x1000) (by decide) "a.py" (Utf8.encode "one") (by decide) (by decide)
    (by decide) (by decide)
  obtain ⟨fs2, hx2, hg2, -⟩ := by
    refine exists_gains_small hg1.sound htop1 (by decide) "a.py" (Utf8.encode "two") (by decide) ?_ (by decide) ?_
    · rw [hg1.kindOf_eq]
      decide
    · rw [hg1.lookup, Function.update_self]
      decide
  let t1 := t.withFiles fs1
  have hwrite : writeFiles twice t = .ok ⟨⟩ (t1.withFiles fs2) :=
    (Op.bind_of_ok (onFiles_of_ok (h ▸ hx1))).trans ((Op.bind_of_ok (onFiles_of_ok (t := t1) hx2)).trans rfl)
  have hread : fs2.ReadsAs (.host "a.py") (Utf8.encode "two") := by
    refine (FileSystem.readsAs_iff hg2.sound).2 ⟨fun hdirectory => ?_, (by decide : pathLength "a.py" ≤ _), ?_⟩
    · cases hg2.kindOf_eq.symm.trans hdirectory
    · exact (congrFun hg2.lookup _).trans (Function.update_self ..)
  obtain ⟨fs, hfs⟩ := hread
  exact ⟨t1.withFiles fs2, fs, hwrite, hfs⟩

/-- The first of two texts is run, and the second is stored. -/
theorem runSource_takes_first : ∃ t t1 t2 : Toolchain Unit Unit,
    (waiting () {} : Worker Unit Unit).afterRequests returning none [.init none] = ready t ∧
      writeFiles twice t = .ok ⟨⟩ t1 ∧
      runSource returning none "a.py" twice t = interpret none "a.py" "one" t2 ∧
      (Op.after (runSource returning none "a.py" twice) t).host.files.store.lookup = t1.host.files.store.lookup := by
  obtain ⟨t, hw, hempty⟩ := exists_booted
  obtain ⟨t1, fs, hwrite, hread⟩ := exists_written_twice hempty
  obtain ⟨-, -, t2, -, hrun, -, hkeeps⟩ := (runSource_takes returning none () {} [.init none] hw hwrite).2 _ fs hread
  exact ⟨t, t1, t2, hw, hwrite, hrun, hkeeps (Or.inr rfl)⟩

/-- What is run need not be what is stored. -/
theorem exists_source_stale : ¬ ∀ (t t1 t2 : Toolchain Unit Unit) (active source : String) (files : List SourceFile)
    (bytes : List UInt8) (fs : FileSystem),
    (waiting () {} : Worker Unit Unit).afterRequests returning none [.init none] = ready t →
    writeFiles files t = .ok ⟨⟩ t1 → FileSystem.contents active t1.host.files = .ok bytes fs →
    sourceText active files t1 = .ok source t2 → source = Utf8.decode bytes := by
  intro hall
  obtain ⟨t, hw, hempty⟩ := exists_booted
  obtain ⟨t1, fs, hwrite, hread⟩ := exists_written_twice hempty
  exact absurd (hall t t1 t1 "a.py" "one" twice _ fs hw hwrite hread rfl) (by decide)

end Worker

end ToolchainHost
