import ToolchainHost.Proofs.Files.Requests
import ToolchainHost.Proofs.Guest.Visits
import ToolchainHost.Proofs.Host.Alike
import ToolchainHost.Proofs.Host.Residue

/-!
# What a run of a guest depends on

A guest that is entered sees what earlier guests and the host have left: the files, the open files, the waiting input
and the failure on record. It sees nothing else of the past.

* `Program.transcript`: what a guest sees of its run.
* `Program.Orderly`: the runs that are promised: writes start inside of their files, and the heap has room for them.
* `HostCall.perform_alike`, `Program.run_alike`: one call, and a whole run, on two hosts that look alike.
* `Episode`: what happens to a host before a guest is entered.
* `run_depends_on_given`: what a guest sees, and how it ends, is the same behind any two pasts that have left the same.
-/

namespace ToolchainHost

open Op (Lockstep)
open Interface (Errno)

variable {α : Type}

/-! ### Calls of the process surface -/

namespace Running

/-- The same process on hosts that look alike. -/
structure Alike (r r' : Running) : Prop where
  process : r'.process = r.process
  host : r.host.Alike r'.host

variable {r r' : Running}

lemma alike_self (hs : r.host.files.store.Sound) : r.Alike r :=
  ⟨rfl, ⟨⟨rfl, rfl, rfl, rfl⟩, hs, hs⟩, rfl, rfl, rfl, rfl⟩

namespace Alike

variable (ha : r.Alike r')

include ha

lemma onHost {x y : Op Host α} (hx : Lockstep Host.Alike Eq (x r.host) (y r'.host)) :
    Lockstep Alike Eq (Running.onHost x r) (Running.onHost y r') :=
  hx.onPart fun _ _ hh => ⟨ha.process, hh⟩

lemma memory : Lockstep Alike Eq (Running.memory r) (Running.memory r') := by
  unfold Running.memory
  rw [Op.get_bind_apply, Op.get_bind_apply, ha.host.guest]
  cases r.host.guest with
  | some m => exact .ok ha rfl
  | none => exact .error _ ha

lemma store (address : Nat) (data : List UInt8) :
    Lockstep Alike Eq (Running.store address data r) (Running.store address data r') :=
  ha.memory.andThen fun _ _ _ ha => (Op.lockstep_lift _ ha).andThen fun m _ _ ha =>
    .ok ⟨ha.process, ha.host.withMemory m⟩ rfl

lemma tableSizes (table : StringTable) (count size : Nat) :
    Lockstep Alike Eq (Running.tableSizes table count size r) (Running.tableSizes table count size r') :=
  ha.memory.andThen fun _ _ _ ha => (ha.store _ _).andThen fun _ _ _ ha => (ha.store _ _).andThen fun _ _ _ ha =>
    .ok ha rfl

lemma tableEntries (table : StringTable) (pointers strings : Nat) :
    Lockstep Alike Eq (Running.tableEntries table pointers strings r)
      (Running.tableEntries table pointers strings r') :=
  ha.memory.andThen fun _ _ _ ha => (Op.lockstep_lift _ ha).andThen fun _ _ _ ha =>
    (ha.store _ _).andThen fun _ _ _ ha => (ha.store _ _).andThen fun _ _ _ ha => .ok ha rfl

lemma randomBytes (address count : Nat) :
    Lockstep Alike Eq (Running.randomBytes address count r) (Running.randomBytes address count r') := by
  unfold Running.randomBytes
  rw [Op.get_bind_apply, Op.get_bind_apply, ha.process]
  dsimp only
  rw [Op.set_bind_apply, Op.set_bind_apply]
  have ha : Alike
      { r with process := { r.process with random := (ProcessState.draw ((count + 7) / 8) r.process.random).2 } }
      { r' with process := { r.process with random := (ProcessState.draw ((count + 7) / 8) r.process.random).2 } } :=
    ⟨rfl, ha.host⟩
  exact (ha.store _ _).andThen fun _ _ _ ha => .ok ha rfl

end Alike

end Running

/-! ### One call, and all calls -/

namespace HostCall

/-- A write starts inside of its file and finds room. On any other call nothing is imposed. -/
def Orderly : HostCall → Running → Prop
  | fileWrite d list count out, r =>
    r.host.WritesInside d ∧ Host.FindsRoom (Host.fileWrite d list count out) r.host
  | _, _ => True

instance : (call : HostCall) → (r : Running) → Decidable (call.Orderly r)
  | fileWrite .., _ => inferInstanceAs (Decidable (_ ∧ _))
  | load .., _ | loadText .., _ | save .., _ | memorySize, _ | growMemory _, _ | argumentSizes .., _ | arguments .., _
  | environSizes .., _ | environ .., _ | randomBytes .., _ | clock, _ | poll, _ | exit _, _ | pathOpen .., _
  | fileClose _, _ | fileRead .., _ | recordFault _, _ | recordHostFault _, _ => isTrue trivial

variable {r r' : Running}

/-- Operations in lockstep have one outcome. -/
lemma outcome_alike {x y : Op Running α} (h : Lockstep Running.Alike Eq (x r) (y r')) :
    (outcome y r').1 = (outcome x r).1 ∧ (outcome x r).2.Alike (outcome y r').2 := by
  unfold outcome
  obtain ⟨a, _, _, _, hx, hy, hr, rfl⟩ | ⟨e, _, _, hx, hy, hr⟩ := h.cases
  · rw [hx, hy]
    exact ⟨rfl, hr⟩
  · rw [hx, hy]
    exact ⟨rfl, hr⟩

lemma outcome_onHost_of_ok {x : Op Host α} {a : α} {h : Host} (hx : x r.host = .ok a h) :
    (outcome (Running.onHost x) r).1 = .ok a := by
  unfold outcome Running.onHost
  rw [Op.onPart_of_ok hx]

/-- **A call** is answered alike on hosts that look alike, and leaves them so. -/
theorem perform_alike (ha : r.Alike r') (call : HostCall) (ho : call.Orderly r) (ho' : call.Orderly r') :
    (call.perform r').1 = (call.perform r).1 ∧ (call.perform r).2.Alike (call.perform r').2 := by
  cases call with
  | load address count => exact outcome_alike (ha.memory.andThen fun _ _ _ ha => Op.lockstep_lift _ ha)
  | loadText address count => exact outcome_alike (ha.memory.andThen fun _ _ _ ha => Op.lockstep_lift _ ha)
  | save address data => exact outcome_alike (ha.store _ _)
  | memorySize => exact ⟨by rw [perform, perform, ha.host.guest], ha⟩
  | growMemory pages =>
    refine ⟨by rw [perform, perform, ha.host.guest], ha.process, ?_⟩
    exact { ha.host with guest := congrArg (Option.map fun m : Memory => m.grow pages) ha.host.guest }
  | argumentSizes count size =>
    refine outcome_alike ?_
    unfold Running.argumentSizes
    rw [Op.get_bind_apply, Op.get_bind_apply, ha.process]
    exact ha.tableSizes _ _ _
  | arguments pointers strings =>
    refine outcome_alike ?_
    unfold Running.arguments
    rw [Op.get_bind_apply, Op.get_bind_apply, ha.process]
    exact ha.tableEntries _ _ _
  | environSizes count size =>
    refine outcome_alike ?_
    unfold Running.environSizes
    rw [Op.get_bind_apply, Op.get_bind_apply, ha.process]
    exact ha.tableSizes _ _ _
  | environ pointers strings =>
    refine outcome_alike ?_
    unfold Running.environ
    rw [Op.get_bind_apply, Op.get_bind_apply, ha.process]
    exact ha.tableEntries _ _ _
  | randomBytes address count => exact outcome_alike (ha.randomBytes _ _)
  | clock => exact outcome_alike (.error _ ha)
  | poll => exact outcome_alike (.error _ ha)
  | exit code => exact ⟨rfl, by rw [perform, perform, ha.process], ha.host⟩
  | pathOpen path length flags out => exact outcome_alike (ha.onHost (ha.host.pathOpen path length flags out))
  | fileClose d => exact outcome_alike (ha.onHost (ha.host.fileClose d))
  | fileWrite d list count out => exact outcome_alike (ha.onHost (ha.host.fileWrite ho.1 ho.2 ho'.2))
  | fileRead d list count out => exact outcome_alike (ha.onHost (ha.host.fileRead d list count out))
  | recordFault failure => exact ⟨rfl, by rw [perform, perform, ha.process], ha.host⟩
  | recordHostFault failure => exact ⟨rfl, ha.process, { ha.host with fault := rfl }⟩

/-- Every call keeps the store sound. -/
theorem sound_perform (hs : r.host.files.store.Sound) (call : HostCall) :
    (call.perform r).2.host.files.store.Sound := by
  have hkeep (call : HostCall) (ho : call.Orderly r) : (call.perform r).2.host.files.store.Sound :=
    (perform_alike (Running.alike_self hs) call ho ho).2.host.store.left
  cases call with
  | fileWrite d list count out =>
    have hwritten := (Host.fileWrite_evolving hs d list count out).1
    rw [perform, outcome_snd, Running.onHost, Op.after_onPart]
    exact hwritten
  | _ => exact hkeep _ trivial

end HostCall

/-- What a guest sees of a call: what it has asked, what it was answered, and its memory behind the call. -/
structure Seen where
  call : HostCall
  answer : call.Answer
  memory : Option Memory

namespace Program

variable {r r' : Running}

/-- What a guest sees of its run, call by call. -/
def transcript : Program α → Running → List Seen
  | done _, _ => []
  | perform call next, r =>
    ⟨call, (call.perform r).1, (call.perform r).2.host.guest⟩ :: (next (call.perform r).1).transcript (call.perform r).2

/-- All calls of a run are orderly. -/
def Orderly : Program α → Running → Prop
  | done _, _ => True
  | perform call next, r => call.Orderly r ∧ (next (call.perform r).1).Orderly (call.perform r).2

instance decidableOrderly : (p : Program α) → (r : Running) → Decidable (p.Orderly r)
  | done _, _ => isTrue trivial
  | perform call next, r =>
    have := decidableOrderly (next (call.perform r).1) (call.perform r).2
    inferInstanceAs (Decidable (_ ∧ _))

/-- **A run** is seen alike on hosts that look alike, gives one value, and leaves them so. -/
theorem run_alike (ha : r.Alike r') (p : Program α) (ho : p.Orderly r) (ho' : p.Orderly r') :
    p.transcript r' = p.transcript r ∧ (p.run r').1 = (p.run r).1 ∧ (p.run r).2.Alike (p.run r').2 := by
  induction p generalizing r r' with
  | done a => exact ⟨rfl, rfl, ha⟩
  | perform call next ih =>
    obtain ⟨hcall, hrest⟩ := ho
    obtain ⟨hcall', hrest'⟩ := ho'
    obtain ⟨hanswer, hafter⟩ := call.perform_alike ha hcall hcall'
    rw [hanswer] at hrest'
    obtain ⟨htranscript, hrun⟩ := ih _ hafter hrest hrest'
    rw [transcript, transcript, run, run]
    dsimp only
    rw [hanswer, hafter.host.guest, htranscript]
    exact ⟨rfl, hrun⟩

/-- Every run keeps the store sound. -/
theorem sound_run (hs : r.host.files.store.Sound) (p : Program α) : (p.run r).2.host.files.store.Sound := by
  induction p generalizing r with
  | done a => exact hs
  | perform call next ih => exact ih _ (call.sound_perform hs)

end Program

/-! ### Entries -/

variable {σ μ γ : Type}

namespace Instance

/-- What is concluded depends on the failure on record, and changes nothing else of the host. -/
lemma conclude_matches {h h' : Host} (hm : h.Matches h') (outcome : Except Trap Unit) (p : ProcessState) :
    (conclude outcome p h').1 = (conclude outcome p h).1 ∧ (conclude outcome p h').2.1 = (conclude outcome p h).2.1 ∧
      (conclude outcome p h).2.2.Matches (conclude outcome p h').2.2 := by
  unfold conclude
  cases p.exitCode with
  | some code => exact ⟨rfl, rfl, hm⟩
  | none =>
    cases outcome with
    | ok u => exact ⟨rfl, rfl, hm⟩
    | error trap =>
      dsimp only
      rw [explain_eq, explain_eq, hm.fault]
      exact ⟨rfl, rfl, hm.store, hm.stdin, hm.pending, rfl⟩

/-- Of the host only the failure on record changes. -/
lemma conclude_host (outcome : Except Trap Unit) (p : ProcessState) (h : Host) :
    ∃ fault, (conclude outcome p h).2.2 = { h with fault } := by
  unfold conclude
  cases p.exitCode with
  | some code => exact ⟨h.fault, rfl⟩
  | none =>
    cases outcome with
    | ok u => exact ⟨h.fault, rfl⟩
    | error trap =>
      dsimp only
      rw [explain_eq]
      exact ⟨_, rfl⟩

namespace Entry

variable (engine : Engine σ μ γ) (e : Entry γ)

/-- What the guest sees in an entry. -/
def transcript : List Seen := (e.program engine).transcript e.found

/-- All calls that the guest makes in an entry are orderly. -/
def Orderly : Prop := (e.program engine).Orderly e.found

/-- However an entry ends, the host is as the calls of the guest have left it, but for the failure on record. -/
lemma hostAfter_eq : ∃ fault, e.hostAfter engine =
    { ((e.program engine).run e.found).2.host.unbind with fault } := conclude_host ..

lemma files_hostAfter : (e.hostAfter engine).files = ((e.program engine).run e.found).2.host.files := by
  obtain ⟨fault, hhost⟩ := e.hostAfter_eq engine
  rw [hhost]
  rfl

lemma sound_hostAfter (hs : e.host.files.store.Sound) : (e.hostAfter engine).files.store.Sound := by
  rw [files_hostAfter]
  exact Program.sound_run (r := e.found) hs _

variable {engine} {h h' : Host} {i : Instance γ} {name : String}

/-- **An entry** into one guest is seen alike from hosts that match, ends alike, and leaves hosts that match. -/
theorem enter_matches (hm : h.Matches h') (hs : h.files.store.Sound) (hs' : h'.files.store.Sound)
    (ho : (Entry.mk name i h).Orderly engine) (ho' : (Entry.mk name i h').Orderly engine) :
    (Entry.mk name i h').transcript engine = (Entry.mk name i h).transcript engine ∧
      (Entry.mk name i h').termination engine = (Entry.mk name i h).termination engine ∧
      (Entry.mk name i h').guestAfter engine = (Entry.mk name i h).guestAfter engine ∧
      ((Entry.mk name i h).hostAfter engine).Matches ((Entry.mk name i h').hostAfter engine) := by
  have hfound : (Entry.mk name i h).found.Alike (Entry.mk name i h').found :=
    ⟨rfl, ⟨hm.store, hs, hs'⟩, hm.stdin, hm.pending, hm.fault, rfl⟩
  obtain ⟨htranscript, hvalue, hafter⟩ := Program.run_alike hfound _ ho ho'
  refine ⟨htranscript, ?_⟩
  unfold termination guestAfter hostAfter
  cases hx : ((Entry.mk name i h).program engine).run (Entry.mk name i h).found with
  | mk value r =>
    cases hx' : ((Entry.mk name i h).program engine).run (Entry.mk name i h').found with
    | mk value' r' =>
      rw [hx, hx'] at hvalue hafter
      obtain rfl : value' = value := hvalue
      obtain ⟨outcome, code⟩ := value'
      rw [enter_of_run hx, enter_of_run hx']
      have hunbound : r.host.unbind.Matches r'.host.unbind :=
        ⟨hafter.host.store.toMatches, hafter.host.stdin, hafter.host.pending, hafter.host.fault⟩
      obtain ⟨htermination, hprocess, hmatches⟩ := conclude_matches hunbound outcome r.process
      dsimp only
      rw [hafter.process, htermination, hprocess, hafter.host.guest]
      exact ⟨rfl, rfl, hmatches⟩

instance (engine : Engine σ μ γ) (e : Entry γ) : Decidable (e.Orderly engine) :=
  Program.decidableOrderly _ _

end Entry

end Instance

/-! ### The past -/

/-- What happens before a guest is entered: the host uses its files, or a guest is entered. -/
inductive Episode (γ : Type) where
  | request (q : FileRequest)
  | entry (name : String) (guest : Instance γ)

/-- The host after an episode. -/
def Episode.after (engine : Engine σ μ γ) (h : Host) : Episode γ → Host
  | request q => h.withFiles (q.answer h.files).2
  | entry name guest => (Instance.Entry.mk name guest h).hostAfter engine

namespace Host

/-- The host after episodes, one after the other. -/
def afterEpisodes (engine : Engine σ μ γ) (h : Host) (past : List (Episode γ)) : Host :=
  past.foldl (Episode.after engine) h

lemma afterEpisodes_concat (engine : Engine σ μ γ) (h : Host) (past : List (Episode γ)) (episode : Episode γ) :
    h.afterEpisodes engine (past ++ [episode]) = episode.after engine (h.afterEpisodes engine past) :=
  List.foldl_concat ..

/-- Every past leaves a sound store. -/
lemma sound_afterEpisodes (engine : Engine σ μ γ) {h : Host} (hs : h.files.store.Sound) (past : List (Episode γ)) :
    (h.afterEpisodes engine past).files.store.Sound := by
  induction past generalizing h with
  | nil => exact hs
  | cons episode past ih =>
    refine ih (h := episode.after engine h) ?_
    cases episode with
    | request q => exact FileSystem.sound_answer hs q
    | entry name guest => exact Instance.Entry.sound_hostAfter engine ⟨name, guest, h⟩ hs

end Host

/-- **A run depends only on what it is given.** Behind any two pasts that have left the same files, the same open files,
the same waiting input and the same failure on record, a guest gets the same answers with the same bytes, ends the same
way, and leaves the same behind. What earlier guests have left open is part of what it is given, however they ended. -/
theorem run_depends_on_given (engine : Engine σ μ γ) {h h' : Host} (hf : h.files = .empty) (hf' : h'.files = .empty)
    (past past' : List (Episode γ)) (hm : (h.afterEpisodes engine past).Matches (h'.afterEpisodes engine past'))
    (name : String) (i : Instance γ) (ho : (Instance.Entry.mk name i (h.afterEpisodes engine past)).Orderly engine)
    (ho' : (Instance.Entry.mk name i (h'.afterEpisodes engine past')).Orderly engine) :
    let e : Instance.Entry γ := ⟨name, i, h.afterEpisodes engine past⟩
    let e' : Instance.Entry γ := ⟨name, i, h'.afterEpisodes engine past'⟩
    e'.transcript engine = e.transcript engine ∧ e'.termination engine = e.termination engine ∧
      e'.guestAfter engine = e.guestAfter engine ∧ (e.hostAfter engine).Matches (e'.hostAfter engine) ∧
      e.found.host.files = e.host.files ∧
      (e.hostAfter engine).files = ((e.program engine).run e.found).2.host.files := by
  intro e e'
  have hempty {h : Host} (hf : h.files = .empty) : h.files.store.Sound := by
    rw [hf]
    exact FileStore.sound_empty
  obtain ⟨htranscript, htermination, hguest, hmatches⟩ := Instance.Entry.enter_matches hm
    (Host.sound_afterEpisodes engine (hempty hf) past) (Host.sound_afterEpisodes engine (hempty hf') past') ho ho'
  exact ⟨htranscript, htermination, hguest, hmatches, rfl, e.files_hostAfter engine⟩

/-- A guest whose code is a descriptor, which it closes. By another export it opens a file and traps. -/
def lingering : Engine Unit Unit Nat := .ofGuest 0 fun name d =>
  if name = Interface.startExport then
    .perform (.fileClose d) fun _ => .perform (.pathOpen 0 2 0 20) fun _ => .perform (.fileRead 3 4 1 20) fun _ =>
      .done (.ok (), d)
  else .perform (.pathOpen 0 2 0 20) fun _ => .done (.error ⟨"unreachable", none⟩, d)

/-- Its memory: a path, a segment at the path, and room for a result. -/
def lingerer (d : Nat) : Instance Nat where
  code := d
  process := .new ["a"] "PWD=/" 1
  memory := ⟨#[47, 97, 0, 0, 0, 0, 0, 0, 2, 0, 0, 0, 0, 0, 0, 0, 0, 0, 0, 0, 0, 0, 0, 0], #[]⟩

/-- A request to add a file, where there is room for it and no directory. -/
lemma exists_gains_request (h : Host) (path : String) (data : List UInt8) (hs : h.files.store.Sound)
    (hk : h.files.kindOf path ≠ some .directory) (hl : FileSystem.pathLength path ≤ Interface.pathLimit)
    (hn : h.files.store.lookup (FileSystem.storedPath path) ≠ some .directory) (hc : data.length < Word.count)
    (hr : h.files.store.Room data.length) :
    ∃ fs, Episode.after lingering h (.request (.addFile path data)) = h.withFiles fs ∧
      FileSystem.addFile path data h.files = .ok ⟨⟩ fs ∧ h.files.Gains path (.file data) fs ∧
      h.files.KeepsOpen fs := by
  obtain ⟨fs, hx, hg⟩ := h.files.exists_gains_addFile path data hs hk hl hn hc hr
  have hkeeps := FileSystem.keepsOpen_addFile path data h.files
  rw [Op.after_of_ok hx] at hkeeps
  refine ⟨fs, ?_, hx, hg, hkeeps⟩
  rw [Episode.after, FileRequest.answer, Op.outcome_of_attempt (Op.attempt_of_ok hx)]
  rfl

/-- A guest that opens a file and traps leaves it open, and nothing else. -/
lemma hostAfter_open {h h' : Host} {bytes : List UInt8} (hs : h.files.store.Sound)
    (hl : h.files.store.lookup "/a" = some (.file bytes))
    (hh : h' = (Instance.Entry.mk "open" (lingerer 0) h).hostAfter lingering) :
    h'.files.store.lookup = h.files.store.lookup ∧ h'.stdin = h.stdin ∧ h'.pending = h.pending ∧
      ∃ d : Nat, h.files.store.handle d = none ∧ h'.files.store.handle d = some ("/a", 0) := by
  have hname : nodePath ((lingerer 0).memory.span 0 2) = "/a" := by decide
  have ha : (h.bind (lingerer 0).memory).Accepts 0 2 0 (lingerer 0).memory := by
    refine ⟨by decide, rfl, by decide, ?_⟩
    rw [hname, Host.bind_files, hl]
    rfl
  obtain ⟨t, guest, ho, -, hafter, -⟩ := ha.opens hs 20
  rw [hname] at ho
  obtain ⟨fault, hhost⟩ := Instance.Entry.hostAfter_eq lingering ⟨"open", lingerer 0, h⟩
  have hrun : (((Instance.Entry.mk "open" (lingerer 0) h).program lingering).run
      (Instance.Entry.mk "open" (lingerer 0) h).found).2.host =
      Op.after (Host.pathOpen 0 2 0 20) (h.bind (lingerer 0).memory) := by
    show (HostCall.outcome _ _).2.host = _
    rw [HostCall.outcome_snd, Running.onHost, Op.after_onPart]
    rfl
  rw [hrun, ← hh, hafter] at hhost
  rw [hhost]
  have hlookup : t.lookup = h.files.store.lookup := by
    have hopened : openedEntry (some (.file bytes)) 0 = .file bytes := rfl
    have hl' : (h.bind (lingerer 0).memory).files.store.lookup "/a" = some (.file bytes) := hl
    rw [ho.lookup, hl', hopened, ← hl', Function.update_eq_self]
    rfl
  refine ⟨hlookup, rfl, rfl, _, ho.fresh, ?_⟩
  change t.handle _ = _
  rw [ho.handle, Function.update_self]

/-- A file in a place as large as it is. -/
def tight : List (Episode Nat) := [.request (.addFile "/a" [1])]

/-- The same file in a larger place. -/
def wide : List (Episode Nat) := [.request (.addFile "/a" [1, 2]), .request (.addFile "/a" [1])]

/-- The same file, left open by a guest that has trapped. -/
def inherited : List (Episode Nat) := tight ++ [.entry "open" (lingerer 0)]

lemma tight_eq : ∃ fs, Host.afterEpisodes lingering {} tight = ({} : Host).withFiles fs ∧
    FileSystem.empty.Gains "/a" (.file [1]) fs ∧ FileSystem.empty.KeepsOpen fs := by
  obtain ⟨fs, hhost, -, hg, hkeeps⟩ := exists_gains_request {} "/a" [1] FileStore.sound_empty
    (by decide) (by decide) (by decide) (by decide) (by decide)
  exact ⟨fs, hhost, hg, hkeeps⟩

lemma wide_eq : ∃ fs fs', Host.afterEpisodes lingering {} wide = ({} : Host).withFiles fs' ∧
    FileSystem.empty.Gains "/a" (.file [1, 2]) fs ∧ fs.Gains "/a" (.file [1]) fs' ∧
    FileSystem.empty.KeepsOpen fs' := by
  obtain ⟨fs, hhost, hx, hg, hkeeps⟩ := exists_gains_request {} "/a" [1, 2] FileStore.sound_empty
    (by decide) (by decide) (by decide) (by decide) (by decide)
  have htop : fs.store.top ≤ 0x1008 := by
    rcases FileSystem.addFile_top FileStore.sound_empty hx with htop | htop
    · rw [htop]
      decide
    · rw [htop]
      decide
  obtain ⟨fs', hhost', -, hg', hkeeps'⟩ := exists_gains_request (({} : Host).withFiles fs) "/a" [1] hg.sound
    (by
      change fs.kindOf "/a" ≠ _
      rw [FileSystem.kindOf, hg.registered]
      decide)
    (by decide)
    (by
      change fs.store.lookup "/a" ≠ _
      rw [hg.lookup]
      decide)
    (by decide) (FileStore.room_of_top_le htop (by decide))
  refine ⟨fs, fs', ?_, hg, hg', trans_of FileSystem.KeepsOpen hkeeps hkeeps'⟩
  rw [wide, Host.afterEpisodes, List.foldl_cons, hhost, List.foldl_cons, hhost']
  rfl

/-- The place of a file cannot be told. -/
lemma matches_placed :
    (Host.afterEpisodes lingering {} tight).Matches (Host.afterEpisodes lingering {} wide) := by
  obtain ⟨fs, hhost, hg, hkeeps⟩ := tight_eq
  obtain ⟨fs₁, fs₂, hhost', hg₁, hg₂, hkeeps'⟩ := wide_eq
  rw [hhost, hhost']
  have hopened : fs₂.store.opened = fs.store.opened := hkeeps'.trans hkeeps.symm
  refine ⟨⟨?_, ?_, ?_⟩, rfl, rfl, rfl⟩
  · change fs₂.store.lookup = fs.store.lookup
    rw [hg₂.lookup, hg₁.lookup, hg.lookup, Function.update_idem]
  · change fs₂.store.handle = fs.store.handle
    rw [hg₂.handle, hg₁.handle, hg.handle]
  · change fs.store.opened.SameShape fs₂.store.opened
    rw [hopened]
    exact ⟨rfl, rfl⟩

/-- A guest that closes a descriptor, opens the file and reads it cannot tell how large the place of the file is. -/
theorem run_depends_on_given_placed :
    (Instance.Entry.mk Interface.startExport (lingerer 3) (Host.afterEpisodes lingering {} wide)).transcript lingering =
      (Instance.Entry.mk Interface.startExport (lingerer 3) (Host.afterEpisodes lingering {} tight)).transcript
        lingering :=
  (run_depends_on_given lingering rfl rfl tight wide matches_placed Interface.startExport (lingerer 3)
    ⟨trivial, trivial, trivial, trivial⟩ ⟨trivial, trivial, trivial, trivial⟩).1

/-- The first thing that the guest sees is whether the descriptor is open. -/
lemma exists_transcript_eq {h : Host} (hs : h.files.store.Sound) (d : Nat) : ∃ memory rest,
    (Instance.Entry.mk Interface.startExport (lingerer d) h).transcript lingering =
      ⟨.fileClose d, .ok (if h.files.store.handle d = none then .badDescriptor else .success), memory⟩ :: rest := by
  have hanswer {e : Errno} {u : Host} (hx : Host.fileClose d (h.bind (lingerer d).memory) = .ok e u) :
      ∃ memory rest, (Instance.Entry.mk Interface.startExport (lingerer d) h).transcript lingering =
        ⟨.fileClose d, .ok e, memory⟩ :: rest := by
    have hperform : ((HostCall.fileClose d).perform
        (Instance.Entry.mk Interface.startExport (lingerer d) h).found).1 = .ok e :=
      HostCall.outcome_onHost_of_ok hx
    rw [← hperform]
    exact ⟨_, _, rfl⟩
  cases hf : h.files.store.openFile? d with
  | none =>
    rw [if_pos (hs.handle_eq_none.2 hf)]
    exact hanswer (Host.fileClose_of_none hf)
  | some f =>
    obtain ⟨slot, hslot, hget⟩ := FileStore.openFile?_eq_some.1 hf
    rw [if_neg fun hd => Option.some_ne_none f (hf.symm.trans (hs.handle_eq_none.1 hd))]
    exact hanswer (Host.fileClose_of_some hslot hget)

/-- What a guest sees depends on the files that earlier guests have left open: a descriptor of theirs is open to it. -/
theorem exists_descriptor_inherited : ∃ d : Nat,
    let h := Host.afterEpisodes lingering {} tight
    let h' := Host.afterEpisodes lingering {} inherited
    (h'.files.store.lookup = h.files.store.lookup ∧ h'.stdin = h.stdin ∧ h'.pending = h.pending) ∧
      (Instance.Entry.mk Interface.startExport (lingerer d) h').transcript lingering ≠
        (Instance.Entry.mk Interface.startExport (lingerer d) h).transcript lingering ∧
      h'.files.store.handle d = some ("/a", 0) := by
  obtain ⟨fs, hhost, hg, -⟩ := tight_eq
  generalize hpast : Host.afterEpisodes lingering {} tight = h at hhost ⊢
  have hs : h.files.store.Sound := by
    rw [hhost]
    exact hg.sound
  have hl : h.files.store.lookup "/a" = some (.file [1]) := by
    rw [hhost]
    change fs.store.lookup "/a" = _
    rw [hg.lookup]
    exact Function.update_self ..
  have hinherited : Host.afterEpisodes lingering {} inherited =
      (Instance.Entry.mk "open" (lingerer 0) h).hostAfter lingering := by
    rw [inherited, Host.afterEpisodes_concat, hpast, Episode.after]
  have hs' : (Host.afterEpisodes lingering {} inherited).files.store.Sound :=
    Host.sound_afterEpisodes lingering FileStore.sound_empty inherited
  generalize Host.afterEpisodes lingering {} inherited = h' at hinherited hs' ⊢
  obtain ⟨hlookup, hstdin, hpending, d, hfree, hopen⟩ := hostAfter_open hs hl hinherited
  refine ⟨d, ⟨hlookup, hstdin, hpending⟩, fun hsame => ?_, hopen⟩
  obtain ⟨m, rest, hx⟩ := exists_transcript_eq hs d
  obtain ⟨m', rest', hx'⟩ := exists_transcript_eq hs' d
  rw [hx, hx', if_pos hfree, if_neg (by rw [hopen]; exact Option.some_ne_none _)] at hsame
  cases hsame

end ToolchainHost
