import ToolchainHost.Proofs.Guest.Dependence

/-!
# Which files a guest writes

The calls of a guest tell which contents it discards and which bytes it stores. Every other path names after the run
what it named before, and no guest registers anything with the host.

* `HostCall.events`, `Program.events`: what a call and a run do to the bytes of files.
* `FileSystem.ChangedBy`: nothing but the paths of some events has changed.
* `HostCall.changedBy_perform`, `Program.changedBy_run`: one call, and a whole run.
* `Instance.Entry.provides_of_has`: what is there at the end of an entry was written in it, or was there before.
-/

namespace ToolchainHost

open FileSystem (storedPath)

/-- The path under which bytes are discarded or stored. -/
def FileEvent.path : FileEvent → String
  | discarded path => path
  | stored path _ _ => path

/-- What a call of a guest does to the bytes of files, the latest event first. -/
def HostCall.events (h : Host) : HostCall → List FileEvent
  | pathOpen path length flags out => (FileCall.pathOpen path length flags out).events h
  | fileWrite descriptor list count out => (FileCall.write descriptor list count out).events h
  | _ => []

/-- What a guest does to the bytes of files, the latest event first. -/
def Program.events {α : Type} : Program α → Running → List FileEvent
  | done _, _ => []
  | perform call next, r => (next (call.perform r).1).events (call.perform r).2 ++ call.events r.host

/-! ### Changes of the files -/

namespace FileSystem

variable {fs fs' fs'' : FileSystem} {events events' : List FileEvent} {path : String}

/-- A path names something: the host has registered it, or the store has it. -/
def Has (fs : FileSystem) (path : String) : Prop :=
  (fs.kindOf path).isSome ∨ (fs.store.lookup (storedPath path)).isSome

/-- Nothing is registered, and paths that no event is about name what they named before. -/
structure ChangedBy (fs : FileSystem) (events : List FileEvent) (fs' : FileSystem) : Prop where
  sound : fs'.store.Sound
  registered : fs'.registered = fs.registered
  lookup : ∀ {path}, (∀ event ∈ events, event.path ≠ path) → fs'.store.lookup path = fs.store.lookup path

lemma changedBy_of_lookup (hs : fs'.store.Sound) (hr : fs'.registered = fs.registered)
    (hl : fs'.store.lookup = fs.store.lookup) : fs.ChangedBy events fs' := ⟨hs, hr, fun _ => by rw [hl]⟩

lemma ChangedBy.trans (h : fs.ChangedBy events fs') (h' : fs'.ChangedBy events' fs'') :
    fs.ChangedBy (events' ++ events) fs'' where
  sound := h'.sound
  registered := h'.registered.trans h.registered
  lookup hq := (h'.lookup fun event he => hq event (List.mem_append_left _ he)).trans
    (h.lookup fun event he => hq event (List.mem_append_right _ he))

/-- One path has changed, and an event is about it. -/
lemma changedBy_of_update {e : Entry} {event : FileEvent} (he : event ∈ events) (hs : fs'.store.Sound)
    (hr : fs'.registered = fs.registered)
    (hl : fs'.store.lookup = Function.update fs.store.lookup event.path (some e)) : fs.ChangedBy events fs' := by
  refine ⟨hs, hr, fun hq => ?_⟩
  rw [hl]
  exact Function.update_of_ne (hq event he).symm ..

/-- What is found after changes that are not about a path was there before. -/
lemma ChangedBy.has_iff (h : fs.ChangedBy events fs') (hq : ∀ event ∈ events, event.path ≠ storedPath path) :
    fs'.Has path ↔ fs.Has path := by rw [Has, kindOf_congr h.registered, h.lookup hq, Has]

/-- Asking for a node tells whether there is one, or fails since the path is too long. -/
lemma fileExists_of_not_has (hs : fs.store.Sound) (hn : ¬ fs.Has path) :
    fileExists path fs = .error (tooLong path) fs ∨ ∃ fs', fileExists path fs = .ok false fs' := by
  obtain ⟨r, fs', hx, hfinds⟩ := fileExists_cases hs path
  cases hfinds with
  | registered h => exact absurd (Or.inl h) hn
  | tooLong h hl => exact Or.inl (Op.eq_error_of_attempt hx)
  | asked h hl =>
    have hnone : (fs.store.lookup (storedPath path)).isSome = false := Bool.eq_false_iff.2 fun h => hn (Or.inr h)
    rw [hnone] at hx
    exact Or.inr ⟨_, Op.eq_ok_of_attempt hx⟩

lemma has_of_fileExists (hs : fs.store.Sound) (hx : fileExists path fs = .ok true fs') : fs.Has path := by
  by_contra hn
  obtain h | ⟨fs'', h⟩ := fileExists_of_not_has hs hn
  · cases hx.symm.trans h
  · cases hx.symm.trans h

end FileSystem

/-! ### The calls on files -/

namespace Host

variable {h : Host} {d : Int} {list count : Nat}

lemma changedBy_pathOpen (hs : h.files.store.Sound) (path length flags out : Nat) :
    h.files.ChangedBy ((FileCall.pathOpen path length flags out).events h)
      (Op.after (pathOpen path length flags out) h).files := by
  have hopened {m : Memory} {t : FileStore} {d : Nat} (ha : h.Accepts path length flags m)
      (ho : h.files.store.Opens (nodePath (m.span path length)) flags d t) :
      h.files.ChangedBy ((FileCall.pathOpen path length flags out).events h) (h.withStore t).files := by
    rw [ha.events]
    by_cases he : empties (h.files.store.lookup (nodePath (m.span path length))) flags = true
    · rw [if_pos he]
      exact FileSystem.changedBy_of_update (List.mem_singleton_self _) ho.sound rfl ho.lookup
    · refine FileSystem.changedBy_of_lookup ho.sound rfl ?_
      rw [withStore_store, ho.lookup, ← openedEntry_of_not_empties ha.not_refused he, Function.update_eq_self]
  have hc := pathOpen_cases hs path length flags out
  cases hr : pathOpen path length flags out h with
  | ok e h' =>
    rw [hr] at hc
    rw [Op.after_of_ok hr]
    cases hc with
    | tooLong hl => exact FileSystem.changedBy_of_lookup hs rfl rfl
    | refused hl hg ht he => exact FileSystem.changedBy_of_lookup ht.sound rfl ht.lookup
    | opened ha ho => exact hopened ha ho
  | error e h' =>
    rw [hr] at hc
    rw [Op.after_of_error hr]
    cases hc with
    | unread e hn => exact FileSystem.changedBy_of_lookup hs rfl rfl
    | lost e ha ho => exact hopened ha ho

/-- What a write leaves when the segments that land have been put into the file. -/
lemma Rewrites.changedBy {f : OpenFile} {m : Memory} {t u : FileStore} (hs : h.files.store.Sound)
    (hb : h.Begins d list count f m) (hst : staysAddressable f.position (segmentsOf m list count))
    (ht : h.Rewrites f m list count t) (hu : u.Sound) (hl : u.lookup = t.lookup) (out : Nat) :
    h.files.ChangedBy ((FileCall.write d list count out).events h) (h.withStore u).files := by
  cases hland : h.landing f m list count with
  | nil => exact FileSystem.changedBy_of_lookup hu rfl (hl.trans (ht.lookup_of_nil hs hland))
  | cons s rest =>
    obtain ⟨n, hn, hr⟩ := ht
    have he := events_write hb hst hn out
    rw [hland] at he
    rw [he]
    exact FileSystem.changedBy_of_update (List.mem_singleton_self _) hu rfl (hl.trans hr.lookup)

lemma changedBy_fileWrite (hs : h.files.store.Sound) (d : Int) (list count out : Nat) :
    h.files.ChangedBy ((FileCall.write d list count out).events h)
      (Op.after (fileWrite d list count out) h).files := by
  -- What goes to the terminal goes to no file.
  by_cases hd : Interface.isStandard d = true
  · have hk := files_fileWrite_of_isStandard (h := h) hd list count out
    rw [hk]
    exact FileSystem.changedBy_of_lookup hs rfl rfl
  have hc := fileWrite_cases hs (Bool.eq_false_iff.2 hd) list count out
  cases hr : fileWrite d list count out h with
  | ok e h' =>
    rw [hr] at hc
    rw [Op.after_of_ok hr]
    cases hc with
    | notOpen | listTooLong => exact FileSystem.changedBy_of_lookup hs rfl rfl
    | @unaddressable f m hb hst =>
      have hk := looks_listed hs hb.fits m list
      exact FileSystem.changedBy_of_lookup hk.sound rfl hk.lookup
    | written hb hst ht hall hu => exact ht.changedBy hs hb hst hu.sound hu.lookup out
  | error e h' =>
    rw [hr] at hc
    rw [Op.after_of_error hr]
    cases hc with
    | unread => exact FileSystem.changedBy_of_lookup hs rfl rfl
    | broken e hb hst ht => exact ht.changedBy hs hb hst ht.sound rfl out
    | lost e hb hst ht hall hu => exact ht.changedBy hs hb hst hu.sound hu.lookup out

/-- Reading changes no file. -/
lemma changedBy_fileRead (hs : h.files.store.Sound) (d : Int) (list count out : Nat) :
    h.files.ChangedBy [] (Op.after (fileRead d list count out) h).files := by
  obtain ⟨hsound, hlookup⟩ := fileRead_lookup hs d list count out
  refine FileSystem.changedBy_of_lookup hsound ?_ hlookup
  by_cases hd : d = 0
  · subst hd
    exact congrArg FileSystem.registered (sameFiles_fileRead_zero list count out)
  have hc := fileRead_cases hs hd list count out
  cases hr : fileRead d list count out h with
  | ok e h' =>
    rw [hr] at hc
    rw [Op.after_of_ok hr]
    cases hc with
    | notOpen | listTooLong | read => rfl
  | error e h' =>
    rw [hr] at hc
    rw [Op.after_of_error hr]
    cases hc with
    | broken e hk hreg => exact hreg
    | lost e hu hs' hreg => exact hreg

/-- Closing changes no file. -/
lemma changedBy_fileClose (hs : h.files.store.Sound) (d : Int) :
    h.files.ChangedBy [] (Op.after (fileClose d) h).files := by
  obtain ⟨hsound, hlookup⟩ := fileClose_lookup hs d
  have hreg : (Op.after (fileClose d) h).files.registered = h.files.registered := by
    rw [fileClose, onStore, onFiles, Op.after_onPart, FileSystem.onStore, Op.after_onPart]
  exact FileSystem.changedBy_of_lookup hsound hreg hlookup

end Host

/-! ### One call, and all calls -/

/-- The files are the same. -/
def Running.SameFiles (r r' : Running) : Prop := r.host.SameFiles r'.host

instance : IsPreorder Running Running.SameFiles where
  refl _ := rfl
  trans _ _ _ h1 h2 := Eq.trans h2 h1

/-- **One call** of a guest registers nothing and changes what the paths of its events name. -/
theorem HostCall.changedBy_perform {r : Running} (hs : r.host.files.store.Sound) (call : HostCall) :
    r.host.files.ChangedBy (call.events r.host) (call.perform r).2.host.files := by
  have hkeeps {fs : FileSystem} (hf : fs = r.host.files) : r.host.files.ChangedBy [] fs := by
    subst hf
    exact FileSystem.changedBy_of_lookup hs rfl rfl
  have hfiles {α : Type} (x : Op Host α) :
      (outcome (Running.onHost x) r).2.host.files = (Op.after x r.host).files := by
    rw [outcome_snd, Running.onHost, Op.after_onPart]
  cases call with
  | growMemory | exit | recordFault | recordHostFault => exact hkeeps rfl
  | pathOpen path length flags out =>
    rw [perform, hfiles]
    exact Host.changedBy_pathOpen hs path length flags out
  | fileClose d =>
    rw [perform, hfiles]
    exact Host.changedBy_fileClose hs d
  | fileWrite d list count out =>
    rw [perform, hfiles]
    exact Host.changedBy_fileWrite hs d list count out
  | fileRead d list count out =>
    rw [perform, hfiles]
    exact Host.changedBy_fileRead hs d list count out
  | _ => exact hkeeps (within_perform (R := Running.SameFiles) (fun _ _ => rfl) (fun _ _ => rfl) rfl r)

/-- **A run** registers nothing and changes what the paths of its events name. -/
theorem Program.changedBy_run {α : Type} {r : Running} (hs : r.host.files.store.Sound) (p : Program α) :
    r.host.files.ChangedBy (p.events r) (p.run r).2.host.files := by
  induction p generalizing r with
  | done a => exact FileSystem.changedBy_of_lookup hs rfl rfl
  | perform call next ih =>
    have hcall := call.changedBy_perform hs
    exact hcall.trans (ih _ hcall.sound)

/-! ### Entries -/

namespace Instance.Entry

variable {σ μ γ : Type} (engine : Engine σ μ γ) (e : Entry γ)

/-- What the guest does to the bytes of files, the latest event first. -/
def events : List FileEvent := (e.program engine).events e.found

/-- The guest writes what a path names: it makes it, empties it, or stores bytes in it. -/
def Wrote (path : String) : Prop := ∃ event ∈ e.events engine, event.path = storedPath path

/-- How a path came to name something at the end of an entry: the guest wrote it, or it is as it was before. -/
inductive Provides (path : String) : Prop
  | written (hw : e.Wrote engine path) (hn : (e.hostAfter engine).files.Has path)
  | kept (hn : e.host.files.Has path)
      (hk : (e.hostAfter engine).files.store.lookup (storedPath path) = e.host.files.store.lookup (storedPath path))

variable {e}

lemma changedBy_hostAfter (hs : e.host.files.store.Sound) :
    e.host.files.ChangedBy (e.events engine) (e.hostAfter engine).files := by
  rw [files_hostAfter]
  exact Program.changedBy_run (r := e.found) hs _

variable {engine}

/-- **What is there at the end of an entry** was written in it, or was there before. -/
theorem provides_of_has {path : String} (hs : e.host.files.store.Sound) (hn : (e.hostAfter engine).files.Has path) :
    e.Provides engine path := by
  have hchanged := changedBy_hostAfter engine hs
  by_cases hw : e.Wrote engine path
  · exact .written hw hn
  · have hquiet : ∀ event ∈ e.events engine, event.path ≠ storedPath path := fun event he hp => hw ⟨event, he, hp⟩
    exact .kept ((hchanged.has_iff hquiet).1 hn) (hchanged.lookup hquiet)

end Instance.Entry

end ToolchainHost
