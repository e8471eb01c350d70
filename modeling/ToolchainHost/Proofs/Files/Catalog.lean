import Mathlib.Algebra.GroupWithZero.Nat
import ToolchainHost.Proofs.Files.Registry

/-!
# The host's file store is a map

* `FileRequest`: what the host can ask of the file system, and `FileRequest.answer`, what it is told.
* `Catalog.Step`: what a map from normal paths to entries answers to a request, and what it is then.
* `answers_are_catalog`: on every sequence of requests the file system answers as the map does.
-/

namespace ToolchainHost

open Path (normalize)

/-- The outcome of an operation and the state it reaches. -/
def Op.outcome {σ α : Type} (x : Op σ α) (s : σ) : Except Failure α × σ :=
  match x s with
  | .ok a t => (.ok a, t)
  | .error e t => (.error e, t)

section Outcome

variable {σ α : Type} {x : Op σ α} {s t : σ} {r : Except Failure α}

lemma Op.attempt_eq_outcome (x : Op σ α) (s : σ) : Op.attempt x s = .ok (x.outcome s).1 (x.outcome s).2 := by
  unfold Op.attempt Op.outcome
  cases x s <;> rfl

lemma Op.outcome_of_attempt (h : Op.attempt x s = .ok r t) : x.outcome s = (r, t) := by
  rw [Op.attempt_eq_outcome] at h
  cases h
  rfl

lemma Op.outcome_snd (x : Op σ α) (s : σ) : (x.outcome s).2 = Op.after x s := by
  unfold Op.outcome Op.after
  cases x s <;> rfl

end Outcome

/-! ### Requests -/

/-- What the host can ask of the file system. -/
inductive FileRequest where
  | addFile (path : String) (contents : List UInt8)
  | addDirectory (path : String)
  | contents (path : String)
  | fileExists (path : String)
  | kindOf (path : String)
  | entries

/-- What the file system answers. -/
inductive FileReply where
  | added (result : Except Failure Unit)
  | contents (result : Except Failure (List UInt8))
  | found (result : Except Failure Bool)
  | kind (kind : Option NodeKind)
  | entries (nodes : List (String × NodeKind))
  deriving DecidableEq

namespace FileRequest

/-- What the file system answers to a request, and what it is then. -/
def answer (fs : FileSystem) : FileRequest → FileReply × FileSystem
  | addFile path data => ((FileSystem.addFile path data).outcome fs).map .added id
  | addDirectory path => ((FileSystem.addDirectory path).outcome fs).map .added id
  | contents path => ((FileSystem.contents path).outcome fs).map .contents id
  | fileExists path => ((FileSystem.fileExists path).outcome fs).map .found id
  | kindOf path => (.kind (fs.kindOf path), fs)
  | entries => (.entries fs.entries, fs)

/-- Paths are free of NULs, and contents are shorter than 2³² bytes. -/
def Proper : FileRequest → Prop
  | addFile path data => '\x00' ∉ path.toList ∧ data.length < Word.count
  | addDirectory path | contents path | fileExists path | kindOf path => '\x00' ∉ path.toList
  | entries => True

instance : (q : FileRequest) → Decidable q.Proper
  | addFile .. => inferInstanceAs (Decidable (_ ∧ _))
  | addDirectory _ | contents _ | fileExists _ | kindOf _ => inferInstanceAs (Decidable (¬ _))
  | entries => isTrue trivial

/-- The request only asks. -/
def IsQuery : FileRequest → Prop
  | addFile .. | addDirectory _ => False
  | _ => True

/-- The request adds a node under a path. -/
def Adds (path : String) : FileRequest → Prop
  | addFile p _ | addDirectory p => normalize p = normalize path
  | _ => False

end FileRequest

/-- The most that the request takes of the heap: its contents, and what aligns their place. -/
def FileRequest.need : FileRequest → Nat
  | addFile _ data => data.length + 7
  | _ => 0

/-- The heap has no room for the contents. -/
def FileReply.isFull : FileReply → Bool
  | added (.error (.aborted _)) => true
  | _ => false

/-- The call failed. -/
def FileReply.Failed : FileReply → Prop
  | added (.error _) | contents (.error _) | found (.error _) => True
  | _ => False

namespace FileSystem

/-- The greatest end of the heap from which the next address can be computed with words. -/
def topLimit : Nat := Word.count - 8

/-- The file system after requests. -/
def afterRequests (fs : FileSystem) : List FileRequest → FileSystem
  | [] => fs
  | q :: rest => (q.answer fs).2.afterRequests rest

/-- The answers to requests. -/
def answers (fs : FileSystem) : List FileRequest → List (FileRequest × FileReply)
  | [] => []
  | q :: rest => (q, (q.answer fs).1) :: (q.answer fs).2.answers rest

/-- Requests in order: paths and contents are proper, and every allocation fits the heap. -/
def Orderly (fs : FileSystem) : List FileRequest → Prop
  | [] => True
  | q :: rest =>
    q.Proper ∧ fs.store.top ≤ topLimit ∧ (q.answer fs).1.isFull = false ∧ (q.answer fs).2.Orderly rest

instance decidableOrderly : (fs : FileSystem) → (requests : List FileRequest) → Decidable (fs.Orderly requests)
  | _, [] => isTrue trivial
  | fs, q :: rest =>
    have := decidableOrderly (q.answer fs).2 rest
    inferInstanceAs (Decidable (_ ∧ _ ∧ _ ∧ _))

end FileSystem

namespace Catalog

/-- The list has every node of the catalog once, in the order of the bytes of the paths. -/
structure Lists (c : Catalog) (nodes : List (String × NodeKind)) : Prop where
  sorted : nodes.Pairwise fun a b => Utf8.encode a.1 < Utf8.encode b.1
  mem_iff : ∀ path kind, (path, kind) ∈ nodes ↔ (c path).map Entry.kind = some kind

/-- What a catalog answers to a request, and what it is then. -/
inductive Step (c : Catalog) : FileRequest → FileReply → Catalog → Prop
  | addFile {path : String} {contents : List UInt8} {c' : Catalog} (h : c.addFile path contents = .ok c') :
      Step c (.addFile path contents) (.added (.ok ())) c'
  | addFileFails {path : String} {contents : List UInt8} {e : Failure} (h : c.addFile path contents = .error e) :
      Step c (.addFile path contents) (.added (.error e)) c
  | addDirectory {path : String} {c' : Catalog} (h : c.addDirectory path = .ok c') :
      Step c (.addDirectory path) (.added (.ok ())) c'
  | addDirectoryFails {path : String} {e : Failure} (h : c.addDirectory path = .error e) :
      Step c (.addDirectory path) (.added (.error e)) c
  | contents (path : String) : Step c (.contents path) (.contents (c.contents path)) c
  | fileExists (path : String) : Step c (.fileExists path) (.found (c.exists? path)) c
  | kindOf (path : String) : Step c (.kindOf path) (.kind ((c (normalize path)).map Entry.kind)) c
  | entries {nodes : List (String × NodeKind)} (h : c.Lists nodes) : Step c .entries (.entries nodes) c

/-- A file that is neither cut nor refused for want of room is added as to the map. -/
lemma AddsFile.step {c c' : Catalog} {path : String} {contents : List UInt8} {r : Except Failure Unit}
    (h : c.AddsFile path contents r c') (hc : contents.length < Word.count) (hf : (FileReply.added r).isFull = false) :
    Step c (.addFile path contents) (.added r) c' := by
  cases h with
  | added _ h => exact .addFile h
  | refused h => exact .addFileFails h
  | full reason h => cases hf
  | cut address size hlen => exact absurd hc (Nat.not_lt.2 hlen)

lemma AddsDirectory.step {c c' : Catalog} {path : String} {r : Except Failure Unit}
    (h : c.AddsDirectory path r c') : Step c (.addDirectory path) (.added r) c' := by
  cases h with
  | added h => exact .addDirectory h
  | refused h => exact .addDirectoryFails h

/-- A catalog gives answers one after the other. -/
inductive Runs : Catalog → List (FileRequest × FileReply) → Catalog → Prop
  | nil (c : Catalog) : Runs c [] c
  | cons {c c' c'' : Catalog} {q : FileRequest} {r : FileReply} {rest : List (FileRequest × FileReply)}
      (h : Step c q r c') (hr : Runs c' rest c'') : Runs c ((q, r) :: rest) c''

end Catalog

namespace FileSystem

variable {fs fs' : FileSystem} {path : String} {data : List UInt8} {k : NodeKind}

/-! ### The registry is the map -/

lemma pairwise_insertSorted {l : List (String × NodeKind)} (h : l.Pairwise fun a b => a.1 < b.1) :
    (insertSorted path k l).Pairwise fun a b => a.1 < b.1 := by
  induction l with
  | nil => exact List.pairwise_singleton ..
  | cons a l ih =>
    obtain ⟨ha, hl⟩ := List.pairwise_cons.1 h
    rw [insertSorted]
    split_ifs with h1 h2
    · refine List.pairwise_cons.2 ⟨fun b hb => ?_, h⟩
      rcases List.mem_cons.1 hb with rfl | hb
      · exact h1
      · exact String.lt_trans h1 (ha b hb)
    · exact List.pairwise_cons.2 ⟨fun b hb => h2 ▸ ha b hb, hl⟩
    · refine List.pairwise_cons.2 ⟨fun b hb => ?_, ih hl⟩
      rcases mem_insertSorted hb with rfl | hb
      · exact String.not_le.1 fun hle => h2 (String.le_antisymm hle (String.not_lt.1 h1))
      · exact ha b hb

/-- **The registry holds all there is**, in the order of the paths, where only the host adds nodes. -/
structure Catalogued (fs : FileSystem) : Prop extends fs.InStep where
  sorted : fs.registered.Pairwise fun a b => a.1 < b.1
  complete : ∀ {q e}, fs.store.lookup q = some e → (q, e.kind) ∈ fs.registered

theorem catalogued_empty : empty.Catalogued where
  toInStep := inStep_empty
  sorted := List.Pairwise.nil
  complete h := by cases h

namespace Catalogued

lemma kindOf (hc : fs.Catalogued) (path : String) :
    fs.kindOf path = (fs.store.lookup (normalize path)).map Entry.kind := by
  cases h : fs.store.lookup (normalize path) with
  | some e => exact hc.kindOf_of_mem (hc.complete h)
  | none =>
    cases hk : fs.kindOf path with
    | none => rfl
    | some k =>
      obtain ⟨e, he, -⟩ := hc.lookup_of_kindOf hk
      rw [h] at he
      cases he

lemma of_keeps (hc : fs.Catalogued) (h : fs.Keeps fs') : fs'.Catalogued where
  toInStep := hc.toInStep.of_keeps h
  sorted := h.registered ▸ hc.sorted
  complete hq := by
    rw [h.lookup] at hq
    rw [h.registered]
    exact hc.complete hq

lemma of_gains (hc : fs.Catalogued) {e : Entry} (hn : storedPath path = normalize path) (hg : fs.Gains path e fs')
    (hi : fs'.InStep) : fs'.Catalogued where
  toInStep := hi
  sorted := by
    rw [hg.registered]
    exact pairwise_insertSorted hc.sorted
  complete {q d} hq := by
    rw [hg.lookup, hn] at hq
    rw [hg.registered]
    by_cases hp : q = normalize path
    · subst hp
      rw [Function.update_self] at hq
      obtain rfl := Option.some.inj hq
      exact mem_insertSorted_self ..
    · rw [Function.update_of_ne hp] at hq
      exact mem_insertSorted_of_ne (hc.complete hq) hp

/-- The registered nodes are those of the map, in the order of the bytes of their paths. -/
lemma lists (hc : fs.Catalogued) : Catalog.Lists fs.store.lookup fs.entries where
  sorted := hc.sorted.imp fun h => Utf8.encode_lt_encode h
  mem_iff path kind := by
    constructor
    · intro h
      obtain ⟨e, he, rfl⟩ := hc.known h
      rw [he, Option.map_some]
    · intro h
      obtain ⟨e, he, rfl⟩ := Option.map_eq_some_iff.1 h
      exact hc.complete he

/-! ### One request -/

lemma addFile (hc : fs.Catalogued) (hn : '\x00' ∉ path.toList) (hd : data.length < Word.count)
    (htop : fs.store.top + 7 < Word.count) (hfull : ((FileRequest.addFile path data).answer fs).1.isFull = false) :
    ((FileRequest.addFile path data).answer fs).2.Catalogued ∧
      Catalog.Step fs.store.lookup (.addFile path data) ((FileRequest.addFile path data).answer fs).1
        ((FileRequest.addFile path data).answer fs).2.store.lookup ∧
      (((FileRequest.addFile path data).answer fs).1.Failed →
        fs.Keeps ((FileRequest.addFile path data).answer fs).2) := by
  have hx := Op.attempt_eq_outcome (FileSystem.addFile path data) fs
  rw [FileRequest.answer] at hfull ⊢
  generalize (FileSystem.addFile path data).outcome fs = o at hx hfull ⊢
  obtain ⟨r, fs'⟩ := o
  dsimp only [Prod.map] at *
  obtain ⟨hi, -, hadd⟩ := hc.toInStep.addFile hn htop hx
  obtain ⟨r', fs'', hx', hadd'⟩ := addFile_cases hc.store path data
  obtain ⟨rfl, rfl⟩ := EStateM.Result.ok.inj (hx.symm.trans hx')
  refine and_left_comm.1 ⟨hadd.step hd hfull, ?_⟩
  cases hadd' with
  | registered | tooLong => exact ⟨hc, fun _ => .refl hc.store⟩
  | directory h hl | full h hl =>
    have hk := keeps_staged hc.store hl
    exact ⟨hc.of_keeps hk, fun _ => hk⟩
  | cut address size h hl hn' hlen => exact absurd hd (Nat.not_lt.2 hlen)
  | added h hl hn' hlen hg => exact ⟨hc.of_gains (storedPath_eq hn) hg hi, False.elim⟩

lemma addDirectory (hc : fs.Catalogued) (hn : '\x00' ∉ path.toList) :
    ((FileRequest.addDirectory path).answer fs).2.Catalogued ∧
      Catalog.Step fs.store.lookup (.addDirectory path) ((FileRequest.addDirectory path).answer fs).1
        ((FileRequest.addDirectory path).answer fs).2.store.lookup ∧
      (((FileRequest.addDirectory path).answer fs).1.Failed →
        fs.Keeps ((FileRequest.addDirectory path).answer fs).2) := by
  have hx := Op.attempt_eq_outcome (FileSystem.addDirectory path) fs
  rw [FileRequest.answer]
  generalize (FileSystem.addDirectory path).outcome fs = o at hx ⊢
  obtain ⟨r, fs'⟩ := o
  dsimp only [Prod.map] at *
  obtain ⟨hi, -, hadd⟩ := hc.toInStep.addDirectory hn hx
  obtain ⟨r', fs'', hx', hadd'⟩ := addDirectory_cases hc.store path
  obtain ⟨rfl, rfl⟩ := EStateM.Result.ok.inj (hx.symm.trans hx')
  refine and_left_comm.1 ⟨hadd.step, ?_⟩
  cases hadd' with
  | kept | registered | tooLong => exact ⟨hc, fun _ => .refl hc.store⟩
  | file bytes h hl =>
    have hk := keeps_staged hc.store hl
    exact ⟨hc.of_keeps hk, fun _ => hk⟩
  | added h hl hn' hg => exact ⟨hc.of_gains (storedPath_eq hn) hg hi, False.elim⟩

lemma answer_contents (hc : fs.Catalogued) (hn : '\x00' ∉ path.toList) :
    ((FileRequest.contents path).answer fs).1 = .contents (Catalog.contents fs.store.lookup path) ∧
      fs.Keeps ((FileRequest.contents path).answer fs).2 := by
  obtain ⟨hk, hr⟩ := hc.toInStep.contents hn (Op.attempt_eq_outcome (FileSystem.contents path) fs)
  exact ⟨by rw [FileRequest.answer, Prod.map_fst, hr], hk⟩

lemma answer_fileExists (hc : fs.Catalogued) (hn : '\x00' ∉ path.toList) :
    ((FileRequest.fileExists path).answer fs).1 = .found (Catalog.exists? fs.store.lookup path) ∧
      fs.Keeps ((FileRequest.fileExists path).answer fs).2 := by
  have hnone (h : fs.kindOf path = none) : fs.store.lookup (normalize path) = none := by
    rw [hc.kindOf] at h
    exact Option.map_eq_none_iff.1 h
  obtain ⟨hk, hr⟩ := hc.toInStep.fileExists hn hnone (Op.attempt_eq_outcome (FileSystem.fileExists path) fs)
  exact ⟨by rw [FileRequest.answer, Prod.map_fst, hr], hk⟩

/-- A file is refused for want of room only where the heap has none. -/
lemma not_room_of_isFull (hc : fs.Catalogued)
    (hfull : ((FileRequest.addFile path data).answer fs).1.isFull = true) :
    ¬ fs.store.Room (data.length % Word.count) := by
  have hx := Op.attempt_eq_outcome (FileSystem.addFile path data) fs
  rw [FileRequest.answer, Prod.map_fst] at hfull
  generalize (FileSystem.addFile path data).outcome fs = o at hx hfull
  obtain ⟨r, fs'⟩ := o
  unfold FileReply.isFull at hfull
  split at hfull
  · rename_i reason hr
    cases hr
    exact not_room_of_aborted hc.store hx
  · cases hfull

/-- **One request** is answered as by the map. The file system stays catalogued, and one that fails changes nothing. -/
theorem step (hc : fs.Catalogued) {q : FileRequest} (hp : q.Proper) (htop : fs.store.top ≤ topLimit)
    (hfull : (q.answer fs).1.isFull = false) :
    (q.answer fs).2.Catalogued ∧ Catalog.Step fs.store.lookup q (q.answer fs).1 (q.answer fs).2.store.lookup ∧
      ((q.answer fs).1.Failed → fs.Keeps (q.answer fs).2) := by
  have htop' : fs.store.top + 7 < Word.count := by
    unfold topLimit Word.count at htop
    unfold Word.count
    omega
  cases q with
  | addFile path data => exact hc.addFile hp.1 hp.2 htop' hfull
  | addDirectory path => exact hc.addDirectory hp
  | contents path =>
    obtain ⟨hr, hk⟩ := hc.answer_contents hp
    rw [hr, hk.lookup]
    exact ⟨hc.of_keeps hk, .contents path, fun _ => hk⟩
  | fileExists path =>
    obtain ⟨hr, hk⟩ := hc.answer_fileExists hp
    rw [hr, hk.lookup]
    exact ⟨hc.of_keeps hk, .fileExists path, fun _ => hk⟩
  | kindOf path =>
    refine ⟨hc, ?_, False.elim⟩
    rw [FileRequest.answer, hc.kindOf]
    exact .kindOf path
  | entries => exact ⟨hc, .entries hc.lists, False.elim⟩

/-- Requests that only ask cannot tell apart what users see as the same. -/
lemma query_congr (hc : fs.Catalogued) (hk : fs.Keeps fs') {q : FileRequest} (hq : q.IsQuery) (hp : q.Proper) :
    (q.answer fs').1 = (q.answer fs).1 := by
  have hc' := hc.of_keeps hk
  cases q with
  | addFile | addDirectory => cases hq
  | contents path => rw [(hc'.answer_contents hp).1, (hc.answer_contents hp).1, hk.lookup]
  | fileExists path => rw [(hc'.answer_fileExists hp).1, (hc.answer_fileExists hp).1, hk.lookup]
  | kindOf path =>
    rw [FileRequest.answer, FileRequest.answer, hc'.kindOf, hc.kindOf, hk.lookup]
  | entries => rw [FileRequest.answer, FileRequest.answer, FileSystem.entries, hk.registered, FileSystem.entries]

/-! ### All requests -/

/-- Requests in order are answered as by the map, one after the other. -/
theorem runs (hc : fs.Catalogued) {requests : List FileRequest} (ho : fs.Orderly requests) :
    (fs.afterRequests requests).Catalogued ∧
      Catalog.Runs fs.store.lookup (fs.answers requests) (fs.afterRequests requests).store.lookup := by
  induction requests generalizing fs with
  | nil => exact ⟨hc, .nil _⟩
  | cons q rest ih =>
    obtain ⟨hp, htop, hfull, hrest⟩ := ho
    obtain ⟨hc', hstep, -⟩ := hc.step hp htop hfull
    obtain ⟨hlast, hrun⟩ := ih hc' hrest
    exact ⟨hlast, .cons hstep hrun⟩

end Catalogued

/-! ### Requests that fit the heap -/

/-- A request takes no more of the heap than its need. -/
lemma top_answer_le (hs : fs.store.Sound) {q : FileRequest} (hp : q.Proper) :
    (q.answer fs).2.store.top ≤ fs.store.top + q.need := by
  have hstaged (path : String) (need : Nat) : (fs.staged path).store.top ≤ fs.store.top + need :=
    Nat.le_add_right_of_le (staged_top fs path).le
  cases q with
  | addFile path data =>
    obtain ⟨r, fs', hx, hadd⟩ := addFile_cases hs path data
    rw [FileRequest.answer, Op.outcome_of_attempt hx]
    cases hadd with
    | registered | tooLong => exact Nat.le_add_right ..
    | directory | full => exact hstaged path _
    | cut address size h hl hn hc => exact absurd hp.2 (Nat.not_lt.2 hc)
    | added h hl hn hc hg =>
      have hneed : (FileRequest.addFile path data).need = data.length + 7 := rfl
      rcases addFile_top hs (Op.eq_ok_of_attempt hx) with htop | htop
      · exact Nat.le_add_right_of_le htop.le
      · rw [Nat.mod_eq_of_lt hc] at htop
        unfold FileStore.aligned at htop
        dsimp only [Prod.map, id]
        omega
  | addDirectory path =>
    obtain ⟨r, fs', hx, hadd⟩ := addDirectory_cases hs path
    rw [FileRequest.answer, Op.outcome_of_attempt hx]
    cases hadd with
    | kept | registered | tooLong => exact Nat.le_add_right ..
    | file => exact hstaged path _
    | added => exact Nat.le_add_right_of_le (addDirectory_top hs (Op.eq_ok_of_attempt hx)).le
  | contents path =>
    obtain ⟨r, fs', hx, hy⟩ := contents_cases hs path
    rw [FileRequest.answer, Op.outcome_of_attempt hx]
    cases hy with
    | registered | tooLong => exact Nat.le_add_right ..
    | _ => exact hstaged path _
  | fileExists path =>
    obtain ⟨r, fs', hx, hy⟩ := fileExists_cases hs path
    rw [FileRequest.answer, Op.outcome_of_attempt hx]
    cases hy with
    | registered | tooLong => exact Nat.le_add_right ..
    | asked => exact hstaged path _
  | kindOf path => exact Nat.le_add_right ..
  | entries => exact Nat.le_add_right ..

/-- Only files are refused for want of room, and only where the heap has none. -/
lemma Catalogued.isFull_eq_false (hc : fs.Catalogued) {q : FileRequest} (hp : q.Proper)
    (hneed : fs.store.top + q.need < Word.count) : (q.answer fs).1.isFull = false := by
  cases q with
  | addFile path data =>
    refine Bool.eq_false_iff.2 fun hfull => hc.not_room_of_isFull hfull ?_
    rw [Nat.mod_eq_of_lt hp.2]
    refine FileStore.room_of_top_le le_rfl ?_
    rw [FileRequest.need] at hneed
    omega
  | addDirectory path =>
    obtain ⟨r, fs', hx, hadd⟩ := addDirectory_cases hc.store path
    rw [FileRequest.answer, Op.outcome_of_attempt hx]
    cases hadd <;> rfl
  | contents | fileExists | kindOf | entries => rfl

/-- **Requests are in order** where the heap has room for all of their contents. -/
theorem Catalogued.orderly_of_fits (hc : fs.Catalogued) {requests : List FileRequest}
    (hp : ∀ q ∈ requests, q.Proper) (hfit : fs.store.top + (requests.map FileRequest.need).sum ≤ topLimit) :
    fs.Orderly requests := by
  induction requests generalizing fs with
  | nil => exact trivial
  | cons q rest ih =>
    obtain ⟨hq, hrest⟩ := List.forall_mem_cons.1 hp
    rw [List.map_cons, List.sum_cons] at hfit
    have htop : fs.store.top ≤ topLimit := by omega
    have hlimit : topLimit < Word.count := by decide
    have hfull := hc.isFull_eq_false hq (by omega)
    have hnext := top_answer_le hc.store hq
    exact ⟨hq, htop, hfull, ih (hc.step hq htop hfull).1 hrest (by omega)⟩

lemma orderly_append {before after : List FileRequest} (h : fs.Orderly (before ++ after)) :
    fs.Orderly before ∧ (fs.afterRequests before).Orderly after := by
  induction before generalizing fs with
  | nil => exact ⟨trivial, h⟩
  | cons q before ih =>
    obtain ⟨hp, htop, hfull, hrest⟩ := h
    obtain ⟨hbefore, hafter⟩ := ih hrest
    exact ⟨⟨hp, htop, hfull, hbefore⟩, hafter⟩

end FileSystem

namespace Catalog

/-- Adding under one path leaves what all other paths name. -/
lemma Step.apply_of_not_adds {c c' : Catalog} {q : FileRequest} {r : FileReply} {path : String}
    (h : c.Step q r c') (hq : ¬ q.Adds path) : c' (normalize path) = c (normalize path) := by
  cases h with
  | addFile h =>
    unfold Catalog.addFile at h
    split_ifs at h
    cases h
    exact Function.update_of_ne (Ne.symm hq) ..
  | addDirectory h =>
    unfold Catalog.addDirectory at h
    split_ifs at h
    · cases h
      rfl
    · cases h
      exact Function.update_of_ne (Ne.symm hq) ..
  | _ => rfl

end Catalog

/-- **The host's file store is a map.** On every sequence of requests a fresh file system gives the answers of the
map from normal paths to entries. A call that fails changes no answer, adding a node changes what no other path reads
as, and no file is refused while the heap has room for it. -/
theorem answers_are_catalog (requests : List FileRequest) (ho : FileSystem.empty.Orderly requests) :
    (∃ c, Catalog.Runs (fun _ => none) (FileSystem.empty.answers requests) c) ∧
      ∀ before q after, requests = before ++ q :: after →
        let fs := FileSystem.empty.afterRequests before
        ((q.answer fs).1.Failed → ∀ q' : FileRequest, q'.IsQuery → q'.Proper →
          (q'.answer (q.answer fs).2).1 = (q'.answer fs).1) ∧
        (∀ path, '\x00' ∉ path.toList → ¬ q.Adds path →
          ((FileRequest.contents path).answer (q.answer fs).2).1 = ((FileRequest.contents path).answer fs).1) ∧
        ∀ path data, fs.store.Room (data.length % Word.count) →
          ((FileRequest.addFile path data).answer fs).1.isFull = false := by
  refine ⟨⟨_, (FileSystem.catalogued_empty.runs ho).2⟩, fun before q after hrequests => ?_⟩
  obtain ⟨hbefore, hp, htop, hfull, -⟩ := FileSystem.orderly_append (hrequests ▸ ho)
  have hc := (FileSystem.catalogued_empty.runs hbefore).1
  obtain ⟨hc', hstep, hfail⟩ := hc.step hp htop hfull
  refine ⟨fun hf q' hq' hp' => hc.query_congr (hfail hf) hq' hp', fun path hn hq => ?_, fun path data hr => ?_⟩
  · have happly := hstep.apply_of_not_adds hq
    rw [(hc'.answer_contents hn).1, (hc.answer_contents hn).1, Catalog.contents, happly, Catalog.contents]
  · exact Bool.eq_false_iff.2 fun hf => hc.not_room_of_isFull hf hr

/-- A file is replaced under another spelling of its path. -/
theorem answers_are_catalog_replaced :
    ∃ c, Catalog.Runs (fun _ => none)
      (FileSystem.empty.answers [.addFile "/a/f" [1, 2], .addFile "/a/f/" [3], .contents "./a/f"]) c :=
  (answers_are_catalog _ (FileSystem.catalogued_empty.orderly_of_fits (by decide) (by decide))).1

end ToolchainHost
