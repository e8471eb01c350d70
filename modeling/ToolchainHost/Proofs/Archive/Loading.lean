import Mathlib.Algebra.GroupWithZero.Nat
import ToolchainHost.Archive.Loader
import ToolchainHost.Proofs.Files.Repetition

/-!
# How a load goes

A load passes entries one by one until it can go no further.

* `Arrives`: a load passes the entries of a list and comes to a place.
* `Stops`: it goes no further there, because the archive ends, a header is bad or an entry is refused.
* `attempt_load`: what it answers then, and what it leaves behind.
-/

namespace ToolchainHost.Archive

/-! ### Counting entries -/

instance : Add Summary := ⟨fun s t => ⟨s.files + t.files, s.directories + t.directories, s.bytes + t.bytes⟩⟩

lemma Summary.plus_def (s t : Summary) :
    s + t = ⟨s.files + t.files, s.directories + t.directories, s.bytes + t.bytes⟩ := rfl

/-- The path under which an entry is added. -/
def Entry.path : Entry → String
  | file path _ => path
  | directory path => path

/-- The kind of node that an entry becomes. -/
def Entry.kind : Entry → NodeKind
  | file .. => .file
  | directory _ => .directory

/-- The contents of an entry; a directory has none. -/
def Entry.contents : Entry → List UInt8
  | file _ contents => contents
  | directory _ => []

/-- The counts of some entries. -/
def Summary.of (entries : List Entry) : Summary :=
  ⟨entries.countP (·.kind = .file), entries.countP (·.kind = .directory),
    (entries.map (·.contents.length)).sum⟩

lemma Summary.of_append (es es' : List Entry) : Summary.of (es ++ es') = Summary.of es + Summary.of es' := by
  simp only [of, plus_def, List.countP_append, List.map_append, List.sum_append]

lemma Summary.plus_assoc (s t u : Summary) : s + t + u = s + (t + u) := by
  simp only [plus_def, Nat.add_assoc]

lemma Summary.add_eq (s : Summary) (e : Entry) : s.add e = s + Summary.of [e] := by
  cases e <;> simp [add, of, plus_def, Entry.kind, Entry.contents]

lemma Summary.zero_plus (s : Summary) : ({} : Summary) + s = s := by
  simp only [plus_def, Nat.zero_add]

lemma Summary.plus_of_nil (s : Summary) : s + Summary.of [] = s := rfl

/-! ### Adding entries -/

section Add

variable {e : Entry} {f : Failure} {fs fs' : FileSystem}

lemma Entry.sound_add (hs : fs.store.Sound) (h : e.add fs = .ok ⟨⟩ fs') : fs'.store.Sound := by
  cases e with
  | file path contents =>
    obtain ⟨r, fs'', hx, hadd⟩ := FileSystem.addFile_cases hs path contents
    obtain ⟨rfl, rfl⟩ := EStateM.Result.ok.inj (hx.symm.trans (Op.attempt_of_ok h))
    cases hadd with
    | added _ _ _ _ hg => exact hg.sound
  | directory path =>
    obtain ⟨r, fs'', hx, hadd⟩ := FileSystem.addDirectory_cases hs path
    obtain ⟨rfl, rfl⟩ := EStateM.Result.ok.inj (hx.symm.trans (Op.attempt_of_ok h))
    cases hadd with
    | kept => exact hs
    | added _ _ _ hg => exact hg.sound

/-- An entry that was refused is refused again. -/
lemma Entry.add_again (hs : fs.store.Sound) (h : e.add fs = .error f fs') : e.add fs' = .error f fs' := by
  cases e with
  | file path contents => exact FileSystem.addFile_again hs h
  | directory path => exact FileSystem.addDirectory_again hs h

end Add

/-! ### Where an archive ends -/

section Ends

variable {data : List UInt8} {offset : Nat}

lemma blockAt?_of_lt (h : data.length < offset + blockSize) : blockAt? data offset = none := if_neg (Nat.not_le.2 h)

/-- A block that is not complete ends the archive. -/
lemma entryAt_of_lt (h : data.length < offset + blockSize) : entryAt data offset = .ok none := by
  rw [entryAt, Header.at?, blockAt?_of_lt h]

end Ends

/-! ### Passing entries -/

variable {data : List UInt8} {l l' l'' : Loading} {e : Entry} {es : List Entry} {f : Failure} {next : Nat}
  {fs : FileSystem} {r : Except Failure Unit}

/-- A load passes the entries of a list and comes to a place. -/
inductive Arrives (data : List UInt8) : Loading → List Entry → Loading → Prop
  | here (l : Loading) : Arrives data l [] l
  | past {l l' : Loading} {e : Entry} {next : Nat} {fs : FileSystem} {es : List Entry}
      (he : entryAt data l.offset = .ok (some (e, next))) (ha : e.add l.files = .ok ⟨⟩ fs)
      (hr : Arrives data ⟨next, fs⟩ es l') : Arrives data l (e :: es) l'

/-- A load goes no further. -/
inductive Stops (data : List UInt8) (l : Loading) : Except Failure Unit → Loading → Prop
  | ended (h : entryAt data l.offset = .ok none) : Stops data l (.ok ()) l
  | bad {f : Failure} (h : entryAt data l.offset = .error f) : Stops data l (.error f) l
  | refused {e : Entry} {next : Nat} {f : Failure} {fs : FileSystem}
      (he : entryAt data l.offset = .ok (some (e, next))) (ha : e.add l.files = .error f fs) :
      Stops data l (.error f) { l with files := fs }

lemma Arrives.trans {es' : List Entry} (h : Arrives data l es l') (h' : Arrives data l' es' l'') :
    Arrives data l (es ++ es') l'' := by
  induction h with
  | here => exact h'
  | past he ha hr ih => exact .past he ha (ih h')

lemma Arrives.offset_le (h : Arrives data l es l') : l.offset ≤ l'.offset := by
  induction h with
  | here => exact Nat.le_refl _
  | past he ha hr ih => exact Nat.le_trans (Nat.le_of_add_right_le (le_of_entryAt he).1) ih

lemma Arrives.sound (h : Arrives data l es l') (hs : l.files.store.Sound) : l'.files.store.Sound := by
  induction h with
  | here => exact hs
  | past he ha hr ih => exact ih (Entry.sound_add hs ha)

/-- Every load comes to a place where it goes no further. -/
theorem exists_stops (data : List UInt8) (l : Loading) :
    ∃ es l' r l'', Arrives data l es l' ∧ Stops data l' r l'' := by
  -- by induction on what is left of the archive
  induction hn : data.length - l.offset using Nat.strong_induction_on generalizing l with
  | h n ih =>
    cases he : entryAt data l.offset with
    | error f => exact ⟨[], l, _, l, .here l, .bad he⟩
    | ok found =>
      cases found with
      | none => exact ⟨[], l, _, l, .here l, .ended he⟩
      | some found =>
        obtain ⟨e, next⟩ := found
        obtain ⟨hnext, hlen⟩ := le_of_entryAt he
        cases ha : e.add l.files with
        | error f fs => exact ⟨[], l, _, _, .here l, .refused he ha⟩
        | ok u fs =>
          unfold blockSize at hnext hlen
          obtain ⟨es, l', r, l'', harrives, hstops⟩ := ih (data.length - next) (by omega) ⟨next, fs⟩ rfl
          exact ⟨e :: es, l', r, l'', .past he ha harrives, hstops⟩

/-! ### What a load answers -/

section LoadFrom

variable {offset : Nat} {s : Summary}

lemma loadFrom_ended (h : entryAt data offset = .ok none) : loadFrom data offset s = pure s := by
  rw [loadFrom]
  split <;> simp_all

lemma loadFrom_bad (h : entryAt data offset = .error f) : loadFrom data offset s = throw f := by
  rw [loadFrom]
  split <;> simp_all

lemma loadFrom_past (h : entryAt data offset = .ok (some (e, next))) :
    loadFrom data offset s = (do
      Op.onPart Loading.files (fun files l => { l with files }) e.add
      modify fun l => { l with offset := next }
      loadFrom data next (s.add e) : Op Loading Summary) := by
  rw [loadFrom]
  split <;> simp_all

end LoadFrom

/-- The counts go on from where they are. -/
lemma attempt_loadFrom (h : Arrives data l es l') (hstop : Stops data l' r l'') (s : Summary) :
    Op.attempt (loadFrom data l.offset s) l = .ok (r.map fun _ => s + Summary.of es) l'' := by
  induction h generalizing s with
  | here l =>
    cases hstop with
    | ended he => exact Op.attempt_of_ok (by rw [loadFrom_ended he, Op.pure_apply, Summary.plus_of_nil])
    | bad he => exact Op.attempt_of_error (by rw [loadFrom_bad he, Op.throw_apply])
    | refused he ha =>
      refine Op.attempt_of_error ?_
      rw [loadFrom_past he, Op.bind_of_error (Op.onPart_of_error ha)]
  | @past l l' e next fs es he ha hr ih =>
    have hrun : loadFrom data l.offset s l = loadFrom data next (s.add e) ⟨next, fs⟩ := by
      rw [loadFrom_past he, Op.bind_of_ok (Op.onPart_of_ok ha), Op.modify_bind_apply]
    rw [Op.attempt, hrun]
    exact (ih hstop (s.add e)).trans (by
      rw [Summary.add_eq, Summary.plus_assoc, ← Summary.of_append, List.singleton_append])

/-- **What a load answers** where it goes no further, and what it leaves behind. -/
theorem attempt_load (h : Arrives data l es l') (hstop : Stops data l' r l'') :
    Op.attempt (load data) l = .ok (r.map fun _ => Summary.of es) l'' := by
  have hrun : load data l = loadFrom data l.offset {} l := rfl
  rw [Op.attempt, hrun]
  exact (attempt_loadFrom h hstop {}).trans (by rw [Summary.zero_plus])

end ToolchainHost.Archive
