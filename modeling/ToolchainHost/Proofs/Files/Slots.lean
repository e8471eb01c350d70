import Mathlib.Tactic.Common
import ToolchainHost.Files.Slots

/-!
# Slots as a partial map

What each operation does to the entries, under the invariant `WellFormed`: the free slots are listed once each
and hold nothing. Tables of the same shape (`SameShape`) give new entries the same slots, whatever their entries are.
-/

namespace ToolchainHost.Slots

variable {α : Type} {s : Slots α}

/-- The free slots are listed once each, and each is an empty slot of the table. -/
def WellFormed (s : Slots α) : Prop := s.vacant.Nodup ∧ ∀ v ∈ s.vacant, s.entries[v]? = some none

lemma wellFormed_empty : WellFormed ({} : Slots α) := ⟨List.nodup_nil, by simp⟩

/-- A new entry takes a slot that is not in use. -/
lemma WellFormed.get?_nextSlot (h : s.WellFormed) : s.get? s.nextSlot = none := by
  obtain ⟨entries, vacant⟩ := s
  cases vacant with
  | nil => simp [get?, nextSlot]
  | cons v vs => simp [get?, nextSlot, h.2 v (by simp)]

lemma WellFormed.get?_insert (h : s.WellFormed) (a : α) (i : Nat) :
    (s.insert a).get? i = if i = s.nextSlot then some a else s.get? i := by
  obtain ⟨entries, vacant⟩ := s
  cases vacant with
  | nil =>
    change ((entries ++ [some a])[i]?).join = if i = entries.length then some a else (entries[i]?).join
    rcases Nat.lt_trichotomy i entries.length with hi | rfl | hi
    · rw [List.getElem?_append_left hi, if_neg (by omega)]
    · simp
    · have hn : (entries ++ [some a])[i]? = none := List.getElem?_eq_none (by simp; omega)
      rw [hn, if_neg (by omega), List.getElem?_eq_none (by omega)]
  | cons v vs =>
    change ((entries.set v (some a))[i]?).join = if i = v then some a else (entries[i]?).join
    have hv : v < entries.length := (List.getElem?_eq_some_iff.1 (h.2 v (by simp))).1
    by_cases hi : i = v
    · subst hi
      simp [hv]
    · rw [if_neg hi, List.getElem?_set_ne fun e => hi e.symm]

/-- An entry that is added is seen. -/
lemma WellFormed.insert_ne_self (h : s.WellFormed) (a : α) : s.insert a ≠ s := by
  intro hsame
  have hget := h.get?_insert a s.nextSlot
  rw [hsame, if_pos rfl, h.get?_nextSlot] at hget
  cases hget

lemma WellFormed.insert (h : s.WellFormed) (a : α) : (s.insert a).WellFormed := by
  obtain ⟨entries, vacant⟩ := s
  cases vacant with
  | nil => exact ⟨List.nodup_nil, by simp [Slots.insert]⟩
  | cons v vs =>
    have hn := List.nodup_cons.1 h.1
    refine ⟨hn.2, fun w hw => ?_⟩
    have hne : v ≠ w := fun e => hn.1 (e ▸ hw)
    simpa [Slots.insert, List.getElem?_set_ne hne] using h.2 w (List.mem_cons_of_mem _ hw)

lemma get?_modify (s : Slots α) (slot : Nat) (f : α → α) (i : Nat) :
    (s.modify slot f).get? i = if i = slot then (s.get? i).map f else s.get? i := by
  simp only [modify, get?, List.getElem?_modify, eq_comm (a := i)]
  split_ifs
  · cases s.entries[i]? <;> rfl
  · simp

/-- A change of an entry that is there is none iff the entry stays the same. -/
lemma modify_eq_self_iff {slot : Nat} {a : α} (ha : s.get? slot = some a) (f : α → α) :
    s.modify slot f = s ↔ f a = a := by
  constructor
  · intro h
    have hget := s.get?_modify slot f slot
    rw [h, if_pos rfl, ha, Option.map_some] at hget
    exact (Option.some.inj hget).symm
  · intro h
    have hentry : s.entries[slot]? = some (some a) := Option.join_eq_some_iff.1 ha
    have hentries : s.entries.modify slot (Option.map f) = s.entries := by
      refine List.ext_getElem? fun i => ?_
      rw [List.getElem?_modify]
      split_ifs with hi
      · simp [← hi, hentry, h]
      · simp
    rw [modify, hentries]

lemma WellFormed.modify (h : s.WellFormed) (slot : Nat) (f : α → α) : (s.modify slot f).WellFormed := by
  refine ⟨h.1, fun v hv => ?_⟩
  simp only [Slots.modify, List.getElem?_modify]
  split_ifs <;> simp [h.2 v hv]

lemma get?_erase {slot : Nat} (i : Nat) :
    (s.erase slot).get? i = if i = slot then none else s.get? i := by
  simp only [erase, get?, List.getElem?_set, eq_comm (a := i)]
  split_ifs <;> rfl

lemma WellFormed.erase (h : s.WellFormed) {slot : Nat} (hs : (s.get? slot).isSome) : (s.erase slot).WellFormed := by
  have hlt : slot < s.entries.length := by
    by_contra hge
    simp [get?, List.getElem?_eq_none (l := s.entries) (i := slot) (by omega)] at hs
  have hfree : slot ∉ s.vacant := fun hm => by simp [get?, h.2 slot hm] at hs
  refine ⟨List.nodup_cons.2 ⟨hfree, h.1⟩, fun v hv => ?_⟩
  simp only [Slots.erase, List.getElem?_set]
  rcases List.mem_cons.1 hv with rfl | hv
  · rw [if_pos rfl, if_pos hlt]
  · rw [if_neg fun e : slot = v => hfree (e ▸ hv), h.2 v hv]

/-! ### Shapes -/

/-- Two tables have as many slots and the same free ones. -/
structure SameShape (s t : Slots α) : Prop where
  vacant : t.vacant = s.vacant
  length : t.entries.length = s.entries.length

variable {t : Slots α}

lemma SameShape.nextSlot (h : s.SameShape t) : t.nextSlot = s.nextSlot := by
  rw [Slots.nextSlot, h.vacant, h.length, Slots.nextSlot]

lemma SameShape.insert (h : s.SameShape t) (a b : α) : (s.insert a).SameShape (t.insert b) := by
  obtain ⟨hv, hl⟩ := h
  unfold Slots.insert
  rw [hv]
  cases s.vacant with
  | nil => exact ⟨rfl, by simp [hl]⟩
  | cons v vs => exact ⟨rfl, by simp [hl]⟩

lemma SameShape.modify (h : s.SameShape t) (slot : Nat) (f g : α → α) :
    (s.modify slot f).SameShape (t.modify slot g) :=
  ⟨h.vacant, by simp [Slots.modify, h.length]⟩

lemma SameShape.erase (h : s.SameShape t) (slot : Nat) : (s.erase slot).SameShape (t.erase slot) :=
  ⟨by simp [Slots.erase, h.vacant], by simp [Slots.erase, h.length]⟩

end ToolchainHost.Slots
