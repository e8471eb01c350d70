import Mathlib.Tactic.Common
import ToolchainHost.Memory.Basic

/-!
# The bytes of a memory

A memory as a function from addresses to bytes, zero behind its end. Growth then changes no byte, and a write
changes those it covers.

* `Bytes.splice`: a list of bytes with a run of it overwritten.
* `Memory.byte_put`, `Memory.byte_grow`: what a write and growth make of each byte.
* `Memory.span_put_self`, `Memory.span_put_within`: the bytes where something was written.
-/

namespace ToolchainHost

namespace Bytes

/-- The bytes with `data` in place of those from `position` on. -/
def splice (bytes : List UInt8) (position : Nat) (data : List UInt8) : List UInt8 :=
  bytes.take position ++ data ++ bytes.drop (position + data.length)

lemma length_splice {bytes data : List UInt8} {position : Nat} (h : position ≤ bytes.length) :
    (splice bytes position data).length = max bytes.length (position + data.length) := by
  simp only [splice, List.length_append, List.length_take, List.length_drop]
  omega

lemma getElem?_splice {bytes data : List UInt8} {position : Nat} (h : position ≤ bytes.length) (i : Nat) :
    (splice bytes position data)[i]? =
      if position ≤ i ∧ i < position + data.length then data[i - position]? else bytes[i]? := by
  have ht : (bytes.take position).length = position := by simp [h]
  rw [splice, List.append_assoc, List.getElem?_append, ht]
  split_ifs with h1 h2 h2
  · omega
  · rw [List.getElem?_take_of_lt h1]
  · rw [List.getElem?_append_left (by omega)]
  · rw [List.getElem?_append_right (by omega), List.getElem?_drop]
    congr 1
    omega

lemma getD_splice {bytes data : List UInt8} {position : Nat} (h : position ≤ bytes.length) (i : Nat) :
    (splice bytes position data).getD i 0 =
      if position ≤ i ∧ i < position + data.length then data.getD (i - position) 0 else bytes.getD i 0 := by
  rw [List.getD_eq_getElem?_getD, getElem?_splice h]
  split_ifs
  · rw [List.getD_eq_getElem?_getD]
  · rw [List.getD_eq_getElem?_getD]

@[simp] lemma splice_nil (bytes : List UInt8) (position : Nat) : splice bytes position [] = bytes := by
  simp [splice]

/-- What is overwritten to its end can as well be absent. -/
lemma splice_append_of_covered {a b data : List UInt8} {position : Nat} (h : position ≤ a.length)
    (hc : b ≠ [] → (a ++ b).length ≤ position + data.length) :
    splice (a ++ b) position data = splice a position data := by
  by_cases hb : b = []
  · rw [hb, List.append_nil]
  · have hl := hc hb
    rw [splice, splice, List.take_append_of_le_length h, List.drop_eq_nil_of_le hl,
      List.drop_eq_nil_of_le (by rw [List.length_append] at hl; omega)]

/-- Overwriting twice, the second time right behind the first, overwrites once with both data. -/
lemma splice_splice {bytes a b : List UInt8} {position : Nat} (h : position ≤ bytes.length) :
    splice (splice bytes position a) (position + a.length) b = splice bytes position (a ++ b) := by
  have hl := @length_splice bytes a position h
  refine List.ext_getElem? fun i => ?_
  rw [getElem?_splice (by omega), getElem?_splice h, getElem?_splice h, List.length_append,
    List.getElem?_append]
  split_ifs <;> first | rfl | omega | (congr 1; omega)

end Bytes

namespace Memory

/-! ### Pages -/

namespace Page

variable {pages : Array Page} {i j : Nat}

lemma pageSize_pos : 0 < pageSize := by decide

lemma byte_of_some {p : Page} (h : pages[i / pageSize]? = some p) : byte pages i = p.toArray.getD (i % pageSize) 0 := by
  rw [byte, h]

lemma byte_of_none (h : pages[i / pageSize]? = none) : byte pages i = 0 := by
  rw [byte, h]

lemma getElem?_setByte (pages : Array Page) (i : Nat) (b : UInt8) (k : Nat) :
    (setByte pages i b)[k]? =
      if i / pageSize = k then pages[k]?.map (·.setIfInBounds (i % pageSize) b) else pages[k]? :=
  Array.getElem?_modify

lemma byte_setByte_of_ne (b : UInt8) (h : j ≠ i) : byte (setByte pages i b) j = byte pages j := by
  have hget := getElem?_setByte pages i b (j / pageSize)
  by_cases hp : i / pageSize = j / pageSize
  · have hm : i % pageSize ≠ j % pageSize := by
      intro hm
      rw [← Nat.div_add_mod i pageSize, ← Nat.div_add_mod j pageSize, hp, hm] at h
      exact h rfl
    rw [if_pos hp] at hget
    cases hq : pages[j / pageSize]? with
    | none =>
      rw [hq] at hget
      rw [byte_of_none hget, byte_of_none hq]
    | some p =>
      rw [hq] at hget
      rw [byte_of_some hget, byte_of_some hq, Vector.toArray_setIfInBounds, Array.getD_eq_getD_getElem?,
        Array.getElem?_setIfInBounds_ne hm, Array.getD_eq_getD_getElem?]
  · rw [if_neg hp] at hget
    rw [byte, byte, hget]

lemma byte_setByte_self (b : UInt8) (h : i < pageSize * pages.size) : byte (setByte pages i b) i = b := by
  have hk : i / pageSize < pages.size := Nat.div_lt_of_lt_mul h
  have hlt : i % pageSize < pageSize := Nat.mod_lt _ pageSize_pos
  have hget := getElem?_setByte pages i b (i / pageSize)
  rw [if_pos rfl, Array.getElem?_eq_getElem hk] at hget
  rw [byte_of_some hget]
  simp [Array.getD_eq_getD_getElem?, hlt]

/-- Setting a byte to what it is changes nothing. -/
lemma setByte_byte (pages : Array Page) (i : Nat) : setByte pages i (byte pages i) = pages := by
  refine Array.ext_getElem? fun k => ?_
  rw [getElem?_setByte]
  split_ifs with hk
  · subst hk
    cases hq : pages[i / pageSize]? with
    | none => rfl
    | some p =>
      rw [byte_of_some hq, Option.map_some]
      refine congrArg some (Vector.ext fun l hl => ?_)
      rw [Vector.getElem_setIfInBounds]
      split_ifs with h
      · subst h
        simp [Array.getD_eq_getD_getElem?, hl]
      · rfl
  · rfl

/-- Pages of zeros add nothing to the bytes. -/
lemma byte_append_blank (pages : Array Page) (n i : Nat) :
    byte (pages ++ Array.replicate n blank) i = byte pages i := by
  have hlt : i % pageSize < pageSize := Nat.mod_lt _ pageSize_pos
  by_cases hk : i / pageSize < pages.size
  · rw [byte, byte, Array.getElem?_append_left hk]
  · have hnone : byte pages i = 0 := byte_of_none (Array.getElem?_eq_none (Nat.not_lt.1 hk))
    rw [hnone]
    by_cases hn : i / pageSize - pages.size < n
    · have hget : (pages ++ Array.replicate n blank)[i / pageSize]? = some blank := by
        rw [Array.getElem?_append_right (Nat.not_lt.1 hk), Array.getElem?_replicate, if_pos hn]
      rw [byte_of_some hget]
      simp [blank, Array.getD_eq_getD_getElem?, hlt]
    · refine byte_of_none (Array.getElem?_eq_none ?_)
      rw [Array.size_append, Array.size_replicate]
      omega

end Page

variable {m : Memory} {address count : Nat} {data : List UInt8}

/-! ### Runs of bytes -/

@[simp] lemma length_span (m : Memory) (address count : Nat) : (m.span address count).length = count := by
  simp [span]

@[simp] lemma span_zero (m : Memory) (address : Nat) : m.span address 0 = [] := rfl

lemma getElem?_span (m : Memory) (address count i : Nat) :
    (m.span address count)[i]? = if i < count then some (m.byte (address + i)) else none := by
  simp only [span, List.getElem?_map]
  split_ifs with h <;> simp [h]

lemma span_add (m : Memory) (address n k : Nat) :
    m.span address (n + k) = m.span address n ++ m.span (address + n) k := by
  simp [span, List.range_add, Nat.add_assoc]

lemma span_congr {m' : Memory} (h : ∀ i, address ≤ i → i < address + count → m'.byte i = m.byte i) :
    m'.span address count = m.span address count :=
  List.map_congr_left fun k hk => h _ (by omega) (by simp at hk; omega)

/-! ### Reading -/

lemma read_of_inRange (h : m.InRange address count) : m.read address count = .ok (m.span address count) := if_pos h

lemma read_of_not_inRange (h : ¬ m.InRange address count) :
    m.read address count = .error (m.refusal address count) := if_neg h

lemma read_eq_ok {bytes : List UInt8} :
    m.read address count = .ok bytes ↔ m.InRange address count ∧ bytes = m.span address count := by
  by_cases h : m.InRange address count
  · simp [read_of_inRange h, h, eq_comm]
  · simp [read_of_not_inRange h, h]

/-! ### Writing -/

lemma write_of_inRange (h : m.InRange address data.length) : m.write address data = .ok (m.put address data) :=
  if_pos h

lemma write_of_not_inRange (h : ¬ m.InRange address data.length) :
    m.write address data = .error (m.refusal address data.length) := if_neg h

@[simp] lemma put_nil (m : Memory) (address : Nat) : m.put address [] = m := rfl

/-- A write right behind another one is one write of both data. -/
lemma put_put (m : Memory) (address : Nat) (a b : List UInt8) :
    (m.put address a).put (address + a.length) b = m.put address (a ++ b) := by
  induction a generalizing m address with
  | nil => rfl
  | cons x xs ih =>
    rw [List.cons_append, put, put, ← ih, List.length_cons, Nat.add_assoc, Nat.add_comm 1]

lemma byte_setByte_of_ne (m : Memory) {i j : Nat} (b : UInt8) (h : j ≠ i) : (m.setByte i b).byte j = m.byte j := by
  unfold setByte byte
  by_cases hi : i < m.bytes.size
  · simp only [if_pos hi, Array.size_setIfInBounds, Array.getD_eq_getD_getElem?, Array.getElem?_setIfInBounds_ne h.symm]
  · simp only [if_neg hi]
    split_ifs
    · rfl
    · exact Page.byte_setByte_of_ne b (by omega)

lemma byte_setByte_self {i : Nat} (b : UInt8) (h : i < m.size) : (m.setByte i b).byte i = b := by
  unfold size at h
  unfold setByte byte
  by_cases hi : i < m.bytes.size
  · simp [hi, Array.getD_eq_getD_getElem?]
  · simp only [if_neg hi]
    exact Page.byte_setByte_self b (by omega)

/-- Setting a byte to what it is changes nothing. -/
lemma setByte_byte (m : Memory) (i : Nat) : m.setByte i (m.byte i) = m := by
  unfold setByte byte
  by_cases hi : i < m.bytes.size
  · have hset : m.bytes.setIfInBounds i (m.bytes.getD i 0) = m.bytes := by
      refine Array.ext_getElem? fun k => ?_
      rw [Array.getElem?_setIfInBounds]
      split_ifs with hk
      · subst hk
        simp [hi]
      · rfl
    simp only [if_pos hi, hset]
  · simp only [if_neg hi, Page.setByte_byte]

lemma byte_put_of_outside {i : Nat} (h : i < address ∨ address + data.length ≤ i) :
    (m.put address data).byte i = m.byte i := by
  induction data generalizing m address with
  | nil => rfl
  | cons b bs ih =>
    rw [List.length_cons] at h
    rw [put, ih (by omega), byte_setByte_of_ne m b (by omega)]

lemma byte_put (h : m.InRange address data.length) (i : Nat) :
    (m.put address data).byte i =
      if address ≤ i ∧ i < address + data.length then data.getD (i - address) 0 else m.byte i := by
  unfold InRange at h
  induction data generalizing m address with
  | nil => rw [put_nil, if_neg (by rw [List.length_nil]; omega)]
  | cons b bs ih =>
    rw [List.length_cons] at h ⊢
    rcases Nat.lt_trichotomy i address with hi | rfl | hi
    · rw [if_neg (by omega), byte_put_of_outside (Or.inl hi)]
    · rw [if_pos (by omega), put, byte_put_of_outside (Or.inl (Nat.lt_succ_self i)), byte_setByte_self b (by omega),
        Nat.sub_self, List.getD_cons_zero]
    · have e : i - address = i - (address + 1) + 1 := by omega
      rw [put, ih (by rw [size_setByte]; omega), byte_setByte_of_ne m b (by omega), e, List.getD_cons_succ]
      split_ifs <;> first | rfl | omega

/-- What was written is there. -/
lemma span_put_self (h : m.InRange address data.length) : (m.put address data).span address data.length = data := by
  refine List.ext_getElem? fun i => ?_
  rw [getElem?_span]
  split_ifs with hi
  · rw [byte_put h, if_pos (by omega)]
    simp [hi]
  · simp at hi
    simp [hi]

/-- A write elsewhere changes nothing here. -/
lemma span_put_of_apart {start : Nat} (h : start + count ≤ address ∨ address + data.length ≤ start) :
    (m.put address data).span start count = m.span start count :=
  span_congr fun _ _ _ => byte_put_of_outside (by omega)

/-- A write within a run of bytes overwrites a part of it. -/
lemma span_put_within {position : Nat} (hm : m.InRange address count) (h : position + data.length ≤ count) :
    (m.put (address + position) data).span address count =
      Bytes.splice (m.span address count) position data := by
  unfold InRange at hm
  have hr : m.InRange (address + position) data.length := by unfold InRange; omega
  refine List.ext_getElem? fun i => ?_
  rw [Bytes.getElem?_splice (by simp; omega), getElem?_span, getElem?_span, byte_put hr]
  by_cases hi : position ≤ i ∧ i < position + data.length
  · have e : address + i - (address + position) = i - position := by omega
    have hd : i - position < data.length := by omega
    rw [if_pos (by omega), if_pos (by omega), if_pos hi, e]
    simp [hd]
  · rw [if_neg hi, if_neg (c := address + position ≤ address + i ∧ _) (by omega)]

/-- Writing what is there changes nothing. -/
lemma put_span (m : Memory) (address count : Nat) : m.put address (m.span address count) = m := by
  induction count generalizing address with
  | zero => rfl
  | succ count ih =>
    rw [Nat.add_comm, span_add, ← put_put, length_span]
    show ((m.setByte address (m.byte address)).put _ _) = m
    rw [setByte_byte, ih]

/-! ### Growing -/

@[simp] lemma byte_grow (m : Memory) (pages i : Nat) : (m.grow pages).byte i = m.byte i := by
  simp only [byte, grow, Page.byte_append_blank]

@[simp] lemma span_grow (m : Memory) (pages address count : Nat) :
    (m.grow pages).span address count = m.span address count := span_congr fun _ _ _ => byte_grow ..

lemma byte_ofPages (pages i : Nat) : (ofPages pages).byte i = 0 := by
  unfold byte ofPages
  split_ifs
  · simp
  · exact Page.byte_of_none Array.getElem?_empty

end Memory

end ToolchainHost
