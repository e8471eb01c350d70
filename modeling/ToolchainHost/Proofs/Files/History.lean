import Mathlib.Data.List.GetD
import ToolchainHost.Proofs.Files.Registry

/-!
# What was stored in files

* `FileEvent`: contents are discarded, bytes are stored. A log has the latest event first.
* `lastStored`: the byte stored last at an offset of a file since its contents were discarded.
* `Catalog.Faithful`: files hold what was stored in them, and zeros elsewhere.
* `Catalog.Evolves.faithful_iff`: a change keeps files faithful where all it uncovers are zeros.
-/

namespace ToolchainHost

/-- What happens to the bytes of a file. -/
inductive FileEvent where
  | discarded (path : String)
  | stored (path : String) (offset : Nat) (data : List UInt8)
  deriving DecidableEq, Repr

/-- The byte stored last at an offset of a file since its contents were discarded, or zero. -/
def lastStored (path : String) (offset : Nat) : List FileEvent → UInt8
  | [] => 0
  | .discarded p :: log => if p = path then 0 else lastStored path offset log
  | .stored p start data :: log =>
    if p = path ∧ start ≤ offset ∧ offset < start + data.length then data.getD (offset - start) 0
    else lastStored path offset log

namespace Catalog

variable {c c' : Catalog} {path : String} {log events : List FileEvent} {gap : List UInt8}

/-- Every byte of a file is the one stored there last, or zero where nothing was stored. -/
def Faithful (c : Catalog) (log : List FileEvent) : Prop :=
  ∀ path bytes, c path = some (.file bytes) → ∀ k < bytes.length, bytes.getD k 0 = lastStored path k log

/-- Nothing was stored behind the end of a file. -/
def Covers (c : Catalog) (log : List FileEvent) : Prop :=
  ∀ path bytes, c path = some (.file bytes) → ∀ k, bytes.length ≤ k → lastStored path k log = 0

/-- What a call does to the files, and which bytes it uncovers. -/
inductive Evolves (c : Catalog) : (gap : List UInt8) → List FileEvent → Catalog → Prop
  | same {c' : Catalog} (h : ∀ path bytes, c' path = some (.file bytes) → c path = some (.file bytes)) :
      Evolves c [] [] c'
  | discarded (path : String) (bytes : List UInt8) :
      Evolves c bytes [.discarded path] (Function.update c path (some (.file bytes)))
  | stored {path : String} {bytes gap : List UInt8} {position : Nat} (data : List UInt8)
      (hf : c path = some (.file bytes)) (hg : gap.length = position - bytes.length) :
      Evolves c gap [.stored path position data]
        (Function.update c path (some (.file (Bytes.splice (bytes ++ gap) position data))))
  | added (path : String) (data : List UInt8) :
      Evolves c [] [.stored path 0 data, .discarded path] (Function.update c path (some (.file data)))

/-- A file of a catalog with one entry changed. -/
lemma file_update {e : Entry} {q : String} {bytes : List UInt8}
    (h : Function.update c path (some e) q = some (.file bytes)) :
    q = path ∧ e = .file bytes ∨ q ≠ path ∧ c q = some (.file bytes) := by
  by_cases hq : q = path
  · subst hq
    rw [Function.update_self] at h
    exact Or.inl ⟨rfl, Option.some.inj h⟩
  · rw [Function.update_of_ne hq] at h
    exact Or.inr ⟨hq, h⟩

lemma lastStored_discarded_of_ne {q : String} (h : q ≠ path) (k : Nat) :
    lastStored q k (.discarded path :: log) = lastStored q k log := if_neg (Ne.symm h)

lemma lastStored_discarded_self (path : String) (k : Nat) (log : List FileEvent) :
    lastStored path k (.discarded path :: log) = 0 := if_pos rfl

lemma lastStored_stored_of_ne {q : String} (h : q ≠ path) (k position : Nat) (data : List UInt8) :
    lastStored q k (.stored path position data :: log) = lastStored q k log := if_neg fun hp => h hp.1.symm

lemma lastStored_stored_of_outside {k position : Nat} {data : List UInt8}
    (h : k < position ∨ position + data.length ≤ k) (path : String) :
    lastStored path k (.stored path position data :: log) = lastStored path k log := if_neg (by omega)

lemma lastStored_stored_within {k position : Nat} {data : List UInt8} (h1 : position ≤ k)
    (h2 : k < position + data.length) (path : String) (log : List FileEvent) :
    lastStored path k (.stored path position data :: log) = data.getD (k - position) 0 := if_pos ⟨rfl, h1, h2⟩

lemma getD_append_of_zero (hg : ∀ b ∈ gap, b = 0) (bytes : List UInt8) (k : Nat) :
    (bytes ++ gap).getD k 0 = bytes.getD k 0 := by
  by_cases hk : k < bytes.length
  · rw [List.getD_append _ _ _ _ hk]
  · rw [List.getD_append_right _ _ _ _ (Nat.not_lt.1 hk), List.getD_eq_default _ _ (Nat.not_lt.1 hk),
      List.getD_eq_getElem?_getD]
    cases hb : gap[k - bytes.length]? with
    | none => rfl
    | some b => exact hg b (List.mem_of_getElem? hb)

namespace Evolves

/-- Behind the ends of the files nothing is stored. -/
theorem covers (h : c.Evolves gap events c') (hc : c.Covers log) : c'.Covers (events ++ log) := by
  intro q bytes hq k hk
  cases h with
  | same h => exact hc q bytes (h q bytes hq) k hk
  | discarded path b =>
    rcases file_update hq with ⟨rfl, -⟩ | ⟨hne, hq⟩
    · exact lastStored_discarded_self ..
    · exact (lastStored_discarded_of_ne hne k).trans (hc q bytes hq k hk)
  | @stored path b gap position data hf hg =>
    rcases file_update hq with ⟨rfl, he⟩ | ⟨hne, hq⟩
    · obtain rfl := Entry.file.inj he
      rw [Bytes.length_splice (by rw [List.length_append]; omega), List.length_append] at hk
      exact (lastStored_stored_of_outside (by omega) _).trans (hc _ _ hf k (by omega))
    · exact (lastStored_stored_of_ne hne ..).trans (hc q bytes hq k hk)
  | added path data =>
    rcases file_update hq with ⟨rfl, he⟩ | ⟨hne, hq⟩
    · obtain rfl := Entry.file.inj he
      exact (lastStored_stored_of_outside (by omega) _).trans (lastStored_discarded_self ..)
    · exact (lastStored_stored_of_ne hne ..).trans ((lastStored_discarded_of_ne hne k).trans (hc q bytes hq k hk))

/-- Files stay faithful where only zeros are uncovered. -/
theorem faithful (h : c.Evolves gap events c') (hc : c.Covers log) (hf : c.Faithful log) (hg : ∀ b ∈ gap, b = 0) :
    c'.Faithful (events ++ log) := by
  intro q bytes hq k hk
  cases h with
  | same h => exact hf q bytes (h q bytes hq) k hk
  | discarded path b =>
    rcases file_update hq with ⟨rfl, he⟩ | ⟨hne, hq⟩
    · obtain rfl := Entry.file.inj he
      have hz := getD_append_of_zero hg [] k
      exact hz.trans (lastStored_discarded_self ..).symm
    · exact (hf q bytes hq k hk).trans (lastStored_discarded_of_ne hne k).symm
  | @stored path b gap position data hb hlen =>
    rcases file_update hq with ⟨rfl, he⟩ | ⟨hne, hq⟩
    · obtain rfl := Entry.file.inj he
      rw [Bytes.getD_splice (by rw [List.length_append]; omega), getD_append_of_zero hg]
      split_ifs with hin
      · exact (lastStored_stored_within hin.1 hin.2 ..).symm
      · refine Eq.trans ?_ (lastStored_stored_of_outside (by omega) _).symm
        by_cases hkb : k < b.length
        · exact hf _ _ hb k hkb
        · exact (List.getD_eq_default _ _ (by omega)).trans (hc _ _ hb k (by omega)).symm
    · exact (hf q bytes hq k hk).trans (lastStored_stored_of_ne hne ..).symm
  | added path data =>
    rcases file_update hq with ⟨rfl, he⟩ | ⟨hne, hq⟩
    · obtain rfl := Entry.file.inj he
      exact (lastStored_stored_within (Nat.zero_le k) (by omega) ..).symm
    · exact (hf q bytes hq k hk).trans
        ((lastStored_stored_of_ne hne ..).trans (lastStored_discarded_of_ne hne k)).symm

/-- Files that are faithful behind a change have had zeros uncovered only. -/
theorem zero_of_faithful (h : c.Evolves gap events c') (hc : c.Covers log) (hf : c'.Faithful (events ++ log)) :
    ∀ b ∈ gap, b = 0 := by
  intro b hb
  obtain ⟨j, hj⟩ := List.getElem?_of_mem hb
  have hlt := (List.getElem?_eq_some_iff.1 hj).1
  have hd : gap.getD j 0 = b := by rw [List.getD_eq_getElem?_getD, hj, Option.getD_some]
  cases h with
  | same | added => cases hb
  | discarded path =>
    have hz := hf path gap (Function.update_self ..) j hlt
    rw [hd] at hz
    exact hz.trans (lastStored_discarded_self ..)
  | @stored path bytes gap position data hbytes hlen =>
    have hlong : position ≤ (bytes ++ gap).length := by
      rw [List.length_append]
      omega
    have hz := hf path _ (Function.update_self ..) (bytes.length + j) (by
      rw [Bytes.length_splice hlong, List.length_append]
      omega)
    rw [Bytes.getD_splice hlong, if_neg (by omega), List.getD_append_right _ _ _ _ (by omega),
      Nat.add_sub_cancel_left, hd] at hz
    rw [hz]
    exact (lastStored_stored_of_outside (by omega) _).trans (hc _ _ hbytes _ (by omega))

end Evolves

end Catalog

end ToolchainHost
