import ToolchainHost.Proofs.Files.Catalog
import ToolchainHost.Proofs.Host.FileCalls

/-!
# Calls on files

Guests and the host use one file system, in any order.

* `FileCall`: what they can do, and `FileCall.run`, how the host does it.
* `Host.afterCalls`: the host after calls, also where they fail.
-/

namespace ToolchainHost

open Interface (Errno)

/-- What guests and the host do with files. Between its calls a guest changes its memory. -/
inductive FileCall where
  | compute (memory : Memory)
  | pathOpen (path length flags out : Nat)
  | write (descriptor : Int) (list count out : Nat)
  | read (descriptor : Int) (list count out : Nat)
  | close (descriptor : Int)
  | addFile (path : String) (contents : List UInt8)
  | addDirectory (path : String)
  | contents (path : String)

/-- What a call gives. -/
inductive FileResult where
  | done
  | errno (e : Errno)
  | added (result : Except Failure Unit)
  | contents (result : Except Failure (List UInt8))

/-- How the host does what is asked. Its own calls hand over how they ended. -/
def FileCall.run : FileCall → Op Host FileResult
  | compute memory => do
    modify (·.bind memory)
    return .done
  | pathOpen path length flags out => FileResult.errno <$> Host.pathOpen path length flags out
  | write descriptor list count out => FileResult.errno <$> Host.fileWrite descriptor list count out
  | read descriptor list count out => FileResult.errno <$> Host.fileRead descriptor list count out
  | close descriptor => FileResult.errno <$> Host.fileClose descriptor
  | addFile path data => FileResult.added <$> Host.onFiles (Op.attempt (FileSystem.addFile path data))
  | addDirectory path => FileResult.added <$> Host.onFiles (Op.attempt (FileSystem.addDirectory path))
  | contents path => FileResult.contents <$> Host.onFiles (Op.attempt (FileSystem.contents path))

namespace Host

/-- The host with another file system. -/
def withFiles (h : Host) (files : FileSystem) : Host := { h with files }

@[simp] lemma withFiles_guest (h : Host) (fs : FileSystem) : (h.withFiles fs).guest = h.guest := rfl

variable {h h' : Host} {α : Type} {x : Op FileSystem α} {a : α} {r : FileResult} {e : Errno}

lemma onFiles_of_ok {fs : FileSystem} (hx : x h.files = .ok a fs) : onFiles x h = .ok a (h.withFiles fs) :=
  Op.onPart_of_ok hx

lemma run_of_ok {x : Op Host Errno} (hx : x h = .ok e h') : (FileResult.errno <$> x) h = .ok (.errno e) h' := by
  rw [Op.map_apply, hx]

/-- The call of a guest has given its answer. -/
lemma run_eq_ok {x : Op Host Errno} (hx : (FileResult.errno <$> x) h = .ok r h') :
    ∃ e, r = .errno e ∧ x h = .ok e h' := by
  rw [Op.map_apply] at hx
  cases hr : x h with
  | ok e t =>
    rw [hr] at hx
    cases hx
    exact ⟨e, rfl, rfl⟩
  | error e t =>
    rw [hr] at hx
    cases hx

lemma after_pathOpen {path length flags out : Nat} (hx : pathOpen path length flags out h = .ok e h') :
    Op.after (FileCall.pathOpen path length flags out).run h = h' := Op.after_of_ok (run_of_ok hx)

lemma after_fileWrite {d : Int} {list count out : Nat} (hx : fileWrite d list count out h = .ok e h') :
    Op.after (FileCall.write d list count out).run h = h' := Op.after_of_ok (run_of_ok hx)

/-- The host after calls, also where they fail. -/
def afterCalls (h : Host) : List FileCall → Host
  | [] => h
  | c :: rest => (Op.after c.run h).afterCalls rest

lemma afterCalls_append (h : Host) (before after : List FileCall) :
    h.afterCalls (before ++ after) = (h.afterCalls before).afterCalls after := by
  induction before generalizing h with
  | nil => rfl
  | cons c before ih => exact ih _

end Host

end ToolchainHost
