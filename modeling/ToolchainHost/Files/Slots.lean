/-!
# Slots

A table of numbered entries. A new entry takes the slot that was freed last, or else a new one at the end.
-/

namespace ToolchainHost

/-- A table of numbered entries. -/
structure Slots (α : Type) where
  entries : List (Option α) := []
  /-- The free slots, the one freed last first. -/
  vacant : List Nat := []
  deriving DecidableEq, Inhabited

namespace Slots

variable {α : Type}

/-- The entry in a slot. -/
def get? (s : Slots α) (slot : Nat) : Option α := (s.entries[slot]?).join

/-- The slot that a new entry will take. -/
def nextSlot (s : Slots α) : Nat := s.vacant.headD s.entries.length

/-- Adds an entry. -/
def insert (s : Slots α) (a : α) : Slots α :=
  match s.vacant with
  | slot :: vacant => ⟨s.entries.set slot (some a), vacant⟩
  | [] => ⟨s.entries ++ [some a], []⟩

/-- Changes the entry in a slot, if there is one. -/
def modify (s : Slots α) (slot : Nat) (f : α → α) : Slots α :=
  { s with entries := s.entries.modify slot (Option.map f) }

/-- Frees a slot that is in use. -/
def erase (s : Slots α) (slot : Nat) : Slots α := ⟨s.entries.set slot none, slot :: s.vacant⟩

/-- The number of entries. -/
def count (s : Slots α) : Nat := (s.entries.filter Option.isSome).length

end Slots

end ToolchainHost
