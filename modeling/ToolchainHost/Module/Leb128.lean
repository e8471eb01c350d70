import ToolchainHost.Failure

/-!
# LEB128 words

A word is written in groups of seven bits, the low group first, each in a byte whose high bit says whether
another follows. At most five bytes are read, and the fifth has room for four bits only.

A reader takes the bytes that are left and gives what it read with the bytes behind it.
-/

namespace ToolchainHost.Module

/-- What a reader gives: a value and the bytes behind it. -/
abbrev Read (α : Type) := Except Failure (α × List UInt8)

/-- The refusal of bytes that are no module. -/
def invalid {α : Type} (reason : String) : Except Failure α := .error (.invalidModule reason)

/-- Reads one byte. -/
def readByte : List UInt8 → Read UInt8
  | [] => invalid "unexpected end of module"
  | b :: rest => .ok (b, rest)

/-- Reads the groups of a word of which `left` more bytes may be read. -/
def readGroups : (left : Nat) → List UInt8 → Read Nat
  | 0, _ => invalid "invalid LEB128"
  | _ + 1, [] => invalid "unexpected end of module"
  | left + 1, b :: rest =>
    let bits := b.toNat % 128
    if left = 0 ∧ 15 < bits then invalid "LEB128 value exceeds 32 bits"
    else if b < 128 then .ok (bits, rest)
    else
      match readGroups left rest with
      | .ok (high, rest) => .ok (bits + 128 * high, rest)
      | .error e => .error e

/-- Reads a word. -/
def readWord (bytes : List UInt8) : Read Nat := readGroups 5 bytes

/-- Whether there are at least `count` bytes. No more of them are looked at. -/
def reaches : (count : Nat) → List UInt8 → Bool
  | 0, _ => true
  | _ + 1, [] => false
  | count + 1, _ :: rest => reaches count rest

theorem reaches_iff {count : Nat} {bytes : List UInt8} : reaches count bytes = true ↔ count ≤ bytes.length := by
  induction count generalizing bytes with
  | zero => simp [reaches]
  | succ count ih =>
    cases bytes with
    | nil => simp [reaches]
    | cons b rest => rw [reaches, ih, List.length_cons, Nat.add_le_add_iff_right]

/-- Reads `count` bytes of what is called `what`. -/
def readBytes (what : String) (count : Nat) (bytes : List UInt8) : Read (List UInt8) :=
  if reaches count bytes then .ok (bytes.take count, bytes.drop count)
  else invalid s!"{what} extends past end of module"

/-- Reads a length and as many bytes of what is called `what`. -/
def readSized (what : String) (bytes : List UInt8) : Read (List UInt8) :=
  match readWord bytes with
  | .ok (count, rest) => readBytes what count rest
  | .error e => .error e

/-- The shortest bytes of a number, in at most `left` groups. -/
def wordGroups : (left : Nat) → (n : Nat) → List UInt8
  | 0, _ => []
  | left + 1, n =>
    if n < 128 then [UInt8.ofNat n] else UInt8.ofNat (n % 128 + 128) :: wordGroups left (n / 128)

/-- The shortest bytes of a word. -/
def wordBytes (n : Nat) : List UInt8 := wordGroups 5 n

/-! ### Readers leave fewer bytes -/

theorem length_lt_of_readGroups {left : Nat} {bytes rest : List UInt8} {v : Nat}
    (h : readGroups left bytes = .ok (v, rest)) : rest.length < bytes.length := by
  induction left generalizing bytes rest v with
  | zero => cases h
  | succ n ih =>
    cases bytes with
    | nil => cases h
    | cons b bs =>
      simp only [readGroups] at h
      split at h
      · cases h
      · split at h
        · injection h with h; injection h with _ h; subst h; simp
        · split at h
          · rename_i high r hr
            injection h with h; injection h with _ h; subst h
            have := ih hr
            simp; omega
          · cases h

theorem length_le_of_readBytes {what : String} {count : Nat} {bytes rest body : List UInt8}
    (h : readBytes what count bytes = .ok (body, rest)) : rest.length ≤ bytes.length := by
  unfold readBytes at h
  split at h
  · injection h with h; injection h with _ h; subst h; simp
  · cases h

theorem length_lt_of_readSized {what : String} {bytes rest body : List UInt8}
    (h : readSized what bytes = .ok (body, rest)) : rest.length < bytes.length := by
  unfold readSized at h
  split at h
  · rename_i c r hr
    have := length_lt_of_readGroups hr
    have := length_le_of_readBytes h
    omega
  · cases h

end ToolchainHost.Module
