/-!
# UTF-8

* `encode s`: the bytes of a text.
* `decode bs`: the text of any bytes. A sequence that is cut short, or a byte that starts none, becomes one
  U+FFFD, so every byte list has a text.

`lead b bs` looks at the byte `b` and what follows it and says which character they stand for and how many of
the following bytes belong to it.
-/

namespace ToolchainHost.Utf8

/-- The bytes of a text. -/
def encode (s : String) : List UInt8 := s.toList.flatMap String.utf8EncodeChar

/-- What stands for bytes that are no character. -/
def replacement : Char := Char.ofNat 0xFFFD

/-- The low six bits of a continuation byte. -/
def payload (b : UInt8) : Nat := b.toNat % 64

/-- Continuation bytes are `80` to `BF`. -/
def isContinuation (b : UInt8) : Bool := 0x80 ≤ b && b ≤ 0xBF

/-- The bytes that may follow `b` in a sequence of three. -/
def second3 (b c : UInt8) : Bool :=
  if b == 0xE0 then 0xA0 ≤ c && c ≤ 0xBF
  else if b == 0xED then 0x80 ≤ c && c ≤ 0x9F
  else isContinuation c

/-- The bytes that may follow `b` in a sequence of four. -/
def second4 (b c : UInt8) : Bool :=
  if b == 0xF0 then 0x90 ≤ c && c ≤ 0xBF
  else if b == 0xF4 then 0x80 ≤ c && c ≤ 0x8F
  else isContinuation c

/-- The character that `b` and the bytes after it begin with, and how many bytes after `b` it takes. -/
def lead (b : UInt8) (bs : List UInt8) : Char × Nat :=
  if b < 0x80 then (Char.ofNat b.toNat, 0)
  else if 0xC2 ≤ b && b ≤ 0xDF then
    match bs with
    | c :: _ => if isContinuation c then (Char.ofNat (b.toNat % 32 * 64 + payload c), 1) else (replacement, 0)
    | [] => (replacement, 0)
  else if 0xE0 ≤ b && b ≤ 0xEF then
    match bs with
    | c :: d :: _ =>
      if second3 b c then
        if isContinuation d then (Char.ofNat (b.toNat % 16 * 4096 + payload c * 64 + payload d), 2)
        else (replacement, 1)
      else (replacement, 0)
    | [c] => (replacement, if second3 b c then 1 else 0)
    | [] => (replacement, 0)
  else if 0xF0 ≤ b && b ≤ 0xF4 then
    match bs with
    | c :: d :: e :: _ =>
      if second4 b c then
        if isContinuation d then
          if isContinuation e then
            (Char.ofNat (b.toNat % 8 * 262144 + payload c * 4096 + payload d * 64 + payload e), 3)
          else (replacement, 2)
        else (replacement, 1)
      else (replacement, 0)
    | [c, d] => (replacement, if second4 b c then (if isContinuation d then 2 else 1) else 0)
    | [c] => (replacement, if second4 b c then 1 else 0)
    | [] => (replacement, 0)
  else (replacement, 0)

/-- Decodes onto the reversed text `acc`, passing over the next `skip` bytes. -/
def decodeOnto (acc : List Char) : (skip : Nat) → List UInt8 → List Char
  | _, [] => acc.reverse
  | skip + 1, _ :: bs => decodeOnto acc skip bs
  | 0, b :: bs => decodeOnto ((lead b bs).1 :: acc) (lead b bs).2 bs

/-- The text of any bytes. -/
def decode (bs : List UInt8) : String := String.ofList (decodeOnto [] 0 bs)

/-- Whether the bytes are the bytes of a text. -/
def isValid (bs : List UInt8) : Bool := encode (decode bs) == bs

theorem decodeOnto_eq (acc : List Char) (skip : Nat) (bs : List UInt8) :
    decodeOnto acc skip bs = acc.reverse ++ decodeOnto [] skip bs := by
  induction bs generalizing acc skip with
  | nil => simp [decodeOnto]
  | cons b bs ih =>
    cases skip with
    | succ n => rw [decodeOnto, decodeOnto, ih]
    | zero => rw [decodeOnto, decodeOnto, ih, ih [_]]; simp

end ToolchainHost.Utf8
