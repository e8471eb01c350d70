import ToolchainHost.Bytes
import ToolchainHost.Text.Blank
import ToolchainHost.Text.Utf8

/-!
# Archive headers

An archive is a row of blocks of 512 bytes. A header takes one block; it carries the magic bytes of GNU archives,
the path of an entry, the size of its contents and a flag for its type.

* `Header.at?`: the header at an offset. A block without the magic bytes ends the archive.
* `parseSize`: the size field, which is octal text or, with the high bit of its first byte set, a number of
  eight bytes with the high byte first.
-/

namespace ToolchainHost.Archive

/-- The size of a block. -/
def blockSize : Nat := 512

/-- The magic bytes of a header. -/
def magic : List UInt8 := [0x75, 0x73, 0x74, 0x61, 0x72, 0x20, 0x20, 0x00]

/-- The `count` bytes of a block from `start` on. -/
def field (block : List UInt8) (start count : Nat) : List UInt8 := (block.drop start).take count

/-- The bytes before the first NUL. -/
def untilNul (bytes : List UInt8) : List UInt8 := bytes.takeWhile (· != 0)

/-- The block at an offset, if it is complete. -/
def blockAt? (data : List UInt8) (offset : Nat) : Option (List UInt8) :=
  if offset + blockSize ≤ data.length then some (field data offset blockSize) else none

/-- The bound of sizes. -/
def sizeLimit : Nat := 18446744073709551616

/-- The number that octal digits write, if it fits 64 bits; `n` is what the digits before them write. -/
def octalDigits? (n : Nat) : List Char → Option Nat
  | [] => some n
  | c :: cs =>
    if '0' ≤ c ∧ c ≤ '7' then
      let m := 8 * n + (c.toNat - '0'.toNat)
      if m < sizeLimit then octalDigits? m cs else none
    else none

/-- The number of an octal text, which may start with a plus sign. -/
def octal? (cs : List Char) : Option Nat :=
  let digits := if cs.head? = some '+' then cs.tail else cs
  if digits = [] then none else octalDigits? 0 digits

/-- The reasons why a size field has no size. -/
inductive SizeError where
  /-- The field is no UTF-8 text. -/
  | notText (shown : String)
  /-- The field is no octal number. -/
  | notNumber (text : String)
  deriving DecidableEq, Repr

/-- The wording of a bad size field. -/
def SizeError.message : SizeError → String
  | notText shown => s!"numeric field did not have utf-8 text: {shown}"
  | notNumber text => s!"numeric field was not a number: {text}"

/-- Reads a size field of twelve bytes. -/
def parseSize (bytes : List UInt8) : Except SizeError Nat :=
  if 0x80 ≤ bytes.headD 0 then .ok (Bytes.toNat ((bytes.drop 4).take 8).reverse)
  else
    let text := untilNul bytes
    if !Utf8.isValid text then .error (.notText (Utf8.decode text))
    else
      match octal? (Text.trim (Utf8.decode text)).toList with
      | some n => .ok n
      | none => .error (.notNumber (Utf8.decode text))

/-- The parts of a header that loading uses. -/
structure Header where
  path : String
  size : Nat
  flag : UInt8
  deriving DecidableEq, Repr, Inhabited

namespace Header

/-- Reads a header that carries the magic bytes; `offset` is where it lies. -/
def ofBlock (block : List UInt8) (offset : Nat) : Except Failure Header :=
  let path := Utf8.decode (untilNul (field block 0 100))
  match parseSize (field block 124 12) with
  | .ok size => .ok ⟨path, size, block.getD 156 0⟩
  | .error e => .error (.archiveFormat offset s!"{e.message} when getting size for {path}")

/-- The header at an offset, unless the archive ends there. -/
def at? (data : List UInt8) (offset : Nat) : Except Failure (Option Header) :=
  match blockAt? data offset with
  | none => .ok none
  | some block =>
    if field block 257 8 ≠ magic then .ok none
    else
      match ofBlock block offset with
      | .ok h => .ok (some h)
      | .error e => .error e

end Header

end ToolchainHost.Archive
