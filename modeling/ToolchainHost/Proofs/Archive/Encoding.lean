import Mathlib.Data.Nat.Digits.Defs
import Mathlib.Data.Nat.Digits.Lemmas
import Mathlib.Tactic.Ring
import ToolchainHost.Proofs.Archive.Loading

/-!
# Archives of entries

How entries are written as an archive, and that reading finds them there.

* `HoldsText`, `WritesOctal`: a field with a text, and a text with a number.
* `Heads`: a block is the header of an entry. Nothing is said about the fields that loading does not use.
* `Encodes`: an archive is the headers and the contents of entries one after the other, up to where it ends.
* `parseSize_of_octal`, `entryAt_of_heads`: what is written is what is read.
-/

namespace ToolchainHost.Archive

/-! ### Fields -/

/-- The text of a field goes up to its first NUL, or up to its end. -/
def HoldsText (bytes : List UInt8) (text : String) : Prop :=
  '\x00' ∉ text.toList ∧ ∃ rest, bytes = Utf8.encode text ++ rest ∧ rest.headD 0 = 0

/-- A text is a number in octal digits, with blanks before and after them. -/
def WritesOctal (text : String) (n : Nat) : Prop :=
  ∃ (before : Nat) (digits : List Nat) (after : Nat),
    text.toList = List.replicate before ' ' ++ (digits.map Nat.digitChar ++ List.replicate after ' ') ∧
      digits ≠ [] ∧ (∀ d ∈ digits, d < 8) ∧ Nat.ofDigits 8 digits.reverse = n

variable {bytes : List UInt8} {text : String} {digits : List Nat} {n : Nat}

lemma HoldsText.untilNul_eq (h : HoldsText bytes text) : untilNul bytes = Utf8.encode text := by
  obtain ⟨hfree, rest, rfl, hrest⟩ := h
  have hz := Utf8.zero_notMem_encode hfree
  have htext : ∀ b ∈ Utf8.encode text, (b != 0) = true := by
    intro b hb
    rw [bne_iff_ne]
    rintro rfl
    exact hz hb
  rw [untilNul, List.takeWhile_append_of_pos htext]
  cases rest with
  | nil => rw [List.takeWhile_nil, List.append_nil]
  | cons b rest =>
    rw [List.headD_cons] at hrest
    rw [hrest, List.takeWhile_cons_of_neg (by decide), List.append_nil]

lemma HoldsText.length_le (h : HoldsText bytes text) : (Utf8.encode text).length ≤ bytes.length := by
  obtain ⟨-, rest, rfl, -⟩ := h
  rw [List.length_append]
  exact Nat.le_add_right ..

/-! ### Octal numbers -/

lemma octalDigit_spec : ∀ d < 8, ('0' ≤ Nat.digitChar d ∧ Nat.digitChar d ≤ '7') ∧
    (Nat.digitChar d).toNat - '0'.toNat = d := by decide

lemma octalDigit_plain : ∀ d < 8, (Nat.digitChar d).toNat < 0x80 ∧ Text.isBlank (Nat.digitChar d) = false ∧
    Nat.digitChar d ≠ '+' := by decide

lemma octalDigits?_of_digits (hd : ∀ d ∈ digits, d < 8) {m : Nat}
    (hfit : 8 ^ digits.length * m + Nat.ofDigits 8 digits.reverse < sizeLimit) :
    octalDigits? m (digits.map Nat.digitChar) = some (8 ^ digits.length * m + Nat.ofDigits 8 digits.reverse) := by
  induction digits generalizing m with
  | nil => simp [octalDigits?]
  | cons d ds ih =>
    obtain ⟨hrange, hvalue⟩ := octalDigit_spec d (hd d List.mem_cons_self)
    -- the digits behind `d` go on from `8 * m + d`
    have hsplit : 8 ^ (d :: ds).length * m + Nat.ofDigits 8 (d :: ds).reverse =
        8 ^ ds.length * (8 * m + d) + Nat.ofDigits 8 ds.reverse := by
      rw [List.reverse_cons, Nat.ofDigits_append, Nat.ofDigits_singleton, List.length_reverse, List.length_cons]
      ring
    rw [hsplit] at hfit ⊢
    have hm : 8 * m + d < sizeLimit :=
      Nat.lt_of_le_of_lt ((Nat.le_mul_of_pos_left _ (by positivity)).trans (Nat.le_add_right ..)) hfit
    rw [List.map_cons, octalDigits?, if_pos hrange, hvalue]
    dsimp only
    rw [if_pos hm]
    exact ih (fun x hx => hd x (List.mem_cons_of_mem _ hx)) hfit

lemma trim_padded {cs : List Char} {before after : Nat} (hne : cs ≠ []) (hc : ∀ c ∈ cs, Text.isBlank c = false)
    (ht : text.toList = List.replicate before ' ' ++ (cs ++ List.replicate after ' ')) :
    (Text.trim text).toList = cs := by
  have hblank (k : Nat) : ∀ c ∈ List.replicate k ' ', Text.isBlank c = true := by
    intro c h
    rw [List.eq_of_mem_replicate h]
    decide
  have hstay {ds : List Char} (h : ∀ c ∈ ds, Text.isBlank c = false) (hds : ds ≠ []) (rest : List Char) :
      (ds ++ rest).dropWhile Text.isBlank = ds ++ rest := by
    obtain ⟨d, ds, rfl⟩ := List.exists_cons_of_ne_nil hds
    rw [List.cons_append, List.dropWhile_cons_of_neg]
    rw [h d List.mem_cons_self]
    decide
  have hrev : ∀ c ∈ cs.reverse, Text.isBlank c = false := fun c h => hc c (List.mem_reverse.1 h)
  rw [Text.trim, String.toList_ofList, ht, List.dropWhile_append_of_pos (hblank before), hstay hc hne,
    Text.dropEndWhile, List.reverse_append, List.reverse_replicate, List.dropWhile_append_of_pos (hblank after)]
  have hlast := hstay hrev (mt List.reverse_eq_nil_iff.1 hne) []
  rw [List.append_nil] at hlast
  rw [hlast, List.reverse_reverse]

lemma WritesOctal.ascii (ho : WritesOctal text n) : ∀ c ∈ text.toList, c.toNat < 0x80 := by
  obtain ⟨before, digits, after, ht, -, hd, -⟩ := ho
  intro c hc
  rw [ht, List.mem_append, List.mem_append] at hc
  rcases hc with hc | hc | hc
  · rw [List.eq_of_mem_replicate hc]
    decide
  · obtain ⟨d, hmem, rfl⟩ := List.mem_map.1 hc
    exact (octalDigit_plain d (hd d hmem)).1
  · rw [List.eq_of_mem_replicate hc]
    decide

/-- A number of at most twelve digits fits 64 bits. -/
lemma WritesOctal.octal?_trim (ho : WritesOctal text n) (hlen : text.toList.length ≤ 12) :
    octal? (Text.trim text).toList = some n := by
  obtain ⟨before, digits, after, ht, hne, hd, rfl⟩ := ho
  have hcs : ∀ c ∈ digits.map Nat.digitChar, Text.isBlank c = false := by
    intro c hc
    obtain ⟨d, hmem, rfl⟩ := List.mem_map.1 hc
    exact (octalDigit_plain d (hd d hmem)).2.1
  have hshort : digits.length ≤ 12 := by
    rw [ht] at hlen
    simp only [List.length_append, List.length_replicate, List.length_map] at hlen
    omega
  have hfit : Nat.ofDigits 8 digits.reverse < sizeLimit := by
    have hlt := Nat.ofDigits_lt_base_pow_length (b := 8) (l := digits.reverse) (by decide)
      fun d h => hd d (List.mem_reverse.1 h)
    rw [List.length_reverse] at hlt
    exact hlt.trans_le ((Nat.pow_le_pow_right (by decide) hshort).trans (by decide))
  have hvalue := octalDigits?_of_digits hd (m := 0) (by rwa [Nat.mul_zero, Nat.zero_add])
  rw [Nat.mul_zero, Nat.zero_add] at hvalue
  have hplus : (digits.map Nat.digitChar).head? ≠ some '+' := by
    intro hhead
    obtain ⟨d, hmem, hplus⟩ := List.mem_map.1 (List.mem_of_head? hhead)
    exact (octalDigit_plain d (hd d hmem)).2.2 hplus
  have hmap : digits.map Nat.digitChar ≠ [] := mt List.map_eq_nil_iff.1 hne
  rw [trim_padded hmap hcs ht, octal?, if_neg hplus, if_neg hmap, hvalue]

/-- **A size field with octal digits** is read as their number. -/
theorem parseSize_of_octal (h : HoldsText bytes text) (hlen : bytes.length ≤ 12) (ho : WritesOctal text n) :
    parseSize bytes = .ok n := by
  have hencode := Utf8.encode_of_ascii ho.ascii
  have hshort := h.length_le.trans hlen
  rw [hencode, List.length_map] at hshort
  have hhead : ¬ 0x80 ≤ bytes.headD 0 := by
    obtain ⟨-, rest, rfl, hrest⟩ := h
    rw [hencode]
    cases ht : text.toList with
    | nil =>
      rw [List.map_nil, List.nil_append, hrest]
      decide
    | cons c cs =>
      have hc := ho.ascii c (ht ▸ List.mem_cons_self)
      rw [List.map_cons, List.cons_append, List.headD_cons, UInt8.le_iff_toNat_le, Utf8.toNat_ofNat (by omega)]
      exact Nat.not_le.2 hc
  have hvalid : Utf8.isValid (Utf8.encode text) = true := by
    rw [Utf8.isValid, Utf8.decode_encode, beq_self_eq_true]
  rw [parseSize, if_neg hhead]
  dsimp only
  rw [h.untilNul_eq, hvalid, Utf8.decode_encode, ho.octal?_trim hshort]
  rfl

/-! ### Headers -/

/-- What a header says about the type and the size of an entry. The size of a directory is not used, but it has to
be a number. -/
def HeadsAs (block : List UInt8) : Entry → Prop
  | .file _ contents =>
    (block.getD 156 0 = 0x00 ∨ block.getD 156 0 = 0x30) ∧
      ∃ text, HoldsText (field block 124 12) text ∧ WritesOctal text contents.length
  | .directory _ => block.getD 156 0 = 0x35 ∧ ∃ size, parseSize (field block 124 12) = .ok size

/-- A block is the header of an entry. -/
structure Heads (block : List UInt8) (e : Entry) : Prop where
  length_eq : block.length = blockSize
  magic_eq : field block 257 8 = magic
  path : HoldsText (field block 0 100) e.path
  typed : HeadsAs block e

section Headers

variable {block pre rest : List UInt8} {e : Entry}

lemma length_field_le (block : List UInt8) (start count : Nat) : (field block start count).length ≤ count :=
  List.length_take_le ..

lemma field_middle (pre block rest : List UInt8) : field (pre ++ (block ++ rest)) pre.length block.length = block := by
  rw [field, List.drop_left, List.take_left]

lemma Heads.at? (h : Heads block e) (pre rest : List UInt8) :
    ∃ header, Header.at? (pre ++ (block ++ rest)) pre.length = .ok (some header) ∧ header.path = e.path ∧
      header.flag = block.getD 156 0 ∧ parseSize (field block 124 12) = .ok header.size := by
  have hsize : ∃ size, parseSize (field block 124 12) = .ok size := by
    have htyped := h.typed
    cases e with
    | file path contents =>
      obtain ⟨-, text, htext, hocta⟩ := htyped
      exact ⟨_, parseSize_of_octal htext (length_field_le ..) hocta⟩
    | directory path => exact htyped.2
  obtain ⟨size, hsize⟩ := hsize
  have hb : blockAt? (pre ++ (block ++ rest)) pre.length = some block := by
    have hle : pre.length + blockSize ≤ (pre ++ (block ++ rest)).length := by
      rw [List.length_append, List.length_append, h.length_eq]
      omega
    rw [blockAt?, if_pos hle, ← h.length_eq, field_middle]
  have hpath : Utf8.decode (untilNul (field block 0 100)) = e.path := by
    rw [h.path.untilNul_eq, Utf8.decode_encode]
  refine ⟨⟨e.path, size, block.getD 156 0⟩, ?_, rfl, rfl, hsize⟩
  rw [Header.at?, hb]
  dsimp only
  rw [if_neg (not_not.2 h.magic_eq), Header.ofBlock, hsize, hpath]

/-- The number of bytes that an entry takes: a header, and its contents in whole blocks. -/
def Entry.extent (e : Entry) : Nat := blockSize + blocksFor e.contents.length * blockSize

/-- **An entry that is written** is found, with the offset behind it. -/
theorem entryAt_of_heads (h : Heads block e) (pre rest : List UInt8) :
    entryAt (pre ++ (block ++ (e.contents ++ rest))) pre.length = .ok (some (e, pre.length + e.extent)) := by
  obtain ⟨header, hat, hpath, hflag, hsize⟩ := h.at? pre (e.contents ++ rest)
  have hle : pre.length + blockSize + e.contents.length ≤ (pre ++ (block ++ (e.contents ++ rest))).length := by
    simp only [List.length_append, h.length_eq]
    omega
  have hcontents : field (pre ++ (block ++ (e.contents ++ rest))) (pre.length + blockSize) e.contents.length =
      e.contents := by
    have hstart : pre.length + blockSize = (pre ++ block).length := by rw [List.length_append, h.length_eq]
    rw [hstart, ← List.append_assoc, field_middle]
  have htyped := h.typed
  generalize pre ++ (block ++ (e.contents ++ rest)) = data at hat hle hcontents
  rw [entryAt, hat]
  dsimp only
  rw [entryOf, hflag, hpath]
  cases e with
  | file path contents =>
    obtain ⟨hfile, text, htext, hocta⟩ := htyped
    have hlen : header.size = contents.length :=
      Except.ok.inj (hsize.symm.trans (parseSize_of_octal htext (length_field_le ..) hocta))
    change pre.length + blockSize + contents.length ≤ data.length at hle
    change field data (pre.length + blockSize) contents.length = contents at hcontents
    rw [EntryType.ofFlag?, if_pos hfile]
    dsimp only
    rw [hlen, if_pos hle, hcontents, Nat.add_assoc]
    rfl
  | directory path =>
    have hextent : (Entry.directory path).extent = blockSize := by
      change blockSize + blocksFor 0 * blockSize = blockSize
      decide
    rw [htyped.1, hextent]
    rfl

end Headers

/-! ### Archives -/

/-- The archive ends here: what is left is shorter than a header, or has no magic bytes. -/
def EndsHere (tail : List UInt8) : Prop := tail.length < blockSize ∨ field tail 257 8 ≠ magic

lemma entryAt_of_endsHere {tail : List UInt8} (h : EndsHere tail) (pre : List UInt8) :
    entryAt (pre ++ tail) pre.length = .ok none := by
  by_cases hlt : tail.length < blockSize
  · exact entryAt_of_lt (by rw [List.length_append]; omega)
  have hle : pre.length + blockSize ≤ (pre ++ tail).length := by
    rw [List.length_append]
    omega
  have hfield : field (field (pre ++ tail) pre.length blockSize) 257 8 = field tail 257 8 := by
    rw [field, field, field, List.drop_left, List.drop_take, List.take_take]
    rfl
  rw [entryAt, Header.at?, blockAt?, if_pos hle]
  dsimp only
  rw [if_pos (hfield ▸ h.resolve_left hlt)]

/-- **An archive of entries**: each has its header, its contents and some bytes up to a whole block, which may be
missing behind the last one. -/
inductive Encodes : List Entry → List UInt8 → Prop
  | ended {tail : List UInt8} (h : EndsHere tail) : Encodes [] tail
  | entry {block padding rest : List UInt8} {e : Entry} {es : List Entry} (hb : Heads block e)
      (hp : blockSize + e.contents.length + padding.length = e.extent) (hr : Encodes es rest) :
      Encodes (e :: es) (block ++ (e.contents ++ (padding ++ rest)))
  | unpadded {block padding : List UInt8} {e : Entry} (hb : Heads block e)
      (hp : blockSize + e.contents.length + padding.length < e.extent) :
      Encodes [e] (block ++ (e.contents ++ padding))

/-- The paths of entries fit their field. -/
lemma Encodes.path {es : List Entry} {data : List UInt8} (h : Encodes es data) :
    ∀ e ∈ es, '\x00' ∉ e.path.toList ∧ (Utf8.encode e.path).length ≤ 100 := by
  have hpath {block : List UInt8} {e : Entry} (hb : Heads block e) :
      '\x00' ∉ e.path.toList ∧ (Utf8.encode e.path).length ≤ 100 :=
    ⟨hb.path.1, hb.path.length_le.trans (length_field_le ..)⟩
  induction h with
  | ended => exact List.forall_mem_nil _
  | entry hb hp hr ih => exact List.forall_mem_cons.2 ⟨hpath hb, ih⟩
  | unpadded hb hp => exact List.forall_mem_singleton.2 (hpath hb)

end ToolchainHost.Archive
