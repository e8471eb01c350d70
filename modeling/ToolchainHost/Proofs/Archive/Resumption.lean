import ToolchainHost.Proofs.Archive.Loading
import ToolchainHost.Proofs.Files.Catalog

/-!
# Loading can be resumed

A loader that has loaded the beginning of an archive goes on with the whole archive as if it had never stopped.

* `entryAt_of_beginning`: what an archive and its beginning have at an offset.
* `Arrives.of_beginning`, `Arrives.to_beginning`: where loads of the two come to.
* `load_resumed`: loading the beginning first makes no difference, wherever the archive is cut.
-/

namespace ToolchainHost.Archive

variable {p a : List UInt8} {l l' l'' : Loading} {e : Entry} {es : List Entry} {f : Failure} {offset next : Nat}
  {header : Header} {fs : FileSystem}

/-! ### An archive and its beginning -/

lemma field_of_beginning (h : p <+: a) {start count : Nat} (hle : start + count ≤ p.length) :
    field a start count = field p start count := by
  obtain ⟨rest, rfl⟩ := h
  rw [field, field, List.drop_append_of_le_length (by omega), List.take_append_of_le_length]
  rw [List.length_drop]
  omega

lemma blockAt?_of_beginning (h : p <+: a) (hle : offset + blockSize ≤ p.length) :
    blockAt? a offset = blockAt? p offset := by
  rw [blockAt?, blockAt?, if_pos hle, if_pos (Nat.le_trans hle h.length_le), field_of_beginning h hle]

lemma Header.at?_of_beginning (h : p <+: a) (hle : offset + blockSize ≤ p.length) :
    Header.at? a offset = Header.at? p offset := by
  rw [Header.at?, Header.at?, blockAt?_of_beginning h hle]

lemma entryOf_of_beginning (h : p <+: a)
    (hle : EntryType.ofFlag? header.flag = some .file → offset + blockSize + header.size ≤ p.length) :
    entryOf a offset header = entryOf p offset header := by
  unfold entryOf
  dsimp only
  cases ht : EntryType.ofFlag? header.flag with
  | none => rfl
  | some t =>
    cases t with
    | directory => rfl
    | file =>
      dsimp only
      rw [if_pos (hle ht), if_pos (Nat.le_trans (hle ht) h.length_le), field_of_beginning h (hle ht)]

/-- The contents of the file of a header are cut. -/
structure CutsContents (data : List UInt8) (offset : Nat) (header : Header) : Prop where
  flag_eq : EntryType.ofFlag? header.flag = some .file
  le_length : offset + blockSize ≤ data.length
  length_lt : data.length < offset + blockSize + header.size

lemma CutsContents.entryAt (h : CutsContents p offset header) (hh : Header.at? p offset = .ok (some header)) :
    entryAt p offset = .error (.archiveFormat offset
      s!"{header.path} declares {header.size} bytes but the archive ends first") := by
  rw [Archive.entryAt, hh]
  dsimp only
  rw [entryOf]
  dsimp only
  rw [h.flag_eq]
  dsimp only
  rw [if_neg (Nat.not_le.2 h.length_lt)]

/-- **What the beginning of an archive has at an offset** is what the archive has there, unless the cut falls inside
a header or inside contents. -/
theorem entryAt_of_beginning (h : p <+: a) (offset : Nat) :
    p.length < offset + blockSize ∨
      (∃ header, Header.at? a offset = .ok (some header) ∧ CutsContents p offset header) ∨
      entryAt a offset = entryAt p offset := by
  by_cases hlt : p.length < offset + blockSize
  · exact Or.inl hlt
  have hle := Nat.not_lt.1 hlt
  by_cases hc : ∃ header, Header.at? a offset = .ok (some header) ∧ CutsContents p offset header
  · exact Or.inr (Or.inl hc)
  refine Or.inr (Or.inr ?_)
  rw [entryAt, entryAt, ← Header.at?_of_beginning h hle]
  rcases hh : Header.at? a offset with f | _ | header
  · rfl
  · rfl
  · have hsize (hflag : EntryType.ofFlag? header.flag = some .file) :
        offset + blockSize + header.size ≤ p.length :=
      Nat.not_lt.1 fun hs => hc ⟨header, hh, hflag, hle, hs⟩
    dsimp only
    rw [entryOf_of_beginning h hsize]

/-- An entry that is complete in the beginning of an archive. -/
lemma entryAt_of_found (h : p <+: a) (he : entryAt p offset = .ok (some (e, next))) :
    entryAt a offset = .ok (some (e, next)) := by
  rcases entryAt_of_beginning h offset with hlt | ⟨header, hh, hc⟩ | heq
  · rw [entryAt_of_lt hlt] at he
    cases he
  · rw [Header.at?_of_beginning h hc.le_length] at hh
    rw [hc.entryAt hh] at he
    cases he
  · exact heq.trans he

/-- What an entry is found from. -/
lemma exists_header_of_entryAt (he : entryAt a offset = .ok (some (e, next))) :
    ∃ header, Header.at? a offset = .ok (some header) ∧ entryOf a offset header = .ok (e, next) := by
  unfold entryAt at he
  rcases hh : Header.at? a offset with f | _ | header
  · rw [hh] at he
    cases he
  · rw [hh] at he
    cases he
  · rw [hh] at he
    dsimp only at he
    cases ho : entryOf a offset header with
    | error f =>
      rw [ho] at he
      cases he
    | ok found =>
      rw [ho] at he
      cases he
      exact ⟨header, rfl, ho⟩

/-- A file is as long as its header says, and an entry ends behind its contents. -/
lemma length_of_entryOf (ho : entryOf a offset header = .ok (e, next)) :
    (EntryType.ofFlag? header.flag = some .file → e.contents.length = header.size) ∧
      offset + blockSize + e.contents.length ≤ next := by
  unfold entryOf at ho
  dsimp only at ho
  cases ht : EntryType.ofFlag? header.flag with
  | none =>
    rw [ht] at ho
    cases ho
  | some t =>
    rw [ht] at ho
    cases t with
    | directory =>
      cases ho
      exact ⟨(by cases ·), Nat.le_refl _⟩
    | file =>
      dsimp only at ho
      by_cases hle : offset + blockSize + header.size ≤ a.length
      · rw [if_pos hle] at ho
        cases ho
        have hlen : (field a (offset + blockSize) header.size).length = header.size := by
          rw [field, List.length_take, List.length_drop]
          omega
        refine ⟨fun _ => hlen, ?_⟩
        rw [Entry.contents, hlen, blocksFor, blockSize]
        omega
      · rw [if_neg hle] at ho
        cases ho

lemma entryAt_to_beginning (h : p <+: a) (he : entryAt a offset = .ok (some (e, next)))
    (hle : offset + blockSize + e.contents.length ≤ p.length) : entryAt p offset = .ok (some (e, next)) := by
  rcases entryAt_of_beginning h offset with hlt | ⟨header, hh, hc⟩ | heq
  · omega
  · obtain ⟨header', hh', ho⟩ := exists_header_of_entryAt he
    obtain rfl : header = header' := Option.some.inj (Except.ok.inj (hh.symm.trans hh'))
    have hsize := (length_of_entryOf ho).1 hc.flag_eq
    have hlt := hc.length_lt
    omega
  · exact heq.symm.trans he

/-! ### Where loads come to -/

lemma Arrives.of_beginning (h : p <+: a) (harr : Arrives p l es l') : Arrives a l es l' := by
  induction harr with
  | here l => exact .here l
  | past he ha hr ih => exact .past (entryAt_of_found h he) ha ih

lemma Arrives.to_beginning (h : p <+: a) (harr : Arrives a l es l') (hle : l'.offset ≤ p.length) :
    Arrives p l es l' := by
  induction harr with
  | here l => exact .here l
  | past he ha hr ih =>
    obtain ⟨header, -, ho⟩ := exists_header_of_entryAt he
    have hnext := (length_of_entryOf ho).2
    have hoff := hr.offset_le
    dsimp only at hoff
    exact .past (entryAt_to_beginning h he (by omega)) ha (ih hle)

/-- A load that went no further goes on from the place it had come to, unless an entry was refused: then it is
refused again. -/
lemma Stops.resume {r : Except Failure Unit} (h : p <+: a) (hs : l.files.store.Sound) (hstop : Stops p l r l') :
    l' = l ∨ ∃ f, r = .error f ∧ Stops a l r l' ∧ Stops a l' r l' := by
  cases hstop with
  | ended | bad => exact Or.inl rfl
  | refused he ha =>
    have he' := entryAt_of_found h he
    exact Or.inr ⟨_, rfl, .refused he' ha, .refused (l := { l with files := _ }) he' (Entry.add_again hs ha)⟩

/-! ### Loading twice -/

lemma outcome_load {data : List UInt8} {r : Except Failure Unit} (h : Arrives data l es l')
    (hstop : Stops data l' r l'') : (load data).outcome l = (r.map fun _ => Summary.of es, l'') := by
  obtain ⟨h1, h2⟩ := EStateM.Result.ok.inj ((Op.attempt_eq_outcome (load data) l).symm.trans (attempt_load h hstop))
  exact Prod.ext h1 h2

/-- Loading an archive after its beginning ends as loading it at once does, with the counts of the first load
missing. -/
theorem outcome_load_of_beginning (h : p <+: a) (hs : l.files.store.Sound) :
    ∃ s, (load a).outcome l = ((load a).outcome ((load p).outcome l).2).map (Except.map (s + ·)) id ∧
      ∀ t, ((load p).outcome l).1 = .ok t → t = s := by
  obtain ⟨es, l', r, l'', harr, hstop⟩ := exists_stops p l
  rw [outcome_load harr hstop]
  refine ⟨Summary.of es, ?_, ?_⟩
  · dsimp only
    rcases hstop.resume h (harr.sound hs) with rfl | ⟨f, rfl, hsingle, hsecond⟩
    · obtain ⟨es', m, r', m', harr', hstop'⟩ := exists_stops a l''
      rw [outcome_load ((harr.of_beginning h).trans harr') hstop', outcome_load harr' hstop', Summary.of_append]
      cases r' <;> rfl
    · rw [outcome_load (harr.of_beginning h) hsingle, outcome_load (.here l'') hsecond]
      rfl
  · intro t ht
    cases r with
    | error f => cases ht
    | ok u => exact (Except.ok.inj ht).symm

section Cut

variable (h : p <+: a) (harr : Arrives a l es l')

include h harr

lemma outcome_load_of_cut_header (h1 : l'.offset ≤ p.length) (h2 : p.length < l'.offset + blockSize) :
    (load p).outcome l = (.ok (Summary.of es), l') :=
  outcome_load (harr.to_beginning h h1) (.ended (entryAt_of_lt h2))

lemma outcome_load_of_cut_contents (hh : Header.at? a l'.offset = .ok (some header))
    (hc : CutsContents p l'.offset header) :
    (load p).outcome l = (.error (.archiveFormat l'.offset
      s!"{header.path} declares {header.size} bytes but the archive ends first"), l') := by
  have hle : l'.offset ≤ p.length := Nat.le_of_add_right_le hc.le_length
  rw [Header.at?_of_beginning h hc.le_length] at hh
  exact outcome_load (harr.to_beginning h hle) (.bad (hc.entryAt hh))

lemma outcome_load_of_cut_padding (he : entryAt a l'.offset = .ok (some (e, next)))
    (ha : e.add l'.files = .ok ⟨⟩ fs) (h1 : l'.offset + blockSize + e.contents.length ≤ p.length)
    (h2 : p.length < next) : (load p).outcome l = (.ok (Summary.of (es ++ [e])), ⟨next, fs⟩) := by
  have hpast : Arrives p l (es ++ [e]) ⟨next, fs⟩ :=
    (harr.to_beginning h (by omega)).trans (.past (entryAt_to_beginning h he h1) ha (.here _))
  exact outcome_load hpast (.ended (entryAt_of_lt (Nat.lt_add_right blockSize h2)))

end Cut

/-- **Loading can be resumed.** Whatever an archive is and wherever it is cut, loading the beginning and then the
whole with the same loader leaves the same file system and the same offset behind as loading the whole at once. It
succeeds or fails in the same way, and the counts add up. A cut inside a header ends the first load before it, one
inside contents makes it fail, and one inside padding leaves the offset past the end of the beginning. -/
theorem load_resumed (h : p <+: a) (hs : l.files.store.Sound) :
    let first := (load p).outcome l
    let second := (load a).outcome first.2
    let single := (load a).outcome l
    second.2 = single.2 ∧ (second.1.isOk ↔ single.1.isOk) ∧ (∀ f, second.1 = .error f ↔ single.1 = .error f) ∧
      (∀ s t, first.1 = .ok s → second.1 = .ok t → single.1 = .ok (s + t)) ∧
      ∀ es l', Arrives a l es l' →
        (l'.offset ≤ p.length → p.length < l'.offset + blockSize → first = (.ok (Summary.of es), l')) ∧
        (∀ header, Header.at? a l'.offset = .ok (some header) → CutsContents p l'.offset header →
          first = (.error (.archiveFormat l'.offset
            s!"{header.path} declares {header.size} bytes but the archive ends first"), l')) ∧
        ∀ e next fs, entryAt a l'.offset = .ok (some (e, next)) → e.add l'.files = .ok ⟨⟩ fs →
          l'.offset + blockSize + e.contents.length ≤ p.length → p.length < next →
            first = (.ok (Summary.of (es ++ [e])), ⟨next, fs⟩) := by
  intro first second single
  obtain ⟨s, hsingle, hfirst⟩ := outcome_load_of_beginning h hs
  have hsecond : single = second.map (Except.map (s + ·)) id := hsingle
  rw [hsecond]
  generalize second = o
  obtain ⟨r, m⟩ := o
  refine ⟨rfl, ?_, ?_, ?_, ?_⟩
  · cases r <;> rfl
  · intro f
    cases r <;> simp [Except.map]
  · intro s' t hs' ht
    obtain rfl := hfirst s' hs'
    dsimp only at ht
    rw [Prod.map_fst, ht]
    rfl
  · intro es l' harr
    refine ⟨?_, ?_, ?_⟩
    · intro h1 h2
      exact outcome_load_of_cut_header h harr h1 h2
    · intro header hh hc
      exact outcome_load_of_cut_contents h harr hh hc
    · intro e next fs he ha h1 h2
      exact outcome_load_of_cut_padding h harr he ha h1 h2

/-- A file is cut behind the first of its two bytes. -/
theorem load_resumed_contents :
    let a := List.replicate 124 0 ++ [0x32] ++ List.replicate 132 0 ++ magic ++ List.replicate 247 0 ++ [1, 2]
    a.take 513 <+: a ∧ FileSystem.empty.store.Sound ∧
      ((load a).outcome ((load (a.take 513)).outcome ⟨0, .empty⟩).2).2 = ((load a).outcome ⟨0, .empty⟩).2 := by
  intro a
  have hcut : a.take 513 <+: a := List.take_prefix 513 a
  have hsound : FileSystem.empty.store.Sound := FileStore.sound_empty
  exact ⟨hcut, hsound, (load_resumed (l := ⟨0, .empty⟩) hcut hsound).1⟩

end ToolchainHost.Archive
