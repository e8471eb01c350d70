import ToolchainHost.Proofs.Module.Grammar
import ToolchainHost.Proofs.Operation

/-!
# The check of a module as a walk

The check again, as a cursor makes it: it goes forward over a slice, it looks at no byte outside, and each of its steps
is counted. Sections are cut out and walked with a cursor of their own, and nothing is kept of an export but whether
it was one of the two that are asked for.

* `Cursor`: a position in a slice. `Cursor.atEnd`, `byte`, `take` are its steps.
* `Cursor.slice`: a part of a slice. One that is not within it is a crash.
* `Cursor.Follows`, `Sees`: a walk answers as a reader does, and what it has cost.
* `check_exact`: the check accepts exactly the grammar, in no more steps than three for each byte.
-/

namespace ToolchainHost.Module

/-- A position in a slice. -/
structure Cursor where
  bytes : List UInt8
  position : Nat
  position_le : position ≤ bytes.length

/-- Which of the exports that are asked for were seen. -/
structure Seen where
  memory : Bool := false
  start : Bool := false

/-- With more exports seen. -/
def Seen.add (seen : Seen) (entries : List Export) : Seen :=
  ⟨seen.memory || decide (memoryEntry ∈ entries), seen.start || decide (startEntry ∈ entries)⟩

lemma Seen.add_nil (seen : Seen) : seen.add [] = seen := by simp [add]

lemma Seen.add_append (seen : Seen) (es es' : List Export) : seen.add (es ++ es') = (seen.add es).add es' := by
  simp [add, Bool.or_assoc]

namespace Cursor

/-- The beginning of a slice. -/
def start (bytes : List UInt8) : Cursor := ⟨bytes, 0, Nat.zero_le _⟩

/-- The bytes that are left. -/
def left (c : Cursor) : List UInt8 := c.bytes.drop c.position

/-- A part of a slice. -/
def slice (bytes : List UInt8) (start stop : Nat) : Except Failure (List UInt8) :=
  if start ≤ stop ∧ stop ≤ bytes.length then .ok ((bytes.take stop).drop start) else .error .crash

/-! ### Steps -/

/-- Counts a step. -/
def tick : Op Nat Unit := modify (· + 1)

/-- Whether nothing is left. -/
def atEnd (c : Cursor) : Op Nat Bool := do
  tick
  return decide (c.bytes.length ≤ c.position)

/-- The next byte. -/
def byte (c : Cursor) : Op Nat (UInt8 × Cursor) := do
  tick
  if h : c.position < c.bytes.length then
    return (c.bytes[c.position], { c with position := c.position + 1, position_le := h })
  else throw (.invalidModule "unexpected end of module")

/-- The next `count` bytes. -/
def take (what : String) (count : Nat) (c : Cursor) : Op Nat (List UInt8 × Cursor) := do
  tick
  if h : c.position + count ≤ c.bytes.length then
    let body ← slice c.bytes c.position (c.position + count)
    return (body, { c with position := c.position + count, position_le := h })
  else throw (.invalidModule s!"{what} extends past end of module")

/-! ### Walks -/

/-- The groups of a word of which `more` bytes may follow. -/
def groups : (more : Nat) → Cursor → Op Nat (Nat × Cursor)
  | 0, _ => throw (.invalidModule "invalid LEB128")
  | more + 1, c => do
    let (b, c) ← c.byte
    let bits := b.toNat % 128
    if more = 0 ∧ 15 < bits then throw (.invalidModule "LEB128 value exceeds 32 bits")
    else if b < 128 then return (bits, c)
    else
      let (high, c) ← groups more c
      return (bits + 128 * high, c)

/-- A word. -/
def word (c : Cursor) : Op Nat (Nat × Cursor) := groups 5 c

/-- Bytes with their length before them. -/
def sized (what : String) (c : Cursor) : Op Nat (List UInt8 × Cursor) := do
  let (count, c) ← c.word
  c.take what count

/-- One export. -/
def oneExport (c : Cursor) : Op Nat (Export × Cursor) := do
  let (name, c) ← c.sized "export name"
  let (kind, c) ← c.byte
  let (_, c) ← c.word
  return (⟨name, kind⟩, c)

/-- As many exports as were counted. -/
def manyExports : (count : Nat) → Cursor → Seen → Op Nat Seen
  | 0, _, seen => return seen
  | count + 1, c, seen => do
    let (entry, c) ← c.oneExport
    manyExports count c (seen.add [entry])

/-- The body of a section, with a cursor of its own. -/
def sectionBody (identifier : UInt8) (body : List UInt8) (seen : Seen) : Op Nat Seen := do
  if identifier ≠ exportSection then return seen
  else if ← (start body).atEnd then return seen
  else
    let (count, c) ← (start body).word
    manyExports count c seen

/-- One section. -/
def oneSection (c : Cursor) (seen : Seen) : Op Nat (Seen × Cursor) := do
  let (identifier, c) ← c.byte
  let (body, c) ← c.sized "section"
  let seen ← sectionBody identifier body seen
  return (seen, c)

/-! ### Readers are followed -/

section Follows

variable {α β : Type} {gain : α → Int} {k total : β → Int} {c : Cursor} {n bound : Nat} {r : Except Failure (α × List UInt8)}
  {x : Op Nat (α × Cursor)} {f : Failure} {seen : Seen}

/-- What a cursor comes to from `c` after `n` steps is what a reader of the bytes that are left comes to. Where it gets
a value `a`, it has made `gain a` steps less than three for each byte that it passed. -/
structure Follows (gain : α → Int) (c : Cursor) (n : Nat) (r : Except Failure (α × List UInt8))
    (x : EStateM.Result Failure Nat (α × Cursor)) : Prop where
  ok : ∀ a rest, r = .ok (a, rest) →
    ∃ c' m, x = .ok (a, c') m ∧ c'.left = rest ∧ m + 3 * rest.length + gain a ≤ n + 3 * c.left.length
  error : ∀ f, r = .error f → ∃ m, x = .error f m ∧ m ≤ n + 3 * c.left.length + 1

lemma follows_pure (a : α) (hg : gain a ≤ 0) : Follows gain c n (.ok (a, c.left)) (.ok (a, c) n) where
  ok := by
    rintro a rest ⟨⟩
    exact ⟨c, n, rfl, rfl, by omega⟩
  error := by rintro f ⟨⟩

lemma follows_throw (f : Failure) : Follows gain c n (.error f) (.error f n) where
  ok := by rintro a rest ⟨⟩
  error := by
    rintro f ⟨⟩
    exact ⟨n, rfl, by omega⟩

/-- One after the other. -/
lemma Follows.bind {read : α × List UInt8 → Except Failure (β × List UInt8)} {walk : α × Cursor → Op Nat (β × Cursor)}
    (hx : Follows gain c n r (x n)) (h0 : ∀ a, 0 ≤ gain a) (hk : ∀ a b, total b ≤ gain a + k b)
    (hnext : ∀ a c' m, Follows k c' m (read (a, c'.left)) (walk (a, c') m)) :
    Follows total c n (r >>= read) ((x >>= walk) n) := by
  cases hr : r with
  | error f =>
    obtain ⟨m, hrun, hm⟩ := hx.error f hr
    rw [Op.bind_of_error hrun]
    exact ⟨by rintro b rest ⟨⟩, by rintro f ⟨⟩; exact ⟨m, rfl, hm⟩⟩
  | ok found =>
    obtain ⟨a, rest⟩ := found
    obtain ⟨c', m, hrun, rfl, hm⟩ := hx.ok a rest hr
    have ha := h0 a
    rw [Op.bind_of_ok hrun]
    constructor
    case ok =>
      intro b rest hb
      obtain ⟨c'', m', hrun', hleft, hm'⟩ := (hnext a c' m).ok b rest hb
      have hle := hk a b
      exact ⟨c'', m', hrun', hleft, by omega⟩
    case error =>
      intro f hf
      obtain ⟨m', hrun', hm'⟩ := (hnext a c' m).error f hf
      exact ⟨m', hrun', by omega⟩

lemma length_left (c : Cursor) : c.left.length = c.bytes.length - c.position := List.length_drop

lemma follows_byte (c : Cursor) (n : Nat) : Follows (fun _ => 2) c n (readByte c.left) (c.byte n) := by
  have hlen := c.length_left
  have hrun : c.byte n = (if h : c.position < c.bytes.length then
      return (c.bytes[c.position], { c with position := c.position + 1, position_le := h })
    else throw (.invalidModule "unexpected end of module") : Op Nat (UInt8 × Cursor)) (n + 1) := rfl
  rw [hrun]
  by_cases h : c.position < c.bytes.length
  · have hleft : c.left = c.bytes[c.position] :: c.bytes.drop (c.position + 1) := List.drop_eq_getElem_cons h
    rw [dif_pos h]
    constructor
    case ok =>
      intro b rest hr
      rw [hleft] at hr
      cases hr
      refine ⟨_, _, rfl, rfl, ?_⟩
      rw [List.length_drop]
      omega
    case error =>
      intro f hr
      rw [hleft] at hr
      cases hr
  · have hleft : c.left = [] := List.drop_eq_nil_of_le (Nat.not_lt.1 h)
    rw [dif_neg h]
    constructor
    case ok =>
      intro b rest hr
      rw [hleft] at hr
      cases hr
    case error =>
      intro f hr
      rw [hleft] at hr
      cases hr
      exact ⟨_, rfl, by omega⟩

/-- The bytes that are taken were left, so the slice has them. -/
lemma follows_take (what : String) (count : Nat) (c : Cursor) (n : Nat) :
    Follows (fun body => 3 * body.length - 1) c n (readBytes what count c.left) (c.take what count n) := by
  have hlen := c.length_left
  have hle := c.position_le
  have hrun : c.take what count n = (if h : c.position + count ≤ c.bytes.length then do
      let body ← slice c.bytes c.position (c.position + count)
      return (body, { c with position := c.position + count, position_le := h })
    else throw (.invalidModule s!"{what} extends past end of module") : Op Nat (List UInt8 × Cursor)) (n + 1) := rfl
  rw [hrun, readBytes]
  simp only [reaches_iff]
  by_cases h : c.position + count ≤ c.bytes.length
  · have hslice : slice c.bytes c.position (c.position + count) = .ok (c.left.take count) := by
      rw [slice, if_pos ⟨Nat.le_add_right .., h⟩, List.drop_take, Nat.add_sub_cancel_left, left]
    rw [dif_pos h, if_pos (by omega), hslice]
    constructor
    case ok =>
      rintro body rest ⟨⟩
      refine ⟨_, _, rfl, ?_, ?_⟩
      · rw [left, left, List.drop_drop]
      · rw [List.length_drop, List.length_take]
        omega
    case error => rintro f ⟨⟩
  · rw [dif_neg h, if_neg (by omega)]
    constructor
    case ok => rintro body rest ⟨⟩
    case error =>
      rintro f ⟨⟩
      exact ⟨_, rfl, by omega⟩

lemma readGroups_succ (more : Nat) (bytes : List UInt8) : readGroups (more + 1) bytes = (do
    let (b, rest) ← readByte bytes
    if more = 0 ∧ 15 < b.toNat % 128 then invalid "LEB128 value exceeds 32 bits"
    else if b < 128 then return (b.toNat % 128, rest)
    else
      let (high, rest) ← readGroups more rest
      return (b.toNat % 128 + 128 * high, rest) : Except Failure (Nat × List UInt8)) := by
  cases bytes with
  | nil => rfl
  | cons b rest =>
    change _ = (if _ then _ else if _ then _ else _)
    rw [readGroups]
    cases readGroups more rest <;> rfl

lemma follows_groups (more : Nat) (c : Cursor) (n : Nat) :
    Follows (fun _ => 2) c n (readGroups more c.left) (groups more c n) := by
  induction more generalizing c n with
  | zero => exact follows_throw _
  | succ more ih =>
    rw [readGroups_succ]
    refine (follows_byte c n).bind (k := fun _ => 0) (by simp) (by simp) fun b c' m => ?_
    dsimp only
    split_ifs
    · exact follows_throw _
    · exact follows_pure _ (le_refl 0)
    · exact (ih c' m).bind (k := fun _ => 0) (by simp) (by simp) fun high c'' m' => follows_pure _ (le_refl 0)

lemma follows_word (c : Cursor) (n : Nat) : Follows (fun _ => 2) c n (readWord c.left) (c.word n) :=
  follows_groups 5 c n

lemma readSized_eq (what : String) (bytes : List UInt8) :
    readSized what bytes = (do
      let (count, rest) ← readWord bytes
      readBytes what count rest : Except Failure (List UInt8 × List UInt8)) := by
  rw [readSized]
  cases readWord bytes <;> rfl

lemma follows_sized (what : String) (c : Cursor) (n : Nat) :
    Follows (fun body => 3 * body.length + 1) c n (readSized what c.left) (c.sized what n) := by
  rw [readSized_eq]
  exact (follows_word c n).bind (k := fun body => 3 * body.length - 1) (by simp) (by intros; omega)
    fun count c' m => follows_take what count c' m

lemma follows_oneExport (c : Cursor) (n : Nat) :
    Follows (fun _ => 0) c n (readExport c.left) (c.oneExport n) := by
  refine (follows_sized _ c n).bind (k := fun _ => 0) (by intros; omega) (by intros; omega)
    fun name c₁ n₁ => ?_
  refine (follows_byte c₁ n₁).bind (k := fun _ => 0) (by simp) (by simp) fun kind c₂ n₂ => ?_
  exact (follows_word c₂ n₂).bind (k := fun _ => 0) (by simp) (by simp) fun _ c₃ n₃ => follows_pure _ (le_refl 0)

/-! ### What a walk sees -/

/-- What is seen is what a reader lists, after no more than `bound` steps, or one more if it fails. -/
structure Sees (seen : Seen) (bound : Nat) (r : Except Failure (List Export)) (x : EStateM.Result Failure Nat Seen) :
    Prop where
  ok : ∀ entries, r = .ok entries → ∃ m, x = .ok (seen.add entries) m ∧ m ≤ bound
  error : ∀ f, r = .error f → ∃ m, x = .error f m ∧ m ≤ bound + 1

lemma sees_nothing (h : n ≤ bound) : Sees seen bound (.ok []) (.ok seen n) where
  ok := by
    rintro entries ⟨⟩
    exact ⟨n, by rw [seen.add_nil], h⟩
  error := by rintro f ⟨⟩

lemma Sees.mono {s : Except Failure (List Export)} {y : EStateM.Result Failure Nat Seen} {least : Nat}
    (h : Sees seen least s y) (hb : least ≤ bound) : Sees seen bound s y where
  ok entries hs := by
    obtain ⟨m, hrun, hm⟩ := h.ok entries hs
    exact ⟨m, hrun, hm.trans hb⟩
  error f hs := by
    obtain ⟨m, hrun, hm⟩ := h.error f hs
    exact ⟨m, hrun, by omega⟩

/-- A walk behind a reader of something else. -/
lemma Follows.bind_sees {read : α × List UInt8 → Except Failure (List Export)} {walk : α × Cursor → Op Nat Seen}
    (hx : Follows gain c n r (x n)) (hb : n + 3 * c.left.length ≤ bound)
    (hnext : ∀ a c' (m : Nat), r = .ok (a, c'.left) → m + 3 * c'.left.length + gain a ≤ n + 3 * c.left.length →
      Sees seen bound (read (a, c'.left)) (walk (a, c') m)) : Sees seen bound (r >>= read) ((x >>= walk) n) := by
  cases hr : r with
  | error f =>
    obtain ⟨m, hrun, hm⟩ := hx.error f hr
    rw [Op.bind_of_error hrun]
    exact ⟨by rintro entries ⟨⟩, by rintro f ⟨⟩; exact ⟨m, rfl, by omega⟩⟩
  | ok found =>
    obtain ⟨a, rest⟩ := found
    obtain ⟨c', m, hrun, rfl, hm⟩ := hx.ok a rest hr
    rw [Op.bind_of_ok hrun]
    exact hnext a c' m hr hm

/-- What was seen before is kept. -/
lemma Sees.after {entries : List Export} {s : Except Failure (List Export)} {y : EStateM.Result Failure Nat Seen}
    (h : Sees (seen.add entries) bound s y) :
    Sees seen bound (do
      let more ← s
      return entries ++ more) y := by
  constructor
  case ok =>
    intro listed hl
    obtain ⟨more, hs, rfl⟩ : ∃ more, s = .ok more ∧ entries ++ more = listed := by
      cases s with
      | error f => cases hl
      | ok more => exact ⟨more, rfl, Except.ok.inj hl⟩
    rw [seen.add_append]
    exact h.ok more hs
  case error =>
    intro f hf
    cases s with
    | error e =>
      cases hf
      exact h.error f rfl
    | ok more => cases hf

lemma readExports_succ (count : Nat) (bytes : List UInt8) : readExports (count + 1) bytes = (do
    let (entry, rest) ← readExport bytes
    let more ← readExports count rest
    return [entry] ++ more) := by
  rw [readExports]
  cases readExport bytes with
  | error f => rfl
  | ok found =>
    dsimp only
    change _ = (readExports count found.2 >>= _)
    cases readExports count found.2 <;> rfl

/-- Every export costs bytes, so a count that no bytes stand for is not walked. -/
lemma sees_manyExports (count : Nat) (c : Cursor) (n : Nat) (seen : Seen) (hb : n + 3 * c.left.length ≤ bound) :
    Sees seen bound (readExports count c.left) (manyExports count c seen n) := by
  induction count generalizing c n seen with
  | zero => exact sees_nothing (by omega)
  | succ count ih =>
    rw [readExports_succ]
    refine (follows_oneExport c n).bind_sees hb fun entry c' m _ hm => ?_
    exact (ih c' m (seen.add [entry]) (by omega)).after

lemma sectionExports_eq (body : List UInt8) (hb : body ≠ []) : sectionExports exportSection body = (do
    let (count, rest) ← readWord body
    readExports count rest) := by
  rw [sectionExports, if_neg (not_or.2 ⟨not_not_intro rfl, hb⟩)]
  cases readWord body <;> rfl

lemma sees_sectionBody (identifier : UInt8) (body : List UInt8) (n : Nat) (seen : Seen) :
    Sees seen (n + 3 * body.length + 1) (sectionExports identifier body) (sectionBody identifier body seen n) := by
  unfold sectionBody
  by_cases hid : identifier ≠ exportSection
  · rw [if_pos hid, sectionExports, if_pos (Or.inl hid)]
    exact sees_nothing (by omega)
  obtain rfl : identifier = exportSection := not_not.1 hid
  rw [if_neg hid]
  by_cases hbody : body = []
  · subst hbody
    exact sees_nothing (n := n + 1) (by omega)
  · have hend : (start body).atEnd n = .ok false (n + 1) := by
      have hpos := List.length_pos_iff.2 hbody
      change EStateM.Result.ok (decide (body.length ≤ 0)) (n + 1) = _
      rw [decide_eq_false (by omega)]
    rw [Op.bind_of_ok hend, sectionExports_eq body hbody]
    have hleft : (start body).left.length = body.length := rfl
    refine (follows_word (start body) (n + 1)).bind_sees (by omega) fun count c m _ hm => ?_
    exact sees_manyExports count c m seen (by omega)

/-- Sections one after the other. -/
lemma Sees.bind {entries : Except Failure (List Export)} {y : Op Nat Seen} {walk : Seen → Op Nat Seen}
    {more : Except Failure (List Export)} {first : Nat} (h : Sees seen first entries (y n)) (hb : first ≤ bound)
    (hnext : ∀ listed m, m ≤ first → Sees (seen.add listed) bound more (walk (seen.add listed) m)) :
    Sees seen bound (do
      let listed ← entries
      let more ← more
      return listed ++ more) ((y >>= walk) n) := by
  cases entries with
  | error f =>
    obtain ⟨m, hrun, hm⟩ := h.error f rfl
    rw [Op.bind_of_error hrun]
    exact ⟨by rintro entries ⟨⟩, by rintro f ⟨⟩; exact ⟨m, rfl, by omega⟩⟩
  | ok listed =>
    obtain ⟨m, hrun, hm⟩ := h.ok listed rfl
    rw [Op.bind_of_ok hrun]
    exact (hnext listed m hm).after

lemma Follows.reader_eq {y : EStateM.Result Failure Nat (α × Cursor)} {a : α} {c' : Cursor} {m : Nat}
    (h : Follows gain c n r y) (hy : y = .ok (a, c') m) : r = .ok (a, c'.left) := by
  cases hr : r with
  | error f =>
    obtain ⟨m', hrun, -⟩ := h.error f hr
    cases hy.symm.trans hrun
  | ok found =>
    obtain ⟨c'', m', hrun, hleft, -⟩ := h.ok found.1 found.2 hr
    cases hy.symm.trans hrun
    rw [hleft]

/-- A section is not empty. -/
lemma left_lt_of_oneSection {c' : Cursor} {seen' : Seen} {m : Nat} (h : c.oneSection seen n = .ok (seen', c') m) :
    c'.left.length < c.left.length := by
  unfold oneSection at h
  obtain ⟨⟨identifier, c₁⟩, n₁, hbyte, h⟩ := Op.bind_eq_ok.1 h
  obtain ⟨⟨body, c₂⟩, n₂, hsized, h⟩ := Op.bind_eq_ok.1 h
  obtain ⟨seen'', n₃, -, h⟩ := Op.bind_eq_ok.1 h
  cases h
  have hone := (reads_readByte ..).1 ((follows_byte c n).reader_eq hbyte)
  have hlt := length_lt_of_readSized ((follows_sized "section" c₁ n₁).reader_eq hsized)
  obtain ⟨_, rfl, hleft⟩ := hone
  rw [hleft, List.length_append]
  omega

end Follows

/-- All sections. -/
def walk (c : Cursor) (seen : Seen) : Op Nat Seen := fun n =>
  match c.atEnd n with
  | .error f m => .error f m
  | .ok true m => .ok seen m
  | .ok false m =>
    match _h : c.oneSection seen m with
    | .error f m => .error f m
    | .ok (seen, next) m => walk next seen m
  termination_by c.left.length
  decreasing_by exact left_lt_of_oneSection _h

section Walk

variable {c : Cursor} {seen : Seen} {n : Nat}

lemma atEnd_apply (c : Cursor) (n : Nat) : c.atEnd n = .ok (decide (c.bytes.length ≤ c.position)) (n + 1) := rfl

lemma walk_of_left_eq_nil (h : c.left = []) : walk c seen n = .ok seen (n + 1) := by
  have hle : c.bytes.length ≤ c.position := List.drop_eq_nil_iff.1 h
  rw [walk, atEnd_apply, decide_eq_true hle]

lemma walk_of_left_ne_nil (h : c.left ≠ []) : walk c seen n = (do
    let (identifier, c) ← c.byte
    let (body, c) ← c.sized "section"
    let seen ← sectionBody identifier body seen
    walk c seen : Op Nat Seen) (n + 1) := by
  have hlt : ¬ c.bytes.length ≤ c.position := mt List.drop_eq_nil_iff.2 h
  have hstep : walk c seen n = (do
      let (seen, next) ← c.oneSection seen
      walk next seen : Op Nat Seen) (n + 1) := by
    rw [walk, atEnd_apply, decide_eq_false hlt, Op.bind_apply]
    dsimp only
    split <;> simp_all
  rw [hstep, oneSection]
  simp only [bind_assoc, pure_bind]

lemma exports_eq (bytes : List UInt8) (h : bytes ≠ []) : exports bytes = (do
    let (identifier, rest) ← readByte bytes
    let (body, rest) ← readSized "section" rest
    let listed ← sectionExports identifier body
    let more ← exports rest
    return listed ++ more) := by
  obtain ⟨identifier, rest, rfl⟩ := List.exists_cons_of_ne_nil h
  rw [exports]
  split
  · rename_i e he
    simp [readByte, bind, Except.bind, he]
  · rename_i body rest' he
    simp only [readByte, bind, Except.bind, he]
    cases sectionExports identifier body with
    | error f => rfl
    | ok listed => cases exports rest' <;> rfl

/-- **A walk over sections** sees what is listed, at three steps for each byte. -/
theorem sees_walk (c : Cursor) (seen : Seen) (n : Nat) :
    Sees seen (n + 3 * c.left.length + 1) (exports c.left) (walk c seen n) := by
  induction hl : c.left.length using Nat.strong_induction_on generalizing c seen n with
  | _ l ih =>
    by_cases hleft : c.left = []
    · rw [hleft, exports, walk_of_left_eq_nil hleft]
      exact sees_nothing (by omega)
    rw [exports_eq c.left hleft, walk_of_left_ne_nil hleft]
    refine (follows_byte c (n + 1)).bind_sees (by omega) fun identifier c₁ n₁ hbyte h₁ => ?_
    refine (follows_sized "section" c₁ n₁).bind_sees (by omega) fun body c₂ n₂ hsized h₂ => ?_
    refine (sees_sectionBody identifier body n₂ seen).bind (by omega) fun listed n₃ h₃ => ?_
    have hone : c₁.left.length < c.left.length := by
      obtain ⟨_, rfl, hc⟩ := (reads_readByte ..).1 hbyte
      rw [hc, List.length_append]
      exact Nat.lt_add_of_pos_left Nat.one_pos
    have hmore := ih c₂.left.length (by have := length_lt_of_readSized hsized; omega) c₂ (seen.add listed) n₃ rfl
    exact hmore.mono (by omega)

end Walk

/-! ### The check -/

/-- The check of a module, as a cursor makes it. -/
def validate (bytes : List UInt8) : Op Nat Unit := do
  if bytes.length < (magic ++ version).length then throw (.invalidModule "module too small")
  else if (← slice bytes 0 4) ≠ magic then throw (.invalidModule "invalid magic number")
  else if (← slice bytes 4 8) ≠ version then throw (.invalidModule "unsupported WASM version")
  else
    let seen ← walk (start (← slice bytes 8 bytes.length)) {}
    if !seen.memory then throw (.missingExport Interface.memoryExport)
    else if !seen.start then throw (.missingExport Interface.startExport)
    else return

lemma left_start (bytes : List UInt8) : (start bytes).left = bytes := rfl

lemma slice_of_le {bytes : List UInt8} {start stop : Nat} (h1 : start ≤ stop) (h2 : stop ≤ bytes.length) :
    slice bytes start stop = .ok ((bytes.drop start).take (stop - start)) := by
  rw [slice, if_pos ⟨h1, h2⟩, List.drop_take]

/-- A module with a preamble is judged by what is seen behind it. -/
lemma validate_of_preamble {bytes : List UInt8} (hlen : (magic ++ version).length ≤ bytes.length)
    (hmagic : bytes.take 4 = magic) (hversion : (bytes.drop 4).take 4 = version) (n : Nat) :
    validate bytes n = (do
      let seen ← walk (start (bytes.drop 8)) {}
      if !seen.memory then throw (.missingExport Interface.memoryExport)
      else if !seen.start then throw (.missingExport Interface.startExport)
      else return : Op Nat Unit) n := by
  have h8 : 8 ≤ bytes.length := hlen
  have hrest : (bytes.drop 8).take (bytes.length - 8) = bytes.drop 8 := List.take_of_length_le (by simp)
  unfold validate
  rw [if_neg (Nat.not_lt.2 hlen), slice_of_le (Nat.zero_le 4) (by omega), Op.lift_ok_bind, List.drop_zero]
  rw [if_neg (not_not_intro hmagic), slice_of_le (by decide) h8, Op.lift_ok_bind, if_neg (not_not_intro hversion),
    slice_of_le h8 (Nat.le_refl _), Op.lift_ok_bind, hrest]

/-- **What a cursor finds** is what the check answers, and it never looks outside the slice it is at. -/
theorem attempt_validate (bytes : List UInt8) :
    ∃ steps ≤ 3 * bytes.length, Op.attempt (validate bytes) 0 = .ok (check bytes) steps := by
  rw [check_eq]
  split_ifs with hsmall hmagic hversion
  · refine ⟨0, Nat.zero_le _, Op.attempt_of_error ?_⟩
    rw [validate, if_pos hsmall]
    rfl
  · refine ⟨0, Nat.zero_le _, Op.attempt_of_error ?_⟩
    have hlen : 8 ≤ bytes.length := Nat.not_lt.1 hsmall
    rw [validate, if_neg hsmall, slice_of_le (Nat.zero_le 4) (by omega), Op.lift_ok_bind, List.drop_zero]
    rw [if_pos hmagic]
    rfl
  · refine ⟨0, Nat.zero_le _, Op.attempt_of_error ?_⟩
    have hlen : 8 ≤ bytes.length := Nat.not_lt.1 hsmall
    rw [validate, if_neg hsmall, slice_of_le (Nat.zero_le 4) (by omega), Op.lift_ok_bind, List.drop_zero]
    rw [if_neg hmagic, slice_of_le (by decide) hlen, Op.lift_ok_bind, if_pos hversion]
    rfl
  · have hlen : 8 ≤ bytes.length := Nat.not_lt.1 hsmall
    have hrun := validate_of_preamble (Nat.not_lt.1 hsmall) (not_not.1 hmagic) (not_not.1 hversion) 0
    have hsees := sees_walk (start (bytes.drop 8)) {} 0
    rw [left_start, List.length_drop] at hsees
    cases hentries : exports (bytes.drop 8) with
    | error f =>
      obtain ⟨m, hwalk, hm⟩ := hsees.error f hentries
      rw [Op.bind_of_error hwalk] at hrun
      exact ⟨m, by omega, Op.attempt_of_error hrun⟩
    | ok entries =>
      obtain ⟨m, hwalk, hm⟩ := hsees.ok entries hentries
      rw [Op.bind_of_ok hwalk] at hrun
      have hmemory : (Seen.add {} entries).memory = decide (memoryEntry ∈ entries) := Bool.false_or _
      have hstart : (Seen.add {} entries).start = decide (startEntry ∈ entries) := Bool.false_or _
      refine ⟨m, by omega, ?_⟩
      change _ = EStateM.Result.ok (demand entries) m
      rw [hmemory, hstart] at hrun
      unfold demand
      by_cases hm : memoryEntry ∈ entries
      · by_cases hs : startEntry ∈ entries
        · simp only [hm, hs, decide_true, Bool.not_true, Bool.false_eq_true, if_false, not_true_eq_false] at hrun ⊢
          exact Op.attempt_of_ok hrun
        · simp only [hm, hs, decide_true, decide_false, Bool.not_true, Bool.not_false, Bool.false_eq_true, if_false,
            if_true, not_true_eq_false, not_false_eq_true] at hrun ⊢
          exact Op.attempt_of_error hrun
      · simp only [hm, decide_false, Bool.not_false, if_true, not_false_eq_true] at hrun ⊢
        exact Op.attempt_of_error hrun

end Cursor

/-- **The check of a module is exact.** It accepts the bytes of a module that exports its memory and its start
function, and no others; it refuses other bytes as no module, and a module for the first of the two that it lacks.
A cursor makes it in no more steps than three for each byte, whatever lengths and counts the bytes declare, and never
looks outside the slice that it is at. -/
theorem check_exact (bytes : List UInt8) :
    (check bytes = .ok () ↔ ∃ entries, WritesModule bytes entries ∧ memoryEntry ∈ entries ∧ startEntry ∈ entries) ∧
    ((∃ reason, check bytes = .error (.invalidModule reason)) ↔ ¬ ∃ entries, WritesModule bytes entries) ∧
    (check bytes = .error (.missingExport Interface.memoryExport) ↔
      ∃ entries, WritesModule bytes entries ∧ memoryEntry ∉ entries) ∧
    (check bytes = .error (.missingExport Interface.startExport) ↔
      ∃ entries, WritesModule bytes entries ∧ memoryEntry ∈ entries ∧ startEntry ∉ entries) ∧
    ∃ steps ≤ 3 * bytes.length, Op.attempt (Cursor.validate bytes) 0 = .ok (check bytes) steps := by
  refine ⟨?_, check_eq_invalid, ?_, ?_, Cursor.attempt_validate bytes⟩
  · exact (check_eq_demand (by simp)).trans (exists_congr fun es => and_congr_right' demand_eq_ok)
  · exact (check_eq_demand (by simp)).trans (exists_congr fun es => and_congr_right' demand_eq_missing_memory)
  · exact (check_eq_demand (by simp)).trans (exists_congr fun es => and_congr_right' demand_eq_missing_start)

end ToolchainHost.Module
