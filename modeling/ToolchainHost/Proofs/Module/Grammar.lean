import ToolchainHost.Module.Check
import ToolchainHost.Proofs.Module.Words

/-!
# The grammar of modules

What the check of a module accepts, told without a reader.

* `WritesExport`, `WritesBody`, `WritesSections`, `WritesModule`: the bytes of one export, of a body, of sections and
  of a module, each with the exports that they list.
* `exports_eq_ok`: the sections that are read are those that the grammar allows.
* `check_eq_demand`, `check_eq_invalid`: what the check answers to a module and to other bytes.
-/

namespace ToolchainHost.Module

variable {bytes body rest : List UInt8} {entry : Export} {entries : List Export} {identifier : UInt8} {f : Failure}
  {count : Nat}

/-! ### One export -/

/-- The bytes of an export: its name with its length, its kind and an index, which nobody asks for. -/
inductive WritesExport : List UInt8 → Export → Prop
  | mk {name index : List UInt8} {entry : Export} {i : Nat} (hn : WritesSized name entry.name)
      (hi : WritesWord index i) : WritesExport (name ++ entry.kind :: index) entry

/-- **Exports are read exactly.** -/
theorem reads_readExport : Reads readExport WritesExport := by
  intro bytes entry rest
  unfold readExport
  rw [bind_eq_ok]
  constructor
  · rintro ⟨⟨name, afterName⟩, hname, h⟩
    obtain ⟨⟨kind, afterKind⟩, hkind, h⟩ := bind_eq_ok.1 h
    obtain ⟨⟨i, afterIndex⟩, hindex, h⟩ := bind_eq_ok.1 h
    cases h
    obtain ⟨written, hn, rfl⟩ := (reads_readSized ..).1 hname
    obtain ⟨_, rfl, rfl⟩ := (reads_readByte ..).1 hkind
    obtain ⟨index, hi, rfl⟩ := (reads_readWord ..).1 hindex
    have hw : WritesExport (written ++ kind :: index) ⟨name, kind⟩ :=
      @WritesExport.mk written index ⟨name, kind⟩ i hn hi
    exact ⟨written ++ kind :: index, hw, by simp⟩
  · rintro ⟨used, ⟨hn, hi⟩, rfl⟩
    rename_i name index i
    refine ⟨(entry.name, entry.kind :: (index ++ rest)), (reads_readSized ..).2 ⟨name, hn, by simp⟩, ?_⟩
    refine bind_eq_ok.2 ⟨(entry.kind, index ++ rest), rfl, ?_⟩
    exact bind_eq_ok.2 ⟨(i, rest), (reads_readWord ..).2 ⟨index, hi, rfl⟩, rfl⟩

lemma strict_readExport : Strict readExport := by
  intro bytes f h
  unfold readExport at h
  rcases bind_eq_error.1 h with h | ⟨found, -, h⟩
  · exact strict_readSized _ _ _ h
  rcases bind_eq_error.1 h with h | ⟨found, -, h⟩
  · exact strict_readByte _ _ h
  rcases bind_eq_error.1 h with h | ⟨found, -, h⟩
  · exact strict_readWord _ _ h
  · cases h

/-! ### Many exports -/

/-- The bytes of exports one after the other. -/
inductive WritesExports : List UInt8 → List Export → Prop
  | nil : WritesExports [] []
  | cons {used rest : List UInt8} {entry : Export} {entries : List Export} (h : WritesExport used entry)
      (hr : WritesExports rest entries) : WritesExports (used ++ rest) (entry :: entries)

lemma readExports_eq_ok : readExports count bytes = .ok entries ↔
    ∃ used trailing, WritesExports used entries ∧ entries.length = count ∧ bytes = used ++ trailing := by
  induction count generalizing bytes entries with
  | zero =>
    constructor
    · rintro ⟨⟩
      exact ⟨[], bytes, .nil, rfl, rfl⟩
    · rintro ⟨used, trailing, -, hlen, -⟩
      rw [List.eq_nil_of_length_eq_zero hlen]
      rfl
  | succ count ih =>
    rw [readExports]
    constructor
    · intro h
      cases hone : readExport bytes with
      | error f =>
        rw [hone] at h
        cases h
      | ok found =>
        obtain ⟨entry, after⟩ := found
        rw [hone] at h
        dsimp only at h
        cases hmore : readExports count after with
        | error f =>
          rw [hmore] at h
          cases h
        | ok more =>
          rw [hmore] at h
          cases h
          obtain ⟨first, hfirst, rfl⟩ := (reads_readExport ..).1 hone
          obtain ⟨used, trailing, hw, rfl, rfl⟩ := ih.1 hmore
          exact ⟨first ++ used, trailing, .cons hfirst hw, rfl, by rw [List.append_assoc]⟩
    · rintro ⟨used, trailing, hw, hlen, rfl⟩
      cases hw with
      | nil => cases hlen
      | @cons first used entry more hfirst hw =>
        have hmore := ih.2 ⟨used, trailing, hw, Nat.succ.inj hlen, rfl⟩
        rw [(reads_readExport ..).2 ⟨first, hfirst, List.append_assoc ..⟩]
        dsimp only
        rw [hmore]

lemma refuses_of_readExports (h : readExports count bytes = .error f) : Refuses f := by
  induction count generalizing bytes with
  | zero => cases h
  | succ count ih =>
    rw [readExports] at h
    cases hone : readExport bytes with
    | error e =>
      rw [hone] at h
      cases h
      exact strict_readExport _ _ hone
    | ok found =>
      rw [hone] at h
      dsimp only at h
      cases hmore : readExports count found.2 with
      | error e =>
        rw [hmore] at h
        cases h
        exact ih hmore
      | ok more =>
        rw [hmore] at h
        cases h

/-! ### Sections -/

/-- The body of a section, with the exports that it lists: an export section is empty, or it counts its exports, and
bytes may be behind them. -/
inductive WritesBody (identifier : UInt8) : List UInt8 → List Export → Prop
  | other (h : identifier ≠ exportSection) (body : List UInt8) : WritesBody identifier body []
  | empty (h : identifier = exportSection) : WritesBody identifier [] []
  | listed {counted used : List UInt8} {entries : List Export} (h : identifier = exportSection)
      (hc : WritesWord counted entries.length) (hw : WritesExports used entries) (trailing : List UInt8) :
      WritesBody identifier (counted ++ (used ++ trailing)) entries

lemma sectionExports_eq_ok : sectionExports identifier body = .ok entries ↔ WritesBody identifier body entries := by
  rw [sectionExports]
  constructor
  · intro h
    split_ifs at h with hskip
    · cases h
      by_cases hid : identifier = exportSection
      · rw [hskip.resolve_left (not_not_intro hid)]
        exact .empty hid
      · exact .other hid body
    · obtain ⟨hid, -⟩ := not_or.1 hskip
      cases hcount : readWord body with
      | error f =>
        rw [hcount] at h
        cases h
      | ok found =>
        rw [hcount] at h
        obtain ⟨counted, hc, hbody⟩ := (reads_readWord _ found.1 found.2).1 hcount
        obtain ⟨used, trailing, hw, hlen, hrest⟩ := readExports_eq_ok.1 h
        rw [hbody, hrest]
        exact .listed (not_not.1 hid) (hlen ▸ hc) hw trailing
  · rintro (⟨hid, body⟩ | hid | ⟨hid, hc, hw, trailing⟩)
    · rw [if_pos (Or.inl hid)]
    · rw [if_pos (Or.inr rfl)]
    · rename_i counted used
      have hne : counted ++ (used ++ trailing) ≠ [] :=
        List.append_ne_nil_of_left_ne_nil (writesWord_iff.1 hc).ne_nil _
      rw [if_neg (not_or.2 ⟨not_not_intro hid, hne⟩), (reads_readWord ..).2 ⟨counted, hc, rfl⟩]
      exact readExports_eq_ok.2 ⟨used, trailing, hw, rfl, rfl⟩

lemma refuses_of_sectionExports (h : sectionExports identifier body = .error f) : Refuses f := by
  rw [sectionExports] at h
  split_ifs at h
  cases hcount : readWord body with
  | error e =>
    rw [hcount] at h
    cases h
    exact strict_readWord _ _ hcount
  | ok found =>
    rw [hcount] at h
    exact refuses_of_readExports h

/-- The bytes of sections one after the other, with the exports that they list. -/
inductive WritesSections : List UInt8 → List Export → Prop
  | nil : WritesSections [] []
  | cons {written body rest : List UInt8} {entries more : List Export} (identifier : UInt8)
      (h : WritesSized written body) (hb : WritesBody identifier body entries) (hr : WritesSections rest more) :
      WritesSections (identifier :: (written ++ rest)) (entries ++ more)

/-- **Sections are read exactly.** -/
theorem exports_eq_ok : exports bytes = .ok entries ↔ WritesSections bytes entries := by
  constructor
  · intro h
    induction hn : bytes.length using Nat.strong_induction_on generalizing bytes entries with
    | _ n ih =>
      cases bytes with
      | nil =>
        rw [exports] at h
        cases h
        exact .nil
      | cons identifier bytes =>
        rw [exports] at h
        split at h
        · cases h
        · rename_i body rest hsized
          cases hbody : sectionExports identifier body with
          | error f =>
            rw [hbody] at h
            cases h
          | ok listed =>
            rw [hbody] at h
            dsimp only at h
            cases hmore : exports rest with
            | error f =>
              rw [hmore] at h
              cases h
            | ok more =>
              rw [hmore] at h
              cases h
              have hlt := length_lt_of_readSized hsized
              have hrest := ih rest.length (by rw [← hn, List.length_cons]; omega) hmore rfl
              obtain ⟨written, hw, rfl⟩ := (reads_readSized ..).1 hsized
              exact .cons identifier hw (sectionExports_eq_ok.1 hbody) hrest
  · intro h
    induction h with
    | nil => rw [exports]
    | @cons written body rest listed more identifier hw hb hr ih =>
      have hsized := (reads_readSized "section" (written ++ rest) body rest).2 ⟨written, hw, rfl⟩
      rw [exports]
      split
      · rename_i e he
        cases hsized.symm.trans he
      · rename_i body' rest' he
        cases hsized.symm.trans he
        rw [sectionExports_eq_ok.2 hb]
        dsimp only
        rw [ih]

theorem refuses_of_exports (h : exports bytes = .error f) : Refuses f := by
  induction hn : bytes.length using Nat.strong_induction_on generalizing bytes with
  | _ n ih =>
    cases bytes with
    | nil =>
      rw [exports] at h
      cases h
    | cons identifier bytes =>
      rw [exports] at h
      split at h
      · rename_i e hsized
        cases h
        exact strict_readSized _ _ _ hsized
      · rename_i body rest hsized
        cases hbody : sectionExports identifier body with
        | error e =>
          rw [hbody] at h
          cases h
          exact refuses_of_sectionExports hbody
        | ok listed =>
          rw [hbody] at h
          dsimp only at h
          cases hmore : exports rest with
          | error e =>
            rw [hmore] at h
            cases h
            have hlt := length_lt_of_readSized hsized
            exact ih rest.length (by rw [← hn, List.length_cons]; omega) hmore rfl
          | ok more =>
            rw [hmore] at h
            cases h

/-! ### Modules -/

/-- **The bytes of a module**: the preamble and sections with nothing left over, with the exports that they list. -/
def WritesModule (bytes : List UInt8) (entries : List Export) : Prop :=
  ∃ sections, bytes = magic ++ (version ++ sections) ∧ WritesSections sections entries

/-- What is asked of the exports of a module. -/
def demand (entries : List Export) : Except Failure Unit :=
  if memoryEntry ∉ entries then .error (.missingExport Interface.memoryExport)
  else if startEntry ∉ entries then .error (.missingExport Interface.startExport)
  else .ok ()

section Demand

variable {entries : List Export}

lemma demand_eq_ok : demand entries = .ok () ↔ memoryEntry ∈ entries ∧ startEntry ∈ entries := by
  unfold demand
  split_ifs <;> simp_all

lemma demand_eq_missing_memory :
    demand entries = .error (.missingExport Interface.memoryExport) ↔ memoryEntry ∉ entries := by
  have hne : Interface.startExport ≠ Interface.memoryExport := by decide
  unfold demand
  split_ifs <;> simp_all

lemma demand_eq_missing_start :
    demand entries = .error (.missingExport Interface.startExport) ↔ memoryEntry ∈ entries ∧ startEntry ∉ entries := by
  have hne : Interface.memoryExport ≠ Interface.startExport := by decide
  unfold demand
  split_ifs <;> simp_all

lemma demand_ne_invalid (reason : String) : demand entries ≠ .error (.invalidModule reason) := by
  unfold demand
  split_ifs <;> simp

end Demand

/-- The check, one question after the other. -/
lemma check_eq (bytes : List UInt8) : check bytes =
    if bytes.length < (magic ++ version).length then invalid "module too small"
    else if bytes.take 4 ≠ magic then invalid "invalid magic number"
    else if (bytes.drop 4).take 4 ≠ version then invalid "unsupported WASM version"
    else exports (bytes.drop 8) >>= demand := by
  unfold check
  by_cases hsmall : bytes.length < (magic ++ version).length
  · rw [if_pos hsmall, if_pos hsmall]
    rfl
  by_cases hmagic : bytes.take 4 ≠ magic
  · rw [if_neg hsmall, if_neg hsmall, if_pos hmagic, if_pos hmagic]
    rfl
  by_cases hversion : (bytes.drop 4).take 4 ≠ version
  · rw [if_neg hsmall, if_neg hsmall, if_neg hmagic, if_neg hmagic, if_pos hversion, if_pos hversion]
    rfl
  rw [if_neg hsmall, if_neg hsmall, if_neg hmagic, if_neg hmagic, if_neg hversion, if_neg hversion]
  cases exports (bytes.drop 8) with
  | error f => rfl
  | ok entries =>
    change (if memoryEntry ∉ entries then _ else if startEntry ∉ entries then _ else _) = demand entries
    unfold demand
    split_ifs <;> rfl

/-- The check finds no preamble, or asks what it must of the exports behind it. -/
lemma check_cases (bytes : List UInt8) :
    (∃ reason, check bytes = .error (.invalidModule reason)) ∧ (∀ sections, bytes ≠ magic ++ (version ++ sections)) ∨
      ∃ sections, bytes = magic ++ (version ++ sections) ∧ check bytes = exports sections >>= demand := by
  rw [check_eq]
  split_ifs with hsmall hmagic hversion
  · refine Or.inl ⟨⟨_, rfl⟩, ?_⟩
    rintro sections rfl
    simp only [List.length_append] at hsmall
    omega
  · refine Or.inl ⟨⟨_, rfl⟩, ?_⟩
    rintro sections rfl
    exact hmagic rfl
  · refine Or.inl ⟨⟨_, rfl⟩, ?_⟩
    rintro sections rfl
    exact hversion rfl
  · refine Or.inr ⟨bytes.drop 8, ?_, rfl⟩
    rw [← not_not.1 hmagic, ← not_not.1 hversion, ← List.drop_drop (i := 4) (j := 4), List.take_append_drop,
      List.take_append_drop]

/-- A module that is written reads as what it lists. -/
lemma WritesModule.check_eq {entries : List Export} (h : WritesModule bytes entries) : check bytes = demand entries := by
  obtain ⟨sections, rfl, hs⟩ := h
  rcases check_cases (magic ++ (version ++ sections)) with ⟨-, hno⟩ | ⟨sections', heq, hcheck⟩
  · exact absurd rfl (hno sections)
  · obtain rfl : sections = sections' := List.append_cancel_left (List.append_cancel_left heq)
    rw [hcheck, exports_eq_ok.2 hs]
    rfl

/-- Bytes are those of a module, or they are refused as none. -/
lemma writesModule_or_refused (bytes : List UInt8) :
    (∃ entries, WritesModule bytes entries) ∨
      (¬ ∃ entries, WritesModule bytes entries) ∧ ∃ reason, check bytes = .error (.invalidModule reason) := by
  rcases check_cases bytes with ⟨hrefused, hno⟩ | ⟨sections, rfl, hcheck⟩
  · refine Or.inr ⟨?_, hrefused⟩
    rintro ⟨entries, sections, heq, -⟩
    exact hno sections heq
  · cases hs : exports sections with
    | ok entries => exact Or.inl ⟨entries, sections, rfl, exports_eq_ok.1 hs⟩
    | error f =>
      obtain ⟨reason, rfl⟩ := refuses_of_exports hs
      refine Or.inr ⟨?_, reason, by rw [hcheck, hs]; rfl⟩
      rintro ⟨entries, sections', heq, hw⟩
      obtain rfl : sections = sections' := List.append_cancel_left (List.append_cancel_left heq)
      cases hs.symm.trans (exports_eq_ok.2 hw)

/-- What the check answers to a module, other than that it is none. -/
lemma check_eq_demand {r : Except Failure Unit} (hr : ∀ reason, r ≠ .error (.invalidModule reason)) :
    check bytes = r ↔ ∃ entries, WritesModule bytes entries ∧ demand entries = r := by
  constructor
  · intro h
    rcases writesModule_or_refused bytes with ⟨entries, hw⟩ | ⟨-, reason, hinvalid⟩
    · exact ⟨entries, hw, hw.check_eq.symm.trans h⟩
    · exact absurd (h.symm.trans hinvalid) (hr reason)
  · rintro ⟨entries, hw, rfl⟩
    exact hw.check_eq

theorem check_eq_invalid :
    (∃ reason, check bytes = .error (.invalidModule reason)) ↔ ¬ ∃ entries, WritesModule bytes entries := by
  rcases writesModule_or_refused bytes with ⟨entries, hw⟩ | ⟨hno, hinvalid⟩
  · refine iff_of_false ?_ (not_not_intro ⟨entries, hw⟩)
    rintro ⟨reason, h⟩
    exact demand_ne_invalid reason (hw.check_eq.symm.trans h)
  · exact iff_of_true hinvalid hno

end ToolchainHost.Module
