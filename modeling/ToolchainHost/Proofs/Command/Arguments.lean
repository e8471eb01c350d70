import ToolchainHost.Command.Driver
import ToolchainHost.Proofs.Toolchain.Objects

/-!
# The arguments of a driver line

The arguments are scanned from left to right: an `-o` takes the argument after it, whatever this looks like, and every
other argument stands for itself. What a line is sorted into, and whether it is refused, is told by this scan alone.

* `Path.HasExtension`, `Language.ofEnding?`: extensions as endings of paths, and the languages that they tell.
* `DriverLine.scan`: the pieces of a line. `DriverLine.reads_iff`: they are the only reading of it.
* `DriverLine.lineOf`: what pieces are sorted into.
* `DriverLine.takeArgument_lineOf`, `DriverLine.collect_lineOf`: sorting one argument, and sorting all of them.
* `DriverLine.parse_eq`: which refusal a line gets.
* `driverLine_parse_iff`: the lines that are accepted, and what they are sorted into.
-/

namespace ToolchainHost

/-! ### Extensions -/

namespace Path

variable {path x : String}

/-- The path ends in a dot and the extension. -/
def HasExtension (path x : String) : Prop := '.' :: x.toList <:+ path.toList

instance : DecidableRel HasExtension := fun _ _ => inferInstanceAs (Decidable (_ <:+ _))

/-- An extension is what follows the last dot of the base name, so a path ends in it. -/
lemma extension?_eq_some_iff (hdot : '.' ∉ x.toList) (hslash : '/' ∉ x.toList) :
    extension? path = some x ↔ HasExtension path x := by
  constructor
  · intro h
    obtain ⟨name, hname, -⟩ := withExtension_baseName_of_some h x
    refine ⟨(directory path).toList ++ name.toList, ?_⟩
    rw [toList_eq path, hname]
    simp
  · rintro ⟨before, hpath⟩
    have hcut : baseNameChars path.toList = baseNameChars before ++ '.' :: x.toList := by
      rw [← hpath, baseNameChars, baseNameChars, List.reverse_append, List.takeWhile_append_of_pos, List.reverse_append,
        List.reverse_reverse]
      intro c hc
      have hne : c ≠ '/' := by
        rintro rfl
        exact hslash (List.mem_of_ne_of_mem (by decide) (List.mem_reverse.1 hc))
      simpa using hne
    rw [extension?, hcut, Text.splitLast_append hdot, Option.map_some, String.ofList_toList]

end Path

open ToolchainHost.Path (HasExtension IsObject)

namespace Language

variable {path x : String} {language : Language}

/-- The extensions of sources. -/
def extensions : List (String × Language) :=
  [("c", c), ("cc", cxx), ("cpp", cxx), ("cxx", cxx), ("C", cxx), ("py", python)]

lemma ofExtension?_eq_some_iff : ofExtension? x = some language ↔ (x, language) ∈ extensions := by
  unfold ofExtension?
  split <;> simp_all [extensions, eq_comm]

/-- **The language of a path** is that of the extension in which it ends. -/
theorem ofPath?_eq_some_iff :
    ofPath? path = some language ↔ ∃ x, (x, language) ∈ extensions ∧ HasExtension path x := by
  have hplain : ∀ e ∈ extensions, '.' ∉ e.1.toList ∧ '/' ∉ e.1.toList := by decide
  rw [ofPath?, Option.bind_eq_some_iff]
  refine exists_congr fun x => ?_
  rw [ofExtension?_eq_some_iff, and_comm]
  refine and_congr_right fun hmem => ?_
  exact Path.extension?_eq_some_iff (hplain _ hmem).1 (hplain _ hmem).2

lemma ofPath?_eq_python_iff : ofPath? path = some python ↔ HasExtension path "py" := by
  rw [ofPath?_eq_some_iff]
  simp [extensions]

/-- The language of the extension in which a path ends. -/
def ofEnding? (path : String) : Option Language := (extensions.find? fun e => HasExtension path e.1).map Prod.snd

lemma ofPath?_eq_ofEnding? (path : String) : ofPath? path = ofEnding? path := by
  unfold ofEnding?
  cases hfind : extensions.find? fun e => HasExtension path e.1 with
  | none =>
    rw [Option.map_none, Option.eq_none_iff_forall_ne_some]
    intro language h
    obtain ⟨x, hmem, hx⟩ := ofPath?_eq_some_iff.1 h
    exact List.find?_eq_none.1 hfind _ hmem (decide_eq_true hx)
  | some e =>
    have hends := List.find?_some hfind
    exact ofPath?_eq_some_iff.2 ⟨e.1, List.mem_of_find?_eq_some hfind, of_decide_eq_true hends⟩

end Language

namespace Command.DriverLine

variable {fallback : Language} {argument : String}

/-! ### The scan of a line -/

/-- The argument begins with a dash. -/
def IsFlag (argument : String) : Prop := ['-'].isPrefixOf argument.toList = true

instance : DecidablePred IsFlag := fun _ => inferInstanceAs (Decidable (_ = _))

/-- The argument begins with `-O`. -/
def IsLevel (argument : String) : Prop := ['-', 'O'].isPrefixOf argument.toList = true

instance : DecidablePred IsLevel := fun _ => inferInstanceAs (Decidable (_ = _))

lemma IsLevel.isFlag (h : IsLevel argument) : IsFlag argument :=
  List.isPrefixOf_iff_prefix.2 ((List.prefix_append ['-'] ['O']).trans (List.isPrefixOf_iff_prefix.1 h))

/-- What a scan meets. -/
inductive Piece where
  /-- `-o` and the argument that it takes. -/
  | output (path : String)
  /-- `-o` with no argument behind it. -/
  | dangling
  /-- An argument that stands for itself. -/
  | free (argument : String)
  deriving DecidableEq

/-- The arguments of a piece. -/
def Piece.arguments : Piece → List String
  | output path => ["-o", path]
  | dangling => ["-o"]
  | free argument => [argument]

/-- The scan of a line from left to right. -/
def scan : List String → List Piece
  | [] => []
  | "-o" :: [] => [.dangling]
  | "-o" :: path :: rest => .output path :: scan rest
  | argument :: rest => .free argument :: scan rest

/-- The arguments that `-o` takes. -/
def operands (ps : List Piece) : List String :=
  ps.filterMap fun
    | .output path => some path
    | _ => none

/-- The arguments that stand for themselves. -/
def freeArguments (ps : List Piece) : List String :=
  ps.filterMap fun
    | .free argument => some argument
    | _ => none

lemma mem_freeArguments {ps : List Piece} : argument ∈ freeArguments ps ↔ Piece.free argument ∈ ps := by
  rw [freeArguments, List.mem_filterMap]
  constructor
  · rintro ⟨_ | _ | _, hp, heq⟩
    all_goals cases heq
    exact hp
  · exact fun h => ⟨_, h, rfl⟩

/-- A reading of the arguments: no `-o` stands for itself, and none but the last piece is short of its argument. -/
structure Reads (ps : List Piece) (arguments : List String) : Prop where
  all : ps.flatMap Piece.arguments = arguments
  notFree : "-o" ∉ freeArguments ps
  last : .dangling ∉ ps.dropLast

lemma dangling_notMem_dropLast_cons {p : Piece} (hp : p ≠ .dangling) (ps : List Piece) :
    .dangling ∉ (p :: ps).dropLast ↔ .dangling ∉ ps.dropLast := by
  cases ps with
  | nil => exact Iff.rfl
  | cons q qs => simp [hp.symm]

/-- The scan of a line is a reading of it. -/
lemma reads_scan (arguments : List String) : Reads (scan arguments) arguments := by
  fun_induction scan arguments with
  | case1 => exact ⟨rfl, List.not_mem_nil, List.not_mem_nil⟩
  | case2 => exact ⟨rfl, List.not_mem_nil, List.not_mem_nil⟩
  | case3 path rest ih =>
    have hlast := (dangling_notMem_dropLast_cons (p := .output path) nofun _).2 ih.last
    exact ⟨congrArg ("-o" :: path :: ·) ih.all, ih.notFree, hlast⟩
  | case4 argument rest h1 h2 ih =>
    have hne : argument ≠ "-o" := by
      cases rest with
      | nil => exact fun he => h1 he rfl
      | cons path rest => exact fun he => h2 path rest he rfl
    have hlast := (dangling_notMem_dropLast_cons (p := .free argument) nofun _).2 ih.last
    exact ⟨congrArg (argument :: ·) ih.all, List.not_mem_cons_of_ne_of_not_mem hne.symm ih.notFree, hlast⟩

lemma scan_cons_of_ne (h : argument ≠ "-o") (rest : List String) :
    scan (argument :: rest) = .free argument :: scan rest := by
  rw [scan]
  · exact fun he => absurd he h
  · exact fun _ _ he => absurd he h

lemma scan_flatMap {ps : List Piece} (hfree : "-o" ∉ freeArguments ps) (hlast : .dangling ∉ ps.dropLast) :
    scan (ps.flatMap Piece.arguments) = ps := by
  induction ps with
  | nil => rfl
  | cons p ps ih =>
    cases p with
    | output path =>
      have hlast := (dangling_notMem_dropLast_cons (p := .output path) nofun _).1 hlast
      exact congrArg (Piece.output path :: ·) (ih hfree hlast)
    | dangling =>
      cases ps with
      | nil => rfl
      | cons => exact absurd List.mem_cons_self hlast
    | free argument =>
      obtain ⟨hne, hrest⟩ := not_or.1 (mt List.mem_cons.2 hfree)
      have hlast := (dangling_notMem_dropLast_cons (p := .free argument) nofun _).1 hlast
      exact (scan_cons_of_ne (Ne.symm hne) _).trans (congrArg (Piece.free argument :: ·) (ih hrest hlast))

/-- **The scan of a line is its only reading.** -/
theorem reads_iff {ps : List Piece} {arguments : List String} : Reads ps arguments ↔ ps = scan arguments := by
  constructor
  · rintro ⟨rfl, hfree, hlast⟩
    exact (scan_flatMap hfree hlast).symm
  · rintro rfl
    exact reads_scan arguments

/-- The free arguments that are no flags. -/
def freeInputs (ps : List Piece) : List String := (freeArguments ps).filter (¬ IsFlag ·)

/-- The inputs that are compiled. -/
def sourcesOf (ps : List Piece) : List String := (freeInputs ps).filter (¬ IsObject ·)

/-- Several sources are compiled to objects, and an output is named for them. -/
def AsksMany (ps : List Piece) : Prop :=
  "-c" ∈ freeArguments ps ∧ operands ps ≠ [] ∧ 1 < (sourcesOf ps).length

instance : DecidablePred AsksMany := fun _ => inferInstanceAs (Decidable (_ ∧ _))

/-- The language of a source: that of its extension, or else the fallback. -/
def languageOf (fallback : Language) (source : String) : Language := (Language.ofEnding? source).getD fallback

lemma getD_ofPath? (fallback : Language) (source : String) :
    (Language.ofPath? source).getD fallback = languageOf fallback source := by
  rw [Language.ofPath?_eq_ofEnding?, languageOf]

/-- The line that pieces are sorted into. -/
def lineOf (fallback : Language) (ps : List Piece) : DriverLine where
  compileOnly := "-c" ∈ freeArguments ps
  output := (operands ps).getLast?
  optLevel := ((freeArguments ps).filter IsLevel).getLast?.map fun level => String.ofList (level.toList.drop 2)
  sources := (sourcesOf ps).map fun source => (source, languageOf fallback source)
  objects := (freeInputs ps).filter IsObject

/-- Why a piece is refused. -/
def Piece.refusal? (fallback : Language) : Piece → Option DriverError
  | output _ => none
  | dangling => some .missingOutput
  | free argument =>
    if argument = "-c" ∨ IsLevel argument then none
    else if IsFlag argument then some (.unsupportedFlag argument)
    else if IsObject argument ∨ languageOf fallback argument ≠ .python then none
    else some (.notCompiled argument)

/-! ### Sorting -/

section Steps

variable (fallback : Language) (ps : List Piece)

@[simp] lemma operands_append_output (path : String) : operands (ps ++ [.output path]) = operands ps ++ [path] :=
  List.filterMap_append

@[simp] lemma freeArguments_append_output (path : String) : freeArguments (ps ++ [.output path]) = freeArguments ps :=
  List.filterMap_append.trans (List.append_nil _)

@[simp] lemma operands_append_free (argument : String) : operands (ps ++ [.free argument]) = operands ps :=
  List.filterMap_append.trans (List.append_nil _)

@[simp] lemma freeArguments_append_free (argument : String) :
    freeArguments (ps ++ [.free argument]) = freeArguments ps ++ [argument] :=
  List.filterMap_append

lemma lineOf_append_output (path : String) :
    lineOf fallback (ps ++ [.output path]) = { lineOf fallback ps with output := some path } := by
  unfold lineOf sourcesOf freeInputs
  rw [operands_append_output, freeArguments_append_output, List.getLast?_concat]

lemma lineOf_append_compile :
    lineOf fallback (ps ++ [.free "-c"]) = { lineOf fallback ps with compileOnly := true } := by
  have hflag : IsFlag "-c" := by decide
  have hlevel : ¬ IsLevel "-c" := by decide
  simp [lineOf, sourcesOf, freeInputs, hflag, hlevel]

lemma lineOf_append_level (h : IsLevel argument) (hc : argument ≠ "-c") :
    lineOf fallback (ps ++ [.free argument]) =
      { lineOf fallback ps with optLevel := some (String.ofList (argument.toList.drop 2)) } := by
  simp [lineOf, sourcesOf, freeInputs, h, h.isFlag, hc.symm]

lemma ne_compile (h : ¬ IsFlag argument) : "-c" ≠ argument := by
  rintro rfl
  exact h (by decide)

lemma lineOf_append_object (h : ¬ IsFlag argument) (ho : IsObject argument) :
    lineOf fallback (ps ++ [.free argument]) =
      { lineOf fallback ps with objects := (lineOf fallback ps).objects ++ [argument] } := by
  have hlevel : ¬ IsLevel argument := fun hl => h hl.isFlag
  simp [lineOf, sourcesOf, freeInputs, h, hlevel, ho, ne_compile h]

lemma lineOf_append_source (h : ¬ IsFlag argument) (ho : ¬ IsObject argument) :
    lineOf fallback (ps ++ [.free argument]) =
      { lineOf fallback ps with
        sources := (lineOf fallback ps).sources ++ [(argument, languageOf fallback argument)] } := by
  have hlevel : ¬ IsLevel argument := fun hl => h hl.isFlag
  simp [lineOf, sourcesOf, freeInputs, h, hlevel, ho, ne_compile h]

end Steps

/-- **Sorting one argument.** Behind some pieces, a free argument is refused, or it is sorted in its turn. -/
theorem takeArgument_lineOf (fallback : Language) (ps : List Piece) (argument : String) :
    takeArgument fallback (lineOf fallback ps) argument =
      match Piece.refusal? fallback (.free argument) with
      | some e => .error e
      | none => .ok (lineOf fallback (ps ++ [.free argument])) := by
  unfold takeArgument
  rw [getD_ofPath?]
  split_ifs with hc hl hf ho
  · have hr : Piece.refusal? fallback (.free argument) = none := if_pos (.inl hc)
    rw [hr, hc, lineOf_append_compile]
  · have hr : Piece.refusal? fallback (.free argument) = none := if_pos (.inr hl)
    rw [hr, lineOf_append_level _ _ hl hc]
  · have hr : Piece.refusal? fallback (.free argument) = some (.unsupportedFlag argument) :=
      (if_neg (not_or.2 ⟨hc, hl⟩)).trans (if_pos hf)
    rw [hr]
  · have hr : Piece.refusal? fallback (.free argument) = none :=
      (if_neg (not_or.2 ⟨hc, hl⟩)).trans ((if_neg hf).trans (if_pos (.inl ho)))
    rw [hr, lineOf_append_object _ _ hf ho]
  · have hinput : Piece.refusal? fallback (.free argument) =
        if IsObject argument ∨ languageOf fallback argument ≠ .python then none else some (.notCompiled argument) :=
      (if_neg (not_or.2 ⟨hc, hl⟩)).trans (if_neg hf)
    by_cases hp : languageOf fallback argument = .python
    · rw [hinput.trans (if_neg (not_or.2 ⟨ho, not_not.2 hp⟩))]
      exact if_pos hp
    · rw [hinput.trans (if_pos (.inr hp)), lineOf_append_source _ _ hf ho]
      exact if_neg hp

/-- **Sorting all arguments.** Behind some pieces, the scan is refused for its first piece that is, or it is sorted. -/
theorem collect_lineOf (fallback : Language) (ps : List Piece) (arguments : List String) :
    collect fallback (lineOf fallback ps) arguments =
      match (scan arguments).findSome? (Piece.refusal? fallback) with
      | some e => .error e
      | none => .ok (lineOf fallback (ps ++ scan arguments)) := by
  -- `collect` cuts the arguments where the scan does, and `ps` is what was cut off before
  fun_induction scan arguments generalizing ps with
  | case1 =>
    rw [List.append_nil]
    rfl
  | case2 => rfl
  | case3 path rest ih =>
    rw [collect, ← lineOf_append_output, ih, List.append_assoc]
    rfl
  | case4 argument rest h1 h2 ih =>
    rw [collect, takeArgument_lineOf, List.findSome?_cons]
    · cases Piece.refusal? fallback (.free argument) with
      | some e => rfl
      | none =>
        dsimp only
        rw [ih, List.append_assoc]
        rfl
    · exact h1
    · exact h2

/-! ### Lines that are accepted -/

lemma lineOf_isEmpty (fallback : Language) (ps : List Piece) :
    ((lineOf fallback ps).sources.isEmpty && (lineOf fallback ps).objects.isEmpty) = true ↔ freeInputs ps = [] := by
  rw [Bool.and_eq_true, List.isEmpty_iff, List.isEmpty_iff]
  constructor
  · rintro ⟨hs, ho⟩
    rw [lineOf, List.map_eq_nil_iff, sourcesOf, List.filter_eq_nil_iff] at hs
    rw [lineOf, List.filter_eq_nil_iff] at ho
    refine List.eq_nil_iff_forall_not_mem.2 fun input hinput => ?_
    exact hs input hinput (decide_eq_true fun hobject => ho input hinput (decide_eq_true hobject))
  · intro h
    rw [lineOf, sourcesOf, h]
    exact ⟨rfl, rfl⟩

lemma lineOf_asksMany (fallback : Language) (ps : List Piece) :
    ((lineOf fallback ps).compileOnly && (lineOf fallback ps).output.isSome &&
      decide (1 < (lineOf fallback ps).sources.length)) = true ↔ AsksMany ps := by
  simp [lineOf, AsksMany, and_assoc, Option.isSome_iff_ne_none]

/-- **Which refusal a line gets:** that of the first piece that has one, and else that of the line as a whole. -/
theorem parse_eq (fallback : Language) (arguments : List String) :
    parse fallback arguments =
      match (scan arguments).findSome? (Piece.refusal? fallback) with
      | some e => .error e
      | none =>
        if freeInputs (scan arguments) = [] then .error .noInput
        else if AsksMany (scan arguments) then .error .outputForMany
        else .ok (lineOf fallback (scan arguments)) := by
  have hcollect : collect fallback {} arguments = _ := collect_lineOf fallback [] arguments
  unfold parse
  rw [hcollect]
  cases (scan arguments).findSome? (Piece.refusal? fallback) with
  | some e => rfl
  | none =>
    dsimp only [List.nil_append, bind, Except.bind]
    simp only [lineOf_isEmpty, lineOf_asksMany]
    by_cases hempty : freeInputs (scan arguments) = []
    · rw [if_pos hempty, if_pos hempty]
      rfl
    · rw [if_neg hempty, if_neg hempty]
      by_cases hmany : AsksMany (scan arguments)
      · rw [if_pos hmany, if_pos hmany]
        rfl
      · rw [if_neg hmany, if_neg hmany]
        rfl

/-- Unless it is the fallback, Python is told by its extension alone. -/
lemma languageOf_eq_python_iff (hf : fallback ≠ .python) :
    languageOf fallback argument = .python ↔ HasExtension argument "py" := by
  rw [← Language.ofPath?_eq_python_iff, ← getD_ofPath?]
  cases Language.ofPath? argument with
  | none => exact iff_of_false hf nofun
  | some language => exact Option.some_inj.symm

/-- The line of some pieces is accepted: every `-o` has an argument to take, the flags are known, there are inputs, none
of them is a Python source, and no output is named for several sources. -/
structure Accepted (ps : List Piece) : Prop where
  taken : .dangling ∉ ps
  known : ∀ argument ∈ freeArguments ps, IsFlag argument → argument = "-c" ∨ IsLevel argument
  compiled : ∀ input ∈ freeInputs ps, ¬ IsObject input → ¬ HasExtension input "py"
  given : freeInputs ps ≠ []
  single : ¬ AsksMany ps

lemma refusal?_free_eq_none_iff (hf : fallback ≠ .python) :
    Piece.refusal? fallback (.free argument) = none ↔
      (IsFlag argument → argument = "-c" ∨ IsLevel argument) ∧
      (¬ IsFlag argument → ¬ IsObject argument → ¬ HasExtension argument "py") := by
  by_cases hk : argument = "-c" ∨ IsLevel argument
  · have hflag : IsFlag argument := by
      rcases hk with rfl | hl
      · decide
      · exact hl.isFlag
    simp [Piece.refusal?, hk, hflag]
  · by_cases hflag : IsFlag argument
    · simp [Piece.refusal?, hk, hflag]
    · simp [Piece.refusal?, hk, hflag, languageOf_eq_python_iff hf, or_iff_not_imp_left]

/-- No piece is refused exactly if the first three conditions of `Accepted` hold. -/
lemma findSome?_refusal?_eq_none_iff (hf : fallback ≠ .python) (ps : List Piece) :
    ps.findSome? (Piece.refusal? fallback) = none ↔
      .dangling ∉ ps ∧ (∀ argument ∈ freeArguments ps, IsFlag argument → argument = "-c" ∨ IsLevel argument) ∧
      ∀ input ∈ freeInputs ps, ¬ IsObject input → ¬ HasExtension input "py" := by
  rw [List.findSome?_eq_none_iff]
  constructor
  · intro h
    have hfree (argument : String) (ha : argument ∈ freeArguments ps) :=
      (refusal?_free_eq_none_iff hf).1 (h _ (mem_freeArguments.1 ha))
    refine ⟨fun hd => (nomatch h _ hd), fun argument ha => (hfree argument ha).1, fun input hi => ?_⟩
    obtain ⟨ha, hflag⟩ := List.mem_filter.1 hi
    exact (hfree input ha).2 (of_decide_eq_true hflag)
  · rintro ⟨hd, hflag, hinput⟩ piece hpiece
    cases piece with
    | output path => rfl
    | dangling => exact absurd hpiece hd
    | free argument =>
      have ha := mem_freeArguments.2 hpiece
      refine (refusal?_free_eq_none_iff hf).2 ⟨hflag argument ha, fun hn => hinput argument ?_⟩
      exact List.mem_filter.2 ⟨ha, decide_eq_true hn⟩

end Command.DriverLine

open Command Command.DriverLine

/-- **A driver line accounts for every argument.** The scan is the only way to cut the arguments into those that `-o`
takes and those that stand for themselves. The line is sorted iff no `-o` comes last, the free arguments with a dash
are `-c` or begin with `-O`, there are inputs, those that are no objects do not end in `.py`, and no output is named
for several sources that are compiled only. Then its objects are the inputs that end in `.o`, its sources the others in
turn, each with the language of its extension or else the fallback; the last `-o` names the output, and the last `-O`
the level. -/
theorem driverLine_parse_iff {fallback : Language} (hf : fallback ≠ .python) (arguments : List String) :
    (∀ ps, Reads ps arguments ↔ ps = scan arguments) ∧
      ∀ line, parse fallback arguments = .ok line ↔
        Accepted (scan arguments) ∧ line = lineOf fallback (scan arguments) := by
  refine ⟨fun _ => reads_iff, fun line => ?_⟩
  have hnone := findSome?_refusal?_eq_none_iff hf (scan arguments)
  rw [parse_eq]
  cases hr : (scan arguments).findSome? (Piece.refusal? fallback) with
  | some e =>
    refine iff_of_false nofun fun h => ?_
    rw [hr] at hnone
    exact nomatch hnone.2 ⟨h.1.taken, h.1.known, h.1.compiled⟩
  | none =>
    obtain ⟨htaken, hknown, hcompiled⟩ := hnone.1 hr
    dsimp only
    split_ifs with hempty hmany
    · exact iff_of_false nofun fun h => h.1.given hempty
    · exact iff_of_false nofun fun h => h.1.single hmany
    · rw [Except.ok.injEq, eq_comm, iff_and_self]
      exact fun _ => ⟨htaken, hknown, hcompiled, hempty, hmany⟩

/-- An `-o` that takes a flag, and an object with another extension in front of its own. -/
theorem driverLine_parse_iff_flag_taken : parse .cxx ["-O3", "main.c", "-o", "-c", "-O", "lib.py.o", "b.C", "c"] =
    .ok { output := some "-c", optLevel := some "", sources := [("main.c", .c), ("b.C", .cxx), ("c", .cxx)]
          objects := ["lib.py.o"] } := by
  have hcxx : Language.cxx ≠ .python := by decide
  have hline := (driverLine_parse_iff hcxx
    ["-O3", "main.c", "-o", "-c", "-O", "lib.py.o", "b.C", "c"]).2
  refine (hline _).2 ⟨⟨?_, ?_, ?_, ?_, ?_⟩, ?_⟩
  all_goals decide

end ToolchainHost
