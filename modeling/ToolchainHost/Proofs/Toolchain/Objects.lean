import ToolchainHost.Proofs.Path
import ToolchainHost.Proofs.Stems
import ToolchainHost.Proofs.Toolchain.Artifacts

/-!
# The objects of a driver line

Every input of a line is linked as one object: a given object as it is, a source as what its front end leaves. Objects
are named after the inputs, so inputs that differ in their extension only meet in one object.

* `Path.bare`, `Path.linked`: an input without its extension, and the object that it is linked as.
* `Path.storedPath_linked`: which objects are one node.
* `Relay`: front ends that run one after the other.
* `Relay.untouched`, `Relay.last`, `Relay.kept`: what they leave behind.
* `drive_links`: the objects that a line links, and what they hold.
-/

namespace ToolchainHost

open FileSystem (storedPath)

/-! ### Names of objects -/

namespace Path

variable {a b input path : String} {cs : List Char}

/-- The path names an object. -/
def IsObject (path : String) : Prop := ['.', 'o'].isSuffixOf path.toList = true

instance : DecidablePred IsObject := fun _ => inferInstanceAs (Decidable (_ = _))

/-- The characters of an input of a driver line without its extension. -/
def bare (input : String) : List Char :=
  if IsObject input then input.toList.take (input.toList.length - 2) else stem input

/-- The object that an input of a driver line is linked as. -/
def linked (input : String) : String := String.ofList (bare input ++ ['.', 'o'])

lemma object_eq (source : String) : object source = String.ofList (stem source ++ ['.', 'o']) :=
  withExtension_eq source "o"

lemma linked_of_source (h : ¬ IsObject input) : linked input = object input := by
  rw [linked, bare, if_neg h, object_eq]

lemma linked_of_isObject (h : IsObject input) : linked input = input := by
  obtain ⟨rest, hrest⟩ := List.isSuffixOf_iff_suffix.1 h
  have htake : input.toList.take (input.toList.length - 2) = rest := by
    rw [← hrest, List.length_append]
    exact List.take_left
  rw [linked, bare, if_pos h, htake, hrest, String.ofList_toList]

/-- An extension that begins with a dot completes no `./`. -/
lemma dropDotSlashes_append (cs : List Char) :
    dropDotSlashes (cs ++ ['.', 'o']) = dropDotSlashes cs ++ ['.', 'o'] := by
  fun_induction dropDotSlashes cs with
  | case1 cs ih => exact ih
  | case2 cs h =>
    refine dropDotSlashes_of_not fun hp => ?_
    rcases cs with _ | ⟨c, _ | ⟨d, rest⟩⟩
    · exact absurd hp (by decide)
    · simp at hp
    · obtain ⟨rfl, hrest⟩ := List.cons_prefix_cons.1 hp
      obtain ⟨rfl, -⟩ := List.cons_prefix_cons.1 hrest
      exact h rest rfl

lemma normalizeChars_append (cs : List Char) :
    normalizeChars (cs ++ ['.', 'o']) = dropDotSlashes cs ++ ['.', 'o'] := by
  have hend : Text.dropEndWhile (· == '/') (dropDotSlashes cs ++ ['.', 'o']) = dropDotSlashes cs ++ ['.', 'o'] := by
    simp [Text.dropEndWhile]
  rw [normalizeChars_eq, dropDotSlashes_append, hend]
  exact if_neg fun h => List.append_ne_nil_of_right_ne_nil _ (by simp) h.1

lemma nul_notMem_bare (h : '\x00' ∉ input.toList) : '\x00' ∉ bare input := by
  unfold bare
  split_ifs
  · exact fun hm => h (List.mem_of_mem_take hm)
  · exact fun hm => h ((stem_isPrefix input).subset hm)

/-- **The node of an object** is told by its input without the extension and leading dots. -/
theorem storedPath_linked (h : '\x00' ∉ input.toList) :
    storedPath (linked input) = String.ofList (dropDotSlashes (bare input) ++ ['.', 'o']) := by
  have hnul : '\x00' ∉ (linked input).toList := by
    rw [linked, String.toList_ofList, List.mem_append, not_or]
    exact ⟨nul_notMem_bare h, by decide⟩
  rw [FileSystem.storedPath_eq hnul, normalize, linked, String.toList_ofList, normalizeChars_append]

/-- The objects of inputs are apart exactly if the inputs are apart without their extensions. -/
lemma nodup_linked_iff {inputs : List String} (h : ∀ input ∈ inputs, '\x00' ∉ input.toList) :
    ((inputs.map linked).map storedPath).Nodup ↔ (inputs.map fun input => dropDotSlashes (bare input)).Nodup := by
  have hinj : Function.Injective fun cs => String.ofList (cs ++ ['.', 'o']) := fun cs ds heq =>
    List.append_cancel_right (String.ofList_injective heq)
  have hmap : (inputs.map linked).map storedPath =
      (inputs.map fun input => dropDotSlashes (bare input)).map fun cs => String.ofList (cs ++ ['.', 'o']) := by
    rw [List.map_map, List.map_map]
    exact List.map_congr_left fun input hinput => storedPath_linked (h input hinput)
  rw [hmap, List.nodup_map_iff hinj]

end Path

open ToolchainHost.Path (IsObject linked)

/-! ### The inputs of a line -/

namespace Command

/-- The names of the compiler drivers, each with the language of sources whose extension tells none. -/
inductive Driver : String → Language → Prop
  | c : Driver "clang" .c
  | cxx : Driver "clang++" .cxx

namespace DriverLine

variable {fallback : Language} {line line' : DriverLine} {argument : String} {arguments : List String}

/-- The inputs of a line: the objects, and then the sources. -/
def inputs (line : DriverLine) : List String := line.objects ++ line.sources.map Prod.fst

/-- The objects of the sources of a line. -/
def outputs (line : DriverLine) : List String := line.sources.map fun s => Path.object s.1

/-- The inputs are sorted into objects and sources by their names. -/
structure Sorted (line : DriverLine) : Prop where
  objects : ∀ input ∈ line.objects, IsObject input
  sources : ∀ source ∈ line.sources, ¬ IsObject source.1

lemma Sorted.takeArgument (hs : line.Sorted) (h : takeArgument fallback line argument = .ok line') : line'.Sorted := by
  unfold DriverLine.takeArgument at h
  split_ifs at h with _ _ _ hobject
  any_goals cases h
  · exact ⟨hs.objects, hs.sources⟩
  · exact ⟨hs.objects, hs.sources⟩
  · exact ⟨List.forall_mem_append.2 ⟨hs.objects, List.forall_mem_singleton.2 hobject⟩, hs.sources⟩
  · dsimp only at h
    split_ifs at h
    cases h
    exact ⟨hs.objects, List.forall_mem_append.2 ⟨hs.sources, List.forall_mem_singleton.2 hobject⟩⟩

lemma Sorted.collect (hs : line.Sorted) (h : collect fallback line arguments = .ok line') : line'.Sorted := by
  fun_induction DriverLine.collect fallback line arguments with
  | case1 line => cases h; exact hs
  | case2 line => cases h
  | case3 line path rest ih => exact ih ⟨hs.objects, hs.sources⟩ h
  | case4 line argument rest _ _ line1 htake ih => exact ih (hs.takeArgument htake) h
  | case5 line argument rest _ _ e htake => cases h

lemma sorted_of_parse (h : parse fallback arguments = .ok line) : line.Sorted := by
  unfold parse at h
  cases hc : DriverLine.collect fallback {} arguments with
  | error e => rw [hc] at h; cases h
  | ok line1 =>
    rw [hc] at h
    dsimp only [bind, Except.bind] at h
    split_ifs at h
    cases h
    exact Sorted.collect ⟨List.forall_mem_nil _, List.forall_mem_nil _⟩ hc

/-- What is linked for the inputs of a line. -/
lemma Sorted.linked_inputs (hs : line.Sorted) :
    line.inputs.map linked = line.objects ++ line.outputs := by
  rw [inputs, outputs, List.map_append, List.map_map]
  refine congrArg₂ (· ++ ·) ?_ (List.map_congr_left fun s h => Path.linked_of_source (hs.sources s h))
  exact (List.map_congr_left fun o h => Path.linked_of_isObject (hs.objects o h)).trans (List.map_id _)

end DriverLine

end Command

open Toolchain

variable {σ μ γ : Type} {engine : Engine σ μ γ}

/-! ### Front ends one after the other -/

/-- Guests that run one after the other, each for an output. Each finds the files as the one before it has left them,
and when it has ended its output is there. -/
inductive Relay (engine : Engine σ μ γ) :
    List String → (String → Option Entry) → List (Instance.Entry γ) → (String → Option Entry) → Prop
  | nil (files : String → Option Entry) : Relay engine [] files [] files
  | cons {output : String} {outputs : List String} {e : Instance.Entry γ} {entries : List (Instance.Entry γ)}
      {left : String → Option Entry} (hs : e.host.files.store.Sound) (hp : e.Provides engine output)
      (h : Relay engine outputs (e.hostAfter engine).files.store.lookup entries left) :
      Relay engine (output :: outputs) e.host.files.store.lookup (e :: entries) left

/-- Of the nodes of some paths, each guest writes at most that of its own output. -/
def Minds (engine : Engine σ μ γ) (paths outputs : List String) (entries : List (Instance.Entry γ)) : Prop :=
  ∀ pair ∈ outputs.zip entries, ∀ path ∈ paths, pair.2.Wrote engine path → storedPath path = storedPath pair.1

/-- What a guest does not write is as it was. -/
lemma Instance.Entry.lookup_of_not_wrote {e : Instance.Entry γ} {path : String} (hs : e.host.files.store.Sound)
    (hw : ¬ e.Wrote engine path) :
    (e.hostAfter engine).files.store.lookup (storedPath path) = e.host.files.store.lookup (storedPath path) :=
  (Instance.Entry.changedBy_hostAfter engine hs).lookup fun event he hp => hw ⟨event, he, hp⟩

namespace Relay

variable {outputs paths : List String} {found left : String → Option Entry}
  {entries before after : List (Instance.Entry γ)} {e : Instance.Entry γ} {path : String}

/-- What no guest writes is as it was before the first of them. -/
theorem untouched (h : Relay engine outputs found entries left) (hw : ∀ e ∈ entries, ¬ e.Wrote engine path) :
    left (storedPath path) = found (storedPath path) := by
  induction h with
  | nil => rfl
  | cons hs _ _ ih =>
    obtain ⟨hfirst, hrest⟩ := List.forall_mem_cons.1 hw
    exact (ih hrest).trans (Instance.Entry.lookup_of_not_wrote hs hfirst)

/-- What no later guest writes is as a guest has left it. -/
theorem last (h : Relay engine outputs found (before ++ e :: after) left) (hw : ∀ e' ∈ after, ¬ e'.Wrote engine path) :
    left (storedPath path) = (e.hostAfter engine).files.store.lookup (storedPath path) := by
  induction before generalizing outputs found with
  | nil =>
    cases h with
    | cons _ _ h => exact h.untouched hw
  | cons _ before ih =>
    cases h with
    | cons _ _ h => exact ih h

/-- Guests that mind some paths leave alone those that are not their outputs. -/
lemma not_wrote (h : Relay engine outputs found entries left) (hm : Minds engine paths outputs entries)
    (hpath : path ∈ paths) (hn : storedPath path ∉ outputs.map storedPath) : ∀ e ∈ entries, ¬ e.Wrote engine path := by
  induction h with
  | nil => exact List.forall_mem_nil _
  | @cons output outputs e entries left hs hp h ih =>
    rw [List.map_cons, List.mem_cons, not_or] at hn
    refine List.forall_mem_cons.2 ⟨fun hw => hn.1 (hm (output, e) List.mem_cons_self path hpath hw), ih ?_ hn.2⟩
    exact fun pair hpair => hm pair (List.mem_cons_of_mem _ hpair)

/-- **Outputs with nodes of their own** are kept as their guests have left them. -/
theorem kept (h : Relay engine outputs found entries left) (hn : (outputs.map storedPath).Nodup)
    (hsub : outputs ⊆ paths) (hm : Minds engine paths outputs entries) :
    ∀ pair ∈ outputs.zip entries,
      left (storedPath pair.1) = (pair.2.hostAfter engine).files.store.lookup (storedPath pair.1) := by
  induction h with
  | nil => exact fun _ hpair => absurd hpair List.not_mem_nil
  | @cons output outputs e entries left hs hp h ih =>
    obtain ⟨hnot, hrest⟩ := List.nodup_cons.1 hn
    obtain ⟨hmem, hsub⟩ := List.cons_subset.1 hsub
    have hm' : Minds engine paths outputs entries := fun pair hpair => hm pair (List.mem_cons_of_mem _ hpair)
    exact List.forall_mem_cons.2 ⟨h.untouched (h.not_wrote hm' hmem hnot), ih hrest hsub hm'⟩

end Relay

/-! ### The sources of a line -/

/-- The plan for the sources of a line. -/
def sourcesPlan (config : Config) (object : String → String) (optLevel : Option String)
    (sources : List (String × Language)) : List Task :=
  sources.flatMap fun s => Stage.compile.tasks (compileDeeds config s.1 (object s.1) s.2 optLevel)

/-- The sources of a line are compiled by front ends that run one after the other. -/
lemma relay_of_performAll {config : Config} {object : String → String} {optLevel : Option String}
    {sources : List (String × Language)} {hand hand' : Hand μ} {t t' : Toolchain σ μ}
    (hs : t.host.files.store.Sound)
    (h : performAll engine (sourcesPlan config object optLevel sources) hand t = .ok hand' t') :
    Relay engine (sources.map fun s => object s.1) t.host.files.store.lookup
      (guests engine (sourcesPlan config object optLevel sources) hand t) t'.host.files.store.lookup := by
  induction sources generalizing hand t with
  | nil =>
    cases h
    exact .nil _
  | cons s rest ih =>
    let rewriter : Rewriter := ⟨s.1, Path.baseName s.1⟩
    let opening : List Task := Stage.compile.tasks
      [.find s.1, .identify s.1 s.2, .shown rewriter (.request config.clangModule)]
    have hplan : ∃ compiler, compiler.program?.isSome = true ∧ sourcesPlan config object optLevel (s :: rest) =
        opening ++ (.compile, compiler) :: (.compile, .find (object s.1)) :: sourcesPlan config object optLevel rest :=
      ⟨_, rfl, rfl⟩
    obtain ⟨compiler, hcompiler, hplan⟩ := hplan
    have hidle : ∀ task ∈ opening, task.2.isIdle = true := by simp [opening, Stage.tasks, Deed.isIdle]
    have hquiet : ∀ task ∈ opening, task.2.program? = none := fun task ht => Deed.program?_of_isIdle (hidle task ht)
    rw [hplan] at h ⊢
    obtain ⟨e, hand1, t1, hguests, hfind, hleft, hs1, hobject, hfound⟩ := exists_tool_of_ok hs hquiet hcompiler h
    -- The object is looked for before the next source, and looking changes nothing.
    obtain ⟨hand2, t2, hlook, hrest⟩ := Op.bind_eq_ok.1 hfind
    have hlook := Op.inStage_eq_ok.1 hlook
    have hkeeps : t1.host.files.Keeps t2.host.files := by
      have hlooks : Op.Within KeepsFiles ((Deed.find (object s.1)).perform engine hand1) := Deed.keepsFiles rfl hand1
      exact Op.after_of_ok hlook ▸ hlooks t1 hs1
    have hlater : guests engine ((.compile, .find (object s.1)) :: sourcesPlan config object optLevel rest) hand1 t1 =
        guests engine (sourcesPlan config object optLevel rest) hand2 t2 := by
      rw [guests, hlook]
      rfl
    rw [hlater] at hguests
    have hrelay := ih hkeeps.sound hrest
    have hsound : e.host.files.store.Sound := sound_of_mem_guests hs (hguests.symm ▸ List.mem_cons_self)
    rw [hkeeps.lookup, hleft] at hrelay
    rw [hguests, ← hfound hidle]
    exact .cons hsound hobject hrelay

/-- The linker finds the files as they are when it is looked for its objects. -/
lemma lookup_of_linker {config : Config} {objects : List String} {output : String} {hand : Hand μ} {t : Toolchain σ μ}
    {linker : Instance.Entry γ} {later : List (Instance.Entry γ)} (hs : t.host.files.store.Sound)
    (h : guests engine (Stage.link.tasks (linkDeeds config objects output)) hand t = linker :: later) :
    linker.host.files.store.lookup = t.host.files.store.lookup := by
  let opening : List Task := Stage.link.tasks (objects.map .find ++ [.request config.lldModule])
  have hidle : ∀ task ∈ opening, task.2.isIdle = true := by
    refine List.forall_mem_map.2 (List.forall_mem_append.2 ⟨List.forall_mem_map.2 fun _ _ => rfl, ?_⟩)
    exact List.forall_mem_singleton.2 rfl
  have hquiet : ∀ task ∈ opening, task.2.program? = none := fun task ht => Deed.program?_of_isIdle (hidle task ht)
  have hplan : Stage.link.tasks (linkDeeds config objects output) = opening ++
      (.link, .start "wasm-ld" (linkerArguments config objects output)) :: [(.link, .find output)] := by
    simp [opening, linkDeeds, Stage.tasks]
  rw [hplan] at h
  obtain ⟨hand1, t1, hopening, he, -⟩ := exists_guest_of_guests hquiet rfl h
  rw [(Deed.of_guest? he).1, (keeps_of_performAll hs hidle hopening).lookup]

section Link

variable {driver : String} {language : Language} {arguments objects : List String} {line : Command.DriverLine}
  {t t1 : Toolchain σ μ}

lemma runWords_of_driver (hd : Command.Driver driver language) (arguments : List String) :
    runWords engine (driver :: arguments) = drive engine language arguments := by
  cases hd with
  | c => rfl
  | cxx => rfl

/-- A line that links names its objects after its sources. -/
lemma objectFor_of_link (hc : line.compileOnly = false) : objectFor line = Path.object := by
  funext source
  unfold objectFor
  rw [hc]
  cases line.output <;> rfl

lemma drivePlan_of_link (hc : line.compileOnly = false) (config : Config) :
    drivePlan config line = sourcesPlan config Path.object line.optLevel line.sources ++
      Stage.link.tasks (linkDeeds config (line.objects ++ line.outputs) (line.output.getD "a.out")) := by
  unfold drivePlan
  rw [objectFor_of_link hc, hc]
  rfl

lemma outputs_of_compileSources (hc : line.compileOnly = false)
    (h : compileSources engine line line.sources t = .ok objects t1) :
    objects = line.outputs ∧ ∃ hand1 : Hand μ,
      performAll engine (sourcesPlan t.config Path.object line.optLevel line.sources) {} t = .ok hand1 t1 := by
  obtain ⟨hand1, hperform, hobjects⟩ : ∃ hand1 : Hand μ,
      performAll engine (sourcesPlan t.config (objectFor line) line.optLevel line.sources) {} t = .ok hand1 t1 ∧
        objects = line.sources.map fun s => objectFor line s.1 := (follows_compileSources line line.sources).of_ok h
  rw [objectFor_of_link hc] at hperform hobjects
  exact ⟨hobjects, hand1, hperform⟩

/-- When its sources are compiled a line links. -/
lemma drive_of_link (hcc1 : arguments.contains "-cc1" = false)
    (hl : Command.DriverLine.parse language arguments = .ok line) (hc : line.compileOnly = false)
    (h : compileSources engine line line.sources t = .ok objects t1) :
    drive engine language arguments t =
      linkObjects engine (line.objects ++ objects) (line.output.getD "a.out") t1 := by
  unfold drive
  rw [hcc1, hl]
  refine (Op.bind_of_ok h).trans ?_
  rw [hc]
  rfl

end Link

/-- **The objects of a line.** A line that gets as far as linking links one object for each of its inputs. Objects are
named after the inputs without their extensions and leading dots, and are apart exactly if these are. The front ends run
one after the other, each provides its own object, and the linker finds what the last of them has left: what none of
them wrote is as it was before the line, and anything else is as the last that wrote it has left it. So if the objects
are apart, and the front ends write no object but their own, then each source's object is as its front end has left
it, and given objects are as they were. -/
theorem drive_links {driver : String} {language : Language} {arguments : List String} {line : Command.DriverLine}
    (hd : Command.Driver driver language) (hcc1 : arguments.contains "-cc1" = false)
    (hl : Command.DriverLine.parse language arguments = .ok line) (hc : line.compileOnly = false)
    {t t1 : Toolchain σ μ} {objects : List String} (hs : t.host.files.store.Sound)
    (h : compileSources engine line line.sources t = .ok objects t1) :
    runWords engine (driver :: arguments) t =
        linkObjects engine (line.inputs.map linked) (line.output.getD "a.out") t1 ∧
      ((∀ input ∈ line.inputs, '\x00' ∉ input.toList) → (((line.inputs.map linked).map storedPath).Nodup ↔
        (line.inputs.map fun input => Path.dropDotSlashes (Path.bare input)).Nodup)) ∧
      ∃ frontEnds later, guests engine (drivePlan t.config line) {} t = frontEnds ++ later ∧
        Relay engine line.outputs t.host.files.store.lookup frontEnds t1.host.files.store.lookup ∧
        (∀ linker ∈ later.head?, linker.host.files.store.lookup = t1.host.files.store.lookup) ∧
        (∀ path, (∀ e ∈ frontEnds, ¬ e.Wrote engine path) →
          t1.host.files.store.lookup (storedPath path) = t.host.files.store.lookup (storedPath path)) ∧
        (∀ path before e after, frontEnds = before ++ e :: after → (∀ e' ∈ after, ¬ e'.Wrote engine path) →
          t1.host.files.store.lookup (storedPath path) =
            (e.hostAfter engine).files.store.lookup (storedPath path)) ∧
        (((line.inputs.map linked).map storedPath).Nodup →
          Minds engine (line.inputs.map linked) line.outputs frontEnds →
          (∀ pair ∈ line.outputs.zip frontEnds, t1.host.files.store.lookup (storedPath pair.1) =
            (pair.2.hostAfter engine).files.store.lookup (storedPath pair.1)) ∧
          ∀ object ∈ line.objects,
            t1.host.files.store.lookup (storedPath object) = t.host.files.store.lookup (storedPath object)) := by
  have hlinked := (Command.DriverLine.sorted_of_parse hl).linked_inputs
  obtain ⟨rfl, hand1, hperform⟩ := outputs_of_compileSources hc h
  have hdrive := drive_of_link hcc1 hl hc h
  have hrelay := relay_of_performAll hs hperform
  have hguests : guests engine (drivePlan t.config line) {} t = _ :=
    drivePlan_of_link hc t.config ▸ guests_append_of_ok hperform
  refine ⟨by rw [runWords_of_driver hd, hdrive, hlinked], Path.nodup_linked_iff, _, _, hguests, hrelay,
    fun linker hlinker => ?_, fun path hw => hrelay.untouched hw, fun path before e after hsplit hw => ?_,
    fun hn hm => ⟨?_, ?_⟩⟩
  · obtain ⟨rest, hrest⟩ := List.head?_eq_some_iff.1 hlinker
    exact lookup_of_linker (sound_of_performAll hs hperform) hrest
  · rw [hsplit] at hrelay
    exact hrelay.last hw
  all_goals
    rw [hlinked] at hm hn
    rw [List.map_append] at hn
    obtain ⟨-, houtputs, hapart⟩ := List.nodup_append.1 hn
  · exact hrelay.kept houtputs (List.subset_append_right ..) hm
  · intro object hmem
    refine hrelay.untouched (hrelay.not_wrote hm (List.mem_append_left _ hmem) fun hout => ?_)
    exact hapart _ (List.mem_map_of_mem hmem) _ hout rfl

/-- A source whose object is there already is compiled by a front end that does nothing. -/
lemma exists_compiled {line : Command.DriverLine} (hsources : line.sources = [("a.c", .c)])
    (hc : line.compileOnly = false) : ∃ t t1 : Toolchain Unit Unit, t.host.files.store.Sound ∧
      compileSources returning line line.sources t = .ok ["a.o"] t1 := by
  obtain ⟨files, fs, -, hs, hadd, hsource, hobject, -⟩ := exists_littered
  let t : Toolchain Unit Unit := { config := {}, engine := (), host := { files := fs } }
  have hsound : t.host.files.store.Sound := (FileSystem.touches_addFile hs (Op.attempt_of_ok hadd)).sound
  have hplan : ∀ task ∈ sourcesPlan t.config (objectFor line) line.optLevel line.sources, task.2.Passes fs := by
    simp only [sourcesPlan, hsources, List.flatMap_singleton, compileDeeds, Stage.tasks, List.map_cons, List.map_nil,
      List.forall_mem_cons, objectFor_of_link hc]
    exact ⟨passes_find hsource, passes_identify _ rfl, passes_shown (passes_request _) _,
      passes_shown (passes_start _ _) _, passes_find hobject, List.forall_mem_nil _⟩
  obtain ⟨hand1, t1, hperform, -⟩ := performAll_of_passes hplan ⟨[], some (), none⟩ t rfl rfl
  obtain ⟨objects, h, rfl⟩ := (follows_compileSources line line.sources).symm.of_ok hperform
  refine ⟨t, t1, hsound, ?_⟩
  rw [h, hsources, List.map_singleton, objectFor_of_link hc]
  rfl

/-- A source and an object with another name. -/
theorem drive_links_apart : ∃ t t1 : Toolchain Unit Unit, t.host.files.store.Sound ∧
    runWords returning ["clang", "a.c", "b.o"] t = linkObjects returning ["b.o", "a.o"] "a.out" t1 ∧
      t1.host.files.store.lookup (storedPath "b.o") = t.host.files.store.lookup (storedPath "b.o") := by
  let line : Command.DriverLine := { sources := [("a.c", .c)], objects := ["b.o"] }
  obtain ⟨t, t1, hs, h⟩ := @exists_compiled line rfl rfl
  obtain ⟨hruns, hapart, frontEnds, later, -, -, -, -, -, hkept⟩ :=
    drive_links .c (by decide) (by rfl : Command.DriverLine.parse .c ["a.c", "b.o"] = .ok line)
      rfl hs h
  have hminds : Minds returning (line.inputs.map linked) line.outputs frontEnds :=
    fun _ _ _ _ ⟨_, hevent, _⟩ => absurd hevent List.not_mem_nil
  exact ⟨t, t1, hs, hruns, (hkept ((hapart (by decide)).2 (by decide)) hminds).2 "b.o" List.mem_cons_self⟩

/-- A source and an object that differ in their extension only are linked as one. -/
theorem exists_objects_meet : ¬ ∀ (line : Command.DriverLine) (t t1 : Toolchain Unit Unit) (objects : List String),
    t.host.files.store.Sound → Command.DriverLine.parse .c ["a.c", "a.o"] = .ok line →
    (line.inputs.map storedPath).Nodup → compileSources returning line line.sources t = .ok objects t1 →
    ((line.objects ++ objects).map storedPath).Nodup := by
  intro hall
  let line : Command.DriverLine := { sources := [("a.c", .c)], objects := ["a.o"] }
  obtain ⟨t, t1, hs, h⟩ := @exists_compiled line rfl rfl
  exact absurd (hall line t t1 ["a.o"] hs rfl (by decide) h) (by decide)

end ToolchainHost
