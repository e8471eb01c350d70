import ToolchainHost.Proofs.Toolchain.Guests

/-!
# Where artifacts come from

The host looks whether a tool has left an output, not whether the tool has written it. What is linked and what is run
was written by the guests of the request, or it was there before and they have left it alone.

* `Engine.Loads`: a new instance of a module made of some bytes.
* `artifacts_written_or_kept`: the object and the program of a source, told from its guests.
* `exists_artifacts_kept`: they may be those of an earlier request.
-/

namespace ToolchainHost

open Toolchain
open FileSystem (storedPath tooLong)

variable {σ μ γ : Type} {engine : Engine σ μ γ}

/-- A new instance of the module that the engine makes of some bytes. -/
inductive Engine.Loads (engine : Engine σ μ γ) (bytes : List UInt8) : Instance γ → Prop
  | compiled {s s' s'' : σ} {module : μ} {launch : Launch} {i : Instance γ}
      (hc : engine.compileBytes bytes s = .ok module s') (hi : launch.instantiate engine module s' = .ok i s'') :
      Loads engine bytes i

/-! ### Looking for an output -/

section Require

variable {t t' : Toolchain σ μ} {path : String}

lemma has_of_require (hs : t.host.files.store.Sound) (h : require path t = .ok ⟨⟩ t') : t.host.files.Has path := by
  obtain ⟨found, u, hfound, h⟩ := Op.bind_eq_ok.1 h
  obtain ⟨fs, hexists, -⟩ := onFiles_eq_ok.1 hfound
  cases found with
  | true => exact FileSystem.has_of_fileExists hs hexists
  | false => cases h

/-- What is missing is not found, or its path is too long to look for. -/
lemma require_of_not_has (hs : t.host.files.store.Sound) (hn : ¬ t.host.files.Has path) :
    ∃ cause t', require path t = .error cause t' ∧ (cause = .notFound path ∨ cause = tooLong path) := by
  obtain h | ⟨fs, h⟩ := FileSystem.fileExists_of_not_has hs hn
  · exact ⟨_, _, Op.bind_of_error (onFiles_of_error h), Or.inr rfl⟩
  · exact ⟨_, _, Op.bind_of_ok (onFiles_of_ok h), Or.inl rfl⟩

end Require

/-! ### A tool and its output -/

section Tool

variable {stretch rest : List Task} {stage : Stage} {deed : Deed} {output : String} {hand hand' : Hand μ}
  {t t' : Toolchain σ μ} {e : Instance.Entry γ}

/-- A plan that is carried out over a tool: the tool has provided its output, and what follows finds the files as it has
left them. -/
lemma exists_tool_of_ok (hs : t.host.files.store.Sound) (hq : ∀ task ∈ stretch, task.2.program? = none)
    (hp : deed.program?.isSome = true)
    (h : performAll engine (stretch ++ (stage, deed) :: (stage, .find output) :: rest) hand t = .ok hand' t') :
    ∃ e hand1 t1, guests engine (stretch ++ (stage, deed) :: (stage, .find output) :: rest) hand t =
        e :: guests engine ((stage, .find output) :: rest) hand1 t1 ∧
      performAll engine ((stage, .find output) :: rest) hand1 t1 = .ok hand' t' ∧
      t1.host.files = (e.hostAfter engine).files ∧ t1.host.files.store.Sound ∧ e.Provides engine output ∧
      ((∀ task ∈ stretch, task.2.isIdle = true) → e.host.files.store.lookup = t.host.files.store.lookup) := by
  obtain ⟨hand0, t0, e, hand1, t1, hstretch, he, hdeed, hrest, hguests⟩ := exists_guest_of_ok hq hp h
  obtain ⟨hfound, hleft, -⟩ := Deed.of_guest? he
  rw [Op.after_of_ok hdeed] at hleft
  have hsound : e.host.files.store.Sound := hfound ▸ sound_of_performAll hs hstretch
  have hsound' : t1.host.files.store.Sound := hleft ▸ e.sound_hostAfter engine hsound
  -- What follows the guest begins by looking for its output, and went on, so the output was there.
  obtain ⟨_, u, hfind, -⟩ := Op.bind_eq_ok.1 hrest
  obtain ⟨_, _, hrequire, -⟩ := Op.bind_eq_ok.1 (Op.inStage_eq_ok.1 hfind)
  have hprovides := Instance.Entry.provides_of_has hsound (hleft ▸ has_of_require hsound' hrequire)
  refine ⟨e, hand1, t1, hguests, hrest, hleft, hsound', hprovides, fun hidle => ?_⟩
  rw [hfound, (keeps_of_performAll hs hidle hstretch).lookup]

/-- A tool that ends well and leaves no output makes its stage fail. -/
lemma fails_of_missing (hs : t.host.files.store.Sound) (hq : ∀ task ∈ stretch, task.2.program? = none)
    (hp : deed.program?.isSome = true) {later : List (Instance.Entry γ)}
    (h : guests engine (stretch ++ (stage, deed) :: (stage, .find output) :: rest) hand t = e :: later)
    (hends : (e.termination engine).Succeeds) (hn : ¬ (e.hostAfter engine).files.Has output) :
    ∃ cause t', performAll engine (stretch ++ (stage, deed) :: (stage, .find output) :: rest) hand t =
      .error (.stageFailed stage cause) t' ∧ (cause = .notFound output ∨ cause = tooLong output) := by
  obtain ⟨hand1, t1, hstretch, he, -⟩ := exists_guest_of_guests hq hp h
  obtain ⟨hfound, hleft, hdone⟩ := Deed.of_guest? he
  obtain ⟨hand2, t2, hdeed⟩ := hdone hends
  rw [Op.after_of_ok hdeed] at hleft
  have hsound : t2.host.files.store.Sound := by
    rw [hleft]
    exact e.sound_hostAfter engine (hfound ▸ sound_of_performAll hs hstretch)
  obtain ⟨cause, t3, hrequire, hcause⟩ := require_of_not_has (t := t2) hsound (hleft ▸ hn)
  have hfind : (Deed.find output).perform engine hand2 t2 = .error cause t3 := Op.bind_of_error hrequire
  have hstaged : cause.inStage stage = .stageFailed stage cause := by
    obtain rfl | rfl := hcause
    · rfl
    · rfl
  refine ⟨cause, t3, ?_, hcause⟩
  rw [performAll_append, Op.bind_of_ok hstretch, performAll_cons, Op.bind_of_ok (Op.inStage_of_ok hdeed stage),
    performAll_cons, Op.bind_of_error (Op.inStage_of_error hfind stage), hstaged]

end Tool

/-! ### The program that is run -/

section Program

variable {hand hand' : Hand μ} {t t' : Toolchain σ μ} {path : String}

lemma read_eq_ok (hs : t.host.files.store.Sound) (h : (Deed.read path).perform engine hand t = .ok hand' t') :
    ∃ bytes, t.host.files.store.lookup (storedPath path) = some (.file bytes) ∧ hand' = { hand with bytes } := by
  obtain ⟨bytes, u, hcontents, hret⟩ := Op.bind_eq_ok.1 h
  cases hret
  obtain ⟨fs, hcontents, -⟩ := onFiles_eq_ok.1 hcontents
  obtain ⟨-, -, hlookup⟩ := (FileSystem.readsAs_iff (p := .host path) hs).1 ⟨fs, hcontents⟩
  exact ⟨bytes, hlookup, rfl⟩

lemma check_eq_ok (h : Deed.check.perform engine hand t = .ok hand' t') : hand' = hand ∧ t' = t := by
  obtain ⟨_, u, hcheck, hret⟩ := Op.bind_eq_ok.1 h
  cases hret
  exact ⟨rfl, (Op.lift_eq_ok.1 hcheck).2.symm⟩

lemma compile_eq_ok (h : Deed.compile.perform engine hand t = .ok hand' t') :
    ∃ module, engine.compileBytes hand.bytes t.engine = .ok module t'.engine ∧ hand'.module? = some module := by
  obtain ⟨module, u, hcompile, hret⟩ := Op.bind_eq_ok.1 h
  cases hret
  unfold onEngine at hcompile
  obtain ⟨s', hmodule, rfl⟩ := Op.onPart_eq_ok.1 hcompile
  exact ⟨module, hmodule, rfl⟩

lemma engine_after_echo (program : String) (arguments : List String) (t : Toolchain σ μ) :
    (Op.after (echo program arguments) t).engine = t.engine := by
  show (if t.config.echoCommands then _ else t : Toolchain σ μ).engine = t.engine
  split_ifs
  · rfl
  · rfl

/-- **The program is made of the bytes** that are found under its path. -/
theorem loads_of_ok {program : String} {arguments : List String} {e : Instance.Entry γ}
    (hs : t.host.files.store.Sound)
    (h : performAll engine (Stage.run.tasks [.find path, .read path, .check, .compile]) hand t = .ok hand' t')
    (he : (Deed.start program arguments).guest? engine hand' t' = some e) :
    ∃ bytes, t.host.files.store.lookup (storedPath path) = some (.file bytes) ∧ engine.Loads bytes e.guest := by
  rw [performAll_tasks, Op.inStage_eq_ok] at h
  obtain ⟨hand1, t1, hfind, h⟩ := Op.bind_eq_ok.1 h
  obtain ⟨hand2, t2, hread, h⟩ := Op.bind_eq_ok.1 h
  obtain ⟨hand3, t3, hcheck, h⟩ := Op.bind_eq_ok.1 h
  obtain ⟨hand4, t4, hcompile, h⟩ := Op.bind_eq_ok.1 h
  cases h
  have hkeeps : t.host.files.Keeps t1.host.files := by
    have hidle : Op.Within KeepsFiles ((Deed.find path).perform engine hand) := Deed.keepsFiles rfl hand
    exact Op.after_of_ok hfind ▸ hidle t hs
  obtain ⟨bytes, hlookup, rfl⟩ := read_eq_ok hkeeps.sound hread
  obtain ⟨rfl, rfl⟩ := check_eq_ok hcheck
  obtain ⟨module, hmodule, hhand⟩ := compile_eq_ok hcompile
  obtain ⟨module', hm, he⟩ := Option.bind_eq_some_iff.1 he
  obtain rfl : module = module' := Option.some.inj (hhand.symm.trans hm)
  obtain ⟨⟨s', hi⟩, -⟩ := launch_of_some he
  rw [engine_after_echo] at hi
  exact ⟨bytes, hkeeps.lookup ▸ hlookup, .compiled hmodule hi⟩

/-- A plan that is carried out to its end has run the program that was left under its path. -/
lemma exists_program_of_ok {stage : Stage} {program : String} {arguments : List String}
    (hs : t.host.files.store.Sound)
    (h : performAll engine ((stage, .find path) :: (Stage.run.tasks [.find path, .read path, .check, .compile] ++
      [(.run, .start program arguments)])) hand t = .ok hand' t') :
    ∃ e, guests engine ((stage, .find path) :: (Stage.run.tasks [.find path, .read path, .check, .compile] ++
        [(.run, .start program arguments)])) hand t = [e] ∧
      ∃ bytes, t.host.files.store.lookup (storedPath path) = some (.file bytes) ∧ engine.Loads bytes e.guest := by
  have hquiet : ∀ task ∈ (stage, Deed.find path) :: Stage.run.tasks [.find path, .read path, .check, .compile],
      task.2.program? = none := by simp [Stage.tasks, Deed.program?]
  obtain ⟨hand2, t2, e, hand3, t3, hstretch, he, -, -, hguests⟩ := exists_guest_of_ok hquiet rfl h
  obtain ⟨hand1, t1, hfind, hload⟩ := Op.bind_eq_ok.1 hstretch
  have hkeeps : t.host.files.Keeps t1.host.files := by
    have hidle : Op.Within KeepsFiles ((Deed.find path).perform engine hand) := Deed.keepsFiles rfl hand
    exact Op.after_of_ok (Op.inStage_eq_ok.1 hfind) ▸ hidle t hs
  obtain ⟨bytes, hlookup, hloads⟩ := loads_of_ok hkeeps.sound hload he
  exact ⟨e, hguests, bytes, hkeeps.lookup ▸ hlookup, hloads⟩

end Program

/-! ### A source -/

/-- Three guests are planned for a source: two tools, each with an output to look for, and the program. -/
lemma exists_plan_eq (config : Config) (source text : String) (arguments : List String) :
    ∃ opening compiler middle linker program, plan config source text arguments =
        opening ++ (.compile, compiler) :: (.compile, .find (Path.object source)) ::
          (middle ++ (.link, linker) :: (.link, .find (Path.binary source)) ::
            (Stage.run.tasks [.find (Path.binary source), .read (Path.binary source), .check, .compile] ++
              [(.run, .start program arguments)])) ∧
      (∀ task ∈ opening, task.2.program? = none) ∧ compiler.program?.isSome = true ∧
      (∀ task ∈ middle, task.2.isIdle = true) ∧ linker.program?.isSome = true := by
  let language := (Language.ofPath? source).getD .c
  let rewriter : Rewriter := ⟨source, Path.baseName source⟩
  let opening : List Task := Stage.compile.tasks
    [.write source text, .find source, .identify source language, .shown rewriter (.request config.clangModule)]
  let middle : List Task := Stage.link.tasks [.find (Path.object source), .request config.lldModule]
  have hopening : ∀ task ∈ opening, task.2.program? = none := by simp [opening, Stage.tasks, Deed.program?]
  have hmiddle : ∀ task ∈ middle, task.2.isIdle = true := by simp [middle, Stage.tasks, Deed.isIdle]
  exact ⟨opening, _, middle, _, _, rfl, hopening, rfl, hmiddle, rfl⟩

/-- **Artifacts are written or kept.** Where a source is compiled, linked and run, three guests are started. When the
front end has ended there is the object, and the front end has written it, or it was there before and the front end has
left it alone; so has the linker the program. The linker finds the files as the front end has left them, and what is run
are the bytes that the linker has left. A tool that ends well and leaves no output makes its stage fail. -/
theorem artifacts_written_or_kept (engine : Engine σ μ γ) (source text : String) (arguments : List String)
    (t : Toolchain σ μ) (hs : t.host.files.store.Sound) :
    (∀ r t', compileLinkRun engine source text arguments t = .ok r t' →
      ∃ frontEnd linker program,
        guests engine (plan t.config source text arguments) {} t = [frontEnd, linker, program] ∧
        frontEnd.Provides engine (Path.object source) ∧ linker.Provides engine (Path.binary source) ∧
        linker.host.files.store.lookup = (frontEnd.hostAfter engine).files.store.lookup ∧
        ∃ bytes, (linker.hostAfter engine).files.store.lookup (storedPath (Path.binary source)) = some (.file bytes) ∧
          engine.Loads bytes program.guest) ∧
    (∀ frontEnd later, guests engine (plan t.config source text arguments) {} t = frontEnd :: later →
      (frontEnd.termination engine).Succeeds → ¬ (frontEnd.hostAfter engine).files.Has (Path.object source) →
      ∃ cause t', compileLinkRun engine source text arguments t = .error (.stageFailed .compile cause) t' ∧
        (cause = .notFound (Path.object source) ∨ cause = tooLong (Path.object source))) ∧
    ∀ frontEnd linker later, guests engine (plan t.config source text arguments) {} t = frontEnd :: linker :: later →
      (linker.termination engine).Succeeds → ¬ (linker.hostAfter engine).files.Has (Path.binary source) →
      ∃ cause t', compileLinkRun engine source text arguments t = .error (.stageFailed .link cause) t' ∧
        (cause = .notFound (Path.binary source) ∨ cause = tooLong (Path.binary source)) := by
  have hfollows := @follows_compileLinkRun σ μ γ engine t.config {} source text arguments
  obtain ⟨opening, compiler, middle, linking, name, hplan, hopening, hcompiler, hmiddle, hlinking⟩ :=
    exists_plan_eq t.config source text arguments
  -- Between the two tools nothing is written and no program is run, so the linker finds what the front end has left.
  have hquiet : ∀ task ∈ (Stage.compile, Deed.find (Path.object source)) :: middle, task.2.program? = none := by
    intro task ht
    obtain rfl | ht := List.mem_cons.1 ht
    · rfl
    · exact Deed.program?_of_isIdle (hmiddle task ht)
  have hidle : ∀ task ∈ (Stage.compile, Deed.find (Path.object source)) :: middle, task.2.isIdle = true :=
    List.forall_mem_cons.2 ⟨rfl, hmiddle⟩
  refine ⟨fun r t' h => ?_, fun frontEnd later hguests hends hn => ?_, fun frontEnd linker later hguests hends hn => ?_⟩
  · obtain ⟨hand, hperform, -⟩ := hfollows.of_ok h
    rw [hplan] at hperform ⊢
    obtain ⟨frontEnd, hand1, t1, hfirst, hperform, hleft, hs1, hobject, -⟩ :=
      exists_tool_of_ok hs hopening hcompiler hperform
    obtain ⟨linker, hand2, t2, hsecond, hperform, hleft', hs2, hbinary, hfound⟩ :=
      exists_tool_of_ok hs1 hquiet hlinking hperform
    obtain ⟨program, hthird, bytes, hbytes, hloads⟩ := exists_program_of_ok hs2 hperform
    refine ⟨frontEnd, linker, program, ?_, hobject, hbinary, ?_, bytes, hleft' ▸ hbytes, hloads⟩
    · rw [hfirst, ← hthird, ← hsecond]
      rfl
    · rw [hfound hidle, hleft]
  · rw [hplan] at hguests
    obtain ⟨cause, t', hperform, hcause⟩ := fails_of_missing hs hopening hcompiler hguests hends hn
    rw [← hplan] at hperform
    exact ⟨cause, t', hfollows.symm.of_error hperform, hcause⟩
  · rw [hplan] at hguests
    obtain ⟨hand1, t1, hfirst, he, hnone | ⟨hand2, t2, hdone, hlater⟩⟩ :=
      exists_guest_of_guests hopening hcompiler hguests
    · cases hnone
    have hs2 : t2.host.files.store.Sound := by
      have hkeeps : Op.Within KeepsSound (compiler.perform engine hand1) := compiler.keepsSound hand1
      exact Op.after_of_ok hdone ▸ hkeeps t1 (sound_of_performAll hs hfirst)
    obtain ⟨cause, t', hperform, hcause⟩ := fails_of_missing hs2 hquiet hlinking hlater.symm hends hn
    have hfails : performAll engine (plan t.config source text arguments) {} t =
        .error (.stageFailed .link cause) t' := by
      rw [hplan, performAll_append, Op.bind_of_ok hfirst, performAll_cons, Op.bind_of_ok (Op.inStage_of_ok hdone _)]
      exact hperform
    exact ⟨cause, t', hfollows.symm.of_error hfails, hcause⟩

/-! ### Artifacts that are kept -/

/-- An engine whose guests return at once. -/
def returning : Engine Unit Unit Unit := .ofGuest () fun _ _ => .done (.ok (), ())

/-- The deed is done and leaves the files as they are, and the module at hand is there afterwards. -/
def Deed.Passes (files : FileSystem) (deed : Deed) : Prop :=
  ∀ hand t, hand.module? = some () → t.host.files = files →
    ∃ hand' t', deed.perform returning hand t = .ok hand' t' ∧ hand'.module? = some () ∧ t'.host.files = files

section Passes

variable {files : FileSystem} {path : String}

/-- A node that the host has registered is found at once. -/
lemma passes_find (h : (files.kindOf path).isSome = true) : (Deed.find path).Passes files := by
  rintro hand t hm rfl
  have hexists : FileSystem.fileExists path t.host.files = .ok true t.host.files := by
    unfold FileSystem.fileExists
    rw [Op.get_bind_apply, FileSystem.kindOf_normalize, if_pos h, Op.pure_apply]
  have hrequire : require path t = .ok ⟨⟩ (t.withFiles t.host.files) := Op.bind_of_ok (onFiles_of_ok hexists)
  exact ⟨hand, _, Op.bind_of_ok hrequire, hm, rfl⟩

lemma passes_identify (source : String) {language : Language} (h : language.frontEndName?.isSome = true) :
    (Deed.identify source language).Passes files := by
  rintro hand t hm hf
  refine ⟨hand, t, ?_, hm, hf⟩
  unfold Deed.perform
  rw [Option.isNone_eq_false_iff.2 h]
  rfl

lemma passes_request (name : String) : (Deed.request name).Passes files := by
  rintro hand t - rfl
  cases hc : t.cached? name with
  | some module =>
    have hget : getModule returning name t = .ok () t := by
      unfold getModule
      rw [Op.get_bind_apply, hc]
      rfl
    exact ⟨_, t, Op.bind_of_ok hget, rfl, rfl⟩
  | none =>
    have hget : getModule returning name t = .ok () { t with cache := t.cache ++ [(name, ())] } := by
      unfold getModule
      rw [Op.get_bind_apply, hc]
      rfl
    exact ⟨_, _, Op.bind_of_ok hget, rfl, rfl⟩

lemma passes_compile : Deed.compile.Passes files := by
  rintro hand t - rfl
  exact ⟨_, _, rfl, rfl, rfl⟩

lemma passes_start (program : String) (arguments : List String) : (Deed.start program arguments).Passes files := by
  rintro hand t hm rfl
  have hlaunch (u : Toolchain Unit Unit) : ∃ t', launch returning () program arguments u = .ok (.normal 0) t' ∧
      t'.host.files = u.host.files := ⟨_, rfl, rfl⟩
  obtain ⟨t', ht', hfiles⟩ := hlaunch (Op.after (echo program arguments) t)
  exact ⟨_, t', (perform_start hm ..).trans (Op.bind_of_ok ht'), hm, by rw [hfiles, files_after_echo]⟩

lemma passes_shown {deed : Deed} (h : deed.Passes files) (rewriter : Rewriter) :
    (Deed.shown rewriter deed).Passes files := by
  intro hand t hm hf
  obtain ⟨hand', t', hdeed, hm', hf'⟩ := h hand (t.withRewriter (some rewriter)) hm hf
  exact ⟨hand', _, whileShown_of_ok hdeed, hm', hf'⟩

lemma performAll_of_passes {plan : List Task} (hplan : ∀ task ∈ plan, task.2.Passes files) (hand : Hand Unit)
    (t : Toolchain Unit Unit) (hm : hand.module? = some ()) (hf : t.host.files = files) :
    ∃ hand' t', performAll returning plan hand t = .ok hand' t' ∧ hand'.module? = some () ∧ t'.host.files = files := by
  induction plan generalizing hand t with
  | nil => exact ⟨hand, t, rfl, hm, hf⟩
  | cons task plan ih =>
    obtain ⟨hfirst, hrest⟩ := List.forall_mem_cons.1 hplan
    obtain ⟨hand1, t1, hdeed, hm1, hf1⟩ := hfirst hand t hm hf
    obtain ⟨hand', t', hdone, hm', hf'⟩ := ih hrest hand1 t1 hm1 hf1
    refine ⟨hand', t', ?_, hm', hf'⟩
    rw [performAll_cons, Op.bind_of_ok (Op.inStage_of_ok hdeed _), hdone]

end Passes

/-- A source whose object and program are registered already is compiled, linked and run. -/
lemma compileLinkRun_returning {source text : String} {t : Toolchain Unit Unit} {fs fs' : FileSystem}
    {bytes : List UInt8} (hadd : FileSystem.addFile source (Utf8.encode text) t.host.files = .ok ⟨⟩ fs)
    (hsource : (fs.kindOf source).isSome = true) (hobject : (fs.kindOf (Path.object source)).isSome = true)
    (hbinary : (fs.kindOf (Path.binary source)).isSome = true)
    (hlanguage : ((Language.ofPath? source).getD .c).frontEndName?.isSome = true)
    (hread : FileSystem.contents (Path.binary source) fs = .ok bytes fs') (hcheck : Module.check bytes = .ok ⟨⟩)
    (arguments : List String) : ∃ r t', compileLinkRun returning source text arguments t = .ok r t' := by
  -- The files change when the source is written, and again when the program is read. Everything else passes.
  let language := (Language.ofPath? source).getD .c
  let tools : List Task :=
    Stage.compile.tasks (compileDeeds t.config source (Path.object source) language none) ++
      (Stage.link.tasks (linkDeeds t.config [Path.object source] (Path.binary source)) ++
        [(.run, .find (Path.binary source))])
  let running : List Task := Stage.run.tasks [.compile, .start (Path.baseName (Path.binary source)) arguments]
  have hplan : plan t.config source text arguments = (.compile, .write source text) ::
      (tools ++ (.run, .read (Path.binary source)) :: (.run, .check) :: running) := rfl
  have htools : ∀ task ∈ tools, task.2.Passes fs := by
    simp only [tools, compileDeeds, linkDeeds, Stage.tasks, List.map_cons, List.map_nil, List.cons_append,
      List.nil_append, List.forall_mem_cons]
    exact ⟨passes_find hsource, passes_identify source hlanguage, passes_shown (passes_request _) _,
      passes_shown (passes_start _ _) _, passes_find hobject, passes_find hobject, passes_request _, passes_start _ _,
      passes_find hbinary, passes_find hbinary, List.forall_mem_nil _⟩
  have hrunning : ∀ task ∈ running, task.2.Passes fs' :=
    List.forall_mem_cons.2 ⟨passes_compile, List.forall_mem_cons.2 ⟨passes_start _ _, List.forall_mem_nil _⟩⟩
  let hand : Hand Unit := ⟨[], some (), none⟩
  have hwrite : (Deed.write source text).perform returning hand t = .ok hand (t.withFiles fs) :=
    Op.bind_of_ok (onFiles_of_ok hadd)
  obtain ⟨hand1, t1, hdone, hm1, hf1⟩ := performAll_of_passes htools hand (t.withFiles fs) rfl rfl
  have hcontents : (Deed.read (Path.binary source)).perform returning hand1 t1 =
      .ok { hand1 with bytes } (t1.withFiles fs') := Op.bind_of_ok (onFiles_of_ok (hf1 ▸ hread))
  have hchecked : Deed.check.perform returning { hand1 with bytes } (t1.withFiles fs') =
      .ok { hand1 with bytes } (t1.withFiles fs') := Op.bind_of_ok (Op.lift_eq_ok.2 ⟨hcheck, rfl⟩)
  obtain ⟨hand2, t2, hran, -⟩ := performAll_of_passes hrunning { hand1 with bytes } (t1.withFiles fs') hm1 rfl
  have hperform : performAll returning (plan t.config source text arguments) hand t = .ok hand2 t2 := by
    rw [hplan, performAll_cons, Op.bind_of_ok (Op.inStage_of_ok hwrite _), performAll_append, Op.bind_of_ok hdone,
      performAll_cons, Op.bind_of_ok (Op.inStage_of_ok hcontents _), performAll_cons,
      Op.bind_of_ok (Op.inStage_of_ok hchecked _), hran]
  obtain ⟨r, hr, -⟩ := (follows_compileLinkRun source text arguments).symm.of_ok hperform
  exact ⟨r, t2, hr⟩

/-- The least module that can be run. -/
def leastModule : List UInt8 :=
  Module.magic ++ Module.version ++ [7, 19, 2, 6] ++ Utf8.encode Interface.memoryExport ++ [2, 0, 6] ++
    Utf8.encode Interface.startExport ++ [0, 0]

lemma check_leastModule : Module.check leastModule = .ok ⟨⟩ := by
  decide +kernel

/-- A small file is added where little has been handed out. -/
lemma exists_gains_small {fs : FileSystem} {bound : Nat} (hs : fs.store.Sound) (htop : fs.store.top ≤ bound)
    (hb : bound ≤ 0x2000) (path : String) (contents : List UInt8) (hc : contents.length ≤ 0x100)
    (hk : fs.kindOf path ≠ some .directory) (hl : FileSystem.pathLength path ≤ Interface.pathLimit)
    (hn : fs.store.lookup (storedPath path) ≠ some .directory) :
    ∃ fs', FileSystem.addFile path contents fs = .ok ⟨⟩ fs' ∧ fs.Gains path (.file contents) fs' ∧
      fs'.store.top ≤ bound + 0x107 := by
  have hword : contents.length < Word.count := Nat.lt_of_le_of_lt hc (by decide)
  have hroom : fs.store.Room contents.length := by
    refine FileStore.room_of_top_le htop ?_
    have hcount : 0x2000 + 7 + 0x100 < Word.count := by decide
    omega
  obtain ⟨fs', hx, hg⟩ := fs.exists_gains_addFile path contents hs hk hl hn hword hroom
  refine ⟨fs', hx, hg, ?_⟩
  rcases FileSystem.addFile_top hs hx with heq | heq
  · omega
  · rw [Nat.mod_eq_of_lt hword] at heq
    unfold FileStore.aligned at heq
    omega

/-- Files that an earlier request has left: an object and a program. -/
lemma exists_littered : ∃ files fs fs' : FileSystem, files.store.Sound ∧
    FileSystem.addFile "a.c" (Utf8.encode "") files = .ok ⟨⟩ fs ∧ (fs.kindOf "a.c").isSome = true ∧
    (fs.kindOf (Path.object "a.c")).isSome = true ∧ (fs.kindOf (Path.binary "a.c")).isSome = true ∧
    FileSystem.contents (Path.binary "a.c") fs = .ok leastModule fs' := by
  have hobject : Path.object "a.c" = "a.o" := by decide
  have hbinary : Path.binary "a.c" = "a.wasm" := by decide
  have htext : Utf8.encode "" = [] := by decide
  rw [hobject, hbinary, htext]
  obtain ⟨fs1, -, hg1, htop1⟩ := exists_gains_small FileStore.sound_empty
    (by decide : FileSystem.empty.store.top ≤ 0x1000) (by decide) "a.o" [] (by decide) (by decide) (by decide)
    (by decide)
  obtain ⟨fs2, -, hg2, htop2⟩ := by
    refine exists_gains_small hg1.sound htop1 (by decide) "a.wasm" leastModule (by decide) ?_ (by decide) ?_
    · rw [FileSystem.kindOf, hg1.registered]
      decide
    · rw [hg1.lookup]
      decide
  obtain ⟨fs3, hx, hg3, -⟩ := by
    refine exists_gains_small hg2.sound htop2 (by decide) "a.c" [] (by decide) ?_ (by decide) ?_
    · rw [FileSystem.kindOf, hg2.registered, hg1.registered]
      decide
    · rw [hg2.lookup, hg1.lookup]
      decide
  have hkind (path : String) : fs3.kindOf path =
      FileSystem.kindOf ⟨.empty, [("a.c", .file), ("a.o", .file), ("a.wasm", .file)]⟩ path := by
    refine FileSystem.kindOf_congr ?_ path
    rw [hg3.registered, hg2.registered, hg1.registered]
    decide
  have hfound : fs3.store.lookup (storedPath "a.wasm") = some (.file leastModule) := by
    rw [hg3.lookup, Function.update_of_ne (by decide), hg2.lookup, Function.update_self]
  have hshown : ¬ fs3.Hides (.host "a.wasm") := by
    change ¬ fs3.kindOf "a.wasm" = _
    rw [hkind]
    decide
  obtain ⟨fs4, hread⟩ := (FileSystem.readsAs_iff (p := .host "a.wasm") hg3.sound).2
    ⟨hshown, (by decide : FileSystem.pathLength "a.wasm" ≤ _), hfound⟩
  refine ⟨fs2, fs3, fs4, hg2.sound, hx, ?_, ?_, ?_, hread⟩
  all_goals
    rw [hkind]
    decide

/-- Neither the front end nor the linker does anything, and the program is run all the same. -/
lemma exists_littered_ok : ∃ t : Toolchain Unit Unit, t.host.files.store.Sound ∧
    ∃ r t', compileLinkRun returning "a.c" "" [] t = .ok r t' := by
  obtain ⟨files, fs, fs', hs, hadd, hsource, hobject, hbinary, hread⟩ := exists_littered
  let t : Toolchain Unit Unit := { config := {}, engine := (), host := { files } }
  exact ⟨t, hs, compileLinkRun_returning hadd hsource hobject hbinary (by decide) hread check_leastModule []⟩

/-- The guests of a source whose object and program were left by an earlier request provide them. -/
theorem artifacts_written_or_kept_leftovers : ∃ t : Toolchain Unit Unit, t.host.files.store.Sound ∧
    ∃ frontEnd linker program, guests returning (plan t.config "a.c" "" []) {} t = [frontEnd, linker, program] ∧
      frontEnd.Provides returning (Path.object "a.c") ∧ linker.Provides returning (Path.binary "a.c") := by
  obtain ⟨t, hs, r, t', h⟩ := exists_littered_ok
  obtain ⟨frontEnd, linker, program, hguests, hobject, hbinary, -⟩ :=
    (artifacts_written_or_kept returning "a.c" "" [] t hs).1 r t' h
  exact ⟨t, hs, frontEnd, linker, program, hguests, hobject, hbinary⟩

/-- What is linked and what is run need not be written by the guests of the request. -/
theorem exists_artifacts_kept : ¬ ∀ (t : Toolchain Unit Unit) r t', t.host.files.store.Sound →
    compileLinkRun returning "a.c" "" [] t = .ok r t' →
    ∃ frontEnd linker program, guests returning (plan t.config "a.c" "" []) {} t = [frontEnd, linker, program] ∧
      frontEnd.Wrote returning (Path.object "a.c") ∧ linker.Wrote returning (Path.binary "a.c") := by
  intro hall
  obtain ⟨t, hs, r, t', h⟩ := exists_littered_ok
  obtain ⟨frontEnd, linker, program, -, ⟨event, he, -⟩, -⟩ := hall t r t' hs h
  have hnone : frontEnd.events returning = [] := rfl
  rw [hnone] at he
  cases he

end ToolchainHost
