import ToolchainHost.Proofs.Toolchain.Jobs

/-!
# Tools are compiled once

The front end and the linker are modules with names. The first one who asks for a name has it compiled. Whoever asks
later is given that module, until then every failure is tried anew. Programs of users are compiled each time and are
not kept.

* `Engine.recording`: an engine that logs what it compiles by name, and does nothing else differently.
* `CompiledOnce`: what was asked for under a name, and what was compiled.
* `Accounts`: the invariant. The cache holds the modules of the log.
* `modules_compiled_once`: any jobs in a row, whichever of them fail.
-/

namespace ToolchainHost

open Toolchain

variable {σ μ γ α : Type} {engine : Engine σ μ γ}

/-! ### Answers -/

/-- A name, and what came of compiling the module with it or of asking for it. -/
abbrev Answer (μ : Type) := String × Except Failure μ

/-- What came of a name, in order. -/
def answersOf (name : String) (answers : List (Answer μ)) : List (Except Failure μ) :=
  (answers.filter fun a => a.1 == name).map (·.2)

/-- The modules among the answers, with their names. -/
def successes (answers : List (Answer μ)) : List (String × μ) :=
  answers.filterMap fun a => a.2.toOption.map (Prod.mk a.1)

/-- What those were given who asked for a name, and what the engine gave for it. As long as it failed, each of them had
it try once more; since it gave a module, all were given that module and the engine was not called again. -/
inductive CompiledOnce (asked called : List (Except Failure μ)) : Prop
  | never (hf : ∀ r ∈ asked, r.isOk = false) (hc : called = asked)
  | once {failures : List (Except Failure μ)} {module : μ} {n : Nat} (hf : ∀ r ∈ failures, r.isOk = false)
      (ha : asked = failures ++ List.replicate (n + 1) (.ok module)) (hc : called = failures ++ [.ok module])

section Answers

variable {name other : String} {r : Except Failure μ} {module : μ} {answers : List (Answer μ)}
  {asked called : List (Except Failure μ)}

lemma answersOf_concat (name other : String) (r : Except Failure μ) (answers : List (Answer μ)) :
    answersOf name (answers ++ [(other, r)]) =
      if other = name then answersOf name answers ++ [r] else answersOf name answers := by
  by_cases h : other = name <;> simp [answersOf, h]

lemma successes_concat_ok (name : String) (module : μ) (answers : List (Answer μ)) :
    successes (answers ++ [(name, .ok module)]) = successes answers ++ [(name, module)] := by
  simp [successes, Except.toOption]

lemma successes_concat_error (name : String) (e : Failure) (answers : List (Answer μ)) :
    successes (answers ++ [(name, .error e)]) = successes answers := by simp [successes, Except.toOption]

lemma mem_successes : (name, module) ∈ successes answers ↔ (name, .ok module) ∈ answers := by
  simp only [successes, List.mem_filterMap, Option.map_eq_some_iff, Prod.exists, Prod.mk.injEq]
  constructor
  · rintro ⟨key, r, hr, m, hm, rfl, rfl⟩
    cases r with
    | ok m' =>
      cases hm
      exact hr
    | error e => cases hm
  · intro h
    exact ⟨name, .ok module, h, module, rfl, rfl, rfl⟩

lemma mem_answersOf : r ∈ answersOf name answers ↔ (name, r) ∈ answers := by
  simp [answersOf]

namespace CompiledOnce

lemma eq_of_not_isOk (h : CompiledOnce asked called) (hf : ∀ r ∈ called, r.isOk = false) : called = asked := by
  cases h with
  | never hf hc => exact hc
  | @once failures module n _ ha hc =>
    have hok := hf (.ok module) (by simp [hc])
    cases hok

lemma failed (h : CompiledOnce asked called) (hf : ∀ r ∈ called, r.isOk = false) (e : Failure) :
    CompiledOnce (asked ++ [.error e]) (called ++ [.error e]) := by
  have heq := h.eq_of_not_isOk hf
  subst heq
  refine .never (fun r hr => ?_) rfl
  rcases List.mem_append.1 hr with hr | hr
  · exact hf r hr
  · rw [List.mem_singleton.1 hr]
    rfl

lemma compiled (h : CompiledOnce asked called) (hf : ∀ r ∈ called, r.isOk = false) (module : μ) :
    CompiledOnce (asked ++ [.ok module]) (called ++ [.ok module]) := by
  have heq := h.eq_of_not_isOk hf
  subst heq
  exact .once (n := 0) hf rfl rfl

lemma reused (h : CompiledOnce asked called) (hm : .ok module ∈ called) :
    CompiledOnce (asked ++ [.ok module]) called := by
  cases h with
  | never hf hc =>
    subst hc
    cases hf _ hm
  | @once failures module' n hf ha hc =>
    have heq : module = module' := by
      rw [hc, List.mem_append, List.mem_singleton] at hm
      rcases hm with hm | hm
      · cases hf _ hm
      · exact Except.ok.inj hm
    subst heq
    refine .once (n := n + 1) hf ?_ hc
    rw [ha, List.append_assoc, List.replicate_succ' (n := n + 1)]

end CompiledOnce

end Answers

/-! ### An engine with a log -/

/-- An operation that leaves the log as it is. -/
def unlogged {L : Type} (x : Op σ α) : Op (σ × L) α := Op.onPart Prod.fst (fun s p => (s, p.2)) x

/-- The engine with a log of what it compiles by name. -/
def Engine.recording (engine : Engine σ μ γ) : Engine (σ × List (Answer μ)) μ γ where
  fetch name := unlogged (engine.fetch name)
  compileNamed name := fun (s, log) =>
    match engine.compileNamed name s with
    | .ok module s => .ok module (s, log ++ [(name, .ok module)])
    | .error e s => .error e (s, log ++ [(name, .error e)])
  compileBytes bytes := unlogged (engine.compileBytes bytes)
  instantiateStore name := unlogged (engine.instantiateStore name)
  instantiate module := unlogged (engine.instantiate module)
  call := engine.call

/-- What was compiled by name, or why it was not, is in the log. -/
lemma Engine.recording_compileNamed (engine : Engine σ μ γ) (name : String) (p : σ × List (Answer μ)) :
    (∃ module s, engine.compileNamed name p.1 = .ok module s ∧
        engine.recording.compileNamed name p = .ok module (s, p.2 ++ [(name, .ok module)])) ∨
      ∃ e s, engine.compileNamed name p.1 = .error e s ∧
        engine.recording.compileNamed name p = .error e (s, p.2 ++ [(name, .error e)]) := by
  unfold recording
  dsimp only
  cases engine.compileNamed name p.1 with
  | ok module s => exact Or.inl ⟨module, s, rfl, rfl⟩
  | error e s => exact Or.inr ⟨e, s, rfl, rfl⟩

namespace Toolchain

/-- What the engine of a toolchain has compiled by name. -/
def log (t : Toolchain (σ × List (Answer μ)) μ) : List (Answer μ) := t.engine.2

/-- The toolchain without the log of its engine. -/
def withoutLog (t : Toolchain (σ × List (Answer μ)) μ) : Toolchain σ μ := { t with engine := t.engine.1 }

/-- Getting a module finds it in the cache, or has it compiled and remembers it if that goes well. -/
lemma getModule_cases (engine : Engine σ μ γ) (name : String) (t : Toolchain σ μ) :
    (∃ module, t.cached? name = some module ∧ getModule engine name t = .ok module t) ∨
      t.cached? name = none ∧
        ((∃ module s, engine.compileNamed name t.engine = .ok module s ∧
            getModule engine name t = .ok module { t with engine := s, cache := t.cache ++ [(name, module)] }) ∨
          ∃ e s, engine.compileNamed name t.engine = .error e s ∧
            getModule engine name t = .error e { t with engine := s }) := by
  cases hcached : t.cached? name with
  | some module =>
    refine Or.inl ⟨module, rfl, ?_⟩
    unfold getModule
    rw [Op.get_bind_apply, hcached]
    rfl
  | none =>
    refine Or.inr ⟨rfl, ?_⟩
    unfold getModule
    rw [Op.get_bind_apply, hcached]
    cases hx : engine.compileNamed name t.engine with
    | ok module s => exact Or.inl ⟨module, s, rfl, Op.bind_of_ok (Op.onPart_of_ok hx)⟩
    | error e s => exact Or.inr ⟨e, s, rfl, Op.bind_of_error (Op.onPart_of_error hx)⟩

end Toolchain

/-! ### Who asks for modules -/

/-- What an operation answers. -/
def Op.answer (x : Op σ α) (s : σ) : Except Failure α :=
  match x s with
  | .ok a _ => .ok a
  | .error e _ => .error e

/-- The name that a deed asks for, and what it is given. -/
def Deed.answer? (engine : Engine σ μ γ) : Deed → Toolchain σ μ → Option (Answer μ)
  | request name, t => some (name, Op.answer (getModule engine name) t)
  | shown rewriter deed, t => deed.answer? engine (t.withRewriter (some rewriter))
  | _, _ => none

/-- The answers that are given in moments. -/
def answers (engine : Engine σ μ γ) (moments : List (Moment σ μ)) : List (Answer μ) :=
  moments.filterMap fun m => m.deed.answer? engine m.toolchain

/-- The module with the name is the front end or the linker. -/
def Config.Tool (c : Config) (name : String) : Prop := name = c.clangModule ∨ name = c.lldModule

/-- The cache holds the modules of the log, all of them tools, and whoever asked has been answered from it. -/
structure Accounts (c : Config) (asked : List (Answer μ)) (t : Toolchain (σ × List (Answer μ)) μ) : Prop where
  config : t.config = c
  cache : t.cache = successes t.log
  once (name : String) : CompiledOnce (answersOf name asked) (answersOf name t.log)
  tools {a : Answer μ} (ha : a ∈ t.log) : c.Tool a.1

section Accounts

variable {c : Config} {asked : List (Answer μ)} {t t' : Toolchain (σ × List (Answer μ)) μ} {name : String} {module : μ}

lemma Accounts.of_eq (h : Accounts c asked t) (hconfig : t'.config = t.config) (hcache : t'.cache = t.cache)
    (hlog : t'.log = t.log) : Accounts c asked t' where
  config := hconfig.trans h.config
  cache := by rw [hcache, hlog, h.cache]
  once name := by
    rw [hlog]
    exact h.once name
  tools := by
    rw [hlog]
    exact h.tools

lemma Accounts.mem_of_cached? (h : Accounts c asked t) (hx : t.cached? name = some module) :
    .ok module ∈ answersOf name t.log := by
  obtain ⟨m, hm, rfl⟩ := Option.map_eq_some_iff.1 hx
  have hname : m.1 = name := by simpa using List.find?_some hm
  have hmem := List.mem_of_find?_eq_some hm
  rw [h.cache] at hmem
  exact mem_answersOf.2 (hname ▸ mem_successes.1 hmem)

lemma Accounts.not_isOk_of_cached? (h : Accounts c asked t) (hx : t.cached? name = none) :
    ∀ r ∈ answersOf name t.log, r.isOk = false := by
  intro r hr
  cases r with
  | error e => rfl
  | ok module =>
    have hmem : (name, module) ∈ t.cache := h.cache ▸ mem_successes.2 (mem_answersOf.1 hr)
    have hnone := List.find?_eq_none.1 (Option.map_eq_none_iff.1 hx) _ hmem
    simp at hnone

/-- The engine was called for a name. -/
lemma Accounts.once_concat (h : Accounts c asked t) {r : Except Failure μ}
    (hr : CompiledOnce (answersOf name asked ++ [r]) (answersOf name t.log ++ [r])) (other : String) :
    CompiledOnce (answersOf other (asked ++ [(name, r)])) (answersOf other (t.log ++ [(name, r)])) := by
  rw [answersOf_concat, answersOf_concat]
  split_ifs with he
  · exact he ▸ hr
  · exact h.once other

lemma Accounts.tools_concat (h : Accounts c asked t) (hname : c.Tool name) {r : Except Failure μ} {a : Answer μ}
    (ha : a ∈ t.log ++ [(name, r)]) : c.Tool a.1 := by
  rcases List.mem_append.1 ha with ha | ha
  · exact h.tools ha
  · rw [List.mem_singleton.1 ha]
    exact hname

/-- **Who asks for a tool** is answered from the cache, or has the engine called. -/
theorem Accounts.getModule (h : Accounts c asked t) (hname : c.Tool name) :
    Accounts c (asked ++ [(name, Op.answer (Toolchain.getModule engine.recording name) t)])
      (Op.after (Toolchain.getModule engine.recording name) t) := by
  rcases getModule_cases engine.recording name t with ⟨module, hcached, hx⟩ | ⟨hcached, hx⟩
  · rw [Op.after_of_ok hx, Op.answer, hx]
    refine ⟨h.config, h.cache, fun other => ?_, h.tools⟩
    rw [answersOf_concat]
    split_ifs with he
    · subst he
      exact (h.once name).reused (h.mem_of_cached? hcached)
    · exact h.once other
  -- The engine is called, and since the name is not in the cache it has only failed so far.
  have hnot := h.not_isOk_of_cached? hcached
  rcases hx with ⟨module, s, hcompile, hx⟩ | ⟨e, s, hcompile, hx⟩
  · rcases engine.recording_compileNamed name t.engine with ⟨m, s', -, hlog⟩ | ⟨e, s', -, hlog⟩
    · cases hcompile.symm.trans hlog
      rw [Op.after_of_ok hx, Op.answer, hx]
      refine ⟨h.config, ?_, h.once_concat ((h.once name).compiled hnot module), h.tools_concat hname⟩
      show t.cache ++ [(name, module)] = successes (t.log ++ [(name, .ok module)])
      rw [successes_concat_ok, h.cache]
    · cases hcompile.symm.trans hlog
  · rcases engine.recording_compileNamed name t.engine with ⟨m, s', -, hlog⟩ | ⟨e', s', -, hlog⟩
    · cases hcompile.symm.trans hlog
    · cases hcompile.symm.trans hlog
      rw [Op.after_of_error hx, Op.answer, hx]
      refine ⟨h.config, ?_, h.once_concat ((h.once name).failed hnot e), h.tools_concat hname⟩
      show t.cache = successes (t.log ++ [(name, .error e)])
      rw [successes_concat_error, h.cache]

end Accounts

/-! ### What else deeds do -/

namespace Toolchain

/-- Nothing was compiled by name. -/
structure KeepsModules (t t' : Toolchain (σ × List (Answer μ)) μ) : Prop where
  config : t'.config = t.config
  cache : t'.cache = t.cache
  log : t'.log = t.log

instance : IsPreorder (Toolchain (σ × List (Answer μ)) μ) KeepsModules where
  refl _ := ⟨rfl, rfl, rfl⟩
  trans _ _ _ h1 h2 := ⟨h2.config.trans h1.config, h2.cache.trans h1.cache, h2.log.trans h1.log⟩

/-- The log is the same. -/
def KeepsLog (p p' : σ × List (Answer μ)) : Prop := p'.2 = p.2

instance : IsPreorder (σ × List (Answer μ)) KeepsLog where
  refl _ := rfl
  trans _ _ _ h1 h2 := h2.trans h1

lemma keepsLog_unlogged (x : Op σ α) : Op.Within (KeepsLog (μ := μ)) (unlogged x) := Op.within_onPart fun _ => rfl

/-- Starting a guest compiles nothing. -/
lemma keepsLog_run (engine : Engine σ μ γ) (module : μ) (launch : Launch) (p : σ × List (Answer μ)) (h : Host) :
    KeepsLog p (Op.after (launch.run engine.recording module) (p, h)).1 := by
  have hinstantiate : Op.Within KeepsLog (launch.instantiate engine.recording module) :=
    (keepsLog_unlogged _).bind fun _ => (Op.within_lift _).bind fun _ => Op.within_pure _
  have hp := hinstantiate p
  cases hi : launch.instantiate engine.recording module p with
  | ok i p' =>
    rw [Op.after_of_ok hi] at hp
    rw [Op.after_congr (Launch.run_of_ok hi h), Op.after_onPart]
    exact hp
  | error e p' =>
    rw [Op.after_of_error hi] at hp
    rw [Op.after_of_error (Launch.run_of_error hi h)]
    exact hp

lemma allows_keepsModules (engine : Engine σ μ γ) : Allows engine.recording (KeepsModules (σ := σ) (μ := μ)) where
  files _ := Op.within_onPart fun _ => ⟨rfl, rfl, rfl⟩
  bytes _ := Op.within_onPart fun t => ⟨rfl, rfl, keepsLog_unlogged _ t.engine⟩
  shown rewriter _ hx := within_whileShown (fun _ _ => ⟨rfl, rfl, rfl⟩) hx rewriter

lemma allowsGuests_keepsModules (engine : Engine σ μ γ) (program : String) :
    AllowsGuests engine.recording (KeepsModules (σ := σ) (μ := μ)) program where
  echo arguments := by
    refine Op.within_modify fun t => ?_
    split_ifs <;> exact ⟨rfl, rfl, rfl⟩
  launch module arguments := by
    intro t
    rw [Op.after_congr (launch_apply ..), Op.after_onPart]
    exact ⟨rfl, rfl, keepsLog_run engine module _ t.engine t.host⟩

end Toolchain

/-! ### Deeds, plans and jobs -/

section Jobs

variable {c : Config} {asked : List (Answer μ)} {t : Toolchain (σ × List (Answer μ)) μ}

/-- A deed that asks for nothing has nothing compiled by name. -/
lemma Accounts.perform_of_none {deed : Deed} (h : Accounts c asked t) (hd : deed.requested? = none) (hand : Hand μ) :
    Accounts c asked (Op.after (deed.perform engine.recording hand) t) := by
  have hnamed (name : String) (hname : deed.requested? = some name) :
      Op.Within KeepsModules (Toolchain.getModule engine.recording name) := by cases hd.symm.trans hname
  have hkeeps := deed.within_perform (allows_keepsModules engine) hnamed
    (fun program _ => allowsGuests_keepsModules engine program) hand t
  exact h.of_eq hkeeps.config hkeeps.cache hkeeps.log

/-- **A deed keeps the accounts**, whatever comes of it. -/
theorem Accounts.perform {deed : Deed} (h : Accounts c asked t)
    (hd : ∀ name, deed.requested? = some name → c.Tool name) (hand : Hand μ) :
    Accounts c (asked ++ (deed.answer? engine.recording t).toList)
      (Op.after (deed.perform engine.recording hand) t) := by
  induction deed generalizing t with
  | request name =>
    have hx : Op.after (Deed.perform engine.recording hand (.request name)) t =
        Op.after (Toolchain.getModule engine.recording name) t := by
      rw [Deed.perform, bind_pure_comp, Op.after_map]
    rw [hx]
    exact h.getModule (hd name rfl)
  | shown rewriter deed ih =>
    have hshown : Accounts c asked (t.withRewriter (some rewriter)) := h.of_eq rfl rfl rfl
    rw [Deed.perform, after_whileShown]
    exact (ih hshown hd).of_eq rfl rfl rfl
  | _ =>
    show Accounts c (asked ++ []) _
    rw [List.append_nil]
    exact h.perform_of_none rfl hand

/-- Only tools are asked for by name. -/
lemma Planned.tool {deed : Deed} {name : String} (h : Planned c deed) (hr : deed.requested? = some name) :
    c.Tool name := by
  cases h with
  | plain hnone => cases hnone.symm.trans hr
  | frontEnd | shownFrontEnd =>
    cases hr
    exact Or.inl rfl
  | linker =>
    cases hr
    exact Or.inr rfl
  | compiling => cases hr

variable (engine)

/-- A plan keeps the accounts up to its end, and at every deed that it tries. -/
lemma Accounts.performAll {plan : List Task} (h : Accounts c asked t) (hplan : AllPlanned c plan) (hand : Hand μ) :
    (∀ m ∈ history engine.recording plan hand t, m.toolchain.cache = successes m.toolchain.log) ∧
      Accounts c (asked ++ answers engine.recording (history engine.recording plan hand t))
        (Op.after (performAll engine.recording plan hand) t) := by
  induction plan generalizing asked hand t with
  | nil =>
    show _ ∧ Accounts c (asked ++ []) t
    rw [List.append_nil]
    exact ⟨List.forall_mem_nil _, h⟩
  | cons task plan ih =>
    have hrest : AllPlanned c plan := fun task' ht => hplan task' (List.mem_cons_of_mem _ ht)
    have hfirst := @Accounts.perform _ _ _ engine _ _ _ _ h (fun name => (hplan task List.mem_cons_self).tool) hand
    have hanswers (moments : List (Moment _ μ)) : answers engine.recording (⟨task.2, hand, t⟩ :: moments) =
        (task.2.answer? engine.recording t).toList ++ answers engine.recording moments := by
      rw [answers, List.filterMap_cons]
      cases task.2.answer? engine.recording t <;> rfl
    rw [history, performAll_cons, hanswers, ← List.append_assoc]
    cases hx : task.2.perform engine.recording hand t with
    | ok hand' t' =>
      rw [Op.after_of_ok hx] at hfirst
      obtain ⟨hmoments, hend⟩ := ih hfirst hrest hand'
      rw [Op.after_bind_of_ok (Op.inStage_of_ok hx task.1)]
      exact ⟨List.forall_mem_cons.2 ⟨h.cache, hmoments⟩, hend⟩
    | error e t' =>
      rw [Op.after_of_error hx] at hfirst
      rw [Op.after_bind_of_error (Op.inStage_of_error hx task.1)]
      show _ ∧ Accounts c (_ ++ []) t'
      rw [List.append_nil]
      exact ⟨List.forall_mem_singleton.2 h.cache, hfirst⟩

/-- Jobs in a row keep the accounts. -/
lemma Accounts.jobs (h : Accounts c asked t) (jobs : List Job) :
    (∀ m ∈ jobsHistory engine.recording jobs t, m.toolchain.cache = successes m.toolchain.log) ∧
      Accounts c (asked ++ answers engine.recording (jobsHistory engine.recording jobs t))
        (t.afterJobs engine.recording jobs) := by
  induction jobs generalizing asked t with
  | nil =>
    show _ ∧ Accounts c (asked ++ []) t
    rw [List.append_nil]
    exact ⟨List.forall_mem_nil _, h⟩
  | cons job jobs ih =>
    have hplanned := job.allPlanned t
    rw [h.config] at hplanned
    obtain ⟨hfirst, hafter⟩ := h.performAll engine hplanned {}
    rw [← job.after_perform] at hafter
    obtain ⟨hrest, hend⟩ := ih hafter
    rw [List.append_assoc, answers, answers, ← List.filterMap_append] at hend
    exact ⟨List.forall_mem_append.2 ⟨hfirst, hrest⟩, hend⟩

end Jobs

/-! ### The log changes nothing -/

section WithoutLog

/-- The toolchains differ by the log only. -/
def Logs (t : Toolchain (σ × List (Answer μ)) μ) (u : Toolchain σ μ) : Prop := u = t.withoutLog

/-- Both operations have done the same, but for the log. -/
abbrev AlikeButLog (x : Op (Toolchain (σ × List (Answer μ)) μ) α) (y : Op (Toolchain σ μ) α) : Prop :=
  ∀ t, Op.Lockstep Logs Eq (x t) (y t.withoutLog)

variable {x : Op (Toolchain (σ × List (Answer μ)) μ) α} {y : Op (Toolchain σ μ) α}

lemma AlikeButLog.bind {β : Type} {f : α → Op (Toolchain (σ × List (Answer μ)) μ) β} {g : α → Op (Toolchain σ μ) β}
    (h : AlikeButLog x y) (hf : ∀ a, AlikeButLog (f a) (g a)) : AlikeButLog (x >>= f) (y >>= g) := by
  intro t
  refine (h t).andThen fun a {t u} hu => ?_
  subst hu
  exact hf a t

lemma alikeButLog_pure (a : α) : AlikeButLog (σ := σ) (μ := μ) (pure a) (pure a) := fun _ => .ok rfl rfl

lemma alikeButLog_throw (e : Failure) : AlikeButLog (σ := σ) (μ := μ) (α := α) (throw e) (throw e) :=
  fun _ => .error e rfl

lemma alikeButLog_lift (r : Except Failure α) : AlikeButLog (σ := σ) (μ := μ) (liftM r) (liftM r) :=
  fun _ => Op.lockstep_lift r rfl

lemma alikeButLog_onFiles (x : Op FileSystem α) : AlikeButLog (σ := σ) (μ := μ) (onFiles x) (onFiles x) := by
  intro t
  cases hx : x t.host.files with
  | ok a fs =>
    rw [onFiles_of_ok hx, onFiles_of_ok (t := t.withoutLog) hx]
    exact .ok rfl rfl
  | error e fs =>
    rw [onFiles_of_error hx, onFiles_of_error (t := t.withoutLog) hx]
    exact .error e rfl

/-- An operation on the engine with a log, and one on the engine without. -/
abbrev EngineAlike (x : Op (σ × List (Answer μ)) α) (y : Op σ α) : Prop :=
  ∀ p, Op.Lockstep (fun p s => s = p.1) Eq (x p) (y p.1)

lemma engineAlike_unlogged (x : Op σ α) : EngineAlike (μ := μ) (unlogged x) x := by
  intro p
  cases hx : x p.1 with
  | ok a s =>
    rw [unlogged, Op.onPart_of_ok hx]
    exact .ok rfl rfl
  | error e s =>
    rw [unlogged, Op.onPart_of_error hx]
    exact .error e rfl

lemma engineAlike_compileNamed (engine : Engine σ μ γ) (name : String) :
    EngineAlike (engine.recording.compileNamed name) (engine.compileNamed name) := by
  intro p
  rcases engine.recording_compileNamed name p with ⟨module, s, hx, hlog⟩ | ⟨e, s, hx, hlog⟩
  · rw [hx, hlog]
    exact .ok rfl rfl
  · rw [hx, hlog]
    exact .error e rfl

lemma engineAlike_instantiate (engine : Engine σ μ γ) (module : μ) (launch : Launch) :
    EngineAlike (launch.instantiate engine.recording module) (launch.instantiate engine module) := by
  intro p
  refine (engineAlike_unlogged (engine.instantiate module) p).andThen fun (memory, code) {p s} hs => ?_
  have hmemory := Op.lockstep_lift (R := fun (p : σ × List (Answer μ)) s => s = p.1) memory hs
  exact hmemory.andThen fun _ {_ _} hs => .ok hs rfl

/-- Without an instance nothing is entered. With one, neither its entry nor its report sees the engine's state. -/
lemma lockstep_run (engine : Engine σ μ γ) (module : μ) (launch : Launch) (p : σ × List (Answer μ)) (h : Host) :
    Op.Lockstep (fun p q => q = (p.1.1, p.2)) Eq (launch.run engine.recording module (p, h))
      (launch.run engine module (p.1, h)) := by
  rcases (engineAlike_instantiate engine module launch p).cases with
    ⟨i, p', _, s', hi, hi', hs, rfl⟩ | ⟨e, p', s', hi, hi', hs⟩
  · subst hs
    rw [Launch.run_of_ok hi, Launch.run_of_ok hi']
    have hreport (t : Termination) (h : Host) : Op.Lockstep Eq Eq (Launch.report t h) (Launch.report t h) := by
      cases Launch.report t h with
      | ok a h => exact .ok rfl rfl
      | error e h => exact .error e rfl
    have henter : i.enter engine.recording Interface.startExport h = i.enter engine Interface.startExport h := rfl
    rw [henter]
    refine Op.Lockstep.onPart (hreport _ (i.enter engine Interface.startExport h).2.2) fun h h' hh => ?_
    rw [hh]
  · subst hs
    rw [Launch.run_of_error hi, Launch.run_of_error hi']
    exact .error e rfl

lemma alikeButLog_onEngine {x : Op (σ × List (Answer μ)) α} {y : Op σ α} (h : EngineAlike x y) :
    AlikeButLog (onEngine x) (onEngine y) := by
  intro t
  unfold onEngine
  refine Op.Lockstep.onPart (R := fun p s => s = p.1) (h t.engine) fun p s hs => ?_
  subst hs
  rfl

lemma alikeButLog_getModule (engine : Engine σ μ γ) (name : String) :
    AlikeButLog (getModule engine.recording name) (getModule engine name) := by
  intro t
  unfold getModule
  rw [Op.get_bind_apply, Op.get_bind_apply]
  have hcached : t.withoutLog.cached? name = t.cached? name := rfl
  rw [hcached]
  cases t.cached? name with
  | some module => exact .ok rfl rfl
  | none =>
    refine (alikeButLog_onEngine (engineAlike_compileNamed engine name)).bind (fun module => ?_) t
    intro t
    exact .ok rfl rfl

lemma alikeButLog_echo (program : String) (arguments : List String) :
    AlikeButLog (σ := σ) (μ := μ) (echo program arguments) (echo program arguments) := by
  intro t
  refine .ok ?_ rfl
  show (if t.config.echoCommands then _ else t.withoutLog) =
    (if t.config.echoCommands then _ else t : Toolchain (σ × List (Answer μ)) μ).withoutLog
  split_ifs <;> rfl

lemma alikeButLog_launch (engine : Engine σ μ γ) (module : μ) (program : String) (arguments : List String) :
    AlikeButLog (launch engine.recording module program arguments) (launch engine module program arguments) := by
  intro t
  rw [launch_apply, launch_apply]
  refine Op.Lockstep.onPart (R := fun p q => q = (p.1.1, p.2)) ?_ fun p q hq => ?_
  · exact lockstep_run engine module (t.request program arguments) t.engine t.host
  · subst hq
    rfl

lemma AlikeButLog.whileShown (h : AlikeButLog x y) (rewriter : Rewriter) :
    AlikeButLog (whileShown rewriter x) (whileShown rewriter y) := by
  intro t
  have hrun := h (t.withRewriter (some rewriter))
  rw [whileShown_apply, whileShown_apply]
  rcases hrun.cases with ⟨a, u, _, v, hx, hy, hu, rfl⟩ | ⟨e, u, v, hx, hy, hu⟩
  · have hy : y (t.withoutLog.withRewriter (some rewriter)) = .ok a v := hy
    rw [hx, hy]
    subst hu
    exact .ok rfl rfl
  · have hy : y (t.withoutLog.withRewriter (some rewriter)) = .error e v := hy
    rw [hx, hy]
    subst hu
    exact .error e rfl

lemma AlikeButLog.inStage (h : AlikeButLog x y) (stage : Stage) :
    AlikeButLog (Op.inStage stage x) (Op.inStage stage y) := by
  intro t
  rcases (h t).cases with ⟨a, u, _, v, hx, hy, hu, rfl⟩ | ⟨e, u, v, hx, hy, hu⟩
  · rw [Op.inStage_of_ok hx, Op.inStage_of_ok hy]
    exact .ok hu rfl
  · rw [Op.inStage_of_error hx, Op.inStage_of_error hy]
    exact .error _ hu

/-- A deed does the same with a log and without. -/
lemma alikeButLog_perform (engine : Engine σ μ γ) (deed : Deed) (hand : Hand μ) :
    AlikeButLog (deed.perform engine.recording hand) (deed.perform engine hand) := by
  induction deed with
  | write path text => exact (alikeButLog_onFiles _).bind fun _ => alikeButLog_pure _
  | find path =>
    refine AlikeButLog.bind ((alikeButLog_onFiles _).bind fun found => ?_) fun _ => alikeButLog_pure _
    cases found with
    | true => exact alikeButLog_pure _
    | false => exact alikeButLog_throw _
  | identify source language =>
    intro t
    unfold Deed.perform
    split_ifs
    · exact .error _ rfl
    · exact .ok rfl rfl
  | request name => exact (alikeButLog_getModule engine name).bind fun _ => alikeButLog_pure _
  | start program arguments =>
    unfold Deed.perform
    cases hand.module? with
    | none => exact alikeButLog_throw _
    | some module =>
      exact (alikeButLog_echo program arguments).bind fun _ =>
        (alikeButLog_launch engine module program arguments).bind fun _ => alikeButLog_pure _
  | read path => exact (alikeButLog_onFiles _).bind fun _ => alikeButLog_pure _
  | check => exact (alikeButLog_lift _).bind fun _ => alikeButLog_pure _
  | compile =>
    exact (alikeButLog_onEngine (engineAlike_unlogged (engine.compileBytes hand.bytes))).bind fun _ =>
      alikeButLog_pure _
  | shown rewriter deed ih => exact ih.whileShown rewriter

lemma alikeButLog_performAll (engine : Engine σ μ γ) (plan : List Task) (hand : Hand μ) :
    AlikeButLog (performAll engine.recording plan hand) (performAll engine plan hand) := by
  induction plan generalizing hand with
  | nil => exact alikeButLog_pure hand
  | cons task plan ih =>
    rw [performAll_cons, performAll_cons]
    exact ((alikeButLog_perform engine task.2 hand).inStage task.1).bind ih

/-- **Jobs do the same with a log and without.** -/
theorem withoutLog_afterJobs (engine : Engine σ μ γ) (jobs : List Job) (t : Toolchain (σ × List (Answer μ)) μ) :
    (t.afterJobs engine.recording jobs).withoutLog = t.withoutLog.afterJobs engine jobs := by
  induction jobs generalizing t with
  | nil => rfl
  | cons job jobs ih =>
    have hplan : job.plan t.withoutLog = job.plan t := by cases job <;> rfl
    have hjob : (Op.after (job.perform engine.recording) t).withoutLog =
        Op.after (job.perform engine) t.withoutLog := by
      rw [job.after_perform, job.after_perform, hplan]
      rcases (alikeButLog_performAll engine (job.plan t) {} t).cases with
        ⟨a, u, _, v, hx, hy, hu, rfl⟩ | ⟨e, u, v, hx, hy, hu⟩
      · rw [Op.after_of_ok hx, Op.after_of_ok hy, hu]
      · rw [Op.after_of_error hx, Op.after_of_error hy, hu]
    exact (ih _).trans (congrArg (fun t : Toolchain σ μ => t.afterJobs engine jobs) hjob)

end WithoutLog

/-- **Each tool is compiled at most once.** Whatever jobs a toolchain does, in whatever order, and whichever of its
engine's compilations fail: under every name the engine is called until it first succeeds, and everyone who has asked
since was given that module. At every deed that is tried, and in the end, the cache holds the modules that were
compiled by name and nothing else, so a failure leaves it as it was; and they are the front end and the linker. The log
that tells all this changes nothing. -/
theorem modules_compiled_once (engine : Engine σ μ γ) (config : Config) (state : σ) (host : Host) (jobs : List Job) :
    let t : Toolchain (σ × List (Answer μ)) μ := { config, engine := (state, []), host }
    let t' := t.afterJobs engine.recording jobs
    (∀ name, CompiledOnce (answersOf name (answers engine.recording (jobsHistory engine.recording jobs t)))
      (answersOf name t'.log)) ∧
    (∀ m ∈ jobsHistory engine.recording jobs t, m.toolchain.cache = successes m.toolchain.log) ∧
    t'.cache = successes t'.log ∧
    (∀ m ∈ t'.cache, m.1 = config.clangModule ∨ m.1 = config.lldModule) ∧
    t'.withoutLog = Toolchain.afterJobs engine { config, engine := state, host } jobs := by
  intro t t'
  have hbegin : Accounts config [] t := by
    refine ⟨rfl, rfl, fun name => .never (List.forall_mem_nil _) rfl, fun ha => ?_⟩
    cases ha
  obtain ⟨hmoments, hend⟩ := hbegin.jobs engine jobs
  refine ⟨hend.once, hmoments, hend.cache, fun m hm => ?_, withoutLog_afterJobs engine jobs t⟩
  have hmem : (m.1, .ok m.2) ∈ t'.log := mem_successes.1 (hend.cache ▸ hm)
  exact hend.tools hmem

end ToolchainHost
