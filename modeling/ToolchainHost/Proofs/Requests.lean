import ToolchainHost.Proofs.Toolchain.Jobs

/-!
# What requests do

A request writes the files that come with it. Then it does jobs, one after the other, until one fails, or it shows what
an interpreter made of its source.

* `Worker.within_runSource`, `within_runCommand`: requests stay within the relations within which their parts do.
* `Worker.host_after_handle`: the completion is posted on a host that the request has led to.
* `Host.permits_continues`: nothing before it ends the request.
-/

namespace ToolchainHost

open Toolchain

variable {σ μ γ α : Type} {engine : Engine σ μ γ} {interpreter : Option Interpreter}

lemma Op.within_forM {τ : Type} {R : τ → τ → Prop} [IsPreorder τ R] {f : α → Op τ PUnit}
    (hf : ∀ a, Within R (f a)) (l : List α) : Within R (l.forM f) := by
  induction l with
  | nil => exact within_pure _
  | cons a l ih => exact (hf a).bind fun _ => ih

namespace Worker

section Within

variable {R : Toolchain σ μ → Toolchain σ μ → Prop} [IsPreorder (Toolchain σ μ) R] (h : Allows engine R)
  (hnamed : ∀ name, Op.Within R (getModule engine name))
  (hguests : ∀ program, AllowsGuests engine R program)

include h

lemma within_writeFiles (files : List SourceFile) : Op.Within R (writeFiles files) :=
  Op.within_forM (fun _ => h.files _) files

lemma within_sourceText (active : String) (files : List SourceFile) : Op.Within R (sourceText active files) := by
  unfold sourceText
  split
  · exact Op.within_pure _
  · exact (h.files _).bind fun _ => Op.within_pure _

omit h in
lemma within_interpret (hshow : ∀ text t, R t { t with host := t.host.emit text }) (name source : String) :
    Op.Within R (interpret interpreter name source) := by
  have hemit (text : String) : Op.Within R (onHost (modify (Host.emit text)) : Op (Toolchain σ μ) PUnit) :=
    Op.within_onPart fun t => hshow text t
  unfold interpret
  cases interpreter with
  | none => exact Op.within_throw _
  | some run =>
    dsimp only
    split
    · exact hemit _
    · exact Op.within_pure _
    · exact (hemit _).bind fun _ => Op.within_throw _

include hnamed hguests

/-- A request to run a source stays within such a relation, whatever the source's language. -/
lemma within_runSource (hshow : ∀ text t, R t { t with host := t.host.emit text }) (active : String)
    (files : List SourceFile) : Op.Within R (runSource engine interpreter active files) := by
  refine (within_writeFiles h files).bind fun _ => (within_sourceText h active files).bind fun source => ?_
  split
  · exact within_interpret hshow active source
  · exact (Job.build active source []).within_perform h hnamed hguests
  · exact Op.within_throw _

/-- A request to run lines stays within such a relation. -/
lemma within_runCommand (active : String) (lines : List String) (files : List SourceFile) :
    Op.Within R (runCommand engine active lines files) :=
  (within_writeFiles h files).bind fun _ => Op.within_forM (fun _ => (Job.line _).within_perform h hnamed hguests) lines

end Within

/-! ### How a request leaves the host -/

section Hosts

variable {S : Host → Host → Prop} [IsPreorder Host S]

/-- A worker's toolchain stays within what a relation between hosts permits. -/
lemma host_after_onToolchain {x : Op (Toolchain σ μ) α} (hx : Op.Within (OnHosts S) x) (w : Worker σ μ) :
    S w.host (Op.after (onToolchain x) w).host := by
  cases w with
  | waiting state host => exact refl_of S host
  | stranded host => exact refl_of S host
  | ready t =>
    have hrun := hx t
    cases hr : x t with
    | ok a t' =>
      rw [Op.after_of_ok hr] at hrun
      rw [Op.after_of_ok (onToolchain_of_ok hr)]
      exact hrun
    | error e t' =>
      rw [Op.after_of_error hr] at hrun
      rw [Op.after_of_error (onToolchain_of_error hr)]
      exact hrun

/-- The completion is posted last, behind the diagnosis if there is one. -/
lemma host_after_finish (hemit : ∀ text h, S h (h.emit text)) (outcome : Except Failure Unit) (completion : Event)
    (w : Worker σ μ) : ∃ h, S w.host h ∧ (Op.after (finish outcome completion) w).host = h.post completion := by
  cases outcome with
  | ok a => exact ⟨w.host, refl_of S w.host, host_setHost _ w⟩
  | error e =>
    by_cases he : e.isReported = true
    · rw [Op.after_of_error (finish_of_reported he)]
      exact ⟨w.host, refl_of S w.host, host_setHost _ w⟩
    · rw [Op.after_of_error (finish_of_not_reported (Bool.eq_false_iff.2 he))]
      exact ⟨w.host.emit e.render, hemit _ _, host_setHost _ w⟩

lemma host_after_attempt_finish (h : Host.Permits engine S) {x : Op (Toolchain σ μ) Unit}
    (hx : Op.Within (OnHosts S) x) (completion : Event) (w : Worker σ μ) :
    ∃ h, S w.host h ∧ (Op.after (Op.attempt (onToolchain x) >>= fun r => finish r completion) w).host =
      h.post completion := by
  have hrun := host_after_onToolchain hx w
  cases hr : onToolchain x w with
  | ok a w' =>
    rw [Op.after_of_ok hr] at hrun
    rw [Op.after_bind_of_ok (Op.attempt_of_ok hr)]
    obtain ⟨h', hs, he⟩ := host_after_finish (S := S) h.emit (.ok a) completion w'
    exact ⟨h', trans_of S hrun hs, he⟩
  | error e w' =>
    rw [Op.after_of_error hr] at hrun
    rw [Op.after_bind_of_ok (Op.attempt_of_error hr)]
    obtain ⟨h', hs, he⟩ := host_after_finish (S := S) h.emit (.error e) completion w'
    exact ⟨h', trans_of S hrun hs, he⟩

/-- **A request to run something** ends by posting its completion on a host that it has led to, whatever came of it. -/
theorem host_after_handle (h : Host.Permits engine S) (interpreter : Option Interpreter) {request : Request}
    {completion : Event} (hc : request.completion? = some completion) (w : Worker σ μ) :
    ∃ h', S w.host h' ∧ (Op.after (handle engine interpreter request) w).host = h'.post completion := by
  have hallows : Allows engine (OnHosts S : Toolchain σ μ → Toolchain σ μ → Prop) := allows_onHosts h
  have hnamed := fun name => within_getModule_onHosts (S := S) engine name
  have hguests := allowsGuests_onHosts (σ := σ) (μ := μ) h
  cases request with
  | init config => cases hc
  | runSource active files =>
    cases hc
    have hx := @within_runSource _ _ _ engine interpreter _ _ hallows hnamed hguests (fun text t => h.emit text t.host)
      active files
    exact host_after_attempt_finish h hx _ w
  | runCommand token active lines files =>
    cases hc
    exact host_after_attempt_finish h (within_runCommand hallows hnamed hguests active lines files) _ w

end Hosts

end Worker

/-- Whatever guests and stages do, the request goes on. -/
lemma Host.permits_continues (engine : Engine σ μ γ) : Host.Permits engine Host.Continues where
  files _ _ := continues_of_eq rfl
  emit := continues_emit
  enter i h := Instance.continues_enter engine _ i h
  shown _ _ _ hs := hs

end ToolchainHost
