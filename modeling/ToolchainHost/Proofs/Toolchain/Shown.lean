import ToolchainHost.Proofs.Guest.Texts
import ToolchainHost.Proofs.Toolchain.Jobs

/-!
# What jobs show

While a job is done, the terminal shows what the guests write. If commands are shown, each stands before the texts of
its guest, and behind them stands why the guest has failed.

* `Termination.reported`, `Instance.Entry.texts`, `Moment.texts`: the texts of an end, of a guest and of a moment.
* `Deed.texts_after_perform`: a deed shows the texts of its moment.
* `Job.texts_after_perform`: a job shows the texts of its moments, in order, and nothing else.
-/

namespace ToolchainHost

open Toolchain

variable {σ μ γ α : Type} {engine : Engine σ μ γ}

/-! ### Texts -/

/-- The text that shows why a guest has failed. -/
def Termination.reported : Termination → List String
  | normal _ => []
  | trap t => [t.render]
  | exit code => if code = 0 ∨ (exit code).allowsScheduling then [] else [(Failure.guestExit code).render]

/-- The texts of a new guest: those of its payloads, rewritten as its host says, and why it failed. -/
def Instance.Entry.texts (engine : Engine σ μ γ) (e : Instance.Entry γ) : List String :=
  textsOf e.host.rewriter (e.payloads engine) ++ (e.termination engine).reported

/-- The command that a deed starts a guest for. -/
def Deed.command? : Deed → Option (String × List String)
  | start program arguments => some (program, arguments)
  | shown _ deed => deed.command?
  | _ => none

namespace Moment

/-- The command, if there is a module for it and commands are shown. -/
def echoed (m : Moment σ μ) : List String :=
  match m.deed.command? with
  | some (program, arguments) =>
    if m.hand.module?.isSome ∧ m.toolchain.config.echoCommands then
      ["> " ++ program ++ " " ++ " ".intercalate arguments ++ "\n"]
    else []
  | none => []

/-- The texts of a moment: the command, and the texts of the guest that is started. -/
def texts (engine : Engine σ μ γ) (m : Moment σ μ) : List String :=
  m.echoed ++ (m.guest? engine).toList.flatMap (Instance.Entry.texts engine)

end Moment

/-- The host shows what it showed before. -/
def Toolchain.SameTexts (t t' : Toolchain σ μ) : Prop := t'.host.texts = t.host.texts

instance : IsPreorder (Toolchain σ μ) SameTexts where
  refl _ := rfl
  trans _ _ _ h1 h2 := h2.trans h1

/-! ### Guests and their commands -/

lemma Host.texts_emit {text : String} (ht : text ≠ "") (h : Host) : (h.emit text).texts = h.texts ++ [text] := by
  simp [texts, events_emit ht, Event.shown?]

lemma Host.texts_after_onFiles (x : Op FileSystem α) (h : Host) : (Op.after (onFiles x) h).texts = h.texts := by
  rw [onFiles, Op.after_onPart]
  rfl

lemma Launch.texts_after_report (t : Termination) (h : Host) :
    (Op.after (report t) h).texts = h.texts ++ t.reported := by
  cases t with
  | normal code => exact (List.append_nil _).symm
  | trap trap => exact Host.texts_emit trap.render_ne_empty h
  | exit code =>
    unfold report Termination.reported
    dsimp only
    split_ifs
    · exact (List.append_nil _).symm
    · exact Host.texts_emit (Failure.guestExit code).render_ne_empty h

namespace Toolchain

variable (t : Toolchain σ μ) (program : String) (arguments : List String)

lemma texts_after_echo : (Op.after (echo program arguments) t).host.texts = t.host.texts ++
    if t.config.echoCommands then ["> " ++ program ++ " " ++ " ".intercalate arguments ++ "\n"] else [] := by
  have hx : Op.after (echo program arguments) t = if t.config.echoCommands then
      { t with host := t.host.emit ("> " ++ program ++ " " ++ " ".intercalate arguments ++ "\n") } else t := rfl
  rw [hx]
  split_ifs with hecho
  · exact Host.texts_emit (by simp [String.append_eq_empty_iff]) t.host
  · simp

/-- A launch shows the texts of its guest, and nothing if there is none. -/
lemma texts_after_launch (engine : Engine σ μ γ) (module : μ) :
    (Op.after (launch engine module program arguments) t).host.texts =
      t.host.texts ++ (t.guest? engine module program arguments).toList.flatMap (Instance.Entry.texts engine) := by
  rw [Op.after_congr (launch_apply ..), Op.after_onPart]
  unfold guest?
  cases hi : (t.request program arguments).instantiate engine module t.engine with
  | error e s =>
    rw [Op.after_of_error (Launch.run_of_error hi t.host)]
    simp
  | ok i s =>
    have hshows := (⟨Interface.startExport, i, t.host⟩ : Instance.Entry γ).shows engine
    rw [Op.after_congr (Launch.run_of_ok hi t.host), Op.after_onPart]
    simp only [Option.toList_some, List.flatMap_singleton, Instance.Entry.texts, ← List.append_assoc]
    rw [← hshows.texts]
    exact Launch.texts_after_report _ _

lemma allows_sameTexts (engine : Engine σ μ γ) : Allows engine (SameTexts : Toolchain σ μ → Toolchain σ μ → Prop) where
  files x := Op.within_onPart fun t => Host.texts_after_onFiles x t.host
  bytes _ := Op.within_onPart fun _ => rfl
  shown rewriter _ hx := within_whileShown (fun _ _ => rfl) hx rewriter

end Toolchain

/-! ### Deeds, plans and jobs -/

/-- **A deed shows the texts of its moment**, also where it fails. -/
theorem Deed.texts_after_perform (engine : Engine σ μ γ) (deed : Deed) (hand : Hand μ) (t : Toolchain σ μ) :
    (Op.after (deed.perform engine hand) t).host.texts = t.host.texts ++ (Moment.mk deed hand t).texts engine := by
  induction deed generalizing t with
  | start program arguments =>
    simp only [Moment.texts, Moment.echoed, Moment.guest?, command?, guest?]
    cases hm : hand.module? with
    | none =>
      have hx : (start program arguments).perform engine hand t = .error .crash t := by
        unfold perform
        rw [hm]
        rfl
      rw [Op.after_of_error hx]
      simp
    | some module =>
      rw [Op.after_congr (perform_start hm program arguments t), bind_pure_comp, Op.after_map, texts_after_launch,
        texts_after_echo]
      simp
  | shown rewriter deed ih =>
    rw [perform, after_whileShown]
    exact ih (t.withRewriter (some rewriter))
  | _ =>
    have hsame (deed : Deed) (hp : deed.program? = none) : Op.Within SameTexts (deed.perform engine hand) :=
      deed.within_perform (allows_sameTexts engine)
        (fun name _ => within_getModule (fun _ _ _ => rfl) engine name) (fun _ h => absurd (hp.symm.trans h) (Option.some_ne_none _).symm) hand
    exact (hsame _ rfl t).trans (List.append_nil _).symm

/-- A plan shows the texts of the moments in which its deeds are tried. -/
lemma texts_after_performAll (engine : Engine σ μ γ) (plan : List Task) (hand : Hand μ) (t : Toolchain σ μ) :
    (Op.after (performAll engine plan hand) t).host.texts =
      t.host.texts ++ (history engine plan hand t).flatMap (Moment.texts engine) := by
  induction plan generalizing hand t with
  | nil => exact (List.append_nil _).symm
  | cons task plan ih =>
    have hfirst := task.2.texts_after_perform engine hand t
    rw [history, performAll_cons, List.flatMap_cons]
    cases hx : task.2.perform engine hand t with
    | ok hand' t' =>
      rw [Op.after_of_ok hx] at hfirst
      rw [Op.after_bind_of_ok (Op.inStage_of_ok hx task.1), ih, hfirst, List.append_assoc]
    | error e t' =>
      rw [Op.after_of_error hx] at hfirst
      rw [Op.after_bind_of_error (Op.inStage_of_error hx task.1), hfirst]
      simp

/-- **A job shows the texts of its moments**, in order, and nothing else. -/
theorem Job.texts_after_perform (engine : Engine σ μ γ) (job : Job) (t : Toolchain σ μ) :
    (Op.after (job.perform engine) t).host.texts =
      t.host.texts ++ (job.history engine t).flatMap (Moment.texts engine) := by
  rw [job.after_perform]
  exact texts_after_performAll engine _ _ t

end ToolchainHost
