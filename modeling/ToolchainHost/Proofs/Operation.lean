import Mathlib.Tactic.Common
import ToolchainHost.Failure

/-!
# Running operations

How an operation on a state runs, one lemma for each way of putting operations together: forwards, where the
outcome of the parts is known, and backwards, from the outcome of the whole to that of the parts.
-/

namespace ToolchainHost.Op

variable {σ τ α β : Type}

/-! ### The steps of an operation -/

@[simp] lemma pure_apply (a : α) (s : σ) : (pure a : Op σ α) s = .ok a s := rfl

@[simp] lemma throw_apply (e : Failure) (s : σ) : (throw e : Op σ α) s = .error e s := rfl

@[simp] lemma get_apply (s : σ) : (get : Op σ σ) s = .ok s s := rfl

@[simp] lemma set_apply (s t : σ) : (set t : Op σ PUnit) s = .ok ⟨⟩ t := rfl

@[simp] lemma modify_apply (f : σ → σ) (s : σ) : (modify f : Op σ PUnit) s = .ok ⟨⟩ (f s) := rfl

@[simp] lemma lift_ok (a : α) (s : σ) : (liftM (Except.ok a : Except Failure α) : Op σ α) s = .ok a s := rfl

@[simp] lemma lift_error (e : Failure) (s : σ) :
    (liftM (Except.error e : Except Failure α) : Op σ α) s = .error e s := rfl

lemma bind_apply (x : Op σ α) (f : α → Op σ β) (s : σ) :
    (x >>= f) s = match x s with
      | .ok a t => f a t
      | .error e t => .error e t := by
  cases h : x s <;> simp [bind, EStateM.bind, h]

@[simp] lemma map_apply (g : α → β) (x : Op σ α) (s : σ) :
    (g <$> x) s = match x s with
      | .ok a t => .ok (g a) t
      | .error e t => .error e t := by
  cases h : x s <;> simp [Functor.map, EStateM.map, h]

/-! ### Forwards -/

section Forwards

variable {x : Op σ α} {f : α → Op σ β} {s t : σ} {a : α} {e : Failure}

lemma bind_of_ok (h : x s = .ok a t) : (x >>= f) s = f a t := by rw [bind_apply, h]

lemma bind_of_error (h : x s = .error e t) : (x >>= f) s = .error e t := by rw [bind_apply, h]

@[simp] lemma pure_bind_apply (a : α) (f : α → Op σ β) (s : σ) : ((pure a : Op σ α) >>= f) s = f a s := rfl

@[simp] lemma throw_bind_apply (e : Failure) (f : α → Op σ β) (s : σ) :
    ((throw e : Op σ α) >>= f) s = .error e s := rfl

@[simp] lemma get_bind_apply (f : σ → Op σ β) (s : σ) : ((get : Op σ σ) >>= f) s = f s s := rfl

@[simp] lemma set_bind_apply (t : σ) (f : PUnit → Op σ β) (s : σ) :
    ((set t : Op σ PUnit) >>= f) s = f ⟨⟩ t := rfl

@[simp] lemma modify_bind_apply (g : σ → σ) (f : PUnit → Op σ β) (s : σ) :
    ((modify g : Op σ PUnit) >>= f) s = f ⟨⟩ (g s) := rfl

@[simp] lemma lift_ok_bind (a : α) (f : α → Op σ β) (s : σ) :
    ((liftM (Except.ok a : Except Failure α) : Op σ α) >>= f) s = f a s := rfl

@[simp] lemma lift_error_bind (e : Failure) (f : α → Op σ β) (s : σ) :
    ((liftM (Except.error e : Except Failure α) : Op σ α) >>= f) s = .error e s := rfl

end Forwards

/-! ### Backwards -/

lemma bind_eq_ok {x : Op σ α} {f : α → Op σ β} {s t : σ} {b : β} :
    (x >>= f) s = .ok b t ↔ ∃ a u, x s = .ok a u ∧ f a u = .ok b t := by
  rw [bind_apply]
  cases x s <;> simp

lemma bind_eq_error {x : Op σ α} {f : α → Op σ β} {s t : σ} {e : Failure} :
    (x >>= f) s = .error e t ↔ x s = .error e t ∨ ∃ a u, x s = .ok a u ∧ f a u = .error e t := by
  rw [bind_apply]
  cases x s <;> simp

lemma lift_eq_ok {x : Except Failure α} {s t : σ} {a : α} :
    (liftM x : Op σ α) s = .ok a t ↔ x = .ok a ∧ s = t := by
  cases x <;> simp

lemma lift_eq_error {x : Except Failure α} {s t : σ} {e : Failure} :
    (liftM x : Op σ α) s = .error e t ↔ x = .error e ∧ s = t := by
  cases x <;> simp

/-! ### Parts of a state -/

section Parts

variable {get : σ → τ} {put : τ → σ → σ} {x : Op τ α} {s : σ} {a : α} {t : τ} {e : Failure}

lemma onPart_of_ok (h : x (get s) = .ok a t) : onPart get put x s = .ok a (put t s) := by
  simp [onPart, h]

lemma onPart_of_error (h : x (get s) = .error e t) : onPart get put x s = .error e (put t s) := by
  simp [onPart, h]

lemma onPart_eq_ok {u : σ} : onPart get put x s = .ok a u ↔ ∃ t, x (get s) = .ok a t ∧ put t s = u := by
  unfold onPart
  cases x (get s) <;> simp

end Parts

/-! ### Handing over an outcome -/

section Attempt

variable {x : Op σ α} {s t : σ} {a : α} {e : Failure}

lemma attempt_of_ok (h : x s = .ok a t) : attempt x s = .ok (.ok a) t := by simp [attempt, h]

lemma attempt_of_error (h : x s = .error e t) : attempt x s = .ok (.error e) t := by simp [attempt, h]

lemma eq_ok_of_attempt (h : attempt x s = .ok (.ok a) t) : x s = .ok a t := by
  unfold attempt at h
  split at h
  · cases h
    assumption
  · cases h

lemma eq_error_of_attempt (h : attempt x s = .ok (.error e) t) : x s = .error e t := by
  unfold attempt at h
  split at h
  · cases h
  · cases h
    assumption

end Attempt

/-! ### The state that is reached -/

/-- The state an operation reaches, also where it fails. -/
def after (x : Op σ α) (s : σ) : σ :=
  match x s with
  | .ok _ t => t
  | .error _ t => t

section After

variable {x : Op σ α} {s t : σ} {a : α} {e : Failure}

lemma after_of_ok (h : x s = .ok a t) : after x s = t := by rw [after, h]

lemma after_of_error (h : x s = .error e t) : after x s = t := by rw [after, h]

lemma after_congr {y : Op σ α} (h : x s = y t) : after x s = after y t := by rw [after, h, after]

lemma after_bind_of_ok {f : α → Op σ β} (h : x s = .ok a t) : after (x >>= f) s = after (f a) t :=
  after_congr (bind_of_ok h)

lemma after_bind_of_error {f : α → Op σ β} (h : x s = .error e t) : after (x >>= f) s = t :=
  after_of_error (bind_of_error h)

lemma after_attempt (x : Op σ α) (s : σ) : after (attempt x) s = after x s := by
  cases h : x s with
  | ok a t => rw [after_of_ok (attempt_of_ok h), after_of_ok h]
  | error e t => rw [after_of_ok (attempt_of_error h), after_of_error h]

lemma after_map (g : α → β) (x : Op σ α) (s : σ) : after (g <$> x) s = after x s := by
  unfold after
  rw [map_apply]
  cases x s <;> rfl

lemma after_bind_pure (x : Op σ α) (b : β) (s : σ) : after (x >>= fun _ => pure b) s = after x s := by
  rw [bind_pure_comp, after_map]

lemma after_onPart (get : σ → τ) (put : τ → σ → σ) (x : Op τ α) (s : σ) :
    after (onPart get put x) s = put (after x (get s)) s := by
  unfold after onPart
  cases x (get s) <;> rfl

end After

/-! ### How far an operation goes -/

/-- Every run of an operation, also one that fails, reaches a state that `R` allows. -/
def Within (R : σ → σ → Prop) (x : Op σ α) : Prop := ∀ s, R s (after x s)

section Within

variable {R : σ → σ → Prop} {x : Op σ α} {f : α → Op σ β}

lemma within_modify {g : σ → σ} (h : ∀ s, R s (g s)) : Within R (modify g : Op σ PUnit) := h

lemma Within.mono {S : σ → σ → Prop} (hx : Within R x) (h : ∀ s t, R s t → S s t) : Within S x :=
  fun s => h _ _ (hx s)

lemma Within.map (hx : Within R x) (g : α → β) : Within R (g <$> x) := by
  intro s
  rw [after_map]
  exact hx s

lemma Within.attempt (hx : Within R x) : Within R (Op.attempt x) := by
  intro s
  rw [after_attempt]
  exact hx s

lemma Within.ite {c : Prop} [Decidable c] {y : Op σ α} (hx : Within R x) (hy : Within R y) :
    Within R (if c then x else y) := by
  split_ifs
  · exact hx
  · exact hy

lemma within_onPart {x : Op τ α} {get : σ → τ} {put : τ → σ → σ} (h : ∀ s, R s (put (after x (get s)) s)) :
    Within R (onPart get put x) := by
  intro s
  rw [after_onPart]
  exact h s

variable [IsPreorder σ R]

lemma within_pure (a : α) : Within R (pure a : Op σ α) := fun s => refl_of R s

lemma within_throw (e : Failure) : Within R (throw e : Op σ α) := fun s => refl_of R s

lemma within_throw_bind (e : Failure) (f : α → Op σ β) : Within R ((throw e : Op σ α) >>= f) := fun s => refl_of R s

lemma within_get : Within R (get : Op σ σ) := fun s => refl_of R s

lemma within_lift (r : Except Failure α) : Within R (liftM r : Op σ α) := by
  intro s
  cases r <;> exact refl_of R s

lemma Within.bind (hx : Within R x) (hf : ∀ a, Within R (f a)) : Within R (x >>= f) := by
  intro s
  have h := hx s
  cases hr : x s with
  | ok a t =>
    rw [after_of_ok hr] at h
    rw [after_bind_of_ok hr]
    exact trans_of R h (hf a t)
  | error e t =>
    rw [after_of_error hr] at h
    rwa [after_bind_of_error hr]

end Within

/-! ### Where an operation ends -/

/-- An operation gives an answer and a state with `Q`, or it fails in a state with `E`. -/
structure Ends (x : Op σ α) (s : σ) (Q : α → σ → Prop) (E : σ → Prop) : Prop where
  ok : ∀ {a t}, x s = .ok a t → Q a t
  error : ∀ {e t}, x s = .error e t → E t

section Ends

variable {x : Op σ α} {f : α → Op σ β} {s t : σ} {a : α} {P Q : α → σ → Prop} {R : β → σ → Prop} {E : σ → Prop}

lemma ends_of_ok (h : x s = .ok a t) (hq : Q a t) : Ends x s Q E where
  ok h' := by
    rw [h] at h'
    cases h'
    exact hq
  error h' := by
    rw [h] at h'
    cases h'

lemma ends_of_error {e : Failure} (h : x s = .error e t) (he : E t) : Ends x s Q E where
  ok h' := by
    rw [h] at h'
    cases h'
  error h' := by
    rw [h] at h'
    cases h'
    exact he

lemma ends_pure (h : Q a s) : Ends (pure a) s Q E := ends_of_ok (pure_apply a s) h

lemma ends_throw (e : Failure) (h : E s) : Ends (throw e : Op σ α) s Q E := ends_of_error (throw_apply e s) h

lemma Ends.mono {E' : σ → Prop} (h : Ends x s P E) (hq : ∀ a t, P a t → Q a t) (he : ∀ t, E t → E' t) :
    Ends x s Q E' := ⟨fun hx => hq _ _ (h.ok hx), fun hx => he _ (h.error hx)⟩

lemma ends_bind_of_ok (h : x s = .ok a t) (hf : Ends (f a) t R E) : Ends (x >>= f) s R E where
  ok h' := hf.ok (by rwa [bind_of_ok h] at h')
  error h' := hf.error (by rwa [bind_of_ok h] at h')

lemma Ends.bind (h : Ends x s P E) (hf : ∀ a t, P a t → Ends (f a) t R E) : Ends (x >>= f) s R E := by
  cases hx : x s with
  | ok a t => exact ends_bind_of_ok hx (hf a t (h.ok hx))
  | error e t => exact ends_of_error (bind_of_error hx) (h.error hx)

lemma ends_get_bind {f : σ → Op σ β} (h : Ends (f s) s R E) : Ends ((get : Op σ σ) >>= f) s R E :=
  ends_bind_of_ok (get_apply s) h

lemma ends_lift_bind {r : Except Failure α} (hf : ∀ a, r = .ok a → Ends (f a) s R E) (he : E s) :
    Ends ((liftM r : Op σ α) >>= f) s R E := by
  cases r with
  | ok a => exact ends_bind_of_ok (lift_ok a s) (hf a rfl)
  | error e => exact ends_of_error (lift_error_bind e f s) he

lemma Ends.onPart {get : σ → τ} {put : τ → σ → σ} {x : Op τ α}
    (h : Ends x (get s) (fun a t => Q a (put t s)) fun t => E (put t s)) : Ends (onPart get put x) s Q E := by
  cases hx : x (get s) with
  | ok a t => exact ends_of_ok (onPart_of_ok hx) (h.ok hx)
  | error e t => exact ends_of_error (onPart_of_error hx) (h.error hx)

lemma Ends.after (h : Ends x s (fun _ => E) E) : E (after x s) := by
  cases hx : x s with
  | ok a t => exact after_of_ok hx ▸ h.ok hx
  | error e t => exact after_of_error hx ▸ h.error hx

lemma Within.ends {R : σ → σ → Prop} (h : Within R x) (s : σ) : Ends x s (fun _ => R s) (R s) :=
  ⟨fun hx => after_of_ok hx ▸ h s, fun hx => after_of_error hx ▸ h s⟩

end Ends

/-! ### Two operations side by side -/

/-- Two operations have ended alike: both have given answers with `P`, or both have failed for one reason. Their states
are related. -/
inductive Lockstep {α' : Type} (R : σ → τ → Prop) (P : α → α' → Prop) :
    EStateM.Result Failure σ α → EStateM.Result Failure τ α' → Prop
  | ok {a : α} {a' : α'} {s : σ} {t : τ} (hr : R s t) (hp : P a a') : Lockstep R P (.ok a s) (.ok a' t)
  | error {s : σ} {t : τ} (e : Failure) (hr : R s t) : Lockstep R P (.error e s) (.error e t)

section Lockstep

variable {R : σ → τ → Prop} {x : Op σ α} {y : Op τ α} {s : σ} {t : τ} {a : α}

lemma lockstep_pure (a : α) (h : R s t) : Lockstep R Eq ((pure a : Op σ α) s) ((pure a : Op τ α) t) := .ok h rfl

lemma lockstep_lift (r : Except Failure α) (h : R s t) :
    Lockstep R Eq ((liftM r : Op σ α) s) ((liftM r : Op τ α) t) := by
  cases r with
  | ok a => exact .ok h rfl
  | error e => exact .error e h

/-- Both have given answers, or both have failed. -/
lemma Lockstep.cases {α' : Type} {y : Op τ α'} {P : α → α' → Prop} (h : Lockstep R P (x s) (y t)) :
    (∃ a s' a' t', x s = .ok a s' ∧ y t = .ok a' t' ∧ R s' t' ∧ P a a') ∨
      ∃ e s' t', x s = .error e s' ∧ y t = .error e t' ∧ R s' t' := by
  generalize x s = r at h ⊢
  generalize y t = r' at h ⊢
  cases h with
  | ok hr hp => exact Or.inl ⟨_, _, _, _, rfl, rfl, hr, hp⟩
  | error e hr => exact Or.inr ⟨e, _, _, rfl, rfl, hr⟩

lemma Lockstep.bind {α' β' : Type} {x : Op σ α} {y : Op τ α'} {f : α → Op σ β} {g : α' → Op τ β'} {P : α → α' → Prop}
    {Q : β → β' → Prop} (h : Lockstep R P (x s) (y t))
    (hf : ∀ {a a' s t}, P a a' → R s t → Lockstep R Q (f a s) (g a' t)) :
    Lockstep R Q ((x >>= f) s) ((y >>= g) t) := by
  obtain ⟨a, s', a', t', hx, hy, hr, hp⟩ | ⟨e, s', t', hx, hy, hr⟩ := h.cases
  · rw [bind_of_ok hx, bind_of_ok hy]
    exact hf hp hr
  · rw [bind_of_error hx, bind_of_error hy]
    exact .error e hr

/-- Operations that have given one answer go on alike. -/
lemma Lockstep.andThen {f : α → Op σ β} {g : α → Op τ β} {Q : β → β → Prop} (h : Lockstep R Eq (x s) (y t))
    (hf : ∀ a {s t}, R s t → Lockstep R Q (f a s) (g a t)) : Lockstep R Q ((x >>= f) s) ((y >>= g) t) :=
  h.bind fun {a a' s t} he hr => by
    subst he
    exact hf a hr

lemma Lockstep.onPart {α' υ φ : Type} {y : Op τ α'} {S : υ → φ → Prop} {get : υ → σ} {put : σ → υ → υ} {get' : φ → τ}
    {put' : τ → φ → φ} {u : υ} {v : φ} {P : α → α' → Prop} (h : Lockstep R P (x (get u)) (y (get' v)))
    (hput : ∀ s t, R s t → S (put s u) (put' t v)) :
    Lockstep S P (Op.onPart get put x u) (Op.onPart get' put' y v) := by
  obtain ⟨a, s', a', t', hx, hy, hr, hp⟩ | ⟨e, s', t', hx, hy, hr⟩ := h.cases
  · rw [onPart_of_ok hx, onPart_of_ok hy]
    exact .ok (hput _ _ hr) hp
  · rw [onPart_of_error hx, onPart_of_error hy]
    exact .error e (hput _ _ hr)

end Lockstep

end ToolchainHost.Op
