import Mathlib.Tactic.Common
import ToolchainHost.Mailbox

/-!
# The handshake of the mailbox

Any number of senders and one receiver share a mailbox. They touch it under its lock only: a sender once for each
delivery, the receiver where it takes a payload or gives up. A receiver that waits has let go of the lock, so that
deliveries come between its call and its return.

* `Mailbox.holding`: a mailbox of some capacity with a payload in it, or empty, and zeros in all other places.
* `Handshake.Step`, `Handshake.Runs`: the senders and the receiver, each acting when it likes.
* `Handshake.Outstanding`: what a step preserves. The mailbox is determined by the payload that is outstanding.
* `handshake_is_orderly`: what was received is what was accepted, in order, short of at most one payload.
-/

namespace ToolchainHost

namespace Mailbox

/-- A mailbox with a payload at the start of its region, or with none. All other places are zero. -/
def holding (capacity : Nat) : Option (List UInt8) → Mailbox
  | none => ofCapacity capacity
  | some payload => ⟨true, payload.length, payload ++ List.replicate (capacity - payload.length) 0⟩

variable {capacity : Nat} {payload : List UInt8} {content : Option (List UInt8)}

lemma length_region_holding (h : ∀ p ∈ content, p.length ≤ capacity) :
    (holding capacity content).region.length = capacity := by
  cases content with
  | none => exact List.length_replicate
  | some p =>
    have hp : p.length ≤ capacity := h p rfl
    rw [holding, List.length_append, List.length_replicate]
    omega

/-- An empty mailbox accepts what fits. -/
lemma deliver_holding_none (h : payload.length ≤ capacity) :
    (holding capacity none).deliver payload = .ok (holding capacity (some payload)) := by
  have hfits : ¬ (holding capacity none).capacity < payload.length := by
    rw [Mailbox.capacity, length_region_holding (by simp)]
    omega
  rw [deliver, if_neg (by simp [holding, ofCapacity]), if_neg hfits]
  simp [holding, ofCapacity]

/-- A delivery is refused exactly if a payload waits or the new one does not fit. -/
lemma deliver_holding_eq_error :
    (∃ f, (holding capacity content).deliver payload = .error f) ↔
      content.isSome ∨ capacity < payload.length := by
  cases content with
  | some p => simp [deliver, holding]
  | none =>
    rcases Nat.lt_or_ge capacity payload.length with h | h
    · have hlong : (holding capacity none).capacity < payload.length := by
        rwa [Mailbox.capacity, length_region_holding (by simp)]
      rw [deliver, if_neg (by simp [holding, ofCapacity]), if_pos hlong]
      simp [h]
    · rw [deliver_holding_none h]
      simp [h]

/-- Taking a payload leaves nothing of it behind. -/
lemma receive_holding_some (h : payload.length ≤ capacity) :
    (holding capacity (some payload)).receive = some (payload, holding capacity none) := by
  have hzeros : List.replicate payload.length (0 : UInt8) ++ List.replicate (capacity - payload.length) 0 =
      List.replicate capacity 0 := by
    rw [List.replicate_append_replicate, Nat.add_sub_cancel' h]
  simp [receive, holding, ofCapacity, hzeros]

lemma receive_holding_none : (holding capacity none).receive = none := rfl

end Mailbox

/-- What the receiver is doing. -/
inductive Receiver where
  | idle
  /-- It waits for a payload. A wait with a deadline can be given up. -/
  | waiting (deadline : Bool)

/-- A mailbox, and what its receiver is doing. -/
structure Handshake where
  mailbox : Mailbox
  receiver : Receiver := .idle

namespace Handshake

/-- What senders and the receiver get to see. -/
inductive Action where
  | accepted (sender : Nat) (payload : List UInt8)
  | refused (sender : Nat) (payload : List UInt8) (failure : Failure)
  | called (deadline : Bool)
  | returned (payload : List UInt8)
  | timedOut

namespace Action

/-- The payload whose delivery succeeded. -/
def accepted? : Action → Option (List UInt8)
  | accepted _ payload => some payload
  | _ => none

/-- The payload that the receiver got. -/
def returned? : Action → Option (List UInt8)
  | returned payload => some payload
  | _ => none

/-- The action is one that failed. -/
def Fails : Action → Prop
  | refused .. => True
  | timedOut => True
  | _ => False

end Action

/-- A sender or the receiver acts. -/
inductive Step : Handshake → Action → Handshake → Prop
  | accept {s : Handshake} {b : Mailbox} (sender : Nat) (payload : List UInt8)
      (h : s.mailbox.deliver payload = .ok b) : Step s (.accepted sender payload) { s with mailbox := b }
  | refuse {s : Handshake} {f : Failure} (sender : Nat) (payload : List UInt8)
      (h : s.mailbox.deliver payload = .error f) : Step s (.refused sender payload f) s
  | call {b : Mailbox} (deadline : Bool) : Step ⟨b, .idle⟩ (.called deadline) ⟨b, .waiting deadline⟩
  /-- A receiver that finds a payload takes it, also if the deadline is over. -/
  | take {b b' : Mailbox} {payload : List UInt8} {deadline : Bool} (h : b.receive = some (payload, b')) :
      Step ⟨b, .waiting deadline⟩ (.returned payload) ⟨b', .idle⟩
  | expire {b : Mailbox} (h : b.receive = none) : Step ⟨b, .waiting true⟩ .timedOut ⟨b, .idle⟩

/-- The actions of a run, in order. -/
inductive Runs (s : Handshake) : List Action → Handshake → Prop
  | nil : Runs s [] s
  | snoc {actions : List Action} {a : Action} {s' s'' : Handshake} (h : Runs s actions s') (hs : Step s' a s'') :
      Runs s (actions ++ [a]) s''

/-- The payloads whose deliveries succeeded, in order. -/
def accepted (actions : List Action) : List (List UInt8) := actions.filterMap Action.accepted?

/-- The payloads that the receiver got, in order. -/
def returned (actions : List Action) : List (List UInt8) := actions.filterMap Action.returned?

variable {capacity : Nat} {actions : List Action} {a : Action} {s s' : Handshake} {content : Option (List UInt8)}

/-- After some actions the mailbox holds what was accepted and not received: one payload at most, and nothing else. -/
structure Outstanding (capacity : Nat) (actions : List Action) (s : Handshake) (content : Option (List UInt8)) :
    Prop where
  order : accepted actions = returned actions ++ content.toList
  fits : ∀ p ∈ content, p.length ≤ capacity
  mailbox : s.mailbox = .holding capacity content

lemma accepted_concat (actions : List Action) (a : Action) :
    accepted (actions ++ [a]) = accepted actions ++ a.accepted?.toList := by
  rw [accepted, List.filterMap_append, ← accepted]
  cases h : a.accepted? <;> simp [h]

lemma returned_concat (actions : List Action) (a : Action) :
    returned (actions ++ [a]) = returned actions ++ a.returned?.toList := by
  rw [returned, List.filterMap_append, ← returned]
  cases h : a.returned? <;> simp [h]

/-- An action that neither delivers nor receives leaves everything outstanding. -/
lemma Outstanding.keep (ho : Outstanding capacity actions s content) (ha : a.accepted? = none)
    (hr : a.returned? = none) (hm : s'.mailbox = s.mailbox) :
    Outstanding capacity (actions ++ [a]) s' content := by
  refine ⟨?_, ho.fits, hm.trans ho.mailbox⟩
  rw [accepted_concat, returned_concat, ha, hr, Option.toList_none, List.append_nil, List.append_nil]
  exact ho.order

/-- **A step**: a delivery that succeeds fills an empty mailbox, and a receiver that gets a payload empties it. -/
theorem Outstanding.step (ho : Outstanding capacity actions s content) (hs : Step s a s') :
    ∃ content', Outstanding capacity (actions ++ [a]) s' content' := by
  cases hs with
  | accept sender payload h =>
    rw [ho.mailbox] at h
    -- only an empty mailbox accepts, so the payload is the only one outstanding
    have hnot : ¬ (content.isSome ∨ capacity < payload.length) := by
      rw [← Mailbox.deliver_holding_eq_error]
      rintro ⟨f, hf⟩
      rw [hf] at h
      cases h
    obtain ⟨hnone, hlen⟩ := not_or.1 hnot
    obtain rfl := Option.not_isSome_iff_eq_none.1 hnone
    rw [Mailbox.deliver_holding_none (Nat.not_lt.1 hlen)] at h
    cases h
    refine ⟨some payload, ?_, ?_, rfl⟩
    · rw [accepted_concat, returned_concat, ho.order]
      simp [Action.accepted?, Action.returned?]
    · rintro p ⟨⟩
      exact Nat.not_lt.1 hlen
  | refuse sender payload h => exact ⟨content, ho.keep rfl rfl rfl⟩
  | call deadline => exact ⟨content, ho.keep rfl rfl rfl⟩
  | @take b b' payload deadline h =>
    have hb : b = .holding capacity content := ho.mailbox
    subst hb
    cases content with
    | none => cases h
    | some p =>
      rw [Mailbox.receive_holding_some (ho.fits p rfl)] at h
      cases h
      refine ⟨none, ?_, by simp, rfl⟩
      rw [accepted_concat, returned_concat, ho.order]
      simp [Action.accepted?, Action.returned?]
  | expire h => exact ⟨content, ho.keep rfl rfl rfl⟩

/-- **A run** leaves outstanding what was accepted and not received. -/
theorem Runs.outstanding (hr : Runs { mailbox := .ofCapacity capacity } actions s) :
    ∃ content, Outstanding capacity actions s content := by
  induction hr with
  | nil => exact ⟨none, rfl, by simp, rfl⟩
  | snoc hr hs ih =>
    obtain ⟨content, ho⟩ := ih
    exact ho.step hs

/-- What the payload that is outstanding says about the state of a handshake and about what can happen next. -/
structure Governs (capacity : Nat) (content : Option (List UInt8)) (s : Handshake) : Prop where
  length_region : s.mailbox.region.length = capacity
  /-- A delivery fails exactly if a payload is outstanding or the new one is too long. -/
  refuses (payload : List UInt8) :
    (∃ f, s.mailbox.deliver payload = .error f) ↔ content.isSome ∨ capacity < payload.length
  /-- A receiver that waits can return with the outstanding payload, and with no other. -/
  returns (payload : List UInt8) :
    (∃ s', Step s (.returned payload) s') ↔ content = some payload ∧ ∃ deadline, s.receiver = .waiting deadline
  /-- It can give up if it has a deadline and nothing is outstanding. -/
  expires : (∃ s', Step s .timedOut s') ↔ content = none ∧ s.receiver = .waiting true
  /-- A failed delivery and a wait that is given up change nothing in the mailbox. -/
  unchanged {a : Action} {s' : Handshake} (ha : a.Fails) (hs : Step s a s') : s'.mailbox = s.mailbox
  /-- An empty mailbox is all zeros. -/
  empty (h : content = none) : s.mailbox.length = 0 ∧ ∀ b ∈ s.mailbox.region, b = 0
  /-- A payload lies at the start of the region, and behind it all is zero. -/
  full {payload : List UInt8} (h : content = some payload) : s.mailbox.length = payload.length ∧
    s.mailbox.region.take payload.length = payload ∧ ∀ b ∈ s.mailbox.region.drop payload.length, b = 0

lemma Step.unchanged (ha : a.Fails) (hs : Step s a s') : s'.mailbox = s.mailbox := by
  cases hs with
  | accept sender payload h => cases ha
  | refuse sender payload h => rfl
  | call deadline => cases ha
  | take h => cases ha
  | expire h => rfl

lemma Outstanding.returns (ho : Outstanding capacity actions s content) (payload : List UInt8) :
    (∃ s', Step s (.returned payload) s') ↔
      content = some payload ∧ ∃ deadline, s.receiver = .waiting deadline := by
  constructor
  · rintro ⟨s', hs⟩
    cases hs with
    | @take b b' _ deadline h =>
      have hb : b = .holding capacity content := ho.mailbox
      subst hb
      cases content with
      | none => cases h
      | some p =>
        rw [Mailbox.receive_holding_some (ho.fits p rfl)] at h
        cases h
        exact ⟨rfl, deadline, rfl⟩
  · rintro ⟨rfl, deadline, hd⟩
    obtain ⟨b, receiver⟩ := s
    obtain rfl : receiver = .waiting deadline := hd
    have hb : b = .holding capacity (some payload) := ho.mailbox
    subst hb
    exact ⟨_, .take (Mailbox.receive_holding_some (ho.fits payload rfl))⟩

lemma Outstanding.expires (ho : Outstanding capacity actions s content) :
    (∃ s', Step s .timedOut s') ↔ content = none ∧ s.receiver = .waiting true := by
  constructor
  · rintro ⟨s', hs⟩
    cases hs with
    | @expire b h =>
      have hb : b = .holding capacity content := ho.mailbox
      subst hb
      cases content with
      | none => exact ⟨rfl, rfl⟩
      | some p =>
        rw [Mailbox.receive_holding_some (ho.fits p rfl)] at h
        cases h
  · rintro ⟨rfl, hd⟩
    obtain ⟨b, receiver⟩ := s
    obtain rfl : receiver = .waiting true := hd
    have hb : b = .holding capacity none := ho.mailbox
    subst hb
    exact ⟨_, .expire Mailbox.receive_holding_none⟩

/-- The rest follows from what the mailbox holds. -/
theorem Outstanding.governs (ho : Outstanding capacity actions s content) : Governs capacity content s where
  length_region := by
    rw [ho.mailbox]
    exact Mailbox.length_region_holding ho.fits
  refuses payload := by
    rw [ho.mailbox]
    exact Mailbox.deliver_holding_eq_error
  returns := ho.returns
  expires := ho.expires
  unchanged := Step.unchanged
  empty h := by
    subst h
    rw [ho.mailbox]
    exact ⟨rfl, fun b hb => List.eq_of_mem_replicate hb⟩
  full {payload} h := by
    subst h
    rw [ho.mailbox]
    refine ⟨rfl, List.take_left' rfl, fun b hb => ?_⟩
    have hdrop : (Mailbox.holding capacity (some payload)).region.drop payload.length =
        List.replicate (capacity - payload.length) 0 := List.drop_left' rfl
    rw [hdrop] at hb
    exact List.eq_of_mem_replicate hb

end Handshake

/-- **The handshake is orderly**, whoever acts when. The payloads that were received are those that were accepted, in
order, short of at most one that is outstanding, and this one decides what the mailbox looks like and what can
happen next. -/
theorem handshake_is_orderly {capacity : Nat} {actions : List Handshake.Action} {s : Handshake}
    (hr : Handshake.Runs { mailbox := .ofCapacity capacity } actions s) :
    ∃ content : Option (List UInt8),
      Handshake.accepted actions = Handshake.returned actions ++ content.toList ∧
        Handshake.Governs capacity content s := by
  obtain ⟨content, ho⟩ := hr.outstanding
  exact ⟨content, ho.order, ho.governs⟩

/-- A receiver waits for the payload of one sender while the delivery of another is refused. -/
theorem handshake_is_orderly_refused : ∃ actions s,
    Handshake.Runs { mailbox := .ofCapacity 2 } actions s ∧ Handshake.accepted actions = [[7, 8]] ∧
      ∃ content : Option (List UInt8),
        Handshake.accepted actions = Handshake.returned actions ++ content.toList ∧
          Handshake.Governs 2 content s := by
  have hcalled := (Handshake.Runs.nil (s := { mailbox := .ofCapacity 2 })).snoc (.call false)
  have haccepted := hcalled.snoc (.accept 0 [7, 8] rfl)
  have hrefused := haccepted.snoc (.refuse 1 [9] rfl)
  exact ⟨_, _, hrefused, rfl, handshake_is_orderly hrefused⟩

end ToolchainHost
