import ToolchainHost.Proofs.Json.Reading
import ToolchainHost.Proofs.Requests

/-!
# Events on the wire

The page reads from the wire which event was sent and what it carries. A token comes back as it came, whatever has
become of its request.

* `Event.Sendable`, `Event.Same`: the events that the wire carries, and when two of them are one.
* `Event.decode?`: what the page reads.
* `Request.token_of_parse?`: the token of a request is that of its message.
* `events_decode`: events are decoded, and tokens come back.
-/

namespace ToolchainHost

variable {σ μ γ : Type}

/-- Every number is an integer. -/
def Json.Integral (v : Json) : Prop := ∃ d, v.Shaped (fun n => ∃ i, n = .int i) (fun _ => True) d

/-- The part of a value that an array has at a place, and an object under a name. -/
def Json.part? (index : Nat) (name : String) : Json → Option Json
  | array items => items[index]?
  | v => v.field? name

namespace Event

/-- How deep tokens may nest. A message around its token is one container more, and so is an event. -/
def tokenDepth : Nat := 126

/-- The wire carries the event: a token has integers that fit 64 bits as its only numbers, repeats no key, and nests
no deeper than in a message. -/
def Sendable : Event → Prop
  | commandCompleted token => token.Shaped Number.Exact List.Nodup tokenDepth
  | _ => True

/-- The event with the members of its token in order. -/
def canonical : Event → Event
  | commandCompleted token => commandCompleted token.canonical
  | e => e

/-- The events differ in the order of members of their tokens at most. -/
def Same (e e' : Event) : Prop := e.canonical = e'.canonical

/-- The event that a value stands for. -/
def ofJson? (v : Json) : Option Event :=
  match v.field? "id" with
  | some (.string "ready") => some .ready
  | some (.string "write") =>
    match v.field? "text" with
    | some (.string text) => some (.write text)
    | _ => none
  | some (.string "readStdinRequest") => some .readStdinRequest
  | some (.string "runCompleted") => some .runCompleted
  | some (.string "commandCompleted") => (v.field? "token").map .commandCompleted
  | _ => none

/-- The event that the page reads from the wire. -/
def decode? (text : String) : Option Event := (Json.parse? .strict text).bind ofJson?

variable {e e' : Event}

/-! ### Events -/

lemma Sendable.shaped_toJson (h : e.Sendable) : ∃ K, e.toJson.Shaped Number.Exact K (tokenDepth + 1) := by
  refine ⟨fun _ => True, .object trivial ?_⟩
  cases e with
  | write text => simpa [payload] using ⟨Json.Shaped.string _, Json.Shaped.string text⟩
  | commandCompleted token =>
    have htoken : token.canonical.Shaped Number.Exact (fun _ => True) tokenDepth :=
      (Json.Shaped.canonical h).mono (fun _ hn => hn) (fun _ _ => trivial) le_rfl
    simpa [payload] using ⟨Json.Shaped.string _, htoken⟩
  | _ => simpa [payload] using Json.Shaped.string _

lemma parse?_wire (h : e.Sendable) : Json.parse? .strict e.wire = some e.toJson := by
  obtain ⟨K, hshaped⟩ := h.shaped_toJson
  exact Json.parse?_render hshaped rfl le_rfl

lemma ofJson?_toJson (e : Event) : ofJson? e.toJson = some e.canonical := by
  cases e <;> rfl

lemma decode?_wire (h : e.Sendable) : decode? e.wire = some e.canonical := by
  rw [decode?, parse?_wire h, Option.bind_some, ofJson?_toJson]

lemma Sendable.canonical_same (h : e.Sendable) : e.canonical.Same e := by
  cases e with
  | commandCompleted token => exact congrArg commandCompleted (Json.Shaped.canonical_same h)
  | _ => rfl

lemma wire_canonical (h : e.Sendable) : e.canonical.wire = e.wire := by
  cases e with
  | commandCompleted token =>
    have hc : token.canonical.canonical = token.canonical := Json.Shaped.canonical_same h
    simp [wire, toJson, payload, canonical, name, hc]
  | _ => rfl

/-- **Events have the same text** on the wire iff they are the same. -/
theorem wire_eq_iff (h : e.Sendable) (h' : e'.Sendable) : e.wire = e'.wire ↔ e.Same e' := by
  constructor
  · intro hw
    have hd := decode?_wire h
    rw [hw, decode?_wire h'] at hd
    exact (Option.some.inj hd).symm
  · intro hs
    rw [← wire_canonical h, hs, wire_canonical h']

end Event

/-! ### Tokens -/

/-- A part of a value nests one container less. -/
lemma Json.Shaped.part? {N : Number → Prop} {K : List String → Prop} {d index : Nat} {name : String} {v t : Json}
    (h : v.Shaped N K (d + 1)) (hp : v.part? index name = some t) : t.Shaped N K d := by
  cases h with
  | array hall => exact hall t (List.mem_of_getElem? hp)
  | object hk hall =>
    obtain ⟨f, hf, rfl⟩ := Option.map_eq_some_iff.1 hp
    exact hall f (List.mem_of_find?_eq_some hf)
  | _ => cases hp

namespace Request

variable {id message active : String} {parts : List (Option Json)} {v token : Json} {lines : List String}
  {files : List SourceFile}

/-- A request to run lines has four parts, and its token is the first of them with its members in order. -/
lemma of_ofParts? (h : ofParts? id parts = some (.runCommand token active lines files)) :
    id = "runCommand" ∧ ∃ t rest, parts = some t :: rest ∧ token = t.canonical := by
  unfold ofParts? at h
  split at h
  · cases h
  · cases h
  · rename_i config
    obtain ⟨c, -, hc⟩ := Option.map_eq_some_iff.1 h
    cases hc
  · obtain ⟨f, -, hf⟩ := Option.map_eq_some_iff.1 h
    cases hf
  · rename_i t active' lines' files'
    obtain ⟨l, -, h⟩ := Option.bind_eq_some_iff.1 h
    obtain ⟨f, -, h⟩ := Option.bind_eq_some_iff.1 h
    cases h
    exact ⟨rfl, t, _, rfl, rfl⟩
  · cases h

/-- The first of the members is the one with the first name. -/
lemma field?_of_members? {name : String} {names : List String} {fields : List (String × Json)} {t : Json}
    {rest : List (Option Json)} (h : members? (name :: names) fields = some (some t :: rest)) :
    (Json.object fields).field? name = some t := by
  rw [members?, List.mapM_cons] at h
  obtain ⟨member, hmember, h⟩ := Option.bind_eq_some_iff.1 h
  obtain ⟨others, -, h⟩ := Option.bind_eq_some_iff.1 h
  cases h
  split at hmember
  · cases hmember
  · rename_i key value hfilter
    cases hmember
    show (fields.find? fun f => f.1 == name).map (·.2) = some t
    rw [← List.head?_filter, hfilter]
    rfl
  · cases hmember

/-- The token of a request is that of its message, with its members in order. -/
lemma of_ofJson? (h : ofJson? v = some (.runCommand token active lines files)) :
    ∃ t, v.part? 1 "token" = some t ∧ token = t.canonical := by
  unfold ofJson? at h
  split at h
  · rename_i id items
    obtain ⟨-, t, rest, hparts, ht⟩ := of_ofParts? h
    cases items with
    | nil => cases hparts
    | cons u items =>
      cases hparts
      exact ⟨t, rfl, ht⟩
  · rename_i fields
    split at h
    · rename_i id hid
      obtain ⟨names, hnames, h⟩ := Option.bind_eq_some_iff.1 h
      obtain ⟨parts, hmembers, h⟩ := Option.bind_eq_some_iff.1 h
      obtain ⟨rfl, t, rest, rfl, ht⟩ := of_ofParts? h
      cases hnames
      exact ⟨t, field?_of_members? hmembers, ht⟩
    · cases h
  · cases h

/-- **The token of a request** that was read is the token of its message but for the order of members. It nests no
deeper than a token may, its members are in order, and its integers fit. -/
theorem token_of_parse? (h : parse? message = some (.runCommand token active lines files)) :
    (∃ v t, Json.parse? .strict message = some v ∧ v.part? 1 "token" = some t ∧ token.Same t) ∧
      token.Shaped Number.Fits Json.InOrder Event.tokenDepth := by
  obtain ⟨v, hv, h⟩ := Option.bind_eq_some_iff.1 h
  obtain ⟨t, ht, rfl⟩ := of_ofJson? h
  have hbounds : v.Shaped Number.Fits (fun _ => True) (Event.tokenDepth + 1) := Json.bounds_of_parse? hv
  have hshaped := hbounds.part? ht
  exact ⟨⟨v, t, hv, ht, hshaped.canonical_same⟩, hshaped.canonical⟩

end Request

/-- Keys in order do not repeat. -/
lemma Json.InOrder.nodup {keys : List String} (h : InOrder keys) : keys.Nodup := h.imp fun hlt => ne_of_lt hlt

/-- **Events come over the wire.** The text of an event that the wire carries is one JSON object with the event's name
and what it carries, the page reads that event from it, and other events have other texts. The token of a request that
was read is the token of its message; if its numbers are integers, every worker ends the request, whatever comes of it,
by posting an event that carries the same token back, and no other event before it ends a request. -/
theorem events_decode (engine : Engine σ μ γ) (interpreter : Option Interpreter) :
    (∀ e : Event, e.Sendable → Json.parse? .strict e.wire = some (.object (("id", .string e.name) :: e.payload)) ∧
      ∃ e', Event.decode? e.wire = some e' ∧ e'.Same e) ∧
    (∀ e e' : Event, e.Sendable → e'.Sendable → (e.wire = e'.wire ↔ e.Same e')) ∧
    ∀ message token active lines files, Request.parse? message = some (.runCommand token active lines files) →
      (∃ v t, Json.parse? .strict message = some v ∧ v.part? 1 "token" = some t ∧ token.Same t) ∧
      (token.Integral → ∀ w : Worker σ μ, ∃ before,
        (Op.after (Worker.handle engine interpreter (.runCommand token active lines files)) w).host.events =
          w.host.events ++ before ++ [.commandCompleted token] ∧ (∀ e ∈ before, e.isCompletion = false) ∧
        Event.decode? (Event.commandCompleted token).wire = some (.commandCompleted token) ∧
        Json.parse? .strict (Event.commandCompleted token).wire =
          some (.object [("id", .string "commandCompleted"), ("token", token)])) := by
  refine ⟨fun e h => ⟨Event.parse?_wire h, _, Event.decode?_wire h, h.canonical_same⟩,
    fun e e' => Event.wire_eq_iff, fun message token active lines files h => ?_⟩
  obtain ⟨htoken, hshaped⟩ := Request.token_of_parse? h
  refine ⟨htoken, fun ⟨d, hintegral⟩ w => ?_⟩
  have hsendable : (Event.commandCompleted token).Sendable :=
    (hshaped.and hintegral).mono (fun n hn => Number.exact_of_fits hn.1 hn.2) (fun _ hk => hk.1.nodup) le_rfl
  have hcanonical : token.canonical = token := Json.canonical_of_inOrder hshaped
  have hparse := Event.parse?_wire hsendable
  have hdecode := Event.decode?_wire hsendable
  rw [Event.toJson, Event.payload, hcanonical] at hparse
  rw [Event.canonical, hcanonical] at hdecode
  have hc : Request.completion? (.runCommand token active lines files) = some (.commandCompleted token) := rfl
  obtain ⟨h', ⟨before, hevents, hno⟩, hpost⟩ :=
    Worker.host_after_handle (Host.permits_continues engine) interpreter hc w
  refine ⟨before, ?_, hno, hdecode, hparse⟩
  rw [hpost, Host.post, hevents]

/-- A token as a page may choose it. -/
def buttonToken : Json := .object [("button", .number (.int 3))]

/-- A message with that token. -/
def buttonMessage : String := "[\"runCommand\",\x7b\"button\":3\x7d,\"a.c\",[],[]]"

lemma shaped_buttonToken {N : Number → Prop} {K : List String → Prop} (hn : N (.int 3)) (hk : K ["button"]) :
    buttonToken.Shaped N K 1 := .object hk (List.forall_mem_singleton.2 (.number hn))

lemma parse?_buttonMessage : Request.parse? buttonMessage = some (.runCommand buttonToken "a.c" [] []) := by
  let parts : List Json := [.string "runCommand", buttonToken, .string "a.c", .array [], .array []]
  have hshaped : (Json.array parts).Shaped Number.Exact (fun _ => True) 2 := by
    refine .array fun part hpart => ?_
    simp only [parts, List.mem_cons, List.not_mem_nil, or_false] at hpart
    rcases hpart with rfl | rfl | rfl | rfl | rfl
    · exact .string _
    · exact shaped_buttonToken ⟨3, rfl, by decide, by decide⟩ trivial
    · exact .string _
    · exact .array (List.forall_mem_nil _)
    · exact .array (List.forall_mem_nil _)
  have hread : Json.parse? .strict (Json.array parts).render = some (.array parts) :=
    Json.parse?_render hshaped rfl (by decide)
  have htext : (Json.array parts).render = buttonMessage := by decide
  rw [Request.parse?, ← htext, hread]
  rfl

/-- A message whose token is a button goes to a worker that was not booted. -/
theorem events_decode_button : Request.parse? buttonMessage = some (.runCommand buttonToken "a.c" [] []) ∧
    (Event.commandCompleted buttonToken).Sendable ∧ buttonToken.Integral ∧
    (∃ e', Event.decode? (Event.commandCompleted buttonToken).wire = some e' ∧
      e'.Same (.commandCompleted buttonToken)) ∧
    ∃ before, (Op.after (Worker.handle Worker.trapping none (.runCommand buttonToken "a.c" [] []))
        (.waiting () {})).host.events = before ++ [.commandCompleted buttonToken] ∧
      ∀ e ∈ before, e.isCompletion = false := by
  have hsendable : (Event.commandCompleted buttonToken).Sendable :=
    (shaped_buttonToken (N := Number.Exact) (K := List.Nodup) ⟨3, rfl, by decide, by decide⟩ (by decide)).mono
      (fun _ hn => hn) (fun _ hk => hk) (by decide)
  have hintegral : buttonToken.Integral := ⟨1, shaped_buttonToken ⟨3, rfl⟩ trivial⟩
  obtain ⟨hevents, -, htokens⟩ := events_decode Worker.trapping none
  obtain ⟨before, hposted, hno, -⟩ := (htokens _ _ _ _ _ parse?_buttonMessage).2 hintegral (.waiting () {})
  exact ⟨parse?_buttonMessage, hsendable, hintegral, (hevents _ hsendable).2, before, hposted, hno⟩

end ToolchainHost
