import Mathlib.Data.Nat.ModEq
import Mathlib.Logic.Function.Iterate
import Mathlib.Tactic.NormNum.GCD
import ToolchainHost.Proofs.Guest.Areas
import ToolchainHost.Proofs.Guest.Calls

/-!
# Random bytes

The words of the generator are handed out one after the other, whatever a guest does between two calls. Words that a
call has drawn are gone, also those of which it took a part and those that it could not store.

* `ProcessState.nextState_ne_zero`: the generator never gets stuck.
* `ProcessState.stream`: the bytes of a stretch of words, and `draw_eq`: they are what is drawn.
* `HostCall.draws`: the words that a call takes. `HostCall.random_perform`: no call takes others.
* `random_stream`: the bytes that a call stores after any calls before it, and what it leaves alone.
-/

namespace ToolchainHost

open Interface (Errno)

namespace ProcessState

variable {x : UInt64}

/-! ### The generator -/

/-- A state is not lost where it is put onto itself farther down. -/
lemma eq_zero_of_xor_shiftRight {k : UInt64} (hk : 0 < k.toNat % 64) (h : x ^^^ (x >>> k) = 0) : x = 0 := by
  have heq : x = x >>> k := UInt64.xor_eq_zero_iff.1 h
  have hnat := congrArg UInt64.toNat heq
  rw [UInt64.toNat_shiftRight, Nat.shiftRight_eq_div_pow] at hnat
  by_contra hx
  have hpos : 0 < x.toNat := Nat.pos_of_ne_zero fun h0 => hx (UInt64.toNat_inj.1 h0)
  have hlt := Nat.div_lt_self hpos (Nat.one_lt_two_pow (Nat.ne_of_gt hk))
  omega

/-- Nor is it lost where it is put onto itself farther up. -/
lemma eq_zero_of_xor_shiftLeft (h : x ^^^ (x <<< 25) = 0) : x = 0 := by
  have heq : x = x <<< 25 := UInt64.xor_eq_zero_iff.1 h
  have hnat : x.toNat * 2 ^ 25 % 2 ^ 64 = x.toNat := by
    conv_rhs => rw [heq, UInt64.toNat_shiftLeft, Nat.shiftLeft_eq]
    rfl
  have hmod : x.toNat ≡ x.toNat * 2 ^ 25 [MOD 2 ^ 64] :=
    (Nat.mod_eq_of_lt x.toNat_lt).trans hnat.symm
  have hdvd : 2 ^ 64 ∣ x.toNat * (2 ^ 25 - 1) := by
    rw [Nat.mul_sub, Nat.mul_one]
    exact (Nat.modEq_iff_dvd' (Nat.le_mul_of_pos_right _ (by decide))).1 hmod
  have hcoprime : Nat.Coprime (2 ^ 64) (2 ^ 25 - 1) := by norm_num
  exact UInt64.toNat_inj.1 (Nat.eq_zero_of_dvd_of_lt (hcoprime.dvd_of_dvd_mul_right hdvd) x.toNat_lt)

/-- **The generator does not come to zero**, from which it would not get away. -/
theorem nextState_ne_zero (h : x ≠ 0) : nextState x ≠ 0 := by
  intro hzero
  have hlast := eq_zero_of_xor_shiftRight (by decide) hzero
  have hmiddle := eq_zero_of_xor_shiftLeft hlast
  exact h (eq_zero_of_xor_shiftRight (by decide) hmiddle)

lemma iterate_nextState_ne_zero (h : x ≠ 0) (k : Nat) : nextState^[k] x ≠ 0 := by
  induction k with
  | zero => exact h
  | succ k ih =>
    rw [Function.iterate_succ_apply']
    exact nextState_ne_zero ih

/-- An odd seed is not zero. -/
lemma odd_ne_zero (seed : UInt64) : seed ||| 1 ≠ 0 := by
  intro h
  have hnat := congrArg UInt64.toNat h
  rw [UInt64.toNat_or] at hnat
  have hle : 1 ≤ seed.toNat ||| 1 := Nat.right_le_or
  exact absurd hnat (Nat.ne_of_gt hle)

/-! ### What is drawn -/

/-- The bytes of `count` words that the generator gives from a state on, behind those that are skipped. -/
def stream (x : UInt64) (skipped count : Nat) : List UInt8 :=
  (List.range count).flatMap fun k => output (nextState^[skipped + k + 1] x)

lemma length_stream (x : UInt64) (skipped count : Nat) : (stream x skipped count).length = 8 * count := by
  induction count with
  | zero => rfl
  | succ count ih =>
    rw [stream, List.range_succ, List.flatMap_append, List.length_append, List.flatMap_singleton, output,
      Bytes.length_ofNat]
    exact congrArg (· + 8) ih

lemma stream_succ (x : UInt64) (count : Nat) :
    stream x 0 (count + 1) = output (nextState x) ++ stream (nextState x) 0 count := by
  rw [stream, List.range_succ_eq_map, List.flatMap_cons, List.flatMap_map]
  refine congrArg (output (nextState x) ++ ·) (List.flatMap_congr fun k _ => ?_)
  rw [← Function.iterate_succ_apply, Nat.zero_add, Nat.zero_add]

/-- The stream goes on from the state behind the words that are skipped. -/
lemma stream_iterate (x : UInt64) (skipped count : Nat) :
    stream (nextState^[skipped] x) 0 count = stream x skipped count := by
  refine List.flatMap_congr fun k _ => ?_
  rw [← Function.iterate_add_apply]
  congr 2
  omega

/-- **What is drawn is the stream**, and the state behind it is left. -/
theorem draw_eq (count : Nat) (x : UInt64) : draw count x = (stream x 0 count, nextState^[count] x) := by
  induction count generalizing x with
  | zero => rfl
  | succ count ih =>
    rw [draw, ih, stream_succ]
    rfl

end ProcessState

open ProcessState (nextState stream)

/-! ### What calls take from the generator -/

namespace Running

variable {r : Running} {m : Memory} {address count : Nat}

/-- The generator is in the same state. -/
def SameRandom (r r' : Running) : Prop := r'.process.random = r.process.random

instance : IsPreorder Running SameRandom where
  refl _ := rfl
  trans _ _ _ h1 h2 := Eq.trans h2 h1

lemma sameRandom_bind (r : Running) (m : Memory) : SameRandom r { r with host := r.host.bind m } := rfl

lemma sameRandom_onHost {α : Type} (x : Op Host α) : Op.Within SameRandom (onHost x) := Op.within_onPart fun _ => rfl

/-- A guest's process behind some words of the generator. -/
def drawn (r : Running) (words : Nat) : Running :=
  { r with process := { r.process with random := nextState^[words] r.process.random } }

/-- The words that hold a number of bytes. -/
def wordsFor (count : Nat) : Nat := (count + 7) / 8

/-- Random bytes are taken from the next words and stored. -/
lemma randomBytes_eq (address count : Nat) (r : Running) :
    randomBytes address count r =
      (store address ((stream r.process.random 0 (wordsFor count)).take count) >>= fun _ => pure Errno.success)
        (r.drawn (wordsFor count)) := by
  unfold randomBytes
  rw [Op.get_bind_apply, ProcessState.draw_eq]
  rfl

lemma length_take_stream (x : UInt64) (skipped count : Nat) :
    ((stream x skipped (wordsFor count)).take count).length = count := by
  rw [List.length_take, ProcessState.length_stream, wordsFor]
  omega

lemma randomBytes_of_inRange (hg : r.host.guest = some m) (hr : m.InRange address count) :
    randomBytes address count r = .ok .success ((r.drawn (wordsFor count)).withGuest
      (m.put address ((stream r.process.random 0 (wordsFor count)).take count))) := by
  have hstore := store_of_inRange (r := r.drawn (wordsFor count)) hg address
    ((stream r.process.random 0 (wordsFor count)).take count) (by rwa [length_take_stream])
  rw [randomBytes_eq, Op.bind_of_ok hstore]
  rfl

lemma randomBytes_of_not_inRange (hg : r.host.guest = some m) (hr : ¬ m.InRange address count) :
    randomBytes address count r = .error (m.refusal address count) (r.drawn (wordsFor count)) := by
  let data := (stream r.process.random 0 (wordsFor count)).take count
  have hlen : data.length = count := length_take_stream _ _ _
  have hout : ¬ m.InRange address data.length := hlen.symm ▸ hr
  have hstore := store_of_not_inRange (r := r.drawn (wordsFor count)) hg hout
  rw [hlen] at hstore
  rw [randomBytes_eq, Op.bind_of_error hstore]

/-- The words are taken whether the bytes can be stored or not. -/
lemma random_after_randomBytes (address count : Nat) (r : Running) :
    (HostCall.outcome (randomBytes address count) r).2.process.random =
      nextState^[wordsFor count] r.process.random := by
  have hstore := (within_store sameRandom_bind address
    ((stream r.process.random 0 (wordsFor count)).take count)).bind fun _ => Op.within_pure Errno.success
  rw [HostCall.outcome_snd, Op.after_congr (randomBytes_eq address count r)]
  exact hstore (r.drawn (wordsFor count))

end Running

namespace HostCall

open Running (SameRandom)

/-- The words that a call takes from the generator. -/
def draws : HostCall → Nat
  | randomBytes _ count => Running.wordsFor count
  | _ => 0

/-- **Every call** takes its own words from the generator, and no others. -/
theorem random_perform (call : HostCall) (r : Running) :
    (call.perform r).2.process.random = nextState^[call.draws] r.process.random := by
  have hhost {α : Type} (x : Op Host α) : (outcome (Running.onHost x) r).2.process.random = r.process.random :=
    within_outcome (Running.sameRandom_onHost x) r
  cases call with
  | randomBytes address count => exact Running.random_after_randomBytes address count r
  | pathOpen path length flags out => exact hhost _
  | fileClose descriptor => exact hhost _
  | fileWrite descriptor list count out => exact hhost _
  | fileRead descriptor list count out => exact hhost _
  | growMemory pages => rfl
  | exit code => rfl
  | recordFault failure => rfl
  | recordHostFault failure => rfl
  | _ => exact within_perform_undrawn Running.sameRandom_bind rfl (fun _ _ h => by cases h) r

end HostCall

namespace Running

/-- What calls leave behind that are made one after the other. -/
def afterCalls (calls : List HostCall) (r : Running) : Running := calls.foldl (fun r call => (call.perform r).2) r

/-- The words that calls take from the generator. -/
def drawnBy (calls : List HostCall) : Nat := (calls.map HostCall.draws).sum

/-- Calls leave the generator behind the words that they take. -/
theorem random_afterCalls (calls : List HostCall) (r : Running) :
    (afterCalls calls r).process.random = nextState^[drawnBy calls] r.process.random := by
  induction calls generalizing r with
  | nil => rfl
  | cons call calls ih =>
    refine (ih _).trans ?_
    rw [call.random_perform, ← Function.iterate_add_apply, drawnBy, drawnBy, List.map_cons, List.sum_cons, Nat.add_comm]

end Running

open Running (afterCalls drawnBy randomBytes wordsFor)

/-- **Random bytes are one stream.** The generator of a process is never in the state zero, and after any calls it is
behind the words that these have taken, whether they could store them or not. A call for random bytes then takes the
next words, as many as hold its bytes. If the bytes have room in the guest's memory it stores exactly so many of
the stream there and changes no other byte; else it is refused and changes none. -/
theorem random_stream (arguments : List String) (environ : String) (seed : UInt64) (host : Host)
    (calls : List HostCall) (r : Running) (hr : r = afterCalls calls ⟨.new arguments environ seed, host⟩) :
    (∀ k, nextState^[k] (seed ||| 1) ≠ 0) ∧ r.process.random = nextState^[drawnBy calls] (seed ||| 1) ∧
    ∀ (m : Memory) (address count : Nat), r.host.guest = some m →
      (m.InRange address count → ∃ r' m', randomBytes address count r = .ok .success r' ∧
        r'.host = r.host.bind m' ∧ m'.size = m.size ∧
        m'.span address count = (stream (seed ||| 1) (drawnBy calls) (wordsFor count)).take count ∧
        ∀ i, i < address ∨ address + count ≤ i → m'.byte i = m.byte i) ∧
      (¬ m.InRange address count → ∃ r', randomBytes address count r = .error (m.refusal address count) r' ∧
        r'.host = r.host) := by
  have hrandom : r.process.random = nextState^[drawnBy calls] (seed ||| 1) := hr ▸ Running.random_afterCalls calls _
  refine ⟨ProcessState.iterate_nextState_ne_zero (ProcessState.odd_ne_zero seed), hrandom,
    fun m address count hg => ⟨fun hin => ?_, fun hout => ?_⟩⟩
  · have hlen := Running.length_take_stream (seed ||| 1) (drawnBy calls) count
    refine ⟨_, _, Running.randomBytes_of_inRange hg hin, rfl, Memory.size_put .., ?_, fun i hi => ?_⟩
    · rw [hrandom, ProcessState.stream_iterate]
      have hspan := Memory.span_put_self (hlen.symm ▸ hin)
      rwa [hlen] at hspan
    · rw [hrandom, ProcessState.stream_iterate]
      exact Memory.byte_put_of_outside (by rwa [hlen])
  · exact ⟨_, Running.randomBytes_of_not_inRange hg hout, rfl⟩

/-- A process that has sixteen bytes of memory, from the seed zero. -/
def crampedProcess : Running := ⟨.new [] "" 0, { guest := some ⟨Array.replicate 16 0, #[]⟩ }⟩

/-- The words of a call that was refused are gone: behind one word and two that were not stored, the fourth and the
fifth are taken. -/
theorem random_stream_refused : ∃ r' m',
    randomBytes 5 11 (afterCalls [.randomBytes 0 3, .randomBytes 9 11] crampedProcess) = .ok .success r' ∧
      r'.host.guest = some m' ∧ m'.span 5 11 = (stream 1 3 2).take 11 := by
  obtain ⟨m, hg, hsize⟩ : ∃ m, (afterCalls [.randomBytes 0 3, .randomBytes 9 11] crampedProcess).host.guest = some m ∧
      m.size = 16 := ⟨_, rfl, rfl⟩
  obtain ⟨r', m', hx, hhost, -, hspan, -⟩ :=
    ((random_stream [] "" 0 _ [.randomBytes 0 3, .randomBytes 9 11] _ rfl).2.2 m 5 11 hg).1
      (by rw [Memory.InRange, hsize])
  exact ⟨r', m', hx, by rw [hhost]; rfl, hspan⟩

end ToolchainHost
