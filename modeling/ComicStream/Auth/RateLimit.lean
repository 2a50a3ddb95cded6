import ComicStream.Foundation.Machine
import ComicStream.Rust.IpAddr
import Mathlib.Algebra.Group.Nat.Defs
import Mathlib.Logic.Function.Basic
import Mathlib.Order.Lattice

/-!
# The failed-login limiter

The limiter keeps one entry per address bucket. Times are nanoseconds since the
origin of the clock, durations are nanoseconds, and `duration_since` is truncated
subtraction, as in the source. The hash map is the function of its lookups, so
`retain` filters every entry at once. Two sums of the source panic when they
overflow: `checkAt` and `recordFailureAt` say what a call does where its sum can be
represented, `tryCheckAt` and `tryRecordFailureAt` also what it does where not.
-/

namespace ComicStream.Auth

open Rust

/-- The key an address is limited under: IPv4 exactly, IPv6 by its /64 prefix. -/
def bucket : IpAddr → IpAddr
  | .v4 addr => .v4 addr
  | .v6 addr => .v6 (Vector.ofFn fun index : Fin 16 ↦ if index.val < 8 then addr.get index else 0)

inductive Verdict where
  | allow
  | blocked (retryAfter : ℕ)
  deriving DecidableEq, Repr

/-- Failure window and block of one bucket. -/
structure IpState where
  windowStart : ℕ
  failuresInWindow : ℕ
  blockedUntil : Option ℕ
  lastSeen : ℕ
  deriving DecidableEq, Repr

/-- The limiter's configuration; the counter and its threshold are 32 bits wide. -/
structure Limiter where
  maxAttempts : ℕ
  window : ℕ
  blockDuration : ℕ
  maxAttempts_pos : 1 ≤ maxAttempts
  maxAttempts_lt : maxAttempts < 2 ^ 32

/-- `Limiter::new`: a threshold of zero is raised to one. -/
def Limiter.new (maxAttempts : UInt32) (window blockDuration : ℕ) : Limiter where
  maxAttempts := max maxAttempts.toNat 1
  window := window
  blockDuration := blockDuration
  maxAttempts_pos := le_max_right _ _
  maxAttempts_lt := max_lt maxAttempts.toNat_lt (by decide)

/-- The entries of the limiter, by bucket. -/
abbrev Entries := IpAddr → Option IpState

/-- The entry `or_insert_with` starts from. -/
def IpState.fresh (now : ℕ) : IpState where
  windowStart := now
  failuresInWindow := 0
  blockedUntil := none
  lastSeen := now

/-- An active block: `blocked_until` is later than `now`. -/
def IpState.blocks (state : IpState) (now : ℕ) : Bool :=
  state.blockedUntil.any (now < ·)

/-- An expired block is dropped and the entry starts over. -/
def IpState.expire (state : IpState) (now : ℕ) : IpState :=
  match state.blockedUntil with
  | some _ => { state with blockedUntil := none, windowStart := now, failuresInWindow := 0 }
  | none => state

/-- A window that started more than `window` ago is replaced by a new one. -/
def IpState.roll (window : ℕ) (state : IpState) (now : ℕ) : IpState :=
  if window < now - state.windowStart then
    { state with windowStart := now, failuresInWindow := 0 }
  else state

/-- One more failure, and the block it may trip. The counter saturates. -/
def IpState.count (limiter : Limiter) (state : IpState) (now : ℕ) : IpState :=
  let failures := min (state.failuresInWindow + 1) (2 ^ 32 - 1)
  { state with
    failuresInWindow := failures
    lastSeen := now
    blockedUntil :=
      if limiter.maxAttempts ≤ failures then some (now + limiter.blockDuration)
      else state.blockedUntil }

/-- The effect of a failure on the entry of its bucket. -/
def IpState.fail (limiter : Limiter) (state : IpState) (now : ℕ) : IpState :=
  if state.blocks now then { state with lastSeen := now }
  else ((state.expire now).roll limiter.window now).count limiter now

namespace Limiter

variable (limiter : Limiter)

/-- The test `gc` keeps an entry by. -/
def keeps (now : ℕ) (state : IpState) : Bool :=
  state.blocks now || decide (now - state.lastSeen < limiter.window + limiter.blockDuration)

def gc (entries : Entries) (now : ℕ) : Entries :=
  fun key ↦ (entries key).filter (limiter.keeps now)

/-- What the entry of a bucket answers to a check. -/
def verdict (entry : Option IpState) (now : ℕ) : Verdict :=
  match entry.bind (·.blockedUntil) with
  | some blockEnd => if now < blockEnd then .blocked (blockEnd - now) else .allow
  | none => .allow

def checkAt (entries : Entries) (ip : IpAddr) (now : ℕ) : Entries × Verdict :=
  let entries := limiter.gc entries now
  (entries, verdict (entries (bucket ip)) now)

def recordFailureAt (entries : Entries) (ip : IpAddr) (now : ℕ) : Entries :=
  let state := (entries (bucket ip)).getD (IpState.fresh now)
  Function.update entries (bucket ip) (some (state.fail limiter now))

end Limiter

def Limiter.recordSuccess (entries : Entries) (ip : IpAddr) : Entries :=
  Function.update entries (bucket ip) none

/-- A call of the limiter. -/
inductive Op where
  | check (ip : IpAddr) (now : ℕ)
  | failure (ip : IpAddr) (now : ℕ)
  | success (ip : IpAddr)
  deriving DecidableEq, Repr

def Op.time? : Op → Option ℕ
  | .check _ now => some now
  | .failure _ now => some now
  | .success _ => none

def Limiter.step (limiter : Limiter) (entries : Entries) : Op → Entries
  | .check ip now => (limiter.checkAt entries ip now).1
  | .failure ip now => limiter.recordFailureAt entries ip now
  | .success ip => Limiter.recordSuccess entries ip

/-- The entries after a run that starts with the empty map. -/
def Limiter.run (limiter : Limiter) (ops : List Op) : Entries :=
  Machine.run limiter.step (fun _ ↦ none) ops

/-- The time of a failure in bucket `key`. -/
def Op.failureTime? (key : IpAddr) : Op → Option ℕ
  | .failure ip now => if bucket ip = key then some now else none
  | _ => none

/-- The times of the failures that a list of calls records in bucket `key`. -/
def failureTimes (key : IpAddr) (ops : List Op) : List ℕ := ops.filterMap (Op.failureTime? key)

@[simp]
theorem failureTimes_append (key : IpAddr) (first second : List Op) :
    failureTimes key (first ++ second) = failureTimes key first ++ failureTimes key second :=
  List.filterMap_append

theorem failureTimes_sublist (key : IpAddr) (ops : List Op) :
    (failureTimes key ops).Sublist (ops.filterMap Op.time?) := by
  induction ops with
  | nil => exact List.Sublist.refl _
  | cons op rest ih =>
    unfold failureTimes at ih ⊢
    cases op with
    | check ip now =>
      rw [List.filterMap_cons_none rfl]
      exact ih.trans (List.sublist_cons_self now _)
    | failure ip now =>
      by_cases hkey : bucket ip = key
      · simpa [Op.failureTime?, Op.time?, hkey] using ih
      · simpa [Op.failureTime?, Op.time?, hkey] using ih.cons now
    | success ip =>
      rw [List.filterMap_cons_none rfl, List.filterMap_cons_none rfl]
      exact ih

/-- The nanoseconds of a second. -/
def nanosPerSec : ℕ := 10 ^ 9

/-- A `Duration` counts its seconds in 64 bits. -/
def durationLimit : ℕ := 2 ^ 64 * nanosPerSec

/-- An `Instant` counts its seconds in 64 bits with a sign. -/
def instantLimit : ℕ := 2 ^ 63 * nanosPerSec

/-- The sum of two durations; the one of the source panics where there is none. -/
def addDuration (first second : ℕ) : Option ℕ :=
  if first + second < durationLimit then some (first + second) else none

/-- The instant that is `duration` later, with the same panic. -/
def addInstant (time duration : ℕ) : Option ℕ :=
  if time + duration < instantLimit then some (time + duration) else none

/-- `IpState.count` with its panic, which comes when the failure is counted and before the block
is set. The flag tells whether it has returned. -/
def IpState.tryCount (limiter : Limiter) (state : IpState) (now : ℕ) : IpState × Bool :=
  let failures := min (state.failuresInWindow + 1) (2 ^ 32 - 1)
  let state := { state with failuresInWindow := failures, lastSeen := now }
  if limiter.maxAttempts ≤ failures then
    match addInstant now limiter.blockDuration with
    | some blockEnd => ({ state with blockedUntil := some blockEnd }, true)
    | none => (state, false)
  else (state, true)

def IpState.tryFail (limiter : Limiter) (state : IpState) (now : ℕ) : IpState × Bool :=
  if state.blocks now then ({ state with lastSeen := now }, true)
  else ((state.expire now).roll limiter.window now).tryCount limiter now

namespace Limiter

variable (limiter : Limiter)

/-- `gc`, which forms its sum before it touches an entry. -/
def tryGc (entries : Entries) (now : ℕ) : Option Entries :=
  (addDuration limiter.window limiter.blockDuration).map fun staleAfter key ↦
    (entries key).filter fun state ↦ state.blocks now || decide (now - state.lastSeen < staleAfter)

/-- `check_at`: the entries it leaves, and its verdict if it returns. -/
def tryCheckAt (entries : Entries) (ip : IpAddr) (now : ℕ) : Entries × Option Verdict :=
  match limiter.tryGc entries now with
  | some kept => (kept, some (verdict (kept (bucket ip)) now))
  | none => (entries, none)

/-- `record_failure_at`: the entries it leaves, and whether it returns. -/
def tryRecordFailureAt (entries : Entries) (ip : IpAddr) (now : ℕ) : Entries × Bool :=
  let (state, returned) := ((entries (bucket ip)).getD (IpState.fresh now)).tryFail limiter now
  (Function.update entries (bucket ip) (some state), returned)

/-- A call with its panic: the entries it leaves, and whether it returns. The lock is released in
either case, so the next call finds these entries. -/
def tryStep (entries : Entries) : Op → Entries × Bool
  | .check ip now =>
    let (kept, verdict?) := limiter.tryCheckAt entries ip now
    (kept, verdict?.isSome)
  | .failure ip now => limiter.tryRecordFailureAt entries ip now
  | .success ip => (recordSuccess entries ip, true)

/-- The entries after a run of calls, whether they return or not. -/
def tryRun (ops : List Op) : Entries :=
  Machine.run (fun entries op ↦ (limiter.tryStep entries op).1) (fun _ ↦ none) ops

/-- Every call of a run returns. -/
def Returns (ops : List Op) : Prop :=
  Machine.Allowed (fun entries op ↦ (limiter.tryStep entries op).1)
    (fun entries op ↦ (limiter.tryStep entries op).2 = true) (fun _ ↦ none) ops

/-- The sums of the limiter can be represented: that of its durations, and the end of a block that
starts at any time of the calls given. -/
structure Fits (ops : List Op) : Prop where
  duration : limiter.window + limiter.blockDuration < durationLimit
  instant : ∀ now ∈ ops.filterMap Op.time?, now + limiter.blockDuration < instantLimit

variable {limiter} {entries : Entries} {ip : IpAddr} {now : ℕ}

theorem tryCheckAt_eq (hfits : limiter.window + limiter.blockDuration < durationLimit) :
    limiter.tryCheckAt entries ip now =
      ((limiter.checkAt entries ip now).1, some (limiter.checkAt entries ip now).2) := by
  rw [tryCheckAt, tryGc, addDuration, if_pos hfits]
  rfl

theorem tryRecordFailureAt_eq (hfits : now + limiter.blockDuration < instantLimit) :
    limiter.tryRecordFailureAt entries ip now = (limiter.recordFailureAt entries ip now, true) := by
  have hcount (state : IpState) : state.tryCount limiter now = (state.count limiter now, true) := by
    rw [IpState.tryCount, addInstant, if_pos hfits, IpState.count]
    split <;> rfl
  have hfail (state : IpState) : state.tryFail limiter now = (state.fail limiter now, true) := by
    rw [IpState.tryFail, IpState.fail, hcount]
    split <;> rfl
  rw [tryRecordFailureAt, hfail]
  rfl

/-- Where its sums can be represented, a call returns with what the model without panics says. -/
theorem tryStep_eq {op : Op} (hduration : limiter.window + limiter.blockDuration < durationLimit)
    (hinstant : ∀ now ∈ op.time?, now + limiter.blockDuration < instantLimit) :
    limiter.tryStep entries op = (limiter.step entries op, true) := by
  cases op with
  | check ip now =>
    rw [tryStep, tryCheckAt_eq hduration]
    rfl
  | failure ip now => exact tryRecordFailureAt_eq (hinstant now rfl)
  | success ip => rfl

theorem Fits.of_append {ops more : List Op} (h : limiter.Fits (ops ++ more)) : limiter.Fits ops where
  duration := h.duration
  instant now hnow := h.instant now (by
    rw [List.filterMap_append]
    exact List.mem_append_left _ hnow)

/-- Such a run is the one of the model without panics, and all its calls return. -/
theorem Fits.tryRun_eq {ops : List Op} (h : limiter.Fits ops) :
    limiter.tryRun ops = limiter.run ops ∧ limiter.Returns ops := by
  induction ops using List.reverseRecOn with
  | nil => exact ⟨rfl, trivial⟩
  | append_singleton ops op ih =>
    obtain ⟨hrun, hreturns⟩ := ih h.of_append
    have hstep : limiter.tryStep (limiter.tryRun ops) op =
        (limiter.step (limiter.run ops) op, true) := by
      rw [hrun]
      refine tryStep_eq h.duration fun now hnow ↦ h.instant now ?_
      exact List.mem_filterMap.mpr ⟨op, List.mem_append_right _ (List.mem_singleton_self op), hnow⟩
    constructor
    · calc
        limiter.tryRun (ops ++ [op]) = (limiter.tryStep (limiter.tryRun ops) op).1 :=
          Machine.run_snoc _ _ _ _
        _ = limiter.step (limiter.run ops) op := congrArg Prod.fst hstep
        _ = limiter.run (ops ++ [op]) := (Machine.run_snoc _ _ _ _).symm
    · rw [Returns, Machine.allowed_append]
      exact ⟨hreturns, congrArg Prod.snd hstep, trivial⟩

end Limiter

/-- Three failures within sixty units block an address for three hundred. -/
def Limiter.sample : Limiter := Limiter.new 3 60 300

/-- One failure is to block an address for `2 ^ 63` seconds. -/
def Limiter.unending : Limiter := Limiter.new 1 60 (2 ^ 63 * nanosPerSec)

/-- The address `10.0.0.b`. -/
def IpAddr.sample (b : UInt8) : IpAddr := .v4 #v[10, 0, 0, b]

/-- Calls whose times never step back. -/
abbrev Timely (ops : List Op) : Prop := Machine.Nondecreasing Op.time? ops

end ComicStream.Auth
