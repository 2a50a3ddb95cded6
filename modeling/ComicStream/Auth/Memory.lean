import ComicStream.Auth.Reference
import Mathlib.Data.Set.Card

/-!
# How many entries the limiter holds

An entry is kept for a block that is active or for a touch that is recent. Both go
back to a failure: an entry is touched by failures only, and a block ends a fixed
time after the failure that tripped it. So a check leaves no entry without a
failure of its bucket in the time that a window and a block take together.
-/

namespace ComicStream.Auth

open Rust

/-- The buckets that have an entry. -/
def Entries.held (entries : Entries) : Set IpAddr := {key | (entries key).isSome}

/-- The bucket of a failure less than a window and a block ago. -/
def Limiter.recentFailure? (limiter : Limiter) (now : ℕ) : Op → Option IpAddr
  | .failure ip time =>
    if time ≤ now ∧ now < time + (limiter.window + limiter.blockDuration) then some (bucket ip)
    else none
  | _ => none

/-- The buckets that such failures have been recorded in. -/
def Limiter.recentBuckets (limiter : Limiter) (ops : List Op) (now : ℕ) : Finset IpAddr :=
  (ops.filterMap (limiter.recentFailure? now)).toFinset

/-- The times in an entry go back to failures. -/
structure Backed (limiter : Limiter) (times : List ℕ) (state : IpState) : Prop where
  lastSeen : state.lastSeen ∈ times
  blockedUntil : ∀ blockEnd ∈ state.blockedUntil, ∃ stop ∈ times,
    blockEnd = stop + limiter.blockDuration

variable {limiter : Limiter} {state : IpState} {times : List ℕ} {now : ℕ}

theorem IpState.lastSeen_fail : (state.fail limiter now).lastSeen = now := by
  cases hblocks : state.blocks now with
  | true => rw [fail, if_pos hblocks]
  | false =>
    rcases fail_cases limiter hblocks with ⟨-, -, hfail⟩ | hfail
    · rw [hfail]
      rfl
    · rw [hfail]
      rfl

theorem Backed.fail (h : ∀ blockEnd ∈ state.blockedUntil, ∃ stop ∈ times,
    blockEnd = stop + limiter.blockDuration) :
    Backed limiter (times ++ [now]) (state.fail limiter now) where
  lastSeen := by
    rw [IpState.lastSeen_fail]
    simp
  blockedUntil blockEnd hend := by
    cases hblocks : state.blocks now with
    | true =>
      rw [IpState.fail, if_pos hblocks] at hend
      obtain ⟨stop, hstop, heq⟩ := h blockEnd hend
      exact ⟨stop, List.mem_append_left _ hstop, heq⟩
    | false =>
      rcases IpState.blockedUntil_fail limiter hblocks with hnone | hsome
      · simp [hnone] at hend
      · rw [hsome, Option.mem_some_iff] at hend
        exact ⟨now, by simp, hend.symm⟩

/-- A kept entry has a failure to be kept for. -/
theorem Backed.exists_recent (h : Backed limiter times state) (hkeeps : limiter.keeps now state = true) :
    ∃ time ∈ times, now < time + (limiter.window + limiter.blockDuration) := by
  rw [Limiter.keeps, Bool.or_eq_true, decide_eq_true_eq] at hkeeps
  rcases hkeeps with hblocks | hseen
  · obtain ⟨blockEnd, hend, hlt⟩ := (Option.any_eq_true _ _).mp hblocks
    obtain ⟨stop, hstop, rfl⟩ := h.blockedUntil blockEnd hend
    rw [decide_eq_true_eq] at hlt
    exact ⟨stop, hstop, by omega⟩
  · exact ⟨state.lastSeen, h.lastSeen, by omega⟩

theorem Backed.step {entries : Entries} {ops : List Op} {op : Op}
    (h : ∀ key, ∀ state ∈ entries key, Backed limiter (failureTimes key ops) state)
    (key : IpAddr) (state : IpState) (hstate : state ∈ limiter.step entries op key) :
    Backed limiter (failureTimes key (ops ++ [op])) state := by
  rw [failureTimes_append]
  cases op with
  | check ip now =>
    have htime : failureTimes key [.check ip now] = [] := rfl
    rw [htime, List.append_nil]
    exact h key state (Option.mem_filter_iff.mp hstate).1
  | failure ip now =>
    rw [Limiter.step, Limiter.recordFailureAt, Function.update_apply] at hstate
    by_cases hkey : key = bucket ip
    · rw [if_pos hkey, Option.mem_some_iff] at hstate
      have htime : failureTimes key [.failure ip now] = [now] := by
        simp [failureTimes, Op.failureTime?, hkey]
      rw [htime, ← hstate]
      apply Backed.fail
      intro blockEnd hend
      cases hentry : entries (bucket ip) with
      | none => simp [hentry, IpState.fresh] at hend
      | some before =>
        rw [hentry, Option.getD_some] at hend
        rw [hkey]
        exact (h (bucket ip) before hentry).blockedUntil blockEnd hend
    · rw [if_neg hkey] at hstate
      have htime : failureTimes key [.failure ip now] = [] := by
        simp [failureTimes, Op.failureTime?, Ne.symm hkey]
      rw [htime, List.append_nil]
      exact h key state hstate
  | success ip =>
    rw [Limiter.step, Limiter.recordSuccess, Function.update_apply] at hstate
    have htime : failureTimes key [.success ip] = [] := rfl
    rw [htime, List.append_nil]
    split at hstate
    · simp at hstate
    · exact h key state hstate

/-- Every entry of a run is backed by the failures recorded in its bucket. -/
theorem Backed.run (limiter : Limiter) (ops : List Op) :
    ∀ key, ∀ state ∈ limiter.run ops key, Backed limiter (failureTimes key ops) state := by
  induction ops using List.reverseRecOn with
  | nil => simp [Limiter.run]
  | append_singleton ops op ih =>
    rw [Limiter.run, Machine.run_snoc]
    exact Backed.step ih

theorem mem_failureTimes {key : IpAddr} {ops : List Op} {time : ℕ} :
    time ∈ failureTimes key ops ↔ ∃ ip, .failure ip time ∈ ops ∧ bucket ip = key := by
  rw [failureTimes, List.mem_filterMap]
  constructor
  · rintro ⟨op, hmem, htime⟩
    cases op with
    | failure ip now =>
      obtain ⟨hkey, hnow⟩ := Option.ite_none_right_eq_some.mp htime
      exact ⟨ip, Option.some.inj hnow ▸ hmem, hkey⟩
    | check ip now => simp [Op.failureTime?] at htime
    | success ip => simp [Op.failureTime?] at htime
  · rintro ⟨ip, hmem, hkey⟩
    exact ⟨.failure ip time, hmem, if_pos hkey⟩

/-- After a check, each bucket with an entry has failed recently. -/
theorem exists_failure_of_held {ops : List Op} {ip key : IpAddr}
    (htimes : Timely (ops ++ [.check ip now]))
    (hkey : key ∈ (limiter.checkAt (limiter.run ops) ip now).1.held) :
    ∃ address time, Op.failure address time ∈ ops ∧ bucket address = key ∧ time ≤ now ∧
      now < time + (limiter.window + limiter.blockDuration) := by
  obtain ⟨state, hstate⟩ := Option.isSome_iff_exists.mp hkey
  obtain ⟨hentry, hkeeps⟩ := Option.filter_eq_some_iff.mp hstate
  obtain ⟨time, htime, hrecent⟩ := (Backed.run limiter ops key state hentry).exists_recent hkeeps
  obtain ⟨address, hmem, hbucket⟩ := mem_failureTimes.mp htime
  have hle : time ≤ now :=
    (Machine.le_latest ((failureTimes_sublist key ops).subset htime)).trans (htimes.latest_le rfl)
  exact ⟨address, time, hmem, hbucket, hle, hrecent⟩

theorem held_subset {ops : List Op} {ip : IpAddr} (htimes : Timely (ops ++ [.check ip now])) :
    (limiter.checkAt (limiter.run ops) ip now).1.held ⊆ limiter.recentBuckets ops now := by
  intro key hkey
  obtain ⟨address, time, hmem, hbucket, hle, hrecent⟩ := exists_failure_of_held htimes hkey
  rw [Finset.mem_coe, Limiter.recentBuckets, List.mem_toFinset, List.mem_filterMap]
  exact ⟨.failure address time, hmem, by rw [Limiter.recentFailure?, if_pos ⟨hle, hrecent⟩, hbucket]⟩

/-- **Bounded memory.** After a check in a timely run, each bucket with an entry, blocked or not, is
that of an address with a failure less than a window and a block ago; so there are at most as many
entries as buckets that have failed in this time. -/
theorem held_bounded (limiter : Limiter) (ops : List Op) (ip : IpAddr) (now : ℕ)
    (htimes : Timely (ops ++ [.check ip now])) :
    (∀ key ∈ (limiter.checkAt (limiter.run ops) ip now).1.held, ∃ address time,
      Op.failure address time ∈ ops ∧ bucket address = key ∧ time ≤ now ∧
        now < time + (limiter.window + limiter.blockDuration)) ∧
    (limiter.checkAt (limiter.run ops) ip now).1.held.Finite ∧
    (limiter.checkAt (limiter.run ops) ip now).1.held.ncard ≤
      (limiter.recentBuckets ops now).card := by
  refine ⟨fun key hkey ↦ exists_failure_of_held htimes hkey, ?_, ?_⟩
  · exact (limiter.recentBuckets ops now).finite_toSet.subset (held_subset htimes)
  · rw [← Set.ncard_coe_finset]
    exact Set.ncard_le_ncard (held_subset htimes) (Finset.finite_toSet _)

/-- One bucket has failed once and another one is blocked. -/
def guessingOps : List Op :=
  [.failure (IpAddr.sample 1) 0, .failure (IpAddr.sample 2) 70, .failure (IpAddr.sample 2) 80,
    .failure (IpAddr.sample 2) 90]

/-- When the failure of the first is too old, only the second has an entry. -/
theorem held_bounded_sample :
    (Limiter.sample.checkAt (Limiter.sample.run guessingOps) (IpAddr.sample 3) 370).1.held.ncard ≤ 1 ∧
    IpAddr.sample 2 ∈
      (Limiter.sample.checkAt (Limiter.sample.run guessingOps) (IpAddr.sample 3) 370).1.held := by
  have hbounded := held_bounded Limiter.sample guessingOps (IpAddr.sample 3) 370 (by decide)
  have hcard : (Limiter.sample.recentBuckets guessingOps 370).card = 1 := by decide
  rw [hcard] at hbounded
  exact ⟨hbounded.2.2, rfl⟩

end ComicStream.Auth
