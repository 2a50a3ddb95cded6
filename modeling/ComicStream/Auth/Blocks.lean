import ComicStream.Auth.Window

/-!
# Why an address is blocked

A block is tripped by as many failures as the threshold asks for, all of them
since the last success of the bucket and within one window. It ends when it was
set to end: until then failures change nothing but the time of the last touch.
-/

namespace ComicStream.Auth

open Rust

/-- The calls after the last success of bucket `key`. -/
def sinceSuccess (key : IpAddr) (ops : List Op) : List Op :=
  ops.rtakeWhile fun op ↦ Reference.view key op ≠ some .success

/-- Failures that trip a block with the last of them, at `stop`. -/
structure Trips (limiter : Limiter) (span : List ℕ) (stop : ℕ) : Prop where
  enough : limiter.maxAttempts ≤ span.length
  last : span.getLast? = some stop
  within : ∀ now ∈ span, now ≤ stop ∧ stop ≤ now + limiter.window

/-- What the entry of a bucket tells about the failures since its last success. -/
inductive Explained (limiter : Limiter) (times : List ℕ) (state : IpState) : Prop
  | counting (older span : List ℕ) (hend : state.blockedUntil = none)
      (htimes : times = older ++ span) (hne : span ≠ [])
      (hcount : state.failuresInWindow ≤ span.length)
      (hwithin : ∀ now ∈ span, state.windowStart ≤ now ∧ now ≤ state.windowStart + limiter.window)
  | blocked (older span later : List ℕ) (stop : ℕ)
      (hend : state.blockedUntil = some (stop + limiter.blockDuration))
      (htimes : times = older ++ span ++ later) (htrips : Trips limiter span stop)
      (hlater : ∀ now ∈ later, now < stop + limiter.blockDuration)

variable {limiter : Limiter} {state : IpState} {now : ℕ} {times : List ℕ}

theorem IpState.blockedUntil_fail_of_blocks (h : state.blocks now = true) :
    (state.fail limiter now).blockedUntil = state.blockedUntil := by
  rw [fail, if_pos h]

theorem Reference.failAt_of_lt {blockEnd : ℕ} (hend : state.blockedUntil = some blockEnd)
    (hlt : ∀ now ∈ times, now < blockEnd) :
    (failAt limiter state times).blockedUntil = some blockEnd := by
  induction times generalizing state with
  | nil => exact hend
  | cons now rest ih =>
    have hblocks : state.blocks now = true := by simpa [IpState.blocks, hend] using hlt now (by simp)
    exact ih ((IpState.blockedUntil_fail_of_blocks hblocks).trans hend) fun later hlater ↦
      hlt later (by simp [hlater])

namespace Explained

theorem count {older span : List ℕ} (hend : state.blockedUntil = none)
    (hcount : state.failuresInWindow ≤ span.length)
    (hwithin : ∀ time ∈ span ++ [now],
      time ≤ now ∧ state.windowStart ≤ time ∧ time ≤ state.windowStart + limiter.window) :
    Explained limiter (older ++ (span ++ [now])) (state.count limiter now) := by
  have hlength : (state.count limiter now).failuresInWindow ≤ (span ++ [now]).length := by
    simp only [IpState.count, List.length_append, List.length_singleton]
    omega
  by_cases hreached : limiter.maxAttempts ≤ min (state.failuresInWindow + 1) (2 ^ 32 - 1)
  · refine .blocked older (span ++ [now]) [] now ?_ (by simp) ?_ (by simp)
    · rw [IpState.blockedUntil_count, if_pos hreached]
    · refine ⟨hreached.trans hlength, by simp, fun time htime ↦ ?_⟩
      have hnow := hwithin now (by simp)
      have htime := hwithin time htime
      omega
  · refine .counting older (span ++ [now]) ?_ rfl (by simp) hlength fun time htime ↦ (hwithin time htime).2
    rw [IpState.blockedUntil_count, if_neg hreached, hend]

theorem fresh : Explained limiter (times ++ [now]) ((IpState.fresh now).count limiter now) :=
  @count limiter (IpState.fresh now) now times [] rfl (Nat.le_refl 0) (by simp [IpState.fresh])

/-- One failure keeps the entry explained. -/
theorem fail (h : Explained limiter times state) (hle : ∀ time ∈ times, time ≤ now) :
    Explained limiter (times ++ [now]) (state.fail limiter now) := by
  cases hblocks : state.blocks now with
  | true =>
    have hend := @IpState.blockedUntil_fail_of_blocks limiter _ _ hblocks
    cases h with
    | counting _ _ hnone => simp [IpState.blocks, hnone] at hblocks
    | blocked older span later stop hsome htimes htrips hlater =>
      refine .blocked older span (later ++ [now]) stop (hend.trans hsome) (by simp [htimes])
        htrips fun time htime ↦ ?_
      rcases List.mem_append.mp htime with htime | htime
      · exact hlater time htime
      · rw [List.mem_singleton.mp htime]
        simpa [IpState.blocks, hsome] using hblocks
  | false =>
    rcases IpState.fail_cases limiter hblocks with ⟨hnone, hopen, hfail⟩ | hfail
    · cases h with
      | blocked _ _ _ _ hsome => simp [hnone] at hsome
      | counting older span _ htimes hne hcount hwithin =>
        rw [hfail, htimes, List.append_assoc]
        have hspan (time : ℕ) (htime : time ∈ span) :
            time ≤ now ∧ state.windowStart ≤ time ∧ time ≤ state.windowStart + limiter.window :=
          ⟨hle time (htimes ▸ List.mem_append_right _ htime), hwithin time htime⟩
        obtain ⟨first, hfirst⟩ := List.exists_mem_of_ne_nil _ hne
        have hstart := hspan first hfirst
        refine Explained.count hnone hcount fun time htime ↦ ?_
        rcases List.mem_append.mp htime with htime | htime
        · exact hspan time htime
        · rw [List.mem_singleton.mp htime]
          omega
    · rw [hfail]
      exact fresh

end Explained

/-- The entry after failures in order is explained by them. -/
theorem Reference.explained_run (hsorted : times.Pairwise (· ≤ ·)) :
    ∀ state ∈ run limiter (times.map .failure), Explained limiter times state := by
  induction times using List.reverseRecOn with
  | nil => simp [run]
  | append_singleton times now ih =>
    rw [List.pairwise_append] at hsorted
    intro state hstate
    rw [List.map_append, List.map_singleton, run, Machine.run_snoc] at hstate
    obtain rfl := Option.mem_some.mp hstate
    cases hentry : run limiter (times.map .failure) with
    | none =>
      rw [run] at hentry
      rw [hentry, Option.getD_none, IpState.fail_fresh]
      exact Explained.fresh
    | some before =>
      rw [run] at hentry
      rw [hentry, Option.getD_some]
      exact (ih hsorted.1 before hentry).fail fun time htime ↦ hsorted.2.2 time htime now (by simp)

section Calls

variable {key : IpAddr} {ops : List Op}

theorem failureTimes_pairwise (htimes : Timely ops) : (failureTimes key ops).Pairwise (· ≤ ·) :=
  htimes.sublist (failureTimes_sublist key ops)

theorem sinceSuccess_suffix : sinceSuccess key ops <:+ ops := List.rtakeWhile_suffix _ _

theorem ne_success_of_mem {op : Op} (h : op ∈ sinceSuccess key ops) :
    Reference.view key op ≠ some .success := by
  simpa using List.mem_rtakeWhile_imp h

theorem run_sinceSuccess (limiter : Limiter) (key : IpAddr) (ops : List Op) :
    Reference.run limiter (ops.filterMap (Reference.view key)) =
      Reference.run limiter ((sinceSuccess key ops).filterMap (Reference.view key)) := by
  induction ops using List.reverseRecOn with
  | nil => rfl
  | append_singleton ops op ih =>
    by_cases hsuccess : Reference.view key op = some .success
    · rw [sinceSuccess, List.rtakeWhile_concat_neg _ _ _ (by simp [hsuccess])]
      simp [List.filterMap_append, hsuccess, Reference.run, Reference.step]
    · have hsince : sinceSuccess key (ops ++ [op]) = sinceSuccess key ops ++ [op] :=
        List.rtakeWhile_concat_pos _ _ _ (by simp [hsuccess])
      have hrun (ops : List Op) :
          Reference.run limiter ((ops ++ [op]).filterMap (Reference.view key)) =
            Machine.run (Reference.step limiter)
              (Reference.run limiter (ops.filterMap (Reference.view key)))
              ([op].filterMap (Reference.view key)) := by
        rw [List.filterMap_append, Reference.run, Machine.run_append]
        rfl
      rw [hsince, hrun, hrun, ih]

theorem explained_of_run (htimes : Timely ops) :
    ∀ state ∈ Reference.run limiter (ops.filterMap (Reference.view key)),
      Explained limiter (failureTimes key (sinceSuccess key ops)) state := by
  have htimely : Timely (sinceSuccess key ops) := by
    obtain ⟨before, hbefore⟩ := @sinceSuccess_suffix key ops
    rw [← hbefore] at htimes
    exact htimes.of_append_right
  rw [run_sinceSuccess, filterMap_view_eq_map_failureTimes fun op ↦ ne_success_of_mem]
  exact Reference.explained_run (failureTimes_pairwise htimely)

theorem Limiter.verdict_eq_blocked_iff {entry : Option IpState} {retryAfter : ℕ} :
    Limiter.verdict entry now = .blocked retryAfter ↔
      ∃ blockEnd, entry.bind (·.blockedUntil) = some blockEnd ∧ now < blockEnd ∧
        retryAfter = blockEnd - now := by
  rw [Limiter.verdict]
  cases entry.bind (·.blockedUntil) with
  | none => simp
  | some blockEnd =>
    by_cases hlt : now < blockEnd
    · simp [hlt, eq_comm]
    · simp [hlt]

theorem exists_blockEnd {ip : IpAddr} {retryAfter : ℕ} (htimes : Timely (ops ++ [.check ip now]))
    (hblocked : (limiter.checkAt (limiter.run ops) ip now).2 = .blocked retryAfter) :
    ∃ blockEnd, (Reference.run limiter (ops.filterMap (Reference.view (bucket ip)))).bind
        (·.blockedUntil) = some blockEnd ∧ now < blockEnd ∧ retryAfter = blockEnd - now := by
  rwa [verdict_eq_reference limiter ops ip now htimes, Limiter.verdict_eq_blocked_iff] at hblocked

/-- Until the block is over, no failure and no check moves its end. -/
theorem checkAt_after_block {more : List Op} {ip other : IpAddr} {later retryAfter : ℕ}
    (htimes : Timely (ops ++ .check ip now :: more ++ [.check other later]))
    (hblocked : (limiter.checkAt (limiter.run ops) ip now).2 = .blocked retryAfter)
    (hother : bucket other = bucket ip)
    (hsuccess : ∀ op ∈ more, Reference.view (bucket ip) op ≠ some .success)
    (hfailures : ∀ time ∈ failureTimes (bucket ip) more, time < now + retryAfter) :
    (limiter.checkAt (limiter.run (ops ++ .check ip now :: more)) other later).2 =
      if later < now + retryAfter then .blocked (now + retryAfter - later) else .allow := by
  have hchecked : Timely (ops ++ [.check ip now]) := by
    rw [List.append_assoc, List.cons_append, List.append_cons] at htimes
    exact htimes.of_append
  obtain ⟨blockEnd, hend, hlt, rfl⟩ := exists_blockEnd hchecked hblocked
  rw [Nat.add_sub_cancel' hlt.le] at hfailures ⊢
  obtain ⟨state, hstate, hblock⟩ := Option.bind_eq_some_iff.mp hend
  rw [Reference.run] at hstate
  have hview : (ops ++ .check ip now :: more).filterMap (Reference.view (bucket ip)) =
      ops.filterMap (Reference.view (bucket ip)) ++
        (failureTimes (bucket ip) more).map .failure := by
    rw [List.filterMap_append, List.filterMap_cons_none rfl,
      filterMap_view_eq_map_failureTimes hsuccess]
  have hentry : Reference.run limiter
      ((ops ++ .check ip now :: more).filterMap (Reference.view (bucket ip))) =
        some (Reference.failAt limiter state (failureTimes (bucket ip) more)) := by
    rw [hview, Reference.run, Machine.run_append, hstate, Reference.run_failures]
  rw [verdict_eq_reference limiter _ other later htimes, hother, hentry, Limiter.verdict,
    Option.bind_some, Reference.failAt_of_lt hblock hfailures]

end Calls

/-- **No false block.** When a check in a timely run is answered with a block, failures of the
bucket have tripped it since its last success: as many as the threshold asks for, within one
window, the last of them at most `now` and less than `blockDuration` ago. The answer is what is
left of `blockDuration`, and until the block is over no failure and no check moves its end. -/
theorem block_justified (limiter : Limiter) (ops : List Op) (ip : IpAddr) (now retryAfter : ℕ)
    (htimes : Timely (ops ++ [.check ip now]))
    (hblocked : (limiter.checkAt (limiter.run ops) ip now).2 = .blocked retryAfter) :
    (∃ older span later stop,
      failureTimes (bucket ip) (sinceSuccess (bucket ip) ops) = older ++ span ++ later ∧
        Trips limiter span stop ∧ stop ≤ now ∧ now < stop + limiter.blockDuration ∧
        retryAfter = stop + limiter.blockDuration - now) ∧
    ∀ (more : List Op) (other : IpAddr) (later : ℕ),
      Timely (ops ++ .check ip now :: more ++ [.check other later]) → bucket other = bucket ip →
      (∀ op ∈ more, Reference.view (bucket ip) op ≠ some .success) →
      (∀ time ∈ failureTimes (bucket ip) more, time < now + retryAfter) →
      (limiter.checkAt (limiter.run (ops ++ .check ip now :: more)) other later).2 =
        if later < now + retryAfter then .blocked (now + retryAfter - later) else .allow := by
  constructor
  · obtain ⟨blockEnd, hend, hlt, rfl⟩ := exists_blockEnd htimes hblocked
    obtain ⟨state, hstate, hblock⟩ := Option.bind_eq_some_iff.mp hend
    cases explained_of_run htimes.of_append state hstate with
    | counting _ _ hnone => simp [hnone] at hblock
    | blocked older span later stop hsome hsplit htrips _ =>
      obtain rfl := Option.some.inj (hsome.symm.trans hblock)
      have hmem : stop ∈ ops.filterMap Op.time? := by
        have hspan : stop ∈ span := List.mem_of_getLast? htrips.last
        have hrecent : stop ∈ failureTimes (bucket ip) (sinceSuccess (bucket ip) ops) := by
          simp [hsplit, hspan]
        have htime := (failureTimes_sublist (bucket ip) _).subset hrecent
        exact (sinceSuccess_suffix.sublist.filterMap _).subset htime
      have hle : stop ≤ now := (Machine.le_latest hmem).trans (htimes.latest_le rfl)
      exact ⟨older, span, later, stop, hsplit, htrips, hle, hlt, rfl⟩
  · intro more other later hlater hother hsuccess hfailures
    exact checkAt_after_block hlater hblocked hother hsuccess hfailures

/-- Three failures block an address; the end of the block does not move with two more. -/
theorem block_justified_sample :
    (Limiter.sample.checkAt (Limiter.sample.run ([.failure (IpAddr.sample 1) 0,
        .failure (IpAddr.sample 1) 20, .failure (IpAddr.sample 1) 40] ++
      .check (IpAddr.sample 1) 50 :: [.failure (IpAddr.sample 1) 60,
        .failure (IpAddr.sample 1) 70])) (IpAddr.sample 1) 80).2 = .blocked 260 :=
  (block_justified Limiter.sample [.failure (IpAddr.sample 1) 0, .failure (IpAddr.sample 1) 20,
    .failure (IpAddr.sample 1) 40] (IpAddr.sample 1) 50 290 (by decide) (by decide)).2
    [.failure (IpAddr.sample 1) 60, .failure (IpAddr.sample 1) 70] (IpAddr.sample 1) 80
    (by decide) rfl (by decide) (by decide)

end ComicStream.Auth
