import ComicStream.Auth.RateLimit

/-!
# The limiter refines a single-bucket machine

The reference machine holds the entry of one bucket, sees only the failures and
successes of that bucket and never drops an entry. A simulation relates the two:
an entry that `gc` has dropped is one whose next failure would start it over
anyway. With a zero block duration the two entries may count differently, but
then neither ever blocks.
-/

namespace ComicStream.Auth

open Rust

namespace Reference

inductive Event where
  | failure (now : ℕ)
  | success
  deriving DecidableEq, Repr

def step (limiter : Limiter) (entry : Option IpState) : Event → Option IpState
  | .failure now => some ((entry.getD (IpState.fresh now)).fail limiter now)
  | .success => none

/-- The bucket's entry after its own failures and successes. -/
def run (limiter : Limiter) (events : List Event) : Option IpState :=
  Machine.run (step limiter) none events

/-- What the machine of bucket `key` sees of a call. -/
def view (key : IpAddr) : Op → Option Event
  | .check _ _ => none
  | .failure ip now => if bucket ip = key then some (.failure now) else none
  | .success ip => if bucket ip = key then some .success else none

theorem view_eq_map_failureTime {key : IpAddr} {op : Op} (hsuccess : view key op ≠ some .success) :
    view key op = (op.failureTime? key).map .failure := by
  cases op with
  | check ip now => rfl
  | failure ip now => by_cases hkey : bucket ip = key <;> simp [view, Op.failureTime?, hkey]
  | success ip => simpa [view, Op.failureTime?] using hsuccess

end Reference

namespace IpState

variable {state : IpState} {clock now : ℕ}

theorem blocks_eq_false_of_le (hle : clock ≤ now) (hblocks : state.blocks clock = false) :
    state.blocks now = false := by
  cases hend : state.blockedUntil with
  | none => simp [blocks, hend]
  | some blockEnd =>
    simp only [blocks, hend, Option.any_some, decide_eq_false_iff_not, not_lt] at hblocks ⊢
    exact hblocks.trans hle

@[simp]
theorem blocks_fresh : (fresh now).blocks clock = false := rfl

theorem blockedUntil_count (limiter : Limiter) :
    (state.count limiter now).blockedUntil =
      if limiter.maxAttempts ≤ min (state.failuresInWindow + 1) (2 ^ 32 - 1) then
        some (now + limiter.blockDuration)
      else state.blockedUntil := rfl

theorem fail_of_open {limiter : Limiter} (hend : state.blockedUntil = none)
    (hopen : now - state.windowStart ≤ limiter.window) :
    state.fail limiter now = state.count limiter now := by
  simp [fail, blocks, expire, roll, hend, not_lt.mpr hopen]

/-- A failure outside a block counts in the tracked window, or it starts the entry over. -/
theorem fail_cases (limiter : Limiter) (hblocks : state.blocks now = false) :
    (state.blockedUntil = none ∧ now - state.windowStart ≤ limiter.window ∧
        state.fail limiter now = state.count limiter now) ∨
      state.fail limiter now = (fresh now).count limiter now := by
  cases hend : state.blockedUntil with
  | none =>
    by_cases hwindow : limiter.window < now - state.windowStart
    · right
      simp [fail, hblocks, expire, hend, roll, hwindow, count, fresh]
    · left
      exact ⟨rfl, not_lt.mp hwindow, fail_of_open hend (not_lt.mp hwindow)⟩
  | some blockEnd =>
    right
    simp [fail, hblocks, expire, hend, roll, count, fresh]

@[simp]
theorem fail_fresh (limiter : Limiter) :
    (fresh now).fail limiter now = (fresh now).count limiter now := by
  rcases @fail_cases (fresh now) now limiter blocks_fresh with hopen | hrestart
  · exact hopen.2.2
  · exact hrestart

/-- An entry that neither blocks nor has its window open any more counts like a new one. -/
theorem fail_eq_fail_fresh {limiter : Limiter} (hblocks : state.blocks now = false)
    (hwindow : limiter.window < now - state.windowStart) :
    state.fail limiter now = (fresh now).fail limiter now := by
  rw [fail_fresh]
  rcases fail_cases limiter hblocks with hopen | hrestart
  · exact absurd hopen.2.1 (not_le.mpr hwindow)
  · exact hrestart

theorem blockedUntil_fail (limiter : Limiter) (hblocks : state.blocks now = false) :
    (state.fail limiter now).blockedUntil = none ∨
      (state.fail limiter now).blockedUntil = some (now + limiter.blockDuration) := by
  rcases fail_cases limiter hblocks with ⟨hend, -, hfail⟩ | hfail
  · rw [hfail, blockedUntil_count, hend]
    exact (ite_eq_or_eq _ _ _).symm
  · rw [hfail, blockedUntil_count]
    exact (ite_eq_or_eq _ _ _).symm

theorem windowStart_fail_le (limiter : Limiter)
    (hstate : state.windowStart ≤ state.lastSeen) (hclock : state.lastSeen ≤ now) :
    (state.fail limiter now).windowStart ≤ now ∧ (state.fail limiter now).lastSeen = now := by
  have hstart : state.windowStart ≤ now := hstate.trans hclock
  cases hblocks : state.blocks now with
  | true => simpa [fail, hblocks] using hstart
  | false =>
    rcases fail_cases limiter hblocks with ⟨-, -, hfail⟩ | hfail
    · rw [hfail]
      exact ⟨hstart, rfl⟩
    · rw [hfail]
      exact ⟨le_rfl, rfl⟩

end IpState

theorem Limiter.verdict_eq_allow_iff {entry : Option IpState} {now : ℕ} :
    Limiter.verdict entry now = .allow ↔ ∀ state ∈ entry, state.blocks now = false := by
  cases entry with
  | none => simp [Limiter.verdict]
  | some state => cases hend : state.blockedUntil <;> simp [Limiter.verdict, IpState.blocks, hend]

section Simulation

variable (limiter : Limiter)

/-- The limiter's entry of a bucket against the one the reference machine holds. -/
inductive Agrees (clock : ℕ) : Option IpState → Option IpState → Prop
  | same (entry : Option IpState)
      (htimed : ∀ state ∈ entry, state.windowStart ≤ state.lastSeen ∧ state.lastSeen ≤ clock) :
      Agrees clock entry entry
  | collected (state : IpState) (hblocks : state.blocks clock = false)
      (hwindow : limiter.window < clock - state.windowStart) : Agrees clock none (some state)
  | unblocking (kept reference : Option IpState) (hzero : limiter.blockDuration = 0)
      (hkept : ∀ state ∈ kept, state.blocks clock = false)
      (hreference : ∀ state ∈ reference, state.blocks clock = false) :
      Agrees clock kept reference

variable {limiter} {clock now : ℕ} {kept reference : Option IpState}

theorem Agrees.mono (hle : clock ≤ now) (h : Agrees limiter clock kept reference) :
    Agrees limiter now kept reference := by
  cases h with
  | same _ htimed => exact .same _ fun state hstate ↦ ⟨(htimed state hstate).1,
      (htimed state hstate).2.trans hle⟩
  | collected state hblocks hwindow =>
    exact .collected state (IpState.blocks_eq_false_of_le hle hblocks) (by omega)
  | unblocking _ _ hzero hkept hreference =>
    exact .unblocking _ _ hzero
      (fun state hstate ↦ IpState.blocks_eq_false_of_le hle (hkept state hstate))
      (fun state hstate ↦ IpState.blocks_eq_false_of_le hle (hreference state hstate))

/-- Garbage collection keeps the relation: a dropped entry has expired, and its window is
over unless no block can ever be active. -/
theorem Agrees.collect (h : Agrees limiter now kept reference) :
    Agrees limiter now (kept.filter (limiter.keeps now)) reference := by
  cases h with
  | same _ htimed =>
    cases kept with
    | none => exact .same _ (by simp)
    | some state =>
      by_cases hkeeps : limiter.keeps now state = true
      · simpa [Option.filter, hkeeps] using Agrees.same (some state) htimed
      · have hdrop := hkeeps
        simp only [Limiter.keeps, Bool.or_eq_true, decide_eq_true_eq, not_or, Bool.not_eq_true,
          not_lt] at hdrop
        obtain ⟨hstart, hseen⟩ := htimed state rfl
        simp only [Option.filter, hkeeps]
        by_cases hzero : limiter.blockDuration = 0
        · exact .unblocking _ _ hzero (by simp) (by simpa using hdrop.1)
        · exact .collected state hdrop.1 (by omega)
  | collected state hblocks hwindow => exact .collected state hblocks hwindow
  | unblocking _ _ hzero hkept hreference =>
    exact .unblocking _ _ hzero
      (fun state hstate ↦ hkept state (Option.mem_filter_iff.mp hstate).1) hreference

/-- A failure of the bucket keeps the relation. -/
theorem Agrees.fail (h : Agrees limiter now kept reference) :
    Agrees limiter now (some ((kept.getD (IpState.fresh now)).fail limiter now))
      (some ((reference.getD (IpState.fresh now)).fail limiter now)) := by
  have hunblocked (state : IpState) (hzero : limiter.blockDuration = 0)
      (hblocks : state.blocks now = false) : (state.fail limiter now).blocks now = false := by
    rcases IpState.blockedUntil_fail limiter hblocks with hend | hend <;>
      simp [IpState.blocks, hend, hzero]
  cases h with
  | same _ htimed =>
    refine .same _ fun state hstate ↦ ?_
    obtain rfl := Option.mem_some.mp hstate
    have hentry : (kept.getD (IpState.fresh now)).windowStart ≤
          (kept.getD (IpState.fresh now)).lastSeen ∧
        (kept.getD (IpState.fresh now)).lastSeen ≤ now := by
      cases kept with
      | none => exact ⟨le_rfl, le_rfl⟩
      | some state => exact htimed state rfl
    obtain ⟨hstart, hseen⟩ := IpState.windowStart_fail_le limiter hentry.1 hentry.2
    exact ⟨hstart.trans hseen.ge, hseen.le⟩
  | collected state hblocks hwindow =>
    simp only [Option.getD_none, Option.getD_some,
      IpState.fail_eq_fail_fresh hblocks hwindow]
    refine .same _ fun state hstate ↦ ?_
    obtain rfl := Option.mem_some.mp hstate
    obtain ⟨hstart, hseen⟩ := @IpState.windowStart_fail_le (IpState.fresh now) now limiter
      le_rfl le_rfl
    exact ⟨hstart.trans hseen.ge, hseen.le⟩
  | unblocking _ _ hzero hkept hreference =>
    refine .unblocking _ _ hzero ?_ ?_ <;> intro state hstate <;>
      obtain rfl := Option.mem_some.mp hstate <;> apply hunblocked _ hzero
    · cases kept with
      | none => exact IpState.blocks_fresh
      | some state => exact hkept state rfl
    · cases reference with
      | none => exact IpState.blocks_fresh
      | some state => exact hreference state rfl

theorem Agrees.eq_of_isSome (h : Agrees limiter clock kept reference)
    (hblock : 0 < limiter.blockDuration) (hkept : kept.isSome) : kept = reference := by
  cases h with
  | same => rfl
  | collected => simp at hkept
  | unblocking _ _ hzero => omega

/-- Related entries answer alike. -/
theorem Agrees.verdict_eq (h : Agrees limiter now kept reference) :
    Limiter.verdict kept now = Limiter.verdict reference now := by
  cases h with
  | same => rfl
  | collected state hblocks hwindow =>
    rw [Limiter.verdict_eq_allow_iff.mpr (by simp), Limiter.verdict_eq_allow_iff.mpr
      (by simpa using hblocks)]
  | unblocking _ _ hzero hkept hreference =>
    rw [Limiter.verdict_eq_allow_iff.mpr hkept, Limiter.verdict_eq_allow_iff.mpr hreference]

end Simulation

/-- One call of the limiter is at most one event of the bucket's reference machine. -/
theorem step_agrees (limiter : Limiter) (key : IpAddr) (clock : ℕ) (entries : Entries)
    (reference : Option IpState) (op : Op) (hclock : ∀ now ∈ op.time?, clock ≤ now)
    (h : Agrees limiter clock (entries key) reference) :
    Agrees limiter (max clock (op.time?.getD 0)) (limiter.step entries op key)
      ((Reference.view key op).elim reference (Reference.step limiter reference)) := by
  cases op with
  | check ip now =>
    have hle : clock ≤ now := hclock now rfl
    simpa [Op.time?, Limiter.step, Limiter.checkAt, Limiter.gc, Reference.view, max_eq_right hle]
      using (h.mono hle).collect
  | failure ip now =>
    have hle : clock ≤ now := hclock now rfl
    by_cases hkey : bucket ip = key
    · subst hkey
      simpa [Op.time?, Limiter.step, Limiter.recordFailureAt, Reference.view, Reference.step,
        max_eq_right hle] using (h.mono hle).fail
    · have hother : limiter.step entries (.failure ip now) key = entries key :=
        Function.update_of_ne (Ne.symm hkey) _ _
      simpa [Op.time?, Reference.view, hkey, hother, max_eq_right hle] using h.mono hle
  | success ip =>
    by_cases hkey : bucket ip = key
    · subst hkey
      simpa [Op.time?, Limiter.step, Limiter.recordSuccess, Reference.view, Reference.step]
        using @Agrees.same limiter clock none (by simp)
    · have hother : limiter.step entries (.success ip) key = entries key :=
        Function.update_of_ne (Ne.symm hkey) _ _
      simpa [Op.time?, Reference.view, hkey, hother] using h

/-- After any timely run the entry of a bucket agrees with the reference machine's. -/
theorem run_agrees (limiter : Limiter) (key : IpAddr) (ops : List Op) (htimes : Timely ops) :
    Agrees limiter (Machine.latest Op.time? ops) (limiter.run ops key)
      (Reference.run limiter (ops.filterMap (Reference.view key))) :=
  Machine.run_simulates (step_agrees limiter key) (Agrees.same none (by simp)) ops htimes

theorem verdict_run_eq (limiter : Limiter) (key : IpAddr) {ops : List Op} {now : ℕ}
    (htimes : Timely ops) (hle : Machine.latest Op.time? ops ≤ now) :
    Limiter.verdict (limiter.run ops key) now =
      Limiter.verdict (Reference.run limiter (ops.filterMap (Reference.view key))) now :=
  ((run_agrees limiter key ops htimes).mono hle).verdict_eq

theorem verdict_eq_reference (limiter : Limiter) (ops : List Op) (ip : IpAddr) (now : ℕ)
    (htimes : Timely (ops ++ [.check ip now])) :
    (limiter.checkAt (limiter.run ops) ip now).2 =
      Limiter.verdict (Reference.run limiter (ops.filterMap (Reference.view (bucket ip)))) now := by
  have hle : Machine.latest Op.time? ops ≤ now := htimes.latest_le rfl
  have hagrees := run_agrees limiter (bucket ip) ops htimes.of_append
  exact ((hagrees.mono hle).collect).verdict_eq

/-- **Limiter refinement.** In every timely run whose sums can be represented no call panics, and
each check answers as the reference machine of its bucket does. A check therefore cannot tell two
such runs apart that agree on the failures and successes of its bucket, whatever else they do and
however often they collect garbage. -/
theorem checkAt_refines_reference (limiter : Limiter) (ops : List Op) (ip : IpAddr)
    (now : ℕ) (htimes : Timely (ops ++ [.check ip now])) (hfits : limiter.Fits ops) :
    limiter.Returns ops ∧
      (limiter.tryCheckAt (limiter.tryRun ops) ip now).2 = some
        (Limiter.verdict (Reference.run limiter (ops.filterMap (Reference.view (bucket ip)))) now) ∧
      ∀ others : List Op, Timely (others ++ [.check ip now]) → limiter.Fits others →
        others.filterMap (Reference.view (bucket ip)) =
          ops.filterMap (Reference.view (bucket ip)) →
        (limiter.tryCheckAt (limiter.tryRun others) ip now).2 =
          (limiter.tryCheckAt (limiter.tryRun ops) ip now).2 := by
  have hverdict (ops : List Op) (htimes : Timely (ops ++ [.check ip now]))
      (hfits : limiter.Fits ops) : (limiter.tryCheckAt (limiter.tryRun ops) ip now).2 = some
        (Limiter.verdict (Reference.run limiter (ops.filterMap (Reference.view (bucket ip))))
          now) := by
    rw [hfits.tryRun_eq.1, Limiter.tryCheckAt_eq hfits.duration,
      verdict_eq_reference limiter ops ip now htimes]
  refine ⟨hfits.tryRun_eq.2, hverdict ops htimes hfits, fun others hothers hotherFits hsame ↦ ?_⟩
  rw [hverdict others hothers hotherFits, hverdict ops htimes hfits, hsame]

/-- A check of another address drops the entry, and the next failure cannot tell. -/
theorem checkAt_refines_reference_collected :
    (Limiter.sample.tryCheckAt (Limiter.sample.tryRun [.failure (IpAddr.sample 1) 0,
        .check (IpAddr.sample 2) 400, .failure (IpAddr.sample 1) 410]) (IpAddr.sample 1) 420).2 =
      some (Limiter.verdict (Reference.run Limiter.sample [.failure 0, .failure 410]) 420) :=
  (checkAt_refines_reference Limiter.sample [.failure (IpAddr.sample 1) 0,
    .check (IpAddr.sample 2) 400, .failure (IpAddr.sample 1) 410] (IpAddr.sample 1) 420
    (by decide) ⟨by decide, by decide⟩).2.1

/-- A window and a block of `2 ^ 63` seconds each. -/
def Limiter.endless : Limiter := Limiter.new 3 (2 ^ 63 * nanosPerSec) (2 ^ 63 * nanosPerSec)

/-- Together they are no `Duration`: the first check panics, where the reference machine lets the
address through. -/
theorem checkAt_panics :
    Limiter.endless.window < durationLimit ∧ Limiter.endless.blockDuration < durationLimit ∧
      (Limiter.endless.tryCheckAt (Limiter.endless.tryRun []) (IpAddr.sample 1) 0).2 = none ∧
      Limiter.verdict (Reference.run Limiter.endless []) 0 = .allow := by
  decide

end ComicStream.Auth
