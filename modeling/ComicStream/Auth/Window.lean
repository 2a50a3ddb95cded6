import ComicStream.Auth.Reference
import Mathlib.Data.List.Infix

/-!
# When failures add up to a block

The limiter counts failures in one tracked window, which starts at the failure
that opens it and does not slide. Failures that all fall within the window
tracked at the first of them trip the block as soon as there are enough; a span
that a new window interrupts may hold nearly twice as many before it does.
-/

namespace ComicStream.Auth

open Rust

/-- The calls `span`, made after the calls `before`, start and stop with a failure of bucket
`key`, clear it by no success and find it free of an active block all the way to the last. -/
structure FailureSpan (limiter : Limiter) (key : IpAddr) (before span : List Op)
    (start stop : ℕ) : Prop where
  starts : ∃ ip, bucket ip = key ∧ span.head? = some (.failure ip start)
  stops : ∃ ip, bucket ip = key ∧ span.getLast? = some (.failure ip stop)
  no_success : ∀ op ∈ span, Reference.view key op ≠ some .success
  unblocked : ∀ played ∈ span.inits, played ≠ span →
    Limiter.verdict (limiter.tryRun (before ++ played) key)
      (max start (Machine.latest Op.time? played)) = .allow

namespace Reference

variable {limiter : Limiter}

/-- The entry after failures at the given times. -/
def failAt (limiter : Limiter) (state : IpState) (times : List ℕ) : IpState :=
  times.foldl (fun state now ↦ state.fail limiter now) state

theorem run_failures (limiter : Limiter) (state : IpState) (times : List ℕ) :
    Machine.run (step limiter) (some state) (times.map .failure) =
      some (failAt limiter state times) := by
  induction times generalizing state with
  | nil => rfl
  | cons now rest ih => exact ih (state.fail limiter now)

/-- No failure but the last one leaves a block that is active at its own time. -/
def Unblocked (limiter : Limiter) (state : IpState) (times : List ℕ) : Prop :=
  ∀ played now rest, times = played ++ now :: rest → rest ≠ [] →
    (failAt limiter state (played ++ [now])).blocks now = false

theorem Unblocked.tail {state : IpState} {now : ℕ} {rest : List ℕ}
    (h : Unblocked limiter state (now :: rest)) : Unblocked limiter (state.fail limiter now) rest :=
  fun played next others hsplit hothers ↦
    h (now :: played) next others (by rw [hsplit, List.cons_append]) hothers

theorem count_of_unblocked {state : IpState} {now : ℕ} (hblock : 0 < limiter.blockDuration)
    (hblocks : (state.count limiter now).blocks now = false) :
    (state.count limiter now).failuresInWindow = state.failuresInWindow + 1 ∧
      (state.count limiter now).blockedUntil = state.blockedUntil ∧
      state.failuresInWindow + 1 < limiter.maxAttempts := by
  have hmax := limiter.maxAttempts_lt
  have hbelow : min (state.failuresInWindow + 1) (2 ^ 32 - 1) < limiter.maxAttempts := by
    by_contra hreached
    rw [not_lt] at hreached
    simp only [IpState.blocks, IpState.blockedUntil_count, if_pos hreached, Option.any_some,
      decide_eq_false_iff_not, not_lt] at hblocks
    omega
  have hsaturated : min (state.failuresInWindow + 1) (2 ^ 32 - 1) = state.failuresInWindow + 1 := by
    omega
  refine ⟨hsaturated, ?_, by omega⟩
  rw [IpState.blockedUntil_count, if_neg (not_le.mpr hbelow)]

theorem count_trips {state : IpState} {now : ℕ}
    (hreached : limiter.maxAttempts ≤ state.failuresInWindow + 1) :
    (state.count limiter now).blockedUntil = some (now + limiter.blockDuration) := by
  have hmax := limiter.maxAttempts_lt
  rw [IpState.blockedUntil_count, if_pos (by omega)]

/-- Failures that stay in the open window trip the block once there are enough of them. -/
theorem failAt_trips (hblock : 0 < limiter.blockDuration) {state : IpState} {times : List ℕ}
    {stop : ℕ} (hstop : times.getLast? = some stop) (hend : state.blockedUntil = none)
    (hopen : ∀ now ∈ times, now - state.windowStart ≤ limiter.window)
    (hfree : Unblocked limiter state times)
    (henough : limiter.maxAttempts ≤ state.failuresInWindow + times.length) :
    (failAt limiter state times).blockedUntil = some (stop + limiter.blockDuration) := by
  induction times generalizing state with
  | nil => simp at hstop
  | cons now rest ih =>
    have hfail : state.fail limiter now = state.count limiter now :=
      IpState.fail_of_open hend (hopen now (by simp))
    cases rest with
    | nil =>
      obtain rfl : now = stop := by simpa using hstop
      simpa [failAt, hfail] using count_trips (by simpa using henough)
    | cons next rest =>
      have hblocks := hfree [] now (next :: rest) rfl (by simp)
      simp only [List.nil_append, failAt, List.foldl_cons, List.foldl_nil, hfail] at hblocks
      obtain ⟨hcount, hkept, -⟩ := count_of_unblocked hblock hblocks
      have hrest := @ih (state.fail limiter now) (by simpa using hstop)
        (by rw [hfail, hkept, hend])
        (by
          intro later hlater
          rw [hfail]
          exact hopen later (by simp [hlater]))
        hfree.tail
        (by
          rw [hfail, hcount]
          simp only [List.length_cons] at henough ⊢
          omega)
      simpa [failAt] using hrest

/-- Failures within the window tracked after the first of them trip the block. -/
theorem failAt_trips_of_tracked (hblock : 0 < limiter.blockDuration) {state : IpState}
    {start stop : ℕ} {rest : List ℕ} (hstop : (start :: rest).getLast? = some stop)
    (hstart : state.blocks start = false)
    (hopen : ∀ now ∈ rest, now - (state.fail limiter start).windowStart ≤ limiter.window)
    (hfree : Unblocked limiter state (start :: rest))
    (henough : limiter.maxAttempts ≤ rest.length + 1) :
    (failAt limiter state (start :: rest)).blockedUntil = some (stop + limiter.blockDuration) := by
  have hcounted : ∃ counted : IpState, counted.blockedUntil = none ∧
      state.fail limiter start = counted.count limiter start := by
    rcases IpState.fail_cases limiter hstart with ⟨hend, -, hfail⟩ | hfail
    · exact ⟨state, hend, hfail⟩
    · exact ⟨IpState.fresh start, rfl, hfail⟩
  obtain ⟨counted, hend, hfail⟩ := hcounted
  cases rest with
  | nil =>
    obtain rfl : start = stop := by simpa using hstop
    simp only [failAt, List.foldl_cons, List.foldl_nil, hfail]
    apply count_trips
    exact henough.trans (by simp)
  | cons next rest =>
    have hblocks := hfree [] start (next :: rest) rfl (by simp)
    simp only [List.nil_append, failAt, List.foldl_cons, List.foldl_nil, hfail] at hblocks
    obtain ⟨hadded, hkept, -⟩ := count_of_unblocked hblock hblocks
    refine @failAt_trips _ hblock (state.fail limiter start) (next :: rest) stop
      (by simpa using hstop) ?_ hopen hfree.tail ?_
    · rw [hfail, hkept, hend]
    · rw [hfail, hadded]
      omega

/-- The failures an entry still counts: none once it has tripped a block. -/
def carried (state : IpState) : ℕ :=
  if state.blockedUntil = none then state.failuresInWindow else 0

theorem carried_count_lt {state : IpState} {now : ℕ} :
    carried (state.count limiter now) < limiter.maxAttempts := by
  have hpos := limiter.maxAttempts_pos
  by_cases hreached : limiter.maxAttempts ≤ min (state.failuresInWindow + 1) (2 ^ 32 - 1)
  · rw [carried, IpState.blockedUntil_count, if_pos hreached]
    exact hpos
  · by_cases hend : state.blockedUntil = none
    · rw [carried, IpState.blockedUntil_count, if_neg hreached, if_pos hend]
      exact not_le.mp hreached
    · rw [carried, IpState.blockedUntil_count, if_neg hreached, if_neg hend]
      exact hpos

theorem step_carried_lt (entry : Option IpState) (event : Event)
    (hentry : ∀ state ∈ entry, carried state < limiter.maxAttempts) :
    ∀ state ∈ step limiter entry event, carried state < limiter.maxAttempts := by
  intro state hstate
  cases event with
  | success => simp [step] at hstate
  | failure now =>
    obtain rfl := Option.mem_some.mp hstate
    cases hblocks : (entry.getD (IpState.fresh now)).blocks now with
    | true =>
      cases entry with
      | none => simp at hblocks
      | some state => simpa [IpState.fail, show state.blocks now = true from hblocks, carried]
          using hentry state rfl
    | false =>
      rcases IpState.fail_cases limiter hblocks with ⟨-, -, hfail⟩ | hfail <;> rw [hfail] <;>
        exact carried_count_lt

/-- Every entry the machine holds carries fewer failures than trip a block. -/
theorem carried_lt (limiter : Limiter) (events : List Event) :
    ∀ state ∈ run limiter events, carried state < limiter.maxAttempts := by
  have hinit : ∀ state ∈ (none : Option IpState), carried state < limiter.maxAttempts := by simp
  exact Machine.run_invariant step_carried_lt events hinit

/-- Twice the threshold, less one, trips the block in any span of one window's length: the
entry starts over at most once in it, and one of the two parts is long enough. -/
theorem failAt_trips_of_double (hblock : 0 < limiter.blockDuration) {state : IpState}
    {times : List ℕ} {start stop : ℕ} (hstop : times.getLast? = some stop)
    (hstart : ∀ first ∈ times.head?, state.blocks first = false)
    (hspan : ∀ now ∈ times, start ≤ now ∧ now ≤ start + limiter.window)
    (hcarried : carried state < limiter.maxAttempts) (hfree : Unblocked limiter state times)
    (henough : 2 * limiter.maxAttempts - 1 ≤ carried state + times.length) :
    (failAt limiter state times).blockedUntil = some (stop + limiter.blockDuration) := by
  induction times generalizing state with
  | nil => simp at hstop
  | cons now rest ih =>
    have hblocks : state.blocks now = false := hstart now rfl
    have hnow := hspan now (by simp)
    simp only [List.length_cons] at henough
    rcases IpState.fail_cases limiter hblocks with ⟨hend, -, hfail⟩ | hfail
    · have hcount : carried state = state.failuresInWindow := by simp [carried, hend]
      cases rest with
      | nil =>
        obtain rfl : now = stop := by simpa using hstop
        simp only [failAt, List.foldl_cons, List.foldl_nil, hfail]
        apply count_trips
        simp only [List.length_nil] at henough
        omega
      | cons next rest =>
        have hunblocked := hfree [] now (next :: rest) rfl (by simp)
        simp only [List.nil_append, failAt, List.foldl_cons, List.foldl_nil, hfail] at hunblocked
        obtain ⟨hadded, hkept, -⟩ := count_of_unblocked hblock hunblocked
        have hafter : (state.fail limiter now).blockedUntil = none := by rw [hfail, hkept, hend]
        have hcarry : carried (state.fail limiter now) = carried state + 1 := by
          rw [carried, if_pos hafter, hfail, hadded, hcount]
        have hrest := @ih (state.fail limiter now) (by simpa using hstop)
          (fun _ _ ↦ by simp [IpState.blocks, hafter])
          (fun later hlater ↦ hspan later (by simp [hlater]))
          (by rw [hfail]; exact carried_count_lt) hfree.tail
          (by rw [hcarry]; omega)
        simpa [failAt] using hrest
    · apply failAt_trips_of_tracked hblock hstop hblocks ?_ hfree (by omega)
      intro later hlater
      have hopened : (state.fail limiter now).windowStart = now := by rw [hfail]; rfl
      have hbound := hspan later (by simp [hlater])
      omega

end Reference

/-! ## From the limiter's calls to the reference machine -/

section Span

variable {limiter : Limiter} {key : IpAddr}

/-- Without a success of the bucket, the machine sees exactly the bucket's failures. -/
theorem filterMap_view_eq_map_failureTimes {ops : List Op}
    (hsuccess : ∀ op ∈ ops, Reference.view key op ≠ some .success) :
    ops.filterMap (Reference.view key) = (failureTimes key ops).map .failure := by
  unfold failureTimes
  rw [List.map_filterMap]
  apply List.filterMap_congr
  intro op hop
  exact Reference.view_eq_map_failureTime (hsuccess op hop)

/-- A failure time of a list of calls stands at the end of one of its prefixes. -/
theorem exists_prefix_of_failureTimes {ops : List Op} {played rest : List ℕ} {now : ℕ}
    (h : failureTimes key ops = played ++ now :: rest) :
    ∃ (first : List Op) (ip : IpAddr) (second : List Op),
      ops = first ++ .failure ip now :: second ∧ failureTimes key first = played ∧
        bucket ip = key ∧ failureTimes key second = rest := by
  obtain ⟨first, second, rfl, hfirst, hsecond⟩ := List.filterMap_eq_append_iff.mp h
  obtain ⟨skipped, op, others, rfl, hskipped, hop, hothers⟩ := List.filterMap_eq_cons_iff.mp hsecond
  cases op with
  | failure ip time =>
    simp only [Op.failureTime?, Option.ite_none_right_eq_some, Option.some.injEq] at hop
    obtain ⟨hkey, rfl⟩ := hop
    refine ⟨first ++ skipped, ip, others, by simp, ?_, hkey, hothers⟩
    rw [failureTimes, List.filterMap_append, hfirst, List.filterMap_eq_nil_iff.mpr hskipped,
      List.append_nil]
  | _ => simp [Op.failureTime?] at hop

theorem reference_run_append {before played : List Op} {start : ℕ} {rest : List ℕ}
    (hsuccess : ∀ op ∈ played, Reference.view key op ≠ some .success)
    (hplayed : failureTimes key played = start :: rest) :
    Reference.run limiter ((before ++ played).filterMap (Reference.view key)) =
      some (Reference.failAt limiter
        ((Reference.run limiter (before.filterMap (Reference.view key))).getD
          (IpState.fresh start)) (start :: rest)) := by
  rw [List.filterMap_append, filterMap_view_eq_map_failureTimes hsuccess, hplayed, Reference.run,
    Machine.run_append, List.map_cons, Machine.run_cons]
  exact Reference.run_failures limiter _ rest

namespace FailureSpan

variable {before span : List Op} {start stop : ℕ}

theorem failureTimes_head (h : FailureSpan limiter key before span start stop) :
    ∃ rest, failureTimes key span = start :: rest := by
  obtain ⟨ip, hkey, hhead⟩ := h.starts
  obtain ⟨rest, rfl⟩ := List.head?_eq_some_iff.mp hhead
  exact ⟨failureTimes key rest, by simp [failureTimes, Op.failureTime?, hkey]⟩

theorem failureTimes_getLast (h : FailureSpan limiter key before span start stop) :
    (failureTimes key span).getLast? = some stop := by
  obtain ⟨ip, hkey, hlast⟩ := h.stops
  obtain ⟨rest, rfl⟩ := List.getLast?_eq_some_iff.mp hlast
  simp [failureTimes, List.filterMap_append, Op.failureTime?, hkey]

theorem latest_eq (h : FailureSpan limiter key before span start stop)
    (htimes : Timely (before ++ span)) :
    Machine.latest Op.time? (before ++ span) = stop := by
  obtain ⟨ip, -, hlast⟩ := h.stops
  obtain ⟨rest, rfl⟩ := List.getLast?_eq_some_iff.mp hlast
  rw [← List.append_assoc] at htimes ⊢
  exact htimes.latest_snoc rfl

theorem verdict_run (h : FailureSpan limiter key before span start stop)
    (hfits : limiter.Fits (before ++ span)) {played rest : List Op} (hspan : span = played ++ rest)
    (hrest : rest ≠ []) :
    Limiter.verdict (limiter.run (before ++ played) key)
      (max start (Machine.latest Op.time? played)) = .allow := by
  rw [hspan, ← List.append_assoc] at hfits
  rw [← hfits.of_append.tryRun_eq.1]
  apply h.unblocked played
  · rw [List.mem_inits, hspan]
    exact List.prefix_append _ _
  · rw [hspan]
    simpa using hrest.symm

theorem blocks_start (h : FailureSpan limiter key before span start stop)
    (htimes : Timely (before ++ span)) (hfits : limiter.Fits (before ++ span)) :
    ((Reference.run limiter (before.filterMap (Reference.view key))).getD
      (IpState.fresh start)).blocks start = false := by
  obtain ⟨ip, -, hhead⟩ := h.starts
  obtain ⟨rest, rfl⟩ := List.head?_eq_some_iff.mp hhead
  have hstart : Timely (before ++ [.failure ip start]) := by
    rw [List.append_cons] at htimes
    exact htimes.of_append
  have hallow : Limiter.verdict (limiter.run before key) start = .allow := by
    simpa [Machine.latest] using h.verdict_run hfits (List.nil_append _).symm (by simp)
  rw [verdict_run_eq limiter key hstart.of_append (hstart.latest_le rfl),
    Limiter.verdict_eq_allow_iff] at hallow
  cases hentry : Reference.run limiter (before.filterMap (Reference.view key)) with
  | none => exact IpState.blocks_fresh
  | some state => exact hallow state hentry

/-- No failure of the span but the last one leaves an active block. -/
theorem unblocked_failureTimes (h : FailureSpan limiter key before span start stop)
    (htimes : Timely (before ++ span)) (hfits : limiter.Fits (before ++ span)) :
    Reference.Unblocked limiter
      ((Reference.run limiter (before.filterMap (Reference.view key))).getD
        (IpState.fresh start)) (failureTimes key span) := by
  intro played now rest hsplit hrest
  obtain ⟨first, ip, second, rfl, rfl, hkey, rfl⟩ := exists_prefix_of_failureTimes hsplit
  have hsecond : second ≠ [] := by
    rintro rfl
    exact hrest rfl
  have hops : first ++ .failure ip now :: second = (first ++ [.failure ip now]) ++ second := by simp
  have htimely : Timely (before ++ (first ++ [.failure ip now])) := by
    rw [hops, ← List.append_assoc] at htimes
    exact htimes.of_append
  have hlatest : Machine.latest Op.time? (first ++ [.failure ip now]) = now :=
    htimely.of_append_right.latest_snoc rfl
  have hlatest' : Machine.latest Op.time? (before ++ (first ++ [.failure ip now])) = now := by
    rw [← List.append_assoc] at htimely ⊢
    exact htimely.latest_snoc rfl
  have hhead : ∃ rest, failureTimes key (first ++ [.failure ip now]) = start :: rest := by
    obtain ⟨times, htimes⟩ := h.failureTimes_head
    rw [hops, failureTimes, List.filterMap_append] at htimes
    cases hfirst : failureTimes key (first ++ [.failure ip now]) with
    | nil => simp [failureTimes, List.filterMap_append, Op.failureTime?, hkey] at hfirst
    | cons time others =>
      rw [failureTimes] at hfirst
      rw [hfirst, List.cons_append, List.cons.injEq] at htimes
      exact ⟨others, by rw [htimes.1]⟩
  obtain ⟨times, hplayed⟩ := hhead
  have hle : start ≤ now := by
    rw [← hlatest]
    apply Machine.le_latest
    apply (failureTimes_sublist key _).subset
    simp [hplayed]
  have hallow := h.verdict_run hfits hops hsecond
  have hsuccess : ∀ op ∈ first ++ [.failure ip now], Reference.view key op ≠ some .success := by
    intro op hop
    apply h.no_success
    rw [hops]
    exact List.mem_append_left _ hop
  rw [hlatest, max_eq_right hle, verdict_run_eq limiter key htimely hlatest'.le,
    Limiter.verdict_eq_allow_iff, reference_run_append hsuccess hplayed] at hallow
  have hblocks := hallow _ rfl
  rw [← hplayed] at hblocks
  simpa [failureTimes, List.filterMap_append, Op.failureTime?, hkey] using hblocks

theorem failureTimes_bounds (h : FailureSpan limiter key before span start stop)
    (htimes : Timely (before ++ span)) {now : ℕ} (hnow : now ∈ failureTimes key span) :
    start ≤ now ∧ now ≤ stop := by
  constructor
  · have hsorted : (failureTimes key span).Pairwise (· ≤ ·) :=
      htimes.of_append_right.sublist (failureTimes_sublist key span)
    obtain ⟨rest, hspan⟩ := h.failureTimes_head
    rw [hspan] at hsorted hnow
    rcases List.mem_cons.mp hnow with rfl | hrest
    · exact le_rfl
    · exact List.rel_of_pairwise_cons hsorted hrest
  · rw [← h.latest_eq htimes]
    apply Machine.le_latest
    rw [List.filterMap_append, List.mem_append]
    exact .inr ((failureTimes_sublist key span).subset hnow)

/-- At the first failure of the span the limiter tracks the window the reference tracks. -/
theorem windowStart_eq (h : FailureSpan limiter key before span start stop)
    (htimes : Timely (before ++ span)) (hblock : 0 < limiter.blockDuration) :
    limiter.run (before ++ span.take 1) key =
      some (((Reference.run limiter (before.filterMap (Reference.view key))).getD
        (IpState.fresh start)).fail limiter start) := by
  obtain ⟨first, hkey, hhead⟩ := h.starts
  obtain ⟨rest, rfl⟩ := List.head?_eq_some_iff.mp hhead
  rw [List.append_cons] at htimes
  have hagrees := run_agrees limiter key _ htimes.of_append
  have hkept : limiter.run (before ++ [.failure first start]) key =
      some (((limiter.run before key).getD (IpState.fresh start)).fail limiter start) := by
    rw [Limiter.run, Machine.run_snoc, ← hkey]
    exact Function.update_self _ _ _
  have hreference : Reference.run limiter
      ((before ++ [Op.failure first start]).filterMap (Reference.view key)) =
      some (((Reference.run limiter (before.filterMap (Reference.view key))).getD
        (IpState.fresh start)).fail limiter start) := by
    simp [List.filterMap_append, Reference.view, hkey, Reference.run, Reference.step]
  rw [List.take_succ_cons, List.take_zero, ← hreference]
  exact hagrees.eq_of_isSome hblock (by rw [hkept]; rfl)

theorem checkAt_eq_blocked (h : FailureSpan limiter key before span start stop)
    (htimes : Timely (before ++ span)) (hblock : 0 < limiter.blockDuration)
    (htrips : (Reference.failAt limiter
      ((Reference.run limiter (before.filterMap (Reference.view key))).getD
        (IpState.fresh start)) (failureTimes key span)).blockedUntil =
          some (stop + limiter.blockDuration))
    {ip : IpAddr} (hip : bucket ip = key) :
    (limiter.checkAt (limiter.run (before ++ span)) ip stop).2 =
      .blocked limiter.blockDuration := by
  have htimely : Timely (before ++ span ++ [.check ip stop]) :=
    htimes.snoc fun now hnow ↦ by
      obtain rfl : stop = now := by simpa [Op.time?] using hnow
      exact (h.latest_eq htimes).le
  obtain ⟨rest, hspan⟩ := h.failureTimes_head
  rw [verdict_eq_reference limiter _ ip stop htimely, hip,
    reference_run_append h.no_success hspan, ← hspan]
  simp [Limiter.verdict, htrips, hblock]

end FailureSpan

/-- **Failures of one tracked window add up.** In a timely run whose sums can be represented,
`maxAttempts` failures of a bucket that are no later than `window` after the start of the window
tracked at the first of them, with no success and no active block of the bucket on the way, leave
it blocked. In a span of at most `window` that starts anywhere, `2 * maxAttempts - 1` failures do. -/
theorem blocked_after_span (limiter : Limiter) (hblock : 0 < limiter.blockDuration)
    (key : IpAddr) (before span : List Op) (start stop : ℕ) (htimes : Timely (before ++ span))
    (hfits : limiter.Fits (before ++ span))
    (hspan : FailureSpan limiter key before span start stop) (ip : IpAddr)
    (hip : bucket ip = key) :
    ((failureTimes key span).length = limiter.maxAttempts →
      (∀ state ∈ limiter.tryRun (before ++ span.take 1) key,
        stop ≤ state.windowStart + limiter.window) →
      (limiter.tryCheckAt (limiter.tryRun (before ++ span)) ip stop).2 =
        some (.blocked limiter.blockDuration)) ∧
    ((failureTimes key span).length = 2 * limiter.maxAttempts - 1 →
      stop ≤ start + limiter.window →
      (limiter.tryCheckAt (limiter.tryRun (before ++ span)) ip stop).2 =
        some (.blocked limiter.blockDuration)) := by
  have hlast := hspan.failureTimes_getLast
  have hstart := hspan.blocks_start htimes hfits
  have hfree := hspan.unblocked_failureTimes htimes hfits
  have hbounds (now : ℕ) (hnow : now ∈ failureTimes key span) :=
    hspan.failureTimes_bounds htimes hnow
  obtain ⟨rest, htimesEq⟩ := hspan.failureTimes_head
  have hfirst : limiter.Fits (before ++ span.take 1) := by
    rw [← List.take_append_drop 1 span, ← List.append_assoc] at hfits
    exact hfits.of_append
  rw [hfirst.tryRun_eq.1, hfits.tryRun_eq.1, Limiter.tryCheckAt_eq hfits.duration]
  constructor
  · intro hcount htracked
    refine congrArg some (hspan.checkAt_eq_blocked htimes hblock ?_ hip)
    have hopen := htracked _ (hspan.windowStart_eq htimes hblock)
    rw [htimesEq] at hlast hfree hbounds hcount ⊢
    apply Reference.failAt_trips_of_tracked hblock hlast hstart ?_ hfree hcount.ge
    intro now hnow
    have hbound := hbounds now (by simp [hnow])
    omega
  · intro hcount hwindow
    refine congrArg some (hspan.checkAt_eq_blocked htimes hblock ?_ hip)
    refine @Reference.failAt_trips_of_double limiter hblock _ _ start stop hlast ?_ ?_ ?_ hfree
      (by omega)
    · intro first hfirst
      rw [htimesEq] at hfirst
      obtain rfl : start = first := by simpa using hfirst
      exact hstart
    · intro now hnow
      have hbound := hbounds now hnow
      omega
    · cases hentry : Reference.run limiter (before.filterMap (Reference.view key)) with
      | none => exact limiter.maxAttempts_pos
      | some state => exact Reference.carried_lt limiter _ state hentry

end Span

/-- Failures at 0, 50, 70 and 80: the last three lie within 30, and nothing blocks. -/
def slidingFailures : List Op := [.failure (IpAddr.sample 1) 50, .failure (IpAddr.sample 1) 70,
  .failure (IpAddr.sample 1) 80]

/-- A span of at most `window` with `maxAttempts` failures that a new tracked window
interrupts: the bucket is not blocked after it. Nor is it after a failure that panics because the
end of its block is no `Instant`. -/
theorem not_blocked_after_sliding_span :
    0 < Limiter.sample.blockDuration ∧
    Timely (.failure (IpAddr.sample 1) 0 :: slidingFailures) ∧
    FailureSpan Limiter.sample (IpAddr.sample 1) [.failure (IpAddr.sample 1) 0]
      slidingFailures 50 80 ∧
    (failureTimes (IpAddr.sample 1) slidingFailures).length = Limiter.sample.maxAttempts ∧
    80 ≤ 50 + Limiter.sample.window ∧
    (Limiter.sample.tryCheckAt
      (Limiter.sample.tryRun (.failure (IpAddr.sample 1) 0 :: slidingFailures))
      (IpAddr.sample 1) 80).2 = some .allow ∧
    (Limiter.unending.tryRecordFailureAt (fun _ ↦ none) (IpAddr.sample 1) 0).2 = false ∧
    (Limiter.unending.tryCheckAt (Limiter.unending.tryRun [.failure (IpAddr.sample 1) 0])
      (IpAddr.sample 1) 0).2 = some .allow := by
  have hspan : FailureSpan Limiter.sample (IpAddr.sample 1) [.failure (IpAddr.sample 1) 0]
      slidingFailures 50 80 :=
    ⟨⟨IpAddr.sample 1, by decide, by decide⟩, ⟨IpAddr.sample 1, by decide, by decide⟩,
      by decide, by decide⟩
  exact ⟨by decide, by decide, hspan, by decide, by decide, by decide, by decide, by decide⟩

/-- The same three failures, on an address not seen before, do block it. -/
theorem blocked_after_span_sliding :
    (Limiter.sample.tryCheckAt (Limiter.sample.tryRun ([] ++ slidingFailures))
      (IpAddr.sample 1) 80).2 = some (.blocked Limiter.sample.blockDuration) := by
  have hspan : FailureSpan Limiter.sample (IpAddr.sample 1) [] slidingFailures 50 80 :=
    ⟨⟨IpAddr.sample 1, by decide, by decide⟩, ⟨IpAddr.sample 1, by decide, by decide⟩,
      by decide, by decide⟩
  exact (blocked_after_span Limiter.sample (by decide) (IpAddr.sample 1) [] slidingFailures 50 80
    (by decide) ⟨by decide, by decide⟩ hspan (IpAddr.sample 1) (by decide)).1 (by decide) (by decide)

end ComicStream.Auth
