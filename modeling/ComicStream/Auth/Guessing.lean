import ComicStream.Auth.Middleware
import Mathlib.Data.Finset.Card
import Mathlib.Data.List.TakeWhile

/-!
# Guessing under concurrency

Requests that are already past their check escape the block that another one
trips. Of the requests of one bucket that are verified before the block ends,
each is recorded no later than the failure that trips it, or in flight at that
moment; while the block is active no other request passes its check, and nothing
moves its end.
-/

namespace ComicStream.Auth

open Rust

namespace Service

variable (service : Service) (key : IpAddr)

/-- The requests of the bucket that are between their check and their record. -/
def inFlightOf (server : Server) : Finset ℕ :=
  server.inFlight.keys.filter fun id ↦ service.bucketOf id = some key

/-- Those of them that stand at the stage given. -/
def waiting (stage : Stage) (server : Server) : Finset ℕ :=
  (service.inFlightOf key server).filter fun id ↦ server.stage id = some stage

/-- Whether a step verifies the credentials of a request of the bucket. -/
def verifies (server : Server) : Step → Bool
  | .verify id _ => decide (id ∈ service.waiting key .checked server)
  | _ => false

/-- The number of requests of the bucket whose credentials a run verifies. -/
def verified (server : Server) : List Step → ℕ
  | [] => 0
  | step :: rest =>
    (service.verifies key server step).toNat + verified (service.step server step) rest

/-- Every request of the bucket carries wrong credentials. -/
structure Guesses (server : Server) : Prop where
  rejected : ∀ id, service.bucketOf id = some key → service.accepts id = false
  pending : ∀ id, service.bucketOf id = some key →
    server.stage id ≠ some (.verified true)

variable {service} {key} {server : Server} {stage other : Stage} {id : ℕ}

theorem mem_inFlightOf :
    id ∈ service.inFlightOf key server ↔
      service.bucketOf id = some key ∧ (server.stage id).isSome := by
  rw [inFlightOf, Finset.mem_filter, Finmap.mem_keys, Finmap.mem_iff, and_comm, Server.stage,
    Option.isSome_iff_exists]

theorem mem_waiting :
    id ∈ service.waiting key stage server ↔
      service.bucketOf id = some key ∧ server.stage id = some stage := by
  rw [waiting, Finset.mem_filter, mem_inFlightOf]
  constructor
  · rintro ⟨⟨hkey, -⟩, hstage⟩
    exact ⟨hkey, hstage⟩
  · rintro ⟨hkey, hstage⟩
    exact ⟨⟨hkey, by simp [hstage]⟩, hstage⟩

theorem waiting_enter (hkey : service.bucketOf id = some key) :
    service.waiting key stage (server.enter id stage) =
      insert id (service.waiting key stage server) := by
  ext request
  rw [Finset.mem_insert, mem_waiting, mem_waiting]
  by_cases hrequest : request = id
  · simp [hrequest, hkey]
  · simp [hrequest, Server.stage_enter_of_ne]

theorem waiting_enter_of_ne (hne : stage ≠ other) :
    service.waiting key stage (server.enter id other) =
      (service.waiting key stage server).erase id := by
  ext request
  rw [Finset.mem_erase, mem_waiting, mem_waiting]
  by_cases hrequest : request = id
  · simp [hrequest, hne.symm]
  · simp [hrequest, Server.stage_enter_of_ne]

theorem waiting_leave :
    service.waiting key stage (server.leave id) = (service.waiting key stage server).erase id := by
  ext request
  rw [Finset.mem_erase, mem_waiting, mem_waiting]
  by_cases hrequest : request = id
  · simp [hrequest]
  · simp [hrequest, Server.stage_leave_of_ne]

/-- Who waits to be verified and who waits to be recorded are all in flight. -/
theorem card_waiting_add_card_waiting_le :
    (service.waiting key .checked server).card +
        (service.waiting key (.verified false) server).card ≤
      (service.inFlightOf key server).card := by
  rw [← Finset.card_union_of_disjoint]
  · apply Finset.card_le_card
    exact Finset.union_subset (Finset.filter_subset _ _) (Finset.filter_subset _ _)
  · rw [Finset.disjoint_left]
    intro request hchecked hverified
    have hstage := (mem_waiting.mp hchecked).2.symm.trans (mem_waiting.mp hverified).2
    simp at hstage

theorem waiting_step_of_ne {step : Step} (hne : service.bucketOf step.id ≠ some key) :
    service.waiting key stage (service.step server step) = service.waiting key stage server := by
  ext request
  rw [mem_waiting, mem_waiting]
  apply and_congr_right
  intro hkey
  rw [stage_step_of_ne]
  rintro rfl
  exact hne hkey

theorem waiting_step {step : Step} :
    service.waiting key stage (service.step server step) =
      service.waiting key stage (service.progress server step) := rfl

theorem verifies_of_ne {step : Step} (hne : service.bucketOf step.id ≠ some key) :
    service.verifies key server step = false := by
  cases step with
  | check => rfl
  | record => rfl
  | verify id now =>
    rw [verifies, decide_eq_false_iff_not, mem_waiting]
    intro hwaiting
    exact hne hwaiting.1

theorem failureTimes_eq_nil {ops : List Op} (h : ops.filterMap (Reference.view key) = []) :
    failureTimes key ops = [] := by
  rw [List.filterMap_eq_nil_iff] at h
  rw [failureTimes, List.filterMap_eq_nil_iff]
  intro op hop
  have hview := h op hop
  cases op with
  | check => rfl
  | success => rfl
  | failure ip now =>
    simp only [Reference.view] at hview
    by_cases hkey : bucket ip = key
    · simp [hkey] at hview
    · simp [Op.failureTime?, hkey]

theorem Guesses.step (h : service.Guesses key server) (step : Step) :
    service.Guesses key (service.step server step) where
  rejected := h.rejected
  pending id hkey := by
    by_cases hid : id = step.id
    · have hpending := h.pending id hkey
      subst hid
      rw [stage_step]
      cases step with
      | check id now =>
        simp only [progress, Step.id] at hpending hkey ⊢
        split
        · simp
        · exact hpending
      | verify id now =>
        simp only [progress, Step.id] at hpending hkey ⊢
        split
        · simp [h.rejected id hkey]
        · exact hpending
      | record id now =>
        simp only [progress, Step.id] at hpending hkey ⊢
        split
        · simp
        · exact hpending
    · rw [stage_step_of_ne hid]
      exact h.pending id hkey

theorem Guesses.run (h : service.Guesses key server) (steps : List Step) :
    service.Guesses key (service.run server steps) :=
  Machine.run_invariant (fun _ step hserver ↦ hserver.step step) steps h

theorem Guesses.record (h : service.Guesses key server) {id : ℕ} (now : ℕ)
    (hkey : service.bucketOf id = some key) :
    (id ∈ service.waiting key (.verified false) server ∧
      service.progress server (.record id now) = server.leave id ∧
      ∃ ip, bucket ip = key ∧ service.call server (.record id now) = some (.failure ip now)) ∨
    (service.progress server (.record id now) = server ∧
      service.call server (.record id now) = none) := by
  rw [mem_waiting, progress, call]
  cases hstage : server.stage id with
  | none => exact .inr ⟨rfl, rfl⟩
  | some stage =>
    cases stage with
    | checked => exact .inr ⟨rfl, rfl⟩
    | verified accepted =>
      cases accepted with
      | true => exact absurd hstage (h.pending id hkey)
      | false =>
        obtain ⟨ip, hclient, hip⟩ := Option.map_eq_some_iff.mp hkey
        exact .inl ⟨⟨hkey, rfl⟩, rfl, ip, hip, by simp [hclient]⟩

/-- A recorded failure of the bucket was verified before, and waits no longer. -/
theorem card_waiting_step (h : service.Guesses key server) (step : Step) :
    (service.verifies key server step).toNat +
        (service.waiting key (.verified false) server).card =
      (failureTimes key (service.call server step).toList).length +
        (service.waiting key (.verified false) (service.step server step)).card := by
  by_cases hkey : service.bucketOf step.id = some key
  swap
  · rw [verifies_of_ne hkey, waiting_step_of_ne hkey, failureTimes_eq_nil (view_call_of_ne hkey)]
    rfl
  rw [waiting_step]
  cases step with
  | check id now =>
    have hnil : failureTimes key (service.call server (.check id now)).toList = [] := by
      rw [call]
      split
      · cases service.client id <;> rfl
      · rfl
    rw [hnil, progress]
    split
    · next hstage _ =>
      rw [waiting_enter_of_ne (by simp), Finset.erase_eq_of_notMem]
      · rfl
      · rw [mem_waiting, hstage]
        simp
    · rfl
  | verify id now =>
    simp only [Step.id] at hkey
    simp only [verifies, mem_waiting, hkey, true_and, call, Option.toList_none, progress]
    split
    · next hstage =>
      rw [h.rejected id hkey, waiting_enter hkey, Finset.card_insert_of_notMem]
      · simp [hstage, failureTimes, Nat.add_comm]
      · rw [mem_waiting, hstage]
        simp
    · next hstage => simpa [failureTimes] using hstage
  | record id now =>
    simp only [Step.id] at hkey
    have hverifies : service.verifies key server (.record id now) = false := rfl
    rw [hverifies]
    rcases h.record now hkey with ⟨hmem, hprogress, ip, hip, hcall⟩ | ⟨hprogress, hcall⟩
    · have hpos := Finset.card_pos.mpr ⟨id, hmem⟩
      rw [hprogress, hcall, waiting_leave, Finset.card_erase_of_mem hmem]
      simp only [Option.toList_some, failureTimes, List.filterMap_cons, Op.failureTime?, hip,
        if_true, List.filterMap_nil, List.length_singleton, Bool.toNat_false]
      omega
    · rw [hprogress, hcall]
      rfl

/-- Every verification of a run is followed by its record, or still waits for it. -/
theorem verified_add_card (h : service.Guesses key server) (steps : List Step) :
    service.verified key server steps + (service.waiting key (.verified false) server).card =
      (failureTimes key (service.calls server steps)).length +
        (service.waiting key (.verified false) (service.run server steps)).card := by
  induction steps generalizing server with
  | nil => rfl
  | cons step rest ih =>
    have hstep := card_waiting_step h step
    have hrest := ih (h.step step)
    have hrun : service.run server (step :: rest) =
        service.run (service.step server step) rest := rfl
    rw [verified, calls, hrun]
    simp only [failureTimes, List.filterMap_append, List.length_append] at hstep hrest ⊢
    omega

theorem Guesses.ne_success (h : service.Guesses key server) {step : Step} {op : Op}
    (hcall : service.call server step = some op) : Reference.view key op ≠ some .success := by
  by_cases hkey : service.bucketOf step.id = some key
  · cases step with
    | verify => simp [call] at hcall
    | check id now =>
      simp only [call] at hcall
      split at hcall
      · obtain ⟨ip, -, rfl⟩ := Option.map_eq_some_iff.mp hcall
        simp [Reference.view]
      · simp at hcall
    | record id now =>
      simp only [call] at hcall
      split at hcall
      · next hstage => exact absurd hstage (h.pending id hkey)
      · obtain ⟨ip, -, rfl⟩ := Option.map_eq_some_iff.mp hcall
        simp only [Reference.view]
        split <;> simp
      · simp at hcall
  · have hview := @view_call_of_ne service server step key hkey
    rw [hcall, Option.toList_some, List.filterMap_eq_nil_iff] at hview
    simp [hview op List.mem_cons_self]

theorem entries_step (step : Step) :
    (service.step server step).entries =
      (service.call server step).elim server.entries (service.limiter.step server.entries) := rfl

end Service

/-! ## The entry of the bucket -/

section Entry

variable {limiter : Limiter} {key : IpAddr} {entries : Entries} {op : Op}

/-- A call that neither fails nor succeeds in a bucket can only collect its entry. -/
theorem Limiter.step_of_view_eq_none (hview : Reference.view key op = none) :
    limiter.step entries op key = entries key ∨
      ∃ now ∈ op.time?, limiter.step entries op key = (entries key).filter (limiter.keeps now) := by
  cases op with
  | check ip now => exact .inr ⟨now, rfl, rfl⟩
  | failure ip now =>
    left
    have hne : key ≠ bucket ip := by
      rintro rfl
      simp [Reference.view] at hview
    exact Function.update_of_ne hne _ _
  | success ip =>
    left
    have hne : key ≠ bucket ip := by
      rintro rfl
      simp [Reference.view] at hview
    exact Function.update_of_ne hne _ _

theorem Limiter.step_of_view_eq_failure {now : ℕ} (hview : Reference.view key op = some (.failure now)) :
    op.time? = some now ∧ limiter.step entries op key =
      some (((entries key).getD (IpState.fresh now)).fail limiter now) := by
  cases op with
  | check => simp [Reference.view] at hview
  | success ip =>
    simp only [Reference.view] at hview
    split at hview <;> simp at hview
  | failure ip time =>
    simp only [Reference.view] at hview
    split at hview
    · next hkey =>
      obtain rfl : time = now := by simpa using hview
      subst hkey
      exact ⟨rfl, Function.update_self _ _ _⟩
    · simp at hview

theorem Limiter.blockEnd_step {blockEnd : ℕ}
    (hblocked : (entries key).bind (·.blockedUntil) = some blockEnd)
    (hsuccess : Reference.view key op ≠ some .success) (htime : ∀ now ∈ op.time?, now < blockEnd) :
    (limiter.step entries op key).bind (·.blockedUntil) = some blockEnd := by
  obtain ⟨state, hentry, hend⟩ := Option.bind_eq_some_iff.mp hblocked
  have hblocks (now : ℕ) (hnow : now ∈ op.time?) : state.blocks now = true := by
    simpa [IpState.blocks, hend] using htime now hnow
  cases hview : Reference.view key op with
  | none =>
    rcases @step_of_view_eq_none limiter key entries op hview with hstep | ⟨now, hnow, hstep⟩
    · rw [hstep, hblocked]
    · rw [hstep, hentry]
      simp [Option.filter, keeps, hblocks now hnow, hend]
  | some event =>
    cases event with
    | success => exact absurd hview hsuccess
    | failure now =>
      obtain ⟨hnow, hstep⟩ := @step_of_view_eq_failure limiter key entries op now hview
      rw [hstep, hentry, Option.getD_some, IpState.fail, if_pos (hblocks now hnow)]
      exact hend

/-- The entry counts the failures so far, all in the window of the first of them. -/
inductive Counted (limiter : Limiter) : Option IpState → List ℕ → Prop
  | fresh : Counted limiter none []
  | counting (first lastSeen : ℕ) (rest : List ℕ) (hseen : first ≤ lastSeen)
      (hcount : rest.length + 1 < limiter.maxAttempts) :
      Counted limiter (some ⟨first, rest.length + 1, none, lastSeen⟩) (first :: rest)

theorem Counted.length_lt {entry : Option IpState} {times : List ℕ}
    (h : Counted limiter entry times) : times.length < limiter.maxAttempts := by
  cases h with
  | fresh => exact limiter.maxAttempts_pos
  | counting first lastSeen rest hseen hcount => simpa using hcount

theorem IpState.count_of_unblocked {state : IpState} {now : ℕ}
    (hunblocked : (state.count limiter now).blockedUntil = none) :
    state.failuresInWindow + 1 < limiter.maxAttempts ∧
      state.count limiter now =
        { state with
          failuresInWindow := state.failuresInWindow + 1
          lastSeen := now
          blockedUntil := none } := by
  have hlt := limiter.maxAttempts_lt
  have hcount : ¬limiter.maxAttempts ≤ min (state.failuresInWindow + 1) (2 ^ 32 - 1) := by
    intro htrips
    rw [blockedUntil_count, if_pos htrips] at hunblocked
    simp at hunblocked
  have hmin : min (state.failuresInWindow + 1) (2 ^ 32 - 1) = state.failuresInWindow + 1 := by omega
  have hend : state.blockedUntil = none := by
    rwa [blockedUntil_count, if_neg hcount] at hunblocked
  refine ⟨by omega, ?_⟩
  simp only [count, hmin, if_neg (by omega : ¬limiter.maxAttempts ≤ state.failuresInWindow + 1), hend]

/-- Within the window of the first failure the entry is not collected. -/
theorem Counted.filter {entry : Option IpState} {times : List ℕ} (h : Counted limiter entry times)
    {now : ℕ} (hwindow : ∀ first ∈ times.head?, first ≤ now ∧ now ≤ first + limiter.window ∧
      (now < first + limiter.window ∨ 0 < limiter.blockDuration)) :
    Counted limiter (entry.filter (limiter.keeps now)) times := by
  cases h with
  | fresh => exact .fresh
  | counting first lastSeen rest hseen hcount =>
    have htime := hwindow first rfl
    have hkept : limiter.keeps now ⟨first, rest.length + 1, none, lastSeen⟩ = true := by
      simp only [Limiter.keeps, Bool.or_eq_true, decide_eq_true_eq]
      right
      omega
    rw [Option.filter, if_pos hkept]
    exact .counting first lastSeen rest hseen hcount

theorem Counted.fail {entry : Option IpState} {times : List ℕ} (h : Counted limiter entry times)
    {now : ℕ} (hwindow : ∀ first ∈ times.head?, first ≤ now ∧ now ≤ first + limiter.window)
    (hunblocked : ((entry.getD (IpState.fresh now)).fail limiter now).blockedUntil = none) :
    Counted limiter (some ((entry.getD (IpState.fresh now)).fail limiter now)) (times ++ [now]) := by
  cases h with
  | fresh =>
    rw [Option.getD_none, IpState.fail_fresh] at hunblocked ⊢
    obtain ⟨hcount, hstate⟩ := IpState.count_of_unblocked hunblocked
    rw [hstate]
    exact .counting now now [] le_rfl hcount
  | counting first lastSeen rest hseen hcount =>
    have htime := hwindow first rfl
    have hspan : now - first ≤ limiter.window := by omega
    rw [Option.getD_some, IpState.fail_of_open rfl hspan] at hunblocked ⊢
    obtain ⟨hless, hstate⟩ := IpState.count_of_unblocked hunblocked
    rw [hstate, List.cons_append]
    have hlength : (rest ++ [now]).length = rest.length + 1 := by simp
    rw [← hlength] at hless ⊢
    exact .counting first now (rest ++ [now]) htime.1 hless

/-- Within the window of the first failure the entry keeps counting until the block. -/
theorem Counted.step {times : List ℕ} (h : Counted limiter (entries key) times)
    (hsuccess : Reference.view key op ≠ some .success)
    (hwindow : ∀ first ∈ times.head?, ∀ now ∈ op.time?, first ≤ now ∧
      now ≤ first + limiter.window ∧ (now < first + limiter.window ∨ 0 < limiter.blockDuration))
    (hunblocked : ∀ state ∈ limiter.step entries op key, state.blockedUntil = none) :
    Counted limiter (limiter.step entries op key) (times ++ failureTimes key [op]) := by
  have hview := Reference.view_eq_map_failureTime hsuccess
  have htimes : failureTimes key [op] = (op.failureTime? key).toList := by
    cases hfailure : op.failureTime? key <;> simp [failureTimes, hfailure]
  rw [htimes]
  cases hfailure : op.failureTime? key with
  | none =>
    rw [hfailure, Option.map_none] at hview
    rw [Option.toList_none, List.append_nil]
    rcases @Limiter.step_of_view_eq_none limiter key entries op hview with hstep | ⟨now, hnow, hstep⟩
    · rw [hstep]
      exact h
    · rw [hstep]
      exact h.filter fun first hfirst ↦ hwindow first hfirst now hnow
  | some now =>
    rw [hfailure, Option.map_some] at hview
    obtain ⟨hnow, hstep⟩ := @Limiter.step_of_view_eq_failure limiter key entries op now hview
    rw [hstep] at hunblocked ⊢
    rw [Option.toList_some]
    apply h.fail _ (hunblocked _ rfl)
    intro first hfirst
    have htime := hwindow first hfirst now hnow
    exact ⟨htime.1, htime.2.1⟩

end Entry

namespace Service

variable {service : Service} {key : IpAddr} {server : Server} {blockEnd : ℕ}

theorem verdictAt_of_blocked {id now : ℕ} (hkey : service.bucketOf id = some key)
    (hblocked : (server.entries key).bind (·.blockedUntil) = some blockEnd)
    (hnow : now < blockEnd) :
    service.verdictAt server id now = .blocked (blockEnd - now) := by
  obtain ⟨ip, hclient, rfl⟩ := Option.map_eq_some_iff.mp hkey
  have hcheck := @Limiter.blockEnd_step service.limiter (bucket ip) server.entries (.check ip now)
    blockEnd hblocked (by simp [Reference.view]) (by simpa [Op.time?] using hnow)
  rw [verdictAt, hclient, Option.elim_some, Limiter.checkAt]
  change (service.limiter.gc server.entries now (bucket ip)).bind (·.blockedUntil) = some blockEnd
    at hcheck
  simp only [Limiter.verdict, hcheck, if_pos hnow]

theorem Guesses.blockEnd_step (h : service.Guesses key server) {step : Step}
    (hblocked : (server.entries key).bind (·.blockedUntil) = some blockEnd)
    (hnow : step.now < blockEnd) :
    ((service.step server step).entries key).bind (·.blockedUntil) = some blockEnd := by
  rw [entries_step]
  cases hcall : service.call server step with
  | none => exact hblocked
  | some op =>
    apply Limiter.blockEnd_step hblocked (h.ne_success hcall)
    intro now htime
    rwa [time_call hcall htime]

theorem card_checked_step {step : Step}
    (hblocked : (server.entries key).bind (·.blockedUntil) = some blockEnd)
    (hnow : step.now < blockEnd) :
    (service.verifies key server step).toNat +
        (service.waiting key .checked (service.step server step)).card ≤
      (service.waiting key .checked server).card := by
  by_cases hkey : service.bucketOf step.id = some key
  swap
  · rw [verifies_of_ne hkey, waiting_step_of_ne hkey]
    simp
  rw [waiting_step]
  cases step with
  | check id now =>
    have hrefused := verdictAt_of_blocked hkey hblocked hnow
    simp only [Step.id, Step.now] at hrefused
    simp [verifies, progress, hrefused]
  | verify id now =>
    simp only [Step.id] at hkey
    simp only [verifies, mem_waiting, hkey, true_and, progress]
    split
    · next hstage =>
      have hmem : id ∈ service.waiting key .checked server := mem_waiting.mpr ⟨hkey, hstage⟩
      have hpos := Finset.card_pos.mpr ⟨id, hmem⟩
      rw [waiting_enter_of_ne (by simp), Finset.card_erase_of_mem hmem]
      simp only [hstage, decide_true, Bool.toNat_true]
      omega
    · next hstage =>
      have hwaits : decide (server.stage id = some .checked) = false := decide_eq_false hstage
      simp [hwaits]
  | record id now =>
    have hverifies : service.verifies key server (.record id now) = false := rfl
    rw [hverifies, progress]
    split
    · rw [waiting_leave]
      simpa using Finset.card_erase_le
    · simp

/-- A run within the block keeps its end and verifies no more than had passed their check. -/
theorem Guesses.blocked_run (h : service.Guesses key server) {steps : List Step}
    (hblocked : (server.entries key).bind (·.blockedUntil) = some blockEnd)
    (hnow : ∀ step ∈ steps, step.now < blockEnd) :
    ((service.run server steps).entries key).bind (·.blockedUntil) = some blockEnd ∧
      service.verified key server steps ≤ (service.waiting key .checked server).card := by
  induction steps generalizing server with
  | nil => exact ⟨hblocked, Nat.zero_le _⟩
  | cons step rest ih =>
    have hstep := hnow step List.mem_cons_self
    have hchecked := @card_checked_step service key server blockEnd step hblocked hstep
    obtain ⟨hend, hverified⟩ := ih (h.step step) (h.blockEnd_step hblocked hstep)
      fun other hother ↦ hnow other (List.mem_cons_of_mem _ hother)
    refine ⟨hend, ?_⟩
    rw [verified]
    omega

/-- Until the block, and within the window of the first failure, the entry counts all failures
of the run. -/
theorem Guesses.counted_run (h : service.Guesses key server) (hfresh : server.entries key = none)
    {steps : List Step} (htimes : InOrder steps)
    (hwindow : ∀ first ∈ (failureTimes key (service.calls server steps)).head?,
      ∀ step ∈ steps, step.now ≤ first + service.limiter.window ∧
        (step.now < first + service.limiter.window ∨ 0 < service.limiter.blockDuration))
    (hunblocked : ∀ played, played <+: steps →
      ∀ state ∈ (service.run server played).entries key, state.blockedUntil = none) :
    Counted service.limiter ((service.run server steps).entries key)
      (failureTimes key (service.calls server steps)) := by
  induction steps using List.reverseRecOn with
  | nil =>
    rw [Service.run, Machine.run_nil, hfresh]
    exact .fresh
  | append_singleton steps step ih =>
    have hhead (first : ℕ) (hfirst : first ∈ (failureTimes key (service.calls server steps)).head?) :
        first ∈ (failureTimes key (service.calls server (steps ++ [step]))).head? := by
      rw [calls_snoc, failureTimes_append, List.head?_append]
      simp [Option.mem_def.mp hfirst]
    have hcounted := ih htimes.of_append
      (fun first hfirst other hother ↦
        hwindow first (hhead first hfirst) other (List.mem_append_left _ hother))
      (fun played hplayed ↦ hunblocked played (hplayed.trans (List.prefix_append _ _)))
    have hlast := hunblocked (steps ++ [step]) List.prefix_rfl
    rw [run_snoc, entries_step] at hlast ⊢
    rw [calls_snoc, failureTimes_append]
    cases hcall : service.call (service.run server steps) step with
    | none =>
      rw [Option.toList_none]
      simpa [failureTimes] using hcounted
    | some op =>
      rw [hcall] at hlast
      apply hcounted.step ((h.run steps).ne_success hcall) ?_ hlast
      intro first hfirst now hnow
      have htime : now = step.now := time_call hcall hnow
      have hmem : first ∈ failureTimes key (service.calls server steps) :=
        List.mem_of_mem_head? hfirst
      have hstep : first ∈ steps.map Step.now :=
        (times_calls_sublist steps).subset ((failureTimes_sublist key _).subset hmem)
      have hle : first ≤ step.now :=
        (Machine.le_latest (by simpa using hstep)).trans (htimes.latest_le rfl)
      have hbound := hwindow first (hhead first hfirst) step (by simp)
      rw [htime]
      exact ⟨hle, hbound⟩

theorem unblocked_step {step : Step}
    (hunblocked : ∀ state ∈ server.entries key, state.blockedUntil = none)
    (hview : (service.call server step).toList.filterMap (Reference.view key) = []) :
    ((service.step server step).entries key).bind (·.blockedUntil) = none := by
  have hbefore : (server.entries key).bind (·.blockedUntil) = none := by
    rw [Option.bind_eq_none_iff]
    exact hunblocked
  rw [entries_step]
  cases hcall : service.call server step with
  | none => exact hbefore
  | some op =>
    rw [hcall, Option.toList_some, List.filterMap_eq_nil_iff] at hview
    rw [Option.elim_some]
    rcases @Limiter.step_of_view_eq_none service.limiter key server.entries op
      (hview op List.mem_cons_self) with hstep | ⟨now, -, hstep⟩
    · rw [hstep, hbefore]
    · rw [hstep, Option.bind_eq_none_iff]
      intro state hstate
      exact hunblocked state (Option.mem_filter_iff.mp hstate).1

theorem blockEnd_of_failure {op : Op} {trip : ℕ}
    (hunblocked : ∀ state ∈ server.entries key, state.blockedUntil = none)
    (hview : Reference.view key op = some (.failure trip))
    (htrips : (service.limiter.step server.entries op key).bind (·.blockedUntil) = some blockEnd) :
    blockEnd = trip + service.limiter.blockDuration := by
  rw [(Limiter.step_of_view_eq_failure hview).2] at htrips
  have hblocks : ((server.entries key).getD (IpState.fresh trip)).blocks trip = false := by
    cases hentry : server.entries key with
    | none => rfl
    | some state => simp [IpState.blocks, hunblocked state hentry]
  rcases IpState.blockedUntil_fail service.limiter hblocks with hend | hend
  · simp [hend] at htrips
  · simpa [hend] using htrips.symm

/-- A failure of the bucket that trips the block: it was verified in flight, and the block ends
`blockDuration` after it. -/
theorem Guesses.trip_spec (h : service.Guesses key server) {id trip : ℕ}
    (hunblocked : ∀ state ∈ server.entries key, state.blockedUntil = none)
    (htrips : ((service.step server (.record id trip)).entries key).bind (·.blockedUntil) =
      some blockEnd) :
    blockEnd = trip + service.limiter.blockDuration ∧
      (failureTimes key (service.call server (.record id trip)).toList).length = 1 ∧
      (service.inFlightOf key (service.step server (.record id trip))).card + 1 =
        (service.inFlightOf key server).card := by
  by_cases hkey : service.bucketOf id = some key
  swap
  · rw [unblocked_step hunblocked (view_call_of_ne hkey)] at htrips
    simp at htrips
  rcases h.record trip hkey with ⟨hwaits, hprogress, ip, hip, hcall⟩ | ⟨-, hcall⟩
  · refine ⟨?_, by simp [hcall, failureTimes, Op.failureTime?, hip], ?_⟩
    · rw [entries_step, hcall, Option.elim_some] at htrips
      exact blockEnd_of_failure hunblocked (by simp [Reference.view, hip]) htrips
    · have hmem : id ∈ service.inFlightOf key server := Finset.mem_of_mem_filter _ hwaits
      have hleave : service.inFlightOf key (service.step server (.record id trip)) =
          (service.inFlightOf key server).erase id := by
        ext request
        rw [Finset.mem_erase, mem_inFlightOf, mem_inFlightOf, stage_step, hprogress]
        by_cases hrequest : request = id
        · simp [hrequest]
        · simp [hrequest, Server.stage_leave_of_ne]
      have hpos := Finset.card_pos.mpr ⟨id, hmem⟩
      rw [hleave, Finset.card_erase_of_mem hmem]
      omega
  · rw [unblocked_step hunblocked (by rw [hcall]; rfl)] at htrips
    simp at htrips

theorem verified_append (first second : List Step) :
    service.verified key server (first ++ second) =
      service.verified key server first +
        service.verified key (service.run server first) second := by
  induction first generalizing server with
  | nil => simp [verified, Service.run]
  | cons step rest ih =>
    rw [List.cons_append, verified, verified, ih, Nat.add_assoc]
    rfl

/-- Wrong guesses in a bucket that has no entry, at most `capacity` of them at a time between
their check and their record, up to the failure that trips the first block, which is no later
than `window` after the first failure, and beyond it. -/
structure Attack (service : Service) (key : IpAddr) (server : Server) (before after : List Step)
    (id trip first capacity : ℕ) : Prop where
  fresh : server.entries key = none
  guesses : service.Guesses key server
  in_order : InOrder (before ++ .record id trip :: after)
  in_flight : ∀ played, played <+: before ++ .record id trip :: after →
    (service.inFlightOf key (service.run server played)).card ≤ capacity
  starts : (failureTimes key (service.calls server (before ++ [.record id trip]))).head? = some first
  in_window : trip ≤ first + service.limiter.window
  unblocked : ∀ played, played <+: before →
    ∀ state ∈ (service.run server played).entries key, state.blockedUntil = none
  trips : ((service.run server (before ++ [.record id trip])).entries key).bind (·.blockedUntil) ≠
    none

namespace Attack

variable {before after : List Step} {id trip first capacity : ℕ}

theorem now_le (h : Attack service key server before after id trip first capacity) {step : Step}
    (hstep : step ∈ before) : step.now ≤ trip := by
  have htimes := h.in_order
  rw [List.append_cons] at htimes
  have hmem : step.now ∈ before.filterMap fun step ↦ some (Step.now step) :=
    List.mem_filterMap.mpr ⟨step, hstep, rfl⟩
  exact (Machine.le_latest hmem).trans (htimes.of_append.latest_le rfl)

/-- A run that stops before the tripping failure has recorded fewer failures than the
threshold; with a zero block duration it also has to stop before the window does. -/
theorem failures_lt (h : Attack service key server before after id trip first capacity)
    {played : List Step} (hplayed : played <+: before)
    (hnow : ∀ step ∈ played, step.now < trip ∨ 0 < service.limiter.blockDuration) :
    (failureTimes key (service.calls server played)).length < service.limiter.maxAttempts := by
  obtain ⟨rest, rfl⟩ := hplayed
  have htimes : InOrder played := by
    have horder := h.in_order
    rw [List.append_assoc] at horder
    exact horder.of_append
  apply Counted.length_lt
  apply h.guesses.counted_run h.fresh htimes
  · intro start hstart step hstep
    have hfirst : start = first := by
      have hhead := h.starts
      rw [List.append_assoc, calls_append, failureTimes_append, List.head?_append,
        Option.mem_def.mp hstart] at hhead
      simpa using hhead
    have hle := h.now_le (List.mem_append_left rest hstep)
    have hwindow := h.in_window
    rw [hfirst]
    rcases hnow step hstep with hlt | hblock
    · exact ⟨by omega, .inl (by omega)⟩
    · exact ⟨by omega, .inr hblock⟩
  · intro shorter hshorter
    exact h.unblocked shorter (hshorter.trans (List.prefix_append _ _))

theorem trip_spec (h : Attack service key server before after id trip first capacity) :
    ((service.run server (before ++ [.record id trip])).entries key).bind (·.blockedUntil) =
        some (trip + service.limiter.blockDuration) ∧
      (failureTimes key (service.calls server (before ++ [.record id trip]))).length =
        (failureTimes key (service.calls server before)).length + 1 ∧
      (service.inFlightOf key (service.run server (before ++ [.record id trip]))).card + 1 ≤
        capacity := by
  obtain ⟨blockEnd, hend⟩ := Option.ne_none_iff_exists'.mp h.trips
  have hstep := hend
  rw [run_snoc] at hstep
  obtain ⟨rfl, hfailure, hcard⟩ := (h.guesses.run before).trip_spec
    (h.unblocked before List.prefix_rfl) hstep
  refine ⟨hend, ?_, ?_⟩
  · rw [calls_snoc, failureTimes_append, List.length_append, hfailure]
  · rw [run_snoc, hcard]
    exact h.in_flight before (List.prefix_append _ _)

/-- With a block that lasts, the run splits at the failure that trips it. -/
theorem verified_le_of_pos (h : Attack service key server before after id trip first capacity)
    (hblock : 0 < service.limiter.blockDuration) :
    service.verified key server ((before ++ .record id trip :: after).takeWhile
      (·.now < trip + service.limiter.blockDuration)) ≤
        service.limiter.maxAttempts + capacity - 1 := by
  obtain ⟨hend, hcount, hflight⟩ := h.trip_spec
  have hsplit : (before ++ .record id trip :: after).takeWhile
      (·.now < trip + service.limiter.blockDuration) =
        (before ++ [.record id trip]) ++ after.takeWhile
          (·.now < trip + service.limiter.blockDuration) := by
    rw [List.append_cons, List.takeWhile_append_of_pos]
    intro step hstep
    rw [decide_eq_true_eq]
    rcases List.mem_append.mp hstep with hstep | hstep
    · have hle := h.now_le hstep
      omega
    · rw [List.mem_singleton.mp hstep, Step.now]
      omega
  have hguesses := h.guesses.run (before ++ [.record id trip])
  have hnow (step : Step) (hstep : step ∈ after.takeWhile
      (·.now < trip + service.limiter.blockDuration)) :
      step.now < trip + service.limiter.blockDuration := by
    simpa using List.mem_takeWhile_imp hstep
  have hearly := verified_add_card h.guesses (before ++ [.record id trip])
  have hlate := (hguesses.blocked_run hend hnow).2
  have hwaiting := @card_waiting_add_card_waiting_le service key
    (service.run server (before ++ [.record id trip]))
  have hfailures := h.failures_lt List.prefix_rfl fun step _ ↦ .inr hblock
  rw [hsplit, verified_append]
  calc
    _ ≤ (failureTimes key (service.calls server (before ++ [.record id trip]))).length +
          (service.waiting key (.verified false)
            (service.run server (before ++ [.record id trip]))).card +
        (service.waiting key .checked (service.run server (before ++ [.record id trip]))).card := by
      omega
    _ ≤ (failureTimes key (service.calls server (before ++ [.record id trip]))).length +
        (service.inFlightOf key (service.run server (before ++ [.record id trip]))).card := by
      omega
    _ ≤ service.limiter.maxAttempts + capacity - 1 := by omega

/-- A block that ends where it starts lets nothing in before it but the failures counted. -/
theorem verified_le_of_zero (h : Attack service key server before after id trip first capacity)
    (hzero : service.limiter.blockDuration = 0) :
    service.verified key server ((before ++ .record id trip :: after).takeWhile
      (·.now < trip + service.limiter.blockDuration)) ≤
        service.limiter.maxAttempts + capacity - 1 := by
  have hsplit : (before ++ .record id trip :: after).takeWhile
      (·.now < trip + service.limiter.blockDuration) = before.takeWhile (·.now < trip) := by
    rw [hzero, Nat.add_zero, List.takeWhile_append, List.takeWhile_cons_of_neg (by simp [Step.now])]
    split
    · next hlength =>
      rw [List.append_nil]
      exact ((List.takeWhile_prefix _).eq_of_length hlength).symm
    · rfl
  have hinitial : before.takeWhile (·.now < trip) <+: before := List.takeWhile_prefix _
  have hearly := verified_add_card h.guesses (before.takeWhile (·.now < trip))
  have hwaiting := @card_waiting_add_card_waiting_le service key
    (service.run server (before.takeWhile (·.now < trip)))
  have hflight := h.in_flight _ (hinitial.trans (List.prefix_append _ _))
  have hfailures := h.failures_lt hinitial fun step hstep ↦
    .inl (by simpa using List.mem_takeWhile_imp hstep)
  rw [hsplit]
  calc
    _ ≤ (failureTimes key (service.calls server (before.takeWhile (·.now < trip)))).length +
        (service.inFlightOf key (service.run server (before.takeWhile (·.now < trip)))).card := by
      omega
    _ ≤ service.limiter.maxAttempts - 1 + capacity := by omega
    _ = service.limiter.maxAttempts + capacity - 1 := by omega

end Attack

/-- **Bounded guessing.** Where the sums of the limiter can be represented no step panics, and of
the requests of an attacked bucket at most `maxAttempts` and one less than the number in flight at a
time have their credentials verified before the block that results has ended. While it is active
its end does not move and no further check passes. -/
theorem guesses_bounded {before after : List Step} {id trip first capacity : ℕ}
    (h : Attack service key server before after id trip first capacity)
    (hfits : service.Fits (before ++ .record id trip :: after)) :
    (service.Returns server (before ++ .record id trip :: after) ∧
      ∀ played, played <+: before ++ .record id trip :: after →
        service.tryRun server played = service.run server played) ∧
    service.verified key server ((before ++ .record id trip :: after).takeWhile
        (·.now < trip + service.limiter.blockDuration)) ≤
      service.limiter.maxAttempts + capacity - 1 ∧
    ∀ played, played <+: after →
      (∀ step ∈ played, step.now < trip + service.limiter.blockDuration) →
      ((service.tryRun server (before ++ .record id trip :: played)).entries key).bind
        (·.blockedUntil) = some (trip + service.limiter.blockDuration) ∧
      ∀ other now, service.bucketOf other = some key →
        now < trip + service.limiter.blockDuration →
        service.tryVerdictAt (service.tryRun server (before ++ .record id trip :: played)) other
          now = some (.blocked (trip + service.limiter.blockDuration - now)) := by
  have hrun (played : List Step) (hplayed : played <+: before ++ .record id trip :: after) :
      service.tryRun server played = service.run server played :=
    Fits.tryRun_eq ⟨hfits.duration, fun step hstep ↦ hfits.instant step (hplayed.subset hstep)⟩ |>.1
  refine ⟨⟨hfits.tryRun_eq.2, hrun⟩, ?_, ?_⟩
  · rcases Nat.eq_zero_or_pos service.limiter.blockDuration with hzero | hblock
    · exact h.verified_le_of_zero hzero
    · exact h.verified_le_of_pos hblock
  · intro played hplayed hnow
    have hblocked := ((h.guesses.run (before ++ [.record id trip])).blocked_run h.trip_spec.1
      hnow).1
    have hprefix : before ++ .record id trip :: played <+: before ++ .record id trip :: after :=
      (List.prefix_append_right_inj before).mpr ((List.prefix_cons_inj _).mpr hplayed)
    rw [hrun _ hprefix, List.append_cons, Service.run, Machine.run_append]
    refine ⟨hblocked, fun other now hother hlt ↦ ?_⟩
    rw [tryVerdictAt_eq hfits.duration]
    exact congrArg some (verdictAt_of_blocked hother hblocked hlt)

theorem mem_of_stage_run {steps : List Step} {id : ℕ}
    (hstage : ((service.run .start steps).stage id).isSome) : id ∈ steps.map Step.id := by
  induction steps using List.reverseRecOn with
  | nil => simp [Service.run] at hstage
  | append_singleton steps step ih =>
    rw [run_snoc] at hstage
    rw [List.map_append, List.mem_append]
    by_cases hid : id = step.id
    · exact .inr (by simp [hid])
    · rw [stage_step_of_ne hid] at hstage
      exact .inl (ih hstage)

/-- One failure blocks; every request comes from `10.0.0.1` and carries no credentials. -/
def sample : Service where
  toMiddleware := { Middleware.sample with limiter := Limiter.new 1 60 300 }
  request _ := bareRequest (IpAddr.sample 1)

/-- Two requests pass their checks before the failure of the first one is recorded. -/
def twoGuesses : List Step := [.check 0 0, .check 1 0, .verify 0 1]

theorem attack_twoGuesses :
    Attack sample (IpAddr.sample 1) .start twoGuesses [.verify 1 3] 0 2 2 2 where
  fresh := rfl
  guesses := ⟨fun _ _ ↦ rfl, by simp⟩
  in_order := by decide
  in_flight := by
    intro played hplayed
    have hsubset : sample.inFlightOf (IpAddr.sample 1) (sample.run .start played) ⊆ {0, 1} := by
      intro id hid
      obtain ⟨step, hstep, rfl⟩ := List.mem_map.mp (mem_of_stage_run (mem_inFlightOf.mp hid).2)
      have hids : ∀ step ∈ twoGuesses ++ .record 0 2 :: [.verify 1 3], step.id = 0 ∨ step.id = 1 := by
        decide
      simpa using hids step (hplayed.subset hstep)
    exact Finset.card_le_card hsubset
  starts := by decide
  in_window := by decide
  unblocked := by
    intro played hplayed
    rw [← List.mem_inits] at hplayed
    revert played
    decide
  trips := by decide

/-- Both are verified, the second one after the block has started; a third request is refused. -/
theorem guesses_bounded_twoGuesses :
    sample.verified (IpAddr.sample 1) .start (twoGuesses ++ [.record 0 2, .verify 1 3]) ≤ 2 ∧
      sample.tryVerdictAt (sample.tryRun .start (twoGuesses ++ [.record 0 2, .verify 1 3])) 2 4 =
        some (.blocked 298) :=
  have hbounded := guesses_bounded attack_twoGuesses ⟨by decide, by decide⟩
  ⟨hbounded.2.1, (hbounded.2.2 [.verify 1 3] List.prefix_rfl (by decide)).2 2 4
    (by decide) (by decide)⟩

example : sample.verified (IpAddr.sample 1) .start (twoGuesses ++ [.record 0 2, .verify 1 3]) = 2 := by
  decide

/-- The same requests, where one failure is to block for `2 ^ 63` seconds. -/
def unending : Service := { sample with limiter := Limiter.unending }

/-- Guesses one after the other. -/
def guess (id : ℕ) : List Step := [.check id 0, .verify id 0, .record id 0]

/-- The record of the first guess panics before it sets the block, so the second one is verified
as well, with one request in flight at a time. -/
theorem second_guess_verified :
    unending.limiter.maxAttempts = 1 ∧
      unending.returns (unending.tryRun .start [.check 0 0, .verify 0 0]) (.record 0 0) = false ∧
      (∀ played ∈ (guess 0 ++ guess 1).inits,
        (unending.inFlightOf (IpAddr.sample 1) (unending.tryRun .start played)).card ≤ 1) ∧
      unending.verifies (IpAddr.sample 1) (unending.tryRun .start [.check 0 0]) (.verify 0 0) =
        true ∧
      unending.verifies (IpAddr.sample 1) (unending.tryRun .start (guess 0 ++ [.check 1 0]))
        (.verify 1 0) = true := by
  decide

end Service

end ComicStream.Auth
