import ComicStream.Auth.Middleware
import Mathlib.Tactic.IntervalCases

/-!
# Isolation of clients

An IPv4 client can arrive under two addresses, its own and the IPv4-mapped IPv6
address. All mapped addresses share the bucket `::/64`. A run of the middleware
keeps two clients apart as long as they do not both arrive mapped; when they do,
one of them alone can have the other blocked.
-/

namespace ComicStream.Auth

open Rust

/-- The addresses under which an IPv4 client can arrive. -/
def forms (addr : Ipv4Addr) : List IpAddr := [.v4 addr, .v6 addr.toIpv6Mapped]

/-- An IPv6 address. -/
def IsV6 : IpAddr → Prop
  | .v4 _ => False
  | .v6 _ => True

instance (ip : IpAddr) : Decidable (IsV6 ip) := by
  cases ip <;> simp only [IsV6] <;> infer_instance

/-- An IPv6 address that is not the mapped form of an IPv4 address. -/
def IsNative (addr : Ipv6Addr) : Prop := ∀ v4 : Ipv4Addr, addr ≠ v4.toIpv6Mapped

theorem bucket_v6_eq_iff {first second : Ipv6Addr} :
    bucket (.v6 first) = bucket (.v6 second) ↔
      ∀ index : Fin 16, index.val < 8 → first.get index = second.get index := by
  simp only [bucket, IpAddr.v6.injEq]
  constructor
  · intro h index hindex
    have hget (octets : Fin 16 → UInt8) : (Vector.ofFn octets).get index = octets index :=
      Vector.getElem_ofFn index.isLt
    have hsame := congrArg (fun octets : Ipv6Addr ↦ octets.get index) h
    simpa only [hget, hindex, if_true] using hsame
  · intro h
    apply Vector.ext
    intro index hindex
    rw [Vector.getElem_ofFn, Vector.getElem_ofFn]
    split
    · next hlt => exact h ⟨index, hindex⟩ hlt
    · rfl

/-- All mapped addresses fall in one bucket. -/
theorem bucket_mapped (first second : Ipv4Addr) :
    bucket (.v6 first.toIpv6Mapped) = bucket (.v6 second.toIpv6Mapped) := by
  rw [bucket_v6_eq_iff]
  rintro ⟨index, hindex⟩ hlt
  simp only [Ipv4Addr.toIpv6Mapped]
  interval_cases index <;> rfl

theorem bucket_v4_ne_v6 (first : Ipv4Addr) (second : Ipv6Addr) :
    bucket (.v4 first) ≠ bucket (.v6 second) := by
  simp [bucket]

/-- Two different IPv4 clients share a bucket exactly when both arrive mapped. -/
theorem bucket_eq_iff_of_ne {a b : Ipv4Addr} (hne : a ≠ b) {formA formB : IpAddr}
    (ha : formA ∈ forms a) (hb : formB ∈ forms b) :
    bucket formA = bucket formB ↔ IsV6 formA ∧ IsV6 formB := by
  simp only [forms, List.mem_cons, List.not_mem_nil, or_false] at ha hb
  rcases ha with rfl | rfl <;> rcases hb with rfl | rfl
  · simpa [bucket, IsV6] using hne
  · simpa [IsV6] using bucket_v4_ne_v6 a _
  · simpa [IsV6] using (bucket_v4_ne_v6 b _).symm
  · simpa [IsV6] using bucket_mapped a b

theorem bucket_eq_iff_of_forms {a : Ipv4Addr} {first second : IpAddr} (hfirst : first ∈ forms a)
    (hsecond : second ∈ forms a) : bucket first = bucket second ↔ first = second := by
  simp only [forms, List.mem_cons, List.not_mem_nil, or_false] at hfirst hsecond
  rcases hfirst with rfl | rfl <;> rcases hsecond with rfl | rfl
  · simp
  · simpa using bucket_v4_ne_v6 a _
  · simpa using (bucket_v4_ne_v6 a _).symm
  · simp

namespace Service

variable {service : Service}

/-- What a request's check is answered depends on the failures and successes of its bucket. -/
theorem verdictAt_run {steps : List Step} {id now : ℕ}
    (htimes : InOrder (steps ++ [.check id now])) :
    service.verdictAt (service.run .start steps) id now =
      (service.client id).elim .allow fun ip ↦ Limiter.verdict (Reference.run service.limiter
        ((service.calls .start steps).filterMap (Reference.view (bucket ip)))) now := by
  unfold verdictAt
  cases service.client id with
  | none => rfl
  | some ip =>
    have htimely : Timely (service.calls .start steps ++ [.check ip now]) := by
      apply (timely_calls htimes.of_append).snoc
      intro time htime
      obtain rfl : now = time := by simpa [Op.time?] using htime
      apply Machine.latest_le
      intro earlier hearlier
      have hmem := (times_calls_sublist steps).subset hearlier
      have hle := htimes.latest_le rfl
      refine le_trans (Machine.le_latest ?_) hle
      simpa using hmem
    rw [Option.elim_some, Option.elim_some, entries_run]
    exact verdict_eq_reference service.limiter _ ip now htimely

theorem step_congr {first second : Server} {step : Step}
    (hstage : first.stage step.id = second.stage step.id)
    (hverdict : ∀ id now, step = .check id now →
      service.verdictAt first id now = service.verdictAt second id now) :
    service.call first step = service.call second step ∧
      (service.step first step).stage step.id = (service.step second step).stage step.id := by
  rw [stage_step, stage_step]
  cases step with
  | check id now =>
    have hanswer := hverdict id now rfl
    simp only [Step.id] at hstage ⊢
    simp only [call, progress, hstage, hanswer, true_and]
    split
    · simp
    · exact hstage
  | verify id now =>
    simp only [Step.id] at hstage ⊢
    simp only [call, progress, hstage, true_and]
    split
    · simp
    · exact hstage
  | record id now =>
    simp only [Step.id] at hstage ⊢
    simp only [call, progress, hstage, true_and]
    split
    · simp
    · exact hstage

theorem run_snoc_of_ne {key : IpAddr} {step : Step} (hne : service.bucketOf step.id ≠ some key)
    (steps : List Step) :
    (service.calls .start (steps ++ [step])).filterMap (Reference.view key) =
        (service.calls .start steps).filterMap (Reference.view key) ∧
      ∀ id, service.bucketOf id = some key →
        (service.run .start (steps ++ [step])).stage id = (service.run .start steps).stage id := by
  constructor
  · rw [calls_snoc, List.filterMap_append, view_call_of_ne hne, List.append_nil]
  · intro id hid
    rw [run_snoc, stage_step_of_ne]
    rintro rfl
    exact hne hid

/-- Leaving out steps of other buckets changes neither the failures and successes of a bucket
nor where its requests stand. -/
theorem run_filter_agrees (key : IpAddr) (keep : Step → Bool) {steps : List Step}
    (htimes : InOrder steps)
    (hkeep : ∀ step ∈ steps, keep step = false → service.bucketOf step.id ≠ some key) :
    (service.calls .start (steps.filter keep)).filterMap (Reference.view key) =
        (service.calls .start steps).filterMap (Reference.view key) ∧
      ∀ id, service.bucketOf id = some key →
        (service.run .start (steps.filter keep)).stage id = (service.run .start steps).stage id := by
  induction steps using List.reverseRecOn with
  | nil => exact ⟨rfl, fun _ _ ↦ rfl⟩
  | append_singleton steps step ih =>
    obtain ⟨hview, hstages⟩ := ih htimes.of_append
      fun other hother ↦ hkeep other (List.mem_append_left _ hother)
    have hfiltered : InOrder (steps.filter keep ++ [step]) := by
      have hsublist : (steps.filter keep ++ [step]).Sublist (steps ++ [step]) :=
        List.filter_sublist.append_right _
      exact List.Pairwise.sublist (hsublist.filterMap _) htimes
    by_cases hbucket : service.bucketOf step.id = some key
    · have hkept : keep step = true := by
        by_contra hdropped
        exact hkeep step (by simp) (by simpa using hdropped) hbucket
      have hsame := @step_congr service (service.run .start (steps.filter keep))
        (service.run .start steps) step (hstages _ hbucket) (by
          rintro id now rfl
          rw [verdictAt_run hfiltered, verdictAt_run htimes]
          cases hclient : service.client id with
          | none => rfl
          | some ip =>
            have hkey : bucket ip = key := by simpa [bucketOf, Step.id, hclient] using hbucket
            rw [Option.elim_some, Option.elim_some, hkey, hview])
      rw [List.filter_append, List.filter_singleton, hkept, cond_true, calls_snoc, calls_snoc,
        List.filterMap_append, List.filterMap_append, hview, hsame.1, run_snoc, run_snoc]
      refine ⟨rfl, fun id hid ↦ ?_⟩
      by_cases hstep : id = step.id
      · rw [hstep]
        exact hsame.2
      · rw [stage_step_of_ne hstep, stage_step_of_ne hstep]
        exact hstages id hid
    · obtain ⟨hfullView, hfullStages⟩ := run_snoc_of_ne hbucket steps
      rw [hfullView]
      cases hkept : keep step with
      | false =>
        rw [List.filter_append, List.filter_singleton, hkept, cond_false, List.append_nil]
        exact ⟨hview, fun id hid ↦ (hstages id hid).trans (hfullStages id hid).symm⟩
      | true =>
        obtain ⟨hkeptView, hkeptStages⟩ := run_snoc_of_ne hbucket (steps.filter keep)
        rw [List.filter_append, List.filter_singleton, hkept, cond_true, hkeptView]
        refine ⟨hview, fun id hid ↦ ?_⟩
        rw [hkeptStages id hid, hfullStages id hid]
        exact hstages id hid

/-- The run without the requests of an IPv4 client. -/
def without (service : Service) (a : Ipv4Addr) (steps : List Step) : List Step :=
  steps.filter fun step ↦ (forms a).all fun form ↦ service.client step.id ≠ some form

/-- The requests of `a` do not change what the check of a request is answered. -/
def Unaffected (service : Service) (a : Ipv4Addr) (steps : List Step) (id now : ℕ) : Prop :=
  service.verdictAt (service.run .start steps) id now =
    service.verdictAt (service.run .start (service.without a steps)) id now

/-- A check is unaffected by the requests of a client that never share its bucket. -/
theorem unaffected_of_bucket_ne {a : Ipv4Addr} {steps : List Step} {id now : ℕ} {form : IpAddr}
    (htimes : InOrder (steps ++ [.check id now])) (hclient : service.client id = some form)
    (hbucket : ∀ step ∈ steps, ∀ other ∈ forms a, service.client step.id = some other →
      bucket other ≠ bucket form) : service.Unaffected a steps id now := by
  have hfiltered : InOrder (service.without a steps ++ [Step.check id now]) := by
    have hsublist : (service.without a steps ++ [Step.check id now]).Sublist
        (steps ++ [Step.check id now]) := List.filter_sublist.append_right _
    exact List.Pairwise.sublist (hsublist.filterMap _) htimes
  have hagrees := @run_filter_agrees service (bucket form)
    (fun step ↦ (forms a).all fun other ↦ service.client step.id ≠ some other) steps htimes.of_append
    (by
      intro step hstep hdropped
      obtain ⟨other, hother, heq⟩ := List.all_eq_false.mp hdropped
      have hotherClient : service.client step.id = some other := by simpa using heq
      simpa [bucketOf, hotherClient] using hbucket step hstep other hother hotherClient)
  rw [Unaffected, verdictAt_run htimes, verdictAt_run hfiltered, hclient, Option.elim_some,
    Option.elim_some, without, hagrees.1]

end Service

/-! ## Two mapped clients -/

/-- Request 0 comes from `a`, every other from `b`, and none carries credentials. -/
def Middleware.between (middleware : Middleware) (a b : IpAddr) : Service :=
  { middleware with request := fun id ↦ bareRequest (if id = 0 then a else b) }

/-- One login of request 0, which fails. -/
def failedLogin : List Step := [.check 0 0, .verify 0 0, .record 0 0]

def failedLogins (count : ℕ) : List Step := (List.replicate count failedLogin).flatten

theorem failedLogins_succ (count : ℕ) :
    failedLogins (count + 1) = failedLogins count ++ failedLogin := by
  simp [failedLogins, List.replicate_succ']

theorem now_eq_zero_of_mem_failedLogins {count : ℕ} {step : Step}
    (hstep : step ∈ failedLogins count) : step.id = 0 ∧ step.now = 0 := by
  simp only [failedLogins, List.mem_flatten, List.mem_replicate] at hstep
  obtain ⟨login, ⟨-, rfl⟩, hstep⟩ := hstep
  simp only [failedLogin, List.mem_cons, List.not_mem_nil, or_false] at hstep
  rcases hstep with rfl | rfl | rfl <;> exact ⟨rfl, rfl⟩

theorem inOrder_failedLogins (count id : ℕ) :
    InOrder (failedLogins count ++ [.check id 0]) := by
  have hzero : ∀ now ∈ (failedLogins count ++ [Step.check id 0]).filterMap
      (fun step ↦ some (Step.now step)), now = 0 := by
    intro now hnow
    obtain ⟨step, hstep, heq⟩ := List.mem_filterMap.mp hnow
    rcases List.mem_append.mp hstep with hstep | hstep
    · rw [← Option.some.inj heq, (now_eq_zero_of_mem_failedLogins hstep).2]
    · rw [← Option.some.inj heq, List.mem_singleton.mp hstep, Step.now]
  apply List.pairwise_of_forall_mem_list
  intro first hfirst second hsecond
  rw [hzero first hfirst, hzero second hsecond]

theorem reference_run_failures (limiter : Limiter) {count : ℕ} (h : count < limiter.maxAttempts) :
    (Reference.run limiter (List.replicate count (.failure 0))).getD (IpState.fresh 0) =
      { windowStart := 0, failuresInWindow := count, blockedUntil := none, lastSeen := 0 } := by
  induction count with
  | zero => rfl
  | succ count ih =>
    have hcount : min (count + 1) (2 ^ 32 - 1) = count + 1 := by
      have hlt := limiter.maxAttempts_lt
      omega
    rw [List.replicate_succ', Reference.run, Machine.run_snoc, ← Reference.run, Reference.step,
      Option.getD_some, ih (by omega), IpState.fail_of_open rfl (Nat.zero_le _)]
    simp only [IpState.count, hcount, not_le.mpr h, if_false]

theorem verdict_failures (limiter : Limiter) (hblock : 0 < limiter.blockDuration) :
    Limiter.verdict (Reference.run limiter
      (List.replicate limiter.maxAttempts (.failure 0))) 0 = .blocked limiter.blockDuration := by
  obtain ⟨count, hcount⟩ : ∃ count, limiter.maxAttempts = count + 1 :=
    ⟨limiter.maxAttempts - 1, by have hpos := limiter.maxAttempts_pos; omega⟩
  have hmin : limiter.maxAttempts ≤ min (count + 1) (2 ^ 32 - 1) := by
    have hlt := limiter.maxAttempts_lt
    omega
  rw [hcount, List.replicate_succ', Reference.run, Machine.run_snoc, ← Reference.run,
    Reference.step, reference_run_failures limiter (by omega),
    IpState.fail_of_open rfl (Nat.zero_le _)]
  simp only [Limiter.verdict, IpState.count, if_pos hmin, Option.bind_some, Nat.zero_add, if_pos hblock,
    Nat.sub_zero]

namespace Service

variable {middleware : Middleware} {a b : IpAddr}

theorem client_between (id : ℕ) :
    (middleware.between a b).client id = some (if id = 0 then a else b) := by
  simp [client, Middleware.between, bareRequest, clientIp, Request.header, Request.fieldLines]

theorem accepts_between (id : ℕ) : (middleware.between a b).accepts id = false := by
  simp [accepts, authorization, Middleware.between, bareRequest, Request.header,
    Request.fieldLines]

theorem failedLogin_spec {server : Server} (hstage : server.stage 0 = none)
    (hallow : (middleware.between a b).verdictAt server 0 0 = .allow) :
    (middleware.between a b).calls server failedLogin = [.check a 0, .failure a 0] ∧
      ((middleware.between a b).run server failedLogin).stage 0 = none := by
  have hchecked : ((middleware.between a b).step server (.check 0 0)).stage 0 = some .checked := by
    simp [progress, hstage, hallow]
  have hverified : ((middleware.between a b).step ((middleware.between a b).step server
      (.check 0 0)) (.verify 0 0)).stage 0 = some (.verified false) := by
    rw [stage_step, progress, hchecked]
    simp [accepts_between]
  constructor
  · simp only [failedLogin, calls, call, hstage, hverified, client_between, if_pos, Option.map_some,
      Option.toList_some, Option.toList_none, List.nil_append, List.cons_append]
  · rw [failedLogin, Service.run, Machine.run_cons, Machine.run_cons, Machine.run_cons,
      Machine.run_nil, stage_step, progress, hverified]
    exact Server.stage_leave _ _

/-- Up to the threshold every login is verified, and fails. -/
theorem calls_failedLogins {count : ℕ} (h : count ≤ middleware.limiter.maxAttempts) :
    ((middleware.between a b).calls .start (failedLogins count)).filterMap
        (Reference.view (bucket a)) = List.replicate count (.failure 0) ∧
      ((middleware.between a b).run .start (failedLogins count)).stage 0 = none := by
  induction count with
  | zero => exact ⟨rfl, rfl⟩
  | succ count ih =>
    obtain ⟨hview, hstage⟩ := ih (by omega)
    have hallow : (middleware.between a b).verdictAt
        ((middleware.between a b).run .start (failedLogins count)) 0 0 = .allow := by
      rw [verdictAt_run (inOrder_failedLogins count 0), client_between, Option.elim_some, if_pos rfl,
        hview, Limiter.verdict_eq_allow_iff]
      intro state hstate
      have hentry := @reference_run_failures middleware.limiter count (by omega)
      change Reference.run middleware.limiter _ = _ at hstate
      rw [hstate, Option.getD_some] at hentry
      rw [hentry]
      rfl
    obtain ⟨hcalls, hleft⟩ := failedLogin_spec hstage hallow
    rw [failedLogins_succ, calls_append, List.filterMap_append, hview, List.replicate_succ', hcalls]
    refine ⟨by simp [List.filterMap_cons, Reference.view], ?_⟩
    rw [Service.run, Machine.run_append]
    exact hleft

theorem without_failedLogins {client : Ipv4Addr} (hform : a ∈ forms client) (count : ℕ) :
    (middleware.between a b).without client (failedLogins count) = [] := by
  rw [without, List.filter_eq_nil_iff]
  intro step hstep
  have hclient : (middleware.between a b).client step.id = some a := by
    rw [(now_eq_zero_of_mem_failedLogins hstep).1]
    exact client_between 0
  simpa [hclient] using hform

theorem verdictAt_start (id now : ℕ) :
    (middleware.between a b).verdictAt ((middleware.between a b).run .start []) id now = .allow := by
  rw [verdictAt, client_between]
  rfl

/-- When their addresses share a bucket, `a` alone can have `b` blocked. -/
theorem verdictAt_failedLogins (hbucket : bucket a = bucket b)
    (hblock : 0 < middleware.limiter.blockDuration) :
    (middleware.between a b).verdictAt ((middleware.between a b).run .start
      (failedLogins middleware.limiter.maxAttempts)) 1 0 =
        .blocked middleware.limiter.blockDuration := by
  rw [verdictAt_run (inOrder_failedLogins _ 1), client_between, if_neg Nat.one_ne_zero,
    Option.elim_some, ← hbucket, (calls_failedLogins le_rfl).1]
  exact verdict_failures middleware.limiter hblock

end Service

/-- **Isolation by address.** A run in which two IPv4 clients do not both arrive mapped keeps
them apart; given a form of each, every run does so exactly when not both forms are mapped. The
two forms of one client never share a bucket, and native IPv6 clients share theirs exactly when
their first eight octets agree. -/
theorem verdict_isolated (middleware : Middleware) {a b : Ipv4Addr} (hne : a ≠ b) :
    (∀ (request : ℕ → Request) (steps : List Step) (id now : ℕ) (formB : IpAddr),
      formB ∈ forms b → InOrder (steps ++ [.check id now]) →
      Service.client ⟨middleware, request⟩ id = some formB →
      (∀ step ∈ steps, ∀ formA ∈ forms a,
        Service.client ⟨middleware, request⟩ step.id = some formA → ¬(IsV6 formA ∧ IsV6 formB)) →
      Service.Unaffected ⟨middleware, request⟩ a steps id now) ∧
    (0 < middleware.limiter.blockDuration → ∀ formA ∈ forms a, ∀ formB ∈ forms b,
      (∀ (request : ℕ → Request) (steps : List Step) (id now : ℕ),
        InOrder (steps ++ [.check id now]) →
        Service.client ⟨middleware, request⟩ id = some formB →
        (∀ step ∈ steps, ∀ other ∈ forms a,
          Service.client ⟨middleware, request⟩ step.id = some other → other = formA) →
        Service.Unaffected ⟨middleware, request⟩ a steps id now) ↔ ¬(IsV6 formA ∧ IsV6 formB)) ∧
    (∀ first ∈ forms a, ∀ second ∈ forms a, bucket first = bucket second ↔ first = second) ∧
    ∀ first second : Ipv6Addr, IsNative first → IsNative second →
      (bucket (.v6 first) = bucket (.v6 second) ↔
        ∀ index : Fin 16, index.val < 8 → first.get index = second.get index) := by
  have hrun (request : ℕ → Request) (steps : List Step) (id now : ℕ) (formB : IpAddr)
      (hformB : formB ∈ forms b) (htimes : InOrder (steps ++ [.check id now]))
      (hclient : Service.client ⟨middleware, request⟩ id = some formB)
      (hforms : ∀ step ∈ steps, ∀ formA ∈ forms a,
        Service.client ⟨middleware, request⟩ step.id = some formA → ¬(IsV6 formA ∧ IsV6 formB)) :
      Service.Unaffected ⟨middleware, request⟩ a steps id now := by
    apply Service.unaffected_of_bucket_ne htimes hclient
    intro step hstep formA hformA hformAClient hbucket
    exact hforms step hstep formA hformA hformAClient
      ((bucket_eq_iff_of_ne hne hformA hformB).mp hbucket)
  refine ⟨hrun, ?_, fun first hfirst second hsecond ↦ bucket_eq_iff_of_forms hfirst hsecond,
    fun first second _ _ ↦ bucket_v6_eq_iff⟩
  intro hblock formA hformA formB hformB
  constructor
  · intro hunaffected hmapped
    have hbucket := (bucket_eq_iff_of_ne hne hformA hformB).mpr hmapped
    have hsame := hunaffected (middleware.between formA formB).request
      (failedLogins middleware.limiter.maxAttempts) 1 0 (inOrder_failedLogins _ 1)
      (Service.client_between 1) (by
        intro step hstep other _ hother
        have hzero := (now_eq_zero_of_mem_failedLogins hstep).1
        rw [hzero] at hother
        exact Option.some.inj (hother.symm.trans (Service.client_between 0)))
    have hnone := @Service.without_failedLogins middleware formA formB a hformA
      middleware.limiter.maxAttempts
    change (middleware.between formA formB).Unaffected a _ 1 0 at hsame
    rw [Service.Unaffected, hnone, Service.verdictAt_failedLogins hbucket hblock,
      Service.verdictAt_start] at hsame
    simp at hsame
  · intro hforms request steps id now htimes hclient hsame
    apply hrun request steps id now formB hformB htimes hclient
    intro step hstep other hother hotherClient
    rw [hsame step hstep other hother hotherClient]
    exact hforms

/-- The client `1.2.3.4`, and with `b` in place of `4` another one. -/
def Ipv4Addr.sample (b : UInt8) : Ipv4Addr := #v[1, 2, 3, b]

/-- Three failed logins of `::ffff:1.2.3.4` block `::ffff:1.2.3.5`, which would otherwise be let
through, and they leave no trace on `1.2.3.4`. -/
theorem verdict_not_isolated :
    let service := Middleware.sample.between (.v6 (Ipv4Addr.sample 4).toIpv6Mapped)
      (.v6 (Ipv4Addr.sample 5).toIpv6Mapped)
    service.verdictAt (service.run .start (failedLogins 3)) 1 0 = .blocked 300 ∧
      service.verdictAt (service.run .start (service.without (Ipv4Addr.sample 4) (failedLogins 3)))
        1 0 = .allow ∧
      bucket (.v4 (Ipv4Addr.sample 4)) ≠ bucket (.v6 (Ipv4Addr.sample 4).toIpv6Mapped) := by
  refine ⟨Service.verdictAt_failedLogins (bucket_mapped _ _) (by decide), ?_, by decide⟩
  rw [Service.without_failedLogins (by decide) 3, Service.verdictAt_start]

/-- The same failures do not reach `1.2.3.5` under its own address. -/
theorem verdict_isolated_sample :
    Service.Unaffected (Middleware.sample.between (.v6 (Ipv4Addr.sample 4).toIpv6Mapped)
      (.v4 (Ipv4Addr.sample 5))) (Ipv4Addr.sample 4) (failedLogins 3) 1 0 :=
  (verdict_isolated Middleware.sample (by decide : Ipv4Addr.sample 4 ≠ Ipv4Addr.sample 5)).1
    (Middleware.sample.between (.v6 (Ipv4Addr.sample 4).toIpv6Mapped)
      (.v4 (Ipv4Addr.sample 5))).request
    (failedLogins 3) 1 0 (.v4 (Ipv4Addr.sample 5)) (by decide) (by decide) (by decide)
    fun _ _ _ _ _ h ↦ h.2

end ComicStream.Auth
