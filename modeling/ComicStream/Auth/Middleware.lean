import ComicStream.Auth.Credentials
import ComicStream.Auth.PeerIp
import ComicStream.Auth.Reference
import Mathlib.Data.Finmap

/-!
# The authentication middleware

`require_basic` handles a request in three atomic steps: it asks the limiter,
verifies the credentials, and records the outcome. Between its first and its last
step a request is in flight, and the steps of different requests interleave
freely. Every step makes at most one call of the limiter, so the limiter's
entries after a run are those of the calls the run makes.
-/

namespace ComicStream.Auth

open Rust

/-- The middleware as `require_basic` is given it. -/
structure Middleware where
  creds : Credentials
  limiter : Limiter
  proxy : ProxyConfig
  crypto : Crypto

/-- How far a request in flight has come. -/
inductive Stage where
  | checked
  | verified (accepted : Bool)
  deriving DecidableEq, Repr

/-- The limiter's entries and the requests in flight. -/
structure Server where
  entries : Entries
  inFlight : Finmap fun _ : ℕ ↦ Stage

/-- An atomic step of the request with number `id`. -/
inductive Step where
  | check (id now : ℕ)
  | verify (id now : ℕ)
  | record (id now : ℕ)
  deriving DecidableEq, Repr

def Step.id : Step → ℕ
  | .check id _ => id
  | .verify id _ => id
  | .record id _ => id

def Step.now : Step → ℕ
  | .check _ now => now
  | .verify _ now => now
  | .record _ now => now

/-- Steps whose times never step back. -/
abbrev InOrder (steps : List Step) : Prop := Machine.Nondecreasing (fun step ↦ some (Step.now step)) steps

namespace Server

/-- No entries, and nothing in flight. -/
def start : Server := ⟨fun _ ↦ none, ∅⟩

def stage (server : Server) (id : ℕ) : Option Stage := server.inFlight.lookup id

/-- The request is in flight at the stage given. -/
def enter (server : Server) (id : ℕ) (stage : Stage) : Server :=
  { server with inFlight := server.inFlight.insert id stage }

/-- The request has its response. -/
def leave (server : Server) (id : ℕ) : Server :=
  { server with inFlight := server.inFlight.erase id }

@[simp]
theorem stage_start (id : ℕ) : start.stage id = none := rfl

@[simp]
theorem stage_enter (server : Server) (id : ℕ) (stage : Stage) :
    (server.enter id stage).stage id = some stage :=
  Finmap.lookup_insert _

@[simp]
theorem stage_leave (server : Server) (id : ℕ) : (server.leave id).stage id = none :=
  Finmap.lookup_erase id _

theorem stage_enter_of_ne (server : Server) {id other : ℕ} (stage : Stage) (h : other ≠ id) :
    (server.enter id stage).stage other = server.stage other :=
  Finmap.lookup_insert_of_ne _ h

theorem stage_leave_of_ne (server : Server) {id other : ℕ} (h : other ≠ id) :
    (server.leave id).stage other = server.stage other :=
  Finmap.lookup_erase_ne h

end Server

/-- The middleware together with the requests that reach it, by number. -/
structure Service extends Middleware where
  request : ℕ → Request

namespace Service

variable (service : Service)

/-- The address a request is limited under. -/
def client (id : ℕ) : Option IpAddr := clientIp (service.request id) service.proxy

/-- The bucket a request is limited under. -/
def bucketOf (id : ℕ) : Option IpAddr := (service.client id).map bucket

/-- The `Authorization` value of a request. -/
def authorization (id : ℕ) : Option (List Char) :=
  ((service.request id).header "authorization").bind toStr

/-- Whether the credentials of a request pass. -/
def accepts (id : ℕ) : Bool := service.crypto.verify service.creds (service.authorization id)

/-- What the limiter answers to the check of a request; a request without an address is never
checked. -/
def verdictAt (server : Server) (id now : ℕ) : Verdict :=
  (service.client id).elim .allow fun ip ↦ (service.limiter.checkAt server.entries ip now).2

/-- The call of the limiter that a step makes, if any. A step that a request has not come to,
or has behind it, makes none. -/
def call (server : Server) : Step → Option Op
  | .check id now =>
    match server.stage id with
    | none => (service.client id).map (.check · now)
    | some _ => none
  | .verify _ _ => none
  | .record id now =>
    match server.stage id with
    | some (.verified true) => (service.client id).map .success
    | some (.verified false) => (service.client id).map (.failure · now)
    | _ => none

/-- What a step does to the requests in flight. -/
def progress (server : Server) : Step → Server
  | .check id now =>
    match server.stage id, service.verdictAt server id now with
    | none, .allow => server.enter id .checked
    | _, _ => server
  | .verify id _ =>
    match server.stage id with
    | some .checked => server.enter id (.verified (service.accepts id))
    | _ => server
  | .record id _ =>
    match server.stage id with
    | some (.verified _) => server.leave id
    | _ => server

/-- One step of `require_basic`. -/
def step (server : Server) (step : Step) : Server :=
  { service.progress server step with
    entries := (service.call server step).elim server.entries
      (service.limiter.step server.entries) }

/-- The server after a run of steps. -/
def run (server : Server) (steps : List Step) : Server := Machine.run service.step server steps

/-- Whether the call of a step returns. -/
def returns (server : Server) (step : Step) : Bool :=
  (service.call server step).all fun op ↦ (service.limiter.tryStep server.entries op).2

/-- One step of `require_basic` with the panics of the limiter, which end the request. -/
def tryStep (server : Server) (step : Step) : Server :=
  { (if service.returns server step then service.progress server step else server.leave step.id) with
    entries := (service.call server step).elim server.entries fun op ↦
      (service.limiter.tryStep server.entries op).1 }

/-- The server after a run of steps, whether their calls return or not. -/
def tryRun (server : Server) (steps : List Step) : Server :=
  Machine.run service.tryStep server steps

/-- Every call of a run returns. -/
def Returns (server : Server) (steps : List Step) : Prop :=
  Machine.Allowed service.tryStep (fun server step ↦ service.returns server step = true) server steps

/-- What the limiter answers to the check of a request, if it returns. -/
def tryVerdictAt (server : Server) (id now : ℕ) : Option Verdict :=
  (service.client id).elim (some .allow) fun ip ↦
    (service.limiter.tryCheckAt server.entries ip now).2

/-- The sums of the limiter can be represented: that of its durations, and the end of a block that
starts at the time of any of the steps. -/
structure Fits (steps : List Step) : Prop where
  duration : service.limiter.window + service.limiter.blockDuration < durationLimit
  instant : ∀ step ∈ steps, step.now + service.limiter.blockDuration < instantLimit

/-- The calls of the limiter that a run makes. -/
def calls (server : Server) : List Step → List Op
  | [] => []
  | step :: rest => (service.call server step).toList ++ calls (service.step server step) rest

variable {service} {server : Server}

@[simp]
theorem stage_step (step : Step) (id : ℕ) :
    (service.step server step).stage id = (service.progress server step).stage id := rfl

theorem run_snoc (steps : List Step) (step : Step) :
    service.run server (steps ++ [step]) = service.step (service.run server steps) step :=
  Machine.run_snoc _ _ _ _

/-- The limiter's entries after a run are those of the calls it made. -/
theorem entries_run (steps : List Step) :
    (service.run server steps).entries =
      Machine.run service.limiter.step server.entries (service.calls server steps) := by
  induction steps generalizing server with
  | nil => rfl
  | cons step rest ih =>
    rw [calls, Machine.run_append]
    have hentries : (service.step server step).entries =
        Machine.run service.limiter.step server.entries (service.call server step).toList := by
      cases hcall : service.call server step <;> simp [Service.step, hcall]
    rw [← hentries, ← ih]
    rfl

theorem calls_append (first second : List Step) :
    service.calls server (first ++ second) =
      service.calls server first ++ service.calls (service.run server first) second := by
  induction first generalizing server with
  | nil => rfl
  | cons step rest ih =>
    rw [List.cons_append, calls, calls, ih, List.append_assoc]
    rfl

theorem calls_snoc (steps : List Step) (step : Step) :
    service.calls server (steps ++ [step]) =
      service.calls server steps ++ (service.call (service.run server steps) step).toList := by
  rw [calls_append, calls, calls, List.append_nil]

theorem time_call {step : Step} {op : Op} {now : ℕ} (hcall : service.call server step = some op)
    (hnow : op.time? = some now) : now = step.now := by
  cases step with
  | verify => simp [call] at hcall
  | check id time =>
    simp only [call] at hcall
    split at hcall
    · obtain ⟨ip, -, rfl⟩ := Option.map_eq_some_iff.mp hcall
      simpa [Op.time?, Step.now] using hnow.symm
    · simp at hcall
  | record id time =>
    simp only [call] at hcall
    split at hcall
    · obtain ⟨ip, -, rfl⟩ := Option.map_eq_some_iff.mp hcall
      simp [Op.time?] at hnow
    · obtain ⟨ip, -, rfl⟩ := Option.map_eq_some_iff.mp hcall
      simpa [Op.time?, Step.now] using hnow.symm
    · simp at hcall

theorem tryStep_eq {step : Step}
    (hduration : service.limiter.window + service.limiter.blockDuration < durationLimit)
    (hinstant : step.now + service.limiter.blockDuration < instantLimit) :
    service.tryStep server step = service.step server step ∧ service.returns server step = true := by
  have hcall : ∀ op ∈ service.call server step,
      service.limiter.tryStep server.entries op = (service.limiter.step server.entries op, true) := by
    intro op hop
    refine Limiter.tryStep_eq hduration fun now hnow ↦ ?_
    rwa [time_call hop hnow]
  have hreturns : service.returns server step = true := by
    rw [returns, Option.all_eq_true]
    exact fun op hop ↦ congrArg Prod.snd (hcall op hop)
  refine ⟨?_, hreturns⟩
  rw [tryStep, if_pos hreturns, Service.step]
  cases hop : service.call server step with
  | none => rfl
  | some op => rw [Option.elim_some, Option.elim_some, hcall op hop]

/-- Where the sums can be represented, the panics play no part in a run. -/
theorem Fits.tryRun_eq {steps : List Step} (h : service.Fits steps) :
    service.tryRun server steps = service.run server steps ∧ service.Returns server steps := by
  induction steps generalizing server with
  | nil => exact ⟨rfl, trivial⟩
  | cons step rest ih =>
    obtain ⟨hstep, hreturns⟩ := @tryStep_eq service server step h.duration
      (h.instant step List.mem_cons_self)
    obtain ⟨hrun, hrest⟩ := @ih (service.step server step)
      ⟨h.duration, fun other hother ↦ h.instant other (List.mem_cons_of_mem _ hother)⟩
    constructor
    · rw [tryRun, Machine.run_cons, hstep]
      exact hrun
    · rw [Returns, Machine.Allowed, hstep]
      exact ⟨hreturns, hrest⟩

theorem tryVerdictAt_eq {id now : ℕ}
    (hduration : service.limiter.window + service.limiter.blockDuration < durationLimit) :
    service.tryVerdictAt server id now = some (service.verdictAt server id now) := by
  unfold tryVerdictAt verdictAt
  cases service.client id with
  | none => rfl
  | some ip => rw [Option.elim_some, Option.elim_some, Limiter.tryCheckAt_eq hduration]

theorem times_calls_sublist (steps : List Step) :
    ((service.calls server steps).filterMap Op.time?).Sublist (steps.map Step.now) := by
  induction steps generalizing server with
  | nil => exact List.Sublist.slnil
  | cons step rest ih =>
    rw [calls, List.filterMap_append, List.map_cons, ← List.singleton_append]
    refine List.Sublist.append ?_ ih
    cases hcall : service.call server step with
    | none => exact List.nil_sublist _
    | some op =>
      cases hnow : op.time? with
      | none => simp [hnow]
      | some now => simp [hnow, time_call hcall hnow]

/-- Steps in order make calls in order. -/
theorem timely_calls {steps : List Step} (h : InOrder steps) :
    Timely (service.calls server steps) := by
  have htimes : (steps.map Step.now).Pairwise (· ≤ ·) := by
    simpa [InOrder, Machine.Nondecreasing] using h
  exact htimes.sublist (times_calls_sublist steps)

/-- Steps of other buckets are not seen by the machine of a bucket. -/
theorem view_call_of_ne {server : Server} {step : Step} {key : IpAddr}
    (h : service.bucketOf step.id ≠ some key) :
    (service.call server step).toList.filterMap (Reference.view key) = [] := by
  have hne (ip : IpAddr) (hclient : service.client step.id = some ip) : bucket ip ≠ key := by
    rintro rfl
    simp [bucketOf, hclient] at h
  cases step with
  | verify => rfl
  | check id now =>
    simp only [call]
    split
    · cases hclient : service.client id <;> simp [Reference.view]
    · rfl
  | record id now =>
    simp only [call]
    split <;> cases hclient : service.client id <;> simp [Reference.view]
    · exact hne _ hclient
    · exact hne _ hclient

theorem stage_step_of_ne {step : Step} {id : ℕ} (h : id ≠ step.id) :
    (service.step server step).stage id = server.stage id := by
  rw [stage_step]
  cases step with
  | check other now =>
    simp only [progress]
    split
    · exact Server.stage_enter_of_ne _ _ h
    · rfl
  | verify other now =>
    simp only [progress]
    split
    · exact Server.stage_enter_of_ne _ _ h
    · rfl
  | record other now =>
    simp only [progress]
    split
    · exact Server.stage_leave_of_ne _ h
    · rfl

end Service

/-- A request without headers from the address given. -/
def bareRequest (peer : IpAddr) : Request := ⟨some peer, []⟩

/-- A server without trusted proxies, to which nobody sends credentials. -/
def Middleware.sample : Middleware where
  creds := ⟨Vector.replicate 32 0⟩
  limiter := Limiter.sample
  proxy := ⟨[]⟩
  crypto := ⟨fun _ ↦ none, fun _ _ ↦ Vector.replicate 32 0⟩

end ComicStream.Auth
