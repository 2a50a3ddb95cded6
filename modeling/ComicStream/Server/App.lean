import ComicStream.Auth.Gate
import ComicStream.Foundation.Views
import ComicStream.Server.Http

/-!
# The application

The routes behind the credential check, next to the scanner loop. Requests are in
flight at the same time, and their steps, those of the loop and changes of the
library come in any order. A handler runs for no request that the check has not
accepted, and who is not accepted learns nothing of the library.
-/

namespace ComicStream.Server

open Rust Machine Opds

/-- The check in front of the routes, and the requests that reach the server, by number. Without
credentials the check is left out. Whether it covers paths without a route is up to the framework. -/
structure Gate extends Auth.Middleware where
  isEnabled : Bool
  checksUnrouted : Bool
  request : ℕ → HttpRequest

namespace Gate

variable (gate : Gate)

def service : Auth.Service :=
  { gate.toMiddleware with request := fun id ↦ (gate.request id).toRequest }

/-- Whether a request is served without a check. -/
def isOpen (id : ℕ) : Bool :=
  !gate.isEnabled ||
    match findRoute (Percent.cut question (gate.request id).target).1 with
    | some (handler, _) => handler = .health
    | none => !gate.checksUnrouted

/-- Whether a request is let through, now or once it has been checked. -/
def lets (id : ℕ) : Bool := gate.isOpen id || gate.service.accepts id

end Gate

/-- What a request can reach: the catalog with the library, and the scanner loop. -/
structure Core where
  server : State
  loop : ScanLoop.State

/-- An application, with the requests that wait for their handlers. -/
structure App extends Core where
  auth : Auth.Server
  admitted : Finset ℕ

/-- What can happen: the library changes, a task other than a route or a scan takes a step, a scan
ends, a request takes a step of its check, or its handler runs. -/
inductive App.Action (chrono : Chrono) where
  | change (fs : Fs)
  | task (event : ScanLoop.Event)
  | scan (started : ℕ) (faults : OsPath → Bool) (stop : Option ℕ)
  | auth (step : Auth.Step)
  | serve (id : ℕ) (clock : ℕ → chrono.DateTime)

/-- What a client is sent: by the check, or by a handler. -/
inductive Sent where
  | refused (id : ℕ) (response : Auth.Response)
  | replied (id : ℕ) (reply : Reply)

def Sent.id : Sent → ℕ
  | .refused id _ => id
  | .replied id _ => id

/-- The steps that are no part of a route or of a scan. -/
def isTask : ScanLoop.Event → Bool
  | .adminRescan => false
  | .finishScan _ => false
  | _ => true

section Steps

variable {chrono : Chrono} (gate : Gate) (config : Config) (crates : Crates)

def Core.step (core : Core) : App.Action chrono → Core
  | .change fs => { core with server := Server.step config crates core.server (.change fs) }
  | .task event =>
    if isTask event then { core with loop := ScanLoop.step core.loop event } else core
  | .scan started faults stop =>
    if core.loop.phase = .scanning then
      { server := Server.step config crates core.server (.scan started faults stop)
        loop := ScanLoop.step core.loop (.finishScan (stop.isNone &&
          ((scanOf config crates core.server started faults).complete crates.xxh3
            core.server.db).isSome)) }
    else core
  | .auth _ => core
  | .serve id _ =>
    match (gate.request id).dispatch config with
    | .catalog request =>
      { core with server := Server.step config crates core.server (.request request) }
    | .rescan => { core with loop := (ScanLoop.trySend core.loop).2 }
    | _ => core

variable (app : App)

/-- The handler of the request may run. -/
def App.mayServe (id : ℕ) : Bool := gate.isOpen id || id ∈ app.admitted

def App.step : App.Action chrono → App
  | .auth step =>
    if gate.isOpen step.id then app
    else
      { app with
        auth := gate.service.step app.auth step
        admitted := (app.auth.passedOn step).elim app.admitted (insert · app.admitted) }
  | .serve id clock =>
    if app.mayServe gate id then
      { app with
        toCore := app.toCore.step gate config crates (.serve id clock)
        admitted := app.admitted.erase id }
    else app
  | action => { app with toCore := app.toCore.step gate config crates action }

/-- What is sent to a client. -/
def App.sent : App.Action chrono → Option Sent
  | .auth step =>
    if gate.isOpen step.id then none
    else (gate.service.refusal app.auth step).map fun refusal ↦ .refused refusal.1 refusal.2
  | .serve id clock =>
    if app.mayServe gate id then
      some (.replied id (httpReply chrono clock config crates (ScanLoop.trySend app.loop).1
        app.server (gate.request id)))
    else none
  | _ => none

/-- An application that is about to take its first request. -/
def App.start (core : Core) : App := { core with auth := Auth.Server.start, admitted := ∅ }

/-- The step of the check that an action is. -/
def Gate.check : App.Action chrono → Option Auth.Step
  | .auth step => if gate.isOpen step.id then none else some step
  | _ => none

end Steps

section Runs

variable {chrono : Chrono} {gate : Gate} {config : Config} {crates : Crates} {app : App}

/-- Requests that wait for their handlers have been accepted. -/
structure App.IsGuarded (gate : Gate) (app : App) : Prop where
  verified : gate.service.IsVerified app.auth
  admitted : ∀ id ∈ app.admitted, gate.service.accepts id = true

theorem isGuarded_start (gate : Gate) (core : Core) : (App.start core).IsGuarded gate where
  verified := Auth.Service.isVerified_start
  admitted := by simp [App.start]

theorem App.IsGuarded.step (h : app.IsGuarded gate) (action : App.Action chrono) :
    (app.step gate config crates action).IsGuarded gate := by
  cases action with
  | change fs => exact ⟨h.verified, h.admitted⟩
  | task event => exact ⟨h.verified, h.admitted⟩
  | scan started faults stop => exact ⟨h.verified, h.admitted⟩
  | auth step =>
    unfold App.step
    dsimp only
    split
    · exact h
    · refine ⟨h.verified.step step, fun id hid ↦ ?_⟩
      dsimp only at hid
      cases hpassed : app.auth.passedOn step with
      | none =>
        rw [hpassed] at hid
        exact h.admitted id hid
      | some other =>
        rw [hpassed, Option.elim_some] at hid
        rcases Finset.mem_insert.mp hid with rfl | hold
        · exact h.verified.accepts hpassed
        · exact h.admitted id hold
  | serve id clock =>
    unfold App.step
    dsimp only
    split
    · exact ⟨h.verified, fun other hother ↦ h.admitted other (Finset.mem_of_mem_erase hother)⟩
    · exact h

theorem App.IsGuarded.lets (h : app.IsGuarded gate) {id : ℕ} (hserve : app.mayServe gate id = true) :
    gate.lets id = true := by
  rw [App.mayServe, Bool.or_eq_true, decide_eq_true_iff] at hserve
  rw [Gate.lets, Bool.or_eq_true]
  exact hserve.imp_right (h.admitted id)

/-- The steps of requests. -/
def App.Action.isRequest : App.Action chrono → Bool
  | .auth _ => true
  | .serve _ _ => true
  | _ => false

/-- What may change the catalog, the library's caches and the loop: of requests, only the handler of
one that is accepted, or of any one if no credentials are configured. -/
def Gate.Permits (gate : Gate) : App.Action chrono → Prop
  | .auth _ => False
  | .serve id _ => gate.isEnabled = false ∨ gate.service.accepts id = true
  | _ => True

/-- The handler that the router finds for a request. -/
def Gate.handler (gate : Gate) (id : ℕ) : Option Handler :=
  (findRoute (Percent.cut question (gate.request id).target).1).map Prod.fst

/-- Who needs no check asks for the health of the server or for nothing there is. -/
theorem Gate.handler_of_isOpen {id : ℕ} (h : gate.isOpen id = true) :
    gate.isEnabled = false ∨ gate.handler id = some .health ∨
      (gate.handler id = none ∧ gate.checksUnrouted = false) := by
  rw [Gate.isOpen, Bool.or_eq_true, Bool.not_eq_true'] at h
  refine h.imp_right fun hroute ↦ ?_
  unfold Gate.handler
  split at hroute
  · next handler params hfound =>
    rw [hfound]
    exact .inl (congrArg some (of_decide_eq_true hroute))
  · next hfound =>
    rw [hfound]
    exact .inr ⟨rfl, by simpa using hroute⟩

theorem Core.step_serve {id : ℕ} (h : gate.handler id = some .health ∨ gate.handler id = none)
    (core : Core) (clock : ℕ → chrono.DateTime) :
    core.step gate config crates (.serve id clock) = core := by
  unfold Gate.handler at h
  unfold Core.step HttpRequest.dispatch Server.dispatch
  dsimp only
  rcases h with hhealth | hnone
  · obtain ⟨⟨handler, params⟩, hfound, rfl⟩ := Option.map_eq_some_iff.mp hhealth
    rw [hfound]
    dsimp only
    split_ifs
    · cases params <;> rfl
    · rfl
  · rw [Option.map_eq_none_iff.mp hnone]

/-- What a step does to the catalog, the library's caches and the loop is permitted. -/
theorem App.IsGuarded.step_core (h : app.IsGuarded gate) (action : App.Action chrono) :
    ((app.step gate config crates action).toCore = app.toCore.step gate config crates action ∧
        gate.Permits action) ∨
      ((app.step gate config crates action).toCore = app.toCore ∧ action.isRequest = true) := by
  cases action with
  | change fs => exact .inl ⟨rfl, trivial⟩
  | task event => exact .inl ⟨rfl, trivial⟩
  | scan started faults stop => exact .inl ⟨rfl, trivial⟩
  | auth step =>
    right
    unfold App.step
    dsimp only
    split <;> exact ⟨rfl, rfl⟩
  | serve id clock =>
    unfold App.step
    dsimp only
    split
    · next hserve =>
      rcases Bool.or_eq_true _ _ ▸ h.lets hserve with hopen | haccepts
      · rcases Gate.handler_of_isOpen hopen with hdisabled | hhealth | ⟨hnone, -⟩
        · exact .inl ⟨rfl, .inl hdisabled⟩
        · exact .inr ⟨Core.step_serve (.inl hhealth) _ clock, rfl⟩
        · exact .inr ⟨Core.step_serve (.inr hnone) _ clock, rfl⟩
      · exact .inl ⟨rfl, .inr haccepts⟩
    · exact .inr ⟨rfl, rfl⟩

/-- **Mediation.** In every run, whatever the order of the steps of requests, of the loop and of
changes of the library: the catalog, the library's caches and the loop are the result of some of the
actions. Everything that is no step of a request is among these, in its order, but of the requests
only handlers of those that are accepted, or of any if no credentials are configured. And a handler
replies to nobody else, except at the route of the health and, if the framework wants it so, where
there is no route. -/
theorem effects_mediated (gate : Gate) (config : Config) (crates : Crates) (core : Core)
    (actions : List (App.Action chrono)) :
    (∃ effective, effective.Sublist actions ∧
      effective.filter (!·.isRequest) = actions.filter (!·.isRequest) ∧
      (∀ action ∈ effective, gate.Permits action) ∧
      (run (App.step gate config crates) (App.start core) actions).toCore =
        run (Core.step gate config crates) core effective) ∧
    ∀ id reply, .replied id reply ∈ outputs (App.step gate config crates)
        (App.sent gate config crates) (App.start core) actions →
      gate.isEnabled = false ∨ gate.service.accepts id = true ∨ gate.handler id = some .health ∨
        (gate.handler id = none ∧ gate.checksUnrouted = false) := by
  refine ⟨exists_selection (fun _ action h ↦ h.step action) (fun _ action h ↦ h.step_core action)
    (isGuarded_start gate core) actions, fun id reply hreply ↦ ?_⟩
  have hlets : gate.lets id = true := by
    refine @forall_outputs _ _ _ (App.step gate config crates) (App.sent gate config crates)
      (App.IsGuarded gate) (fun out ↦ ∀ id reply, out = .replied id reply → gate.lets id = true)
      (fun _ action h ↦ h.step action) ?_ _ (isGuarded_start gate core) actions _ hreply id reply rfl
    rintro app action hguarded out hout id reply rfl
    cases action with
    | change fs => simp [App.sent] at hout
    | task event => simp [App.sent] at hout
    | scan started faults stop => simp [App.sent] at hout
    | auth step =>
      obtain ⟨-, hrefused⟩ := Option.ite_none_left_eq_some.mp hout
      obtain ⟨refusal, -, hsame⟩ := Option.map_eq_some_iff.mp hrefused
      exact Sent.noConfusion hsame
    | serve other clock =>
      obtain ⟨hserve, hsame⟩ := Option.ite_none_right_eq_some.mp hout
      obtain ⟨rfl, -⟩ := Sent.replied.inj (Option.some.inj hsame)
      exact hguarded.lets hserve
  rcases Bool.or_eq_true _ _ ▸ hlets with hopen | haccepts
  · exact (Gate.handler_of_isOpen hopen).imp_right .inr
  · exact .inr (.inl haccepts)

/-! ## What the others are sent -/

/-- What is sent to a client that is not let through. -/
def Gate.isRefusal (gate : Gate) (out : Sent) : Bool := !gate.lets out.id

/-- What the check sends to a client that is not let through. -/
def Gate.refused (gate : Gate) (auth : Auth.Server) (step : Auth.Step) : Option Sent :=
  ((gate.service.refusal auth step).map fun refusal ↦ .refused refusal.1 refusal.2).filter
    gate.isRefusal

theorem Gate.exists_refused (gate : Gate) {auth : Auth.Server} {step : Auth.Step} {out : Sent}
    (h : gate.refused auth step = some out) : ∃ response, out = .refused out.id response ∧
      (response.status = 401 ∨ response.status = 429) := by
  obtain ⟨hout, -⟩ := Option.filter_eq_some_iff.mp h
  obtain ⟨⟨id, response⟩, hrefusal, rfl⟩ := Option.map_eq_some_iff.mp hout
  exact ⟨response, rfl, Auth.Service.status_of_refusal hrefusal⟩

theorem isPart_auth : IsPart (@App.step chrono gate config crates) App.auth gate.check
    gate.service.step := by
  intro app action
  cases action with
  | change fs => rfl
  | task event => rfl
  | scan started faults stop => rfl
  | auth step =>
    unfold App.step Gate.check
    dsimp only
    split <;> rfl
  | serve id clock =>
    unfold App.step
    dsimp only
    split <;> rfl

theorem App.IsGuarded.sent (h : app.IsGuarded gate) (action : App.Action chrono) :
    (app.sent gate config crates action).filter gate.isRefusal =
      (gate.check action).bind (gate.refused app.auth) := by
  cases action with
  | change fs => rfl
  | task event => rfl
  | scan started faults stop => rfl
  | auth step =>
    unfold App.sent Gate.check
    dsimp only
    split <;> rfl
  | serve id clock =>
    unfold App.sent Gate.check
    dsimp only
    split
    · next hserve =>
      have hlets : gate.isRefusal (.replied id (httpReply chrono clock config crates
          (ScanLoop.trySend app.loop).1 app.server (gate.request id))) = false := by
        rw [Gate.isRefusal, Sent.id, h.lets hserve, Bool.not_true]
      rw [Option.filter, if_neg (by rw [hlets]; exact Bool.false_ne_true), Option.bind_none]
    · rfl

/-- **Refusals say nothing.** Two applications with the same check, whatever their libraries, their
catalogs, their configurations and what happens to them: as long as the requests take the same steps
of their checks, those that are not let through are sent the same, in the same order; and what they
are sent has the status 401 or 429. -/
theorem refusals_agree (gate : Gate) {other : Chrono} {first second : Config}
    {crates others : Crates} (core rest : Core) {actions : List (App.Action chrono)}
    {events : List (App.Action other)}
    (hchecks : actions.filterMap gate.check = events.filterMap gate.check) :
    (outputs (App.step gate first crates) (App.sent gate first crates) (App.start core)
      actions).filter gate.isRefusal =
    (outputs (App.step gate second others) (App.sent gate second others) (App.start rest)
      events).filter gate.isRefusal ∧
    ∀ out ∈ outputs (App.step gate first crates) (App.sent gate first crates) (App.start core)
      actions, gate.lets out.id = false → ∃ response, out = .refused out.id response ∧
        (response.status = 401 ∨ response.status = 429) := by
  have hsent {time : Chrono} (config : Config) (crates : Crates) (core : Core)
      (actions : List (App.Action time)) :
      (outputs (App.step gate config crates) (App.sent gate config crates) (App.start core)
        actions).filter gate.isRefusal =
      outputs gate.service.step gate.refused Auth.Server.start (actions.filterMap gate.check) :=
    isPart_auth.outputs (fun _ action h ↦ h.step action) (fun _ action h ↦ h.sent action)
      (isGuarded_start gate core) actions
  refine ⟨by rw [hsent, hsent, hchecks], fun out hout hlets ↦ ?_⟩
  have hseen : out ∈ (outputs (App.step gate first crates) (App.sent gate first crates)
      (App.start core) actions).filter gate.isRefusal :=
    List.mem_filter.mpr ⟨hout, by rw [Gate.isRefusal, hlets, Bool.not_false]⟩
  rw [hsent] at hseen
  exact @forall_outputs _ _ _ gate.service.step gate.refused (fun _ ↦ True) _ (fun _ _ _ ↦ trivial)
    (fun auth step _ out hout ↦ gate.exists_refused hout) _ trivial _ out hseen

end Runs

/-- One request for the root, without credentials. -/
def Gate.sample : Gate where
  toMiddleware := Auth.Middleware.sample
  isEnabled := true
  checksUnrouted := true
  request _ := ⟨⟨none, []⟩, .get, utf8 (str "/opds")⟩

/-- A request for a scan, without credentials. -/
def Gate.rescan : Gate :=
  { Gate.sample with request := fun _ ↦ ⟨⟨none, []⟩, .post, utf8 (str "/admin/rescan")⟩ }

/-- A library that nothing has happened to, with the loop about to start. -/
def Core.sample (folder : OsName) : Core :=
  ⟨State.start Config.sample (zippedFs folder), .start true false false⟩

/-- The steps of the check. -/
def visitor (chrono : Chrono) : List (App.Action chrono) :=
  [.auth (.check 0 0), .auth (.verify 0 1), .auth (.record 0 2)]

/-- The request is refused, and its handler changes nothing. -/
theorem effects_mediated_rescan :
    (run (App.step Gate.rescan Config.sample Crates.zipped) (App.start (Core.sample (ascii "a")))
      (visitor Chrono.sample ++ [.serve 0 Chrono.sampleClock])).toCore = Core.sample (ascii "a") ∧
    ∀ id reply, .replied id reply ∉ outputs (App.step Gate.rescan Config.sample Crates.zipped)
      (App.sent Gate.rescan Config.sample Crates.zipped) (App.start (Core.sample (ascii "a")))
      (visitor Chrono.sample ++ [.serve 0 Chrono.sampleClock]) := by
  have henabled : Gate.rescan.isEnabled ≠ false := by decide
  have haccepts (id : ℕ) : Gate.rescan.service.accepts id ≠ true := Bool.false_ne_true
  obtain ⟨⟨effective, hsub, -, hpermits, hcore⟩, hreplies⟩ := effects_mediated Gate.rescan
    Config.sample Crates.zipped (Core.sample (ascii "a"))
    (visitor Chrono.sample ++ [.serve 0 Chrono.sampleClock])
  constructor
  · have hnone : effective = [] := by
      rw [List.eq_nil_iff_forall_not_mem]
      intro action haction
      have hmem := hsub.subset haction
      have hpermitted := hpermits action haction
      cases action with
      | auth step => exact hpermitted
      | serve id clock => exact hpermitted.elim henabled (haccepts id)
      | change fs => simp [visitor] at hmem
      | task event => simp [visitor] at hmem
      | scan started faults stop => simp [visitor] at hmem
    rw [hcore, hnone]
    rfl
  · intro id reply hreply
    have hhandler : Gate.rescan.handler 0 = some .adminRescan := by decide
    rcases hreplies id reply hreply with hdisabled | haccepted | hhealth | ⟨hnone, -⟩
    · exact henabled hdisabled
    · exact haccepts id haccepted
    · exact absurd (hhandler.symm.trans hhealth) (by decide)
    · exact Option.some_ne_none _ (hhandler.symm.trans hnone)

/-- Two libraries, one of which changes meanwhile. -/
theorem refusals_agree_visitor :
    (outputs (App.step Gate.sample Config.sample Crates.zipped)
      (App.sent Gate.sample Config.sample Crates.zipped) (App.start (Core.sample (ascii "a")))
      (visitor Chrono.sample)).filter Gate.sample.isRefusal =
    (outputs (App.step Gate.sample Config.sample Crates.zipped)
      (App.sent Gate.sample Config.sample Crates.zipped) (App.start (Core.sample (ascii "b")))
      (.change copiedFs :: visitor Chrono.sample)).filter Gate.sample.isRefusal ∧
    (outputs (App.step Gate.sample Config.sample Crates.zipped)
      (App.sent Gate.sample Config.sample Crates.zipped) (App.start (Core.sample (ascii "a")))
      (visitor Chrono.sample)).filter Gate.sample.isRefusal = [.refused 0 Auth.unauthorized] :=
  ⟨(refusals_agree Gate.sample _ _ (by decide)).1, rfl⟩

end ComicStream.Server
