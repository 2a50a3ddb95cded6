import ComicStream.Auth.Middleware
import ComicStream.Auth.RetryAfter

/-!
# Who is let through

What the middleware answers by itself, and which requests it passes on. A request
that is passed on stands where only accepted credentials lead.
-/

namespace ComicStream.Auth

/-- `unauthorized`. -/
def unauthorized : Response where
  status := 401
  headers := [("www-authenticate", "Basic realm=\"ComicStream\"".toList),
    ("cache-control", "no-store".toList), ("vary", "Authorization".toList),
    ("x-content-type-options", "nosniff".toList)]
  body := "authentication required\n"

/-- The request that a step passes on, after its success has been recorded. -/
def Server.passedOn (server : Server) : Step → Option ℕ
  | .record id _ => if server.stage id = some (.verified true) then some id else none
  | _ => none

namespace Service

variable (service : Service)

/-- What `require_basic` answers by itself, and to which request. -/
def refusal (server : Server) : Step → Option (ℕ × Response)
  | .check id now =>
    match server.stage id, service.verdictAt server id now with
    | none, .blocked retryAfter => some (id, rateLimited retryAfter)
    | _, _ => none
  | .verify _ _ => none
  | .record id _ =>
    if server.stage id = some (.verified false) then some (id, unauthorized) else none

/-- A verified request stands where its credentials have led it. -/
def IsVerified (server : Server) : Prop :=
  ∀ id accepted, server.stage id = some (.verified accepted) → accepted = service.accepts id

variable {service} {server : Server}

theorem status_of_refusal {step : Step} {id : ℕ} {response : Response}
    (h : service.refusal server step = some (id, response)) :
    response.status = 401 ∨ response.status = 429 := by
  cases step with
  | check other now =>
    rw [refusal] at h
    split at h
    · rw [← (Prod.mk.inj (Option.some.inj h)).2]
      exact .inr rfl
    · simp at h
  | verify other now => simp [refusal] at h
  | record other now =>
    obtain ⟨-, hpair⟩ := Option.ite_none_right_eq_some.mp h
    rw [← (Prod.mk.inj (Option.some.inj hpair)).2]
    exact .inl rfl

theorem isVerified_start : service.IsVerified Server.start := by
  intro id accepted h
  simp at h

theorem IsVerified.step (h : service.IsVerified server) (step : Step) :
    service.IsVerified (service.step server step) := by
  intro id accepted hstage
  by_cases hid : id = step.id
  · subst hid
    rw [stage_step] at hstage
    cases step with
    | check id now =>
      simp only [progress, Step.id] at hstage ⊢
      split at hstage
      · simp at hstage
      · exact h id accepted hstage
    | verify id now =>
      simp only [progress, Step.id] at hstage ⊢
      split at hstage
      · simpa using hstage.symm
      · exact h id accepted hstage
    | record id now =>
      simp only [progress, Step.id] at hstage ⊢
      split at hstage
      · simp at hstage
      · exact h id accepted hstage
  · rw [stage_step_of_ne hid] at hstage
    exact h id accepted hstage

/-- What is passed on has been accepted. -/
theorem IsVerified.accepts (h : service.IsVerified server) {step : Step} {id : ℕ}
    (hpassed : server.passedOn step = some id) : service.accepts id = true := by
  cases step with
  | check other now => simp [Server.passedOn] at hpassed
  | verify other now => simp [Server.passedOn] at hpassed
  | record other now =>
    obtain ⟨hstage, hid⟩ := Option.ite_none_right_eq_some.mp hpassed
    obtain rfl := Option.some.inj hid
    exact (h other true hstage).symm

end Service

end ComicStream.Auth
