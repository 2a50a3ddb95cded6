import ComicStream.Auth.Blocks
import ComicStream.Rust.Number

/-!
# The answer to a blocked client

A blocked client is told to come back after a whole number of seconds. The number
is what is left of the block, rounded down and at least one: whoever waits for
exactly that long is let in only where nothing was rounded away.
-/

namespace ComicStream.Auth

open Rust

/-- `Duration::as_secs`. -/
def asSecs (duration : ℕ) : ℕ := duration / nanosPerSec

/-- The parts of a response that the middleware makes up itself. -/
structure Response where
  status : ℕ
  headers : List (String × List Char)
  body : String
  deriving DecidableEq

/-- The seconds of `rate_limited`. -/
def retryAfterSecs (retryAfter : ℕ) : ℕ := max (asSecs retryAfter) 1

/-- `rate_limited`. The digits of a number are always a header value. -/
def rateLimited (retryAfter : ℕ) : Response where
  status := 429
  headers := [("retry-after", decimal (retryAfterSecs retryAfter)),
    ("cache-control", "no-store".toList),
    ("www-authenticate", "Basic realm=\"ComicStream\"".toList),
    ("x-content-type-options", "nosniff".toList)]
  body := "too many failed authentication attempts; try again later\n"

def Response.header (response : Response) (name : String) : Option (List Char) :=
  response.headers.lookup name

@[simp]
theorem retryAfter_rateLimited (retryAfter : ℕ) :
    (rateLimited retryAfter).header "retry-after" = some (decimal (retryAfterSecs retryAfter)) := rfl

/-- The block of an entry, if it has one, ends within the next second or a whole number of seconds
from now. -/
def EndsOnSecond (entry : Option IpState) (now : ℕ) : Prop :=
  ∀ state ∈ entry, ∀ blockEnd ∈ state.blockedUntil,
    blockEnd ≤ now + nanosPerSec ∨ nanosPerSec ∣ blockEnd - now

instance (entry : Option IpState) (now : ℕ) : Decidable (EndsOnSecond entry now) := by
  unfold EndsOnSecond
  infer_instance

section Seconds

variable {retryAfter : ℕ}

theorem nanosPerSec_pos : 0 < nanosPerSec := by decide

theorem retryAfterSecs_lt (retryAfter : ℕ) :
    retryAfterSecs retryAfter * nanosPerSec < retryAfter + nanosPerSec ∨
      retryAfterSecs retryAfter = 1 := by
  unfold retryAfterSecs
  rcases le_total (asSecs retryAfter) 1 with h | h
  · exact .inr (max_eq_right h)
  · left
    rw [max_eq_left h]
    have hle : asSecs retryAfter * nanosPerSec ≤ retryAfter := Nat.div_mul_le_self _ _
    have hpos := nanosPerSec_pos
    omega

/-- The seconds cover what is left exactly when nothing was rounded away. -/
theorem le_retryAfterSecs_iff :
    retryAfter ≤ retryAfterSecs retryAfter * nanosPerSec ↔
      retryAfter ≤ nanosPerSec ∨ nanosPerSec ∣ retryAfter := by
  have hpos := nanosPerSec_pos
  have hle : asSecs retryAfter * nanosPerSec ≤ retryAfter := Nat.div_mul_le_self _ _
  unfold retryAfterSecs
  constructor
  · intro h
    rcases le_total (asSecs retryAfter) 1 with hsecs | hsecs
    · rw [max_eq_right hsecs, one_mul] at h
      exact .inl h
    · rw [max_eq_left hsecs] at h
      exact .inr ⟨asSecs retryAfter, by rw [mul_comm]; exact le_antisymm h hle⟩
  · rintro (h | ⟨secs, rfl⟩)
    · calc
        retryAfter ≤ 1 * nanosPerSec := by rwa [one_mul]
        _ ≤ _ := Nat.mul_le_mul_right _ (le_max_right _ _)
    · rw [asSecs, Nat.mul_div_cancel_left secs hpos, mul_comm]
      exact Nat.mul_le_mul_right _ (le_max_left _ _)

end Seconds

variable {limiter : Limiter} {ops : List Op} {ip : IpAddr} {now retryAfter : ℕ}

theorem exists_blockedUntil
    (hblocked : (limiter.checkAt (limiter.run ops) ip now).2 = .blocked retryAfter) :
    ∃ state blockEnd, limiter.run ops (bucket ip) = some state ∧
      state.blockedUntil = some blockEnd ∧ now < blockEnd ∧ retryAfter = blockEnd - now := by
  rw [Limiter.checkAt, Limiter.verdict_eq_blocked_iff] at hblocked
  obtain ⟨blockEnd, hend, hlt, rfl⟩ := hblocked
  obtain ⟨state, hstate, hblock⟩ := Option.bind_eq_some_iff.mp hend
  exact ⟨state, blockEnd, (Option.filter_eq_some_iff.mp hstate).1, hblock, hlt, rfl⟩

theorem endsOnSecond_iff
    (hblocked : (limiter.checkAt (limiter.run ops) ip now).2 = .blocked retryAfter) :
    EndsOnSecond (limiter.run ops (bucket ip)) now ↔
      retryAfter ≤ nanosPerSec ∨ nanosPerSec ∣ retryAfter := by
  obtain ⟨state, blockEnd, hstate, hblock, hlt, rfl⟩ := exists_blockedUntil hblocked
  have hle : blockEnd ≤ now + nanosPerSec ↔ blockEnd - now ≤ nanosPerSec := by omega
  simp [EndsOnSecond, hstate, hblock, hle]

/-- A client that comes back after `secs` seconds is let in, whatever other buckets do in
between. -/
def LetIn (limiter : Limiter) (ops : List Op) (ip : IpAddr) (now secs : ℕ) : Prop :=
  ∀ between : List Op,
    Timely (ops ++ .check ip now :: between ++ [.check ip (now + secs * nanosPerSec)]) →
    (∀ op ∈ between, Reference.view (bucket ip) op = none) →
    (limiter.checkAt (limiter.run (ops ++ .check ip now :: between)) ip
      (now + secs * nanosPerSec)).2 = .allow

/-- Waiting helps exactly when it lasts as long as the block does. -/
theorem letIn_iff {secs : ℕ} (htimes : Timely (ops ++ [.check ip now]))
    (hblocked : (limiter.checkAt (limiter.run ops) ip now).2 = .blocked retryAfter) :
    LetIn limiter ops ip now secs ↔ retryAfter ≤ secs * nanosPerSec := by
  have hanswer (between : List Op)
      (hbetween : Timely
        (ops ++ .check ip now :: between ++ [.check ip (now + secs * nanosPerSec)]))
      (hview : ∀ op ∈ between, Reference.view (bucket ip) op = none) :
      (limiter.checkAt (limiter.run (ops ++ .check ip now :: between)) ip
        (now + secs * nanosPerSec)).2 = .allow ↔ retryAfter ≤ secs * nanosPerSec := by
    have hsuccess : ∀ op ∈ between, Reference.view (bucket ip) op ≠ some .success := by
      intro op hop
      simp [hview op hop]
    have hfailures : failureTimes (bucket ip) between = [] := by
      have hnone := List.filterMap_eq_nil_iff.mpr hview
      rw [filterMap_view_eq_map_failureTimes hsuccess] at hnone
      exact List.map_eq_nil_iff.mp hnone
    rw [checkAt_after_block hbetween hblocked rfl hsuccess (by simp [hfailures])]
    by_cases hlt : secs * nanosPerSec < retryAfter
    · simp [hlt]
    · simp [hlt, Nat.le_of_not_lt hlt]
  constructor
  · intro h
    have hnil : Timely (ops ++ .check ip now :: [] ++ [.check ip (now + secs * nanosPerSec)]) :=
      htimes.snoc fun later hlater ↦ by
        obtain rfl : now + secs * nanosPerSec = later := by simpa [Op.time?] using hlater
        rw [htimes.latest_snoc rfl]
        exact Nat.le_add_right _ _
    exact (hanswer [] hnil (by simp)).mp (h [] hnil (by simp))
  · intro h between hbetween hview
    exact (hanswer between hbetween hview).mpr h

/-- **Retry-After.** A blocked client that waits exactly as long as it is told to, with no other
event of its bucket in between, is let in if and only if its block ends within a second or a whole
number of seconds after it was asked. The number it is told exceeds what is left of the block by
less than a second, or it is 1. -/
theorem retryAfter_honoured_iff (limiter : Limiter) (ops : List Op) (ip : IpAddr)
    (now retryAfter : ℕ) (htimes : Timely (ops ++ [.check ip now]))
    (hblocked : (limiter.checkAt (limiter.run ops) ip now).2 = .blocked retryAfter) :
    ∃ secs, (rateLimited retryAfter).header "retry-after" = some (decimal secs) ∧
      (LetIn limiter ops ip now secs ∧ (secs * nanosPerSec < retryAfter + nanosPerSec ∨ secs = 1) ↔
        EndsOnSecond (limiter.run ops (bucket ip)) now) := by
  refine ⟨retryAfterSecs retryAfter, retryAfter_rateLimited retryAfter, ?_⟩
  rw [letIn_iff htimes hblocked, endsOnSecond_iff hblocked, le_retryAfterSecs_iff,
    and_iff_left (retryAfterSecs_lt retryAfter)]

/-- A limiter that blocks at the first failure, for three hundred seconds. -/
def Limiter.inSeconds : Limiter := Limiter.new 1 (60 * nanosPerSec) (300 * nanosPerSec)

/-- Half a second into its block a client is told to wait for 299 seconds, and is refused again
when it has. -/
theorem refused_twice :
    (Limiter.inSeconds.checkAt (Limiter.inSeconds.run [.failure (IpAddr.sample 1) 0])
      (IpAddr.sample 1) 500000000).2 = .blocked 299500000000 ∧
    (rateLimited 299500000000).header "retry-after" = some "299".toList ∧
    Timely ([Op.failure (IpAddr.sample 1) 0, .check (IpAddr.sample 1) 500000000] ++
      [.check (IpAddr.sample 1) (500000000 + 299 * nanosPerSec)]) ∧
    (Limiter.inSeconds.checkAt (Limiter.inSeconds.run
      [.failure (IpAddr.sample 1) 0, .check (IpAddr.sample 1) 500000000])
        (IpAddr.sample 1) (500000000 + 299 * nanosPerSec)).2 = .blocked 500000000 := by
  decide

/-- At the start of the block, all of it is waited for. -/
theorem retryAfter_honoured_on_second :
    ∃ secs, (rateLimited (300 * nanosPerSec)).header "retry-after" = some (decimal secs) ∧
      (LetIn Limiter.inSeconds [.failure (IpAddr.sample 1) 0] (IpAddr.sample 1) 0 secs ∧
          (secs * nanosPerSec < 300 * nanosPerSec + nanosPerSec ∨ secs = 1) ↔
        EndsOnSecond (Limiter.inSeconds.run [.failure (IpAddr.sample 1) 0]
          (bucket (IpAddr.sample 1))) 0) :=
  retryAfter_honoured_iff Limiter.inSeconds [.failure (IpAddr.sample 1) 0] (IpAddr.sample 1)
    0 (300 * nanosPerSec) (by decide) (by decide)

end ComicStream.Auth
