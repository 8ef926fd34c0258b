import SmartHttpRequester.RateLimit

/-!
# Bursts the rate limiter lets through

The limiter is not a strict sliding window: of two calls at 59 s and 61 s both
pass a limit of one per minute (`passes_at_boundary`).  `rateLimit_burst` gives
what it admits at most in an interval of one window's length, for every phase of
the interval, and says that so much can be admitted.
-/

namespace SmartHttpRequester

open Foundations

section RateLimitBursts

/-- The calls come in order, and Redis runs each at the time its caller has read. -/
structure InOrder (calls : List RateCall) : Prop where
  sorted : calls.Pairwise fun c c' => c.now ≤ c'.now
  clock : ∀ c ∈ calls, c.executed = c.now

/-- How many of the calls with a key are admitted in `[a, a + window)`. -/
def admittedIn (limit window : ℤ) (calls : List RateCall) (key : String) (a : ℤ) : ℕ :=
  countIn window a (admittedCalls (runCalls expiring limit window calls emptyCounters).1) key

theorem admittedIn_eq {limit window : ℤ} (hwindow : 1 ≤ window) {calls : List RateCall}
    (hcalls : InOrder calls) (key : String) (a : ℤ) :
    admittedIn limit window calls key a =
      countIn window a (admitted limit window (calls.map RateCall.event)) key := by
  rw [admittedIn, runCalls_eq_admitted hwindow limit hcalls.clock]

def callAt (e : Event String) : RateCall :=
  ⟨e.key, e.time, e.time⟩

/--
In an interval of one window's length that begins `a % window` into a window, at
most `burst limit window a` calls of a client are admitted, and as many can be.
-/
theorem rateLimit_burst {limit window : ℤ} (hlimit : 1 ≤ limit) (hwindow : 1 ≤ window)
    (key : String) (a : ℤ) :
    (∀ calls, InOrder calls →
      (admittedIn limit window calls key a : ℤ) ≤ burst limit window a) ∧
    ∃ calls, InOrder calls ∧ (admittedIn limit window calls key a : ℤ) = burst limit window a := by
  constructor
  · intro calls hcalls
    rw [admittedIn_eq hwindow hcalls]
    refine admittedIn_le hwindow (by omega) ?_ key a
    exact List.pairwise_map.2 hcalls.sorted
  · obtain ⟨events, hsorted, hcount⟩ := exists_admittedIn_eq hwindow (show 0 ≤ limit by omega) key a
    have hcalls : InOrder (events.map callAt) := by
      refine ⟨List.pairwise_map.2 hsorted, fun c hc => ?_⟩
      obtain ⟨e, -, rfl⟩ := List.mem_map.1 hc
      rfl
    have hevents : (events.map callAt).map RateCall.event = events := by
      rw [List.map_map]
      exact List.map_id events
    refine ⟨events.map callAt, hcalls, ?_⟩
    rw [admittedIn_eq hwindow hcalls, hevents, hcount]

/-- Two calls a minute, and an interval that begins one second before a window does. -/
theorem rateLimit_burst_two :
    burst 2 60 59 = 4 ∧
    (∀ calls, InOrder calls → (admittedIn 2 60 calls "rate_limit:a" 59 : ℤ) ≤ burst 2 60 59) ∧
    ∃ calls, InOrder calls ∧ (admittedIn 2 60 calls "rate_limit:a" 59 : ℤ) = burst 2 60 59 :=
  ⟨by decide, rateLimit_burst (by decide) (by decide) "rate_limit:a" 59⟩

def boundaryCalls : List RateCall :=
  [⟨"rate_limit:a", 59, 59⟩, ⟨"rate_limit:a", 61, 61⟩]

/-- Both calls pass a limit of one per minute. -/
theorem passes_at_boundary :
    InOrder boundaryCalls ∧ admittedIn 1 60 boundaryCalls "rate_limit:a" 59 = 2 ∧
    ¬ ∀ calls, InOrder calls → (admittedIn 1 60 calls "rate_limit:a" 59 : ℤ) ≤ 1 := by
  have hcalls : InOrder boundaryCalls := ⟨by decide, by decide⟩
  have hcount : admittedIn 1 60 boundaryCalls "rate_limit:a" 59 = 2 := by
    decide +kernel
  refine ⟨hcalls, hcount, fun hstrict => ?_⟩
  have hle := hstrict boundaryCalls hcalls
  rw [hcount] at hle
  exact absurd hle (by decide)

end RateLimitBursts

end SmartHttpRequester
