import Mathlib
import SmartHttpRequester.Foundations.ExpiringStore
import SmartHttpRequester.Foundations.SlidingWindow

/-!
# The rate limiter

`services/redis_service.py`: the Lua script that `init_script` registers, and
`check_rate_limit`.  The script is one atomic step of Redis.  Its numbers are
read as exact rationals; Redis truncates the ones it returns.

The script keeps two counters per client where the sliding window of the
library keeps a log.  `runCalls_eq_admitted`: on a store that forgets, and with
the clock of Redis equal to the callers', it admits the same calls.
-/

namespace SmartHttpRequester

open Foundations Function

section RateLimit

section Script

/-- `key .. ":" .. n`. -/
def windowKey (key : String) (n : ℤ) : String :=
  key ++ ":" ++ toString n

/-- What the script returns, before Redis truncates it. -/
structure ScriptReply where
  allowed : Bool
  total : ℚ
  resetTime : ℤ

/-- The Lua script; `clock` is the time of Redis, `now` is `ARGV[3]`. -/
def luaScript {S : Type} (R : CounterStore String S) (clock : ℤ) (key : String)
    (limit window now : ℤ) (s : S) : ScriptReply × S :=
  let elapsed : ℚ := (now % window : ℤ)
  let currentKey := windowKey key (now / window)
  let previousKey := windowKey key (now / window - 1)
  let currentCount : ℚ := ((R.get clock s currentKey).getD 0 : ℕ)
  let previousCount : ℚ := ((R.get clock s previousKey).getD 0 : ℕ)
  let weight : ℚ := 1 - elapsed / window
  let total : ℚ := currentCount + previousCount * weight
  let resetTime := now / window * window + window
  if total ≥ limit then (⟨false, total, resetTime⟩, s)
  else
    (⟨true, total + 1, resetTime⟩,
      R.expire clock previousKey (window * 2)
        (R.expire clock currentKey (window * 2) (R.incr clock currentKey s)))

/-- Redis returns a number without its fraction. -/
def truncate (q : ℚ) : ℤ :=
  q.num.tdiv q.den

/-- A call: the key, the caller's `int(time.time())`, and when Redis runs the script. -/
structure RateCall where
  key : String
  now : ℤ
  executed : ℤ
deriving DecidableEq

/-- The result of `check_rate_limit`. -/
structure RateLimitResult where
  allowed : Bool
  total : ℤ
  resetTime : ℤ
deriving DecidableEq

/-- `check_rate_limit`. -/
def checkRateLimit {S : Type} (R : CounterStore String S) (limit window : ℤ) (c : RateCall)
    (s : S) : RateLimitResult × S :=
  let reply := luaScript R c.executed c.key limit window c.now s
  (⟨reply.1.allowed, truncate reply.1.total, reply.1.resetTime⟩, reply.2)

/-- Calls one after the other, each with its result. -/
def runCalls {S : Type} (R : CounterStore String S) (limit window : ℤ) :
    List RateCall → S → List (RateCall × RateLimitResult) × S
  | [], s => ([], s)
  | c :: cs, s =>
      let result := checkRateLimit R limit window c s
      let rest := runCalls R limit window cs result.2
      ((c, result.1) :: rest.1, rest.2)

def emptyCounters : Counters String :=
  fun _ => none

end Script

section Keys

theorem colon_notMem_toString (n : ℤ) : ':' ∉ (toString n).toList := by
  have hdigits : ∀ m : ℕ, ':' ∉ m.repr.toList := by
    intro m hmem
    rw [Nat.toList_repr] at hmem
    exact absurd (Nat.isDigit_of_mem_toDigits (by decide) (by decide) hmem) (by decide)
  cases n with
  | ofNat m => exact hdigits m
  | negSucc m =>
      show ':' ∉ ("-" ++ (m + 1).repr).toList
      rw [String.toList_append, List.mem_append, not_or]
      exact ⟨by decide, hdigits (m + 1)⟩

/-- Text before the last separator, and after it. -/
theorem eq_of_append_separator {α : Type} {x : α} {l l' r r' : List α}
    (h : l ++ x :: r = l' ++ x :: r') (hr : x ∉ r) (hr' : x ∉ r') :
    l = l' ∧ r = r' := by
  rcases List.append_eq_append_iff.1 h with ⟨m, rfl, hm⟩ | ⟨m, rfl, hm⟩
  · cases m with
    | nil => exact ⟨by simp, (List.cons.inj hm).2⟩
    | cons y m =>
        refine absurd ?_ hr
        rw [(List.cons.inj hm).2]
        simp
  · cases m with
    | nil => exact ⟨by simp, (List.cons.inj hm).2.symm⟩
    | cons y m =>
        refine absurd ?_ hr'
        rw [(List.cons.inj hm).2]
        simp

/-- The last colon separates key and number. -/
theorem windowKey_injective {key key' : String} {n n' : ℤ}
    (h : windowKey key n = windowKey key' n') :
    key = key' ∧ n = n' := by
  have hchars : key.toList ++ ':' :: (toString n).toList =
      key'.toList ++ ':' :: (toString n').toList := by
    simpa [windowKey] using congrArg String.toList h
  obtain ⟨hkey, hn⟩ :=
    eq_of_append_separator hchars (colon_notMem_toString n) (colon_notMem_toString n')
  exact ⟨String.toList_inj.1 hkey, Int.repr_injective (String.toList_inj.1 hn)⟩

end Keys

section Simulation

def RateCall.event (c : RateCall) : Event String :=
  ⟨c.key, c.now⟩

@[simp] theorem event_key (c : RateCall) : c.event.key = c.key := by
  rfl

@[simp] theorem event_time (c : RateCall) : c.event.time = c.now := by
  rfl

def admittedCalls (results : List (RateCall × RateLimitResult)) : List (Event String) :=
  (results.filter fun cr => cr.2.allowed).map fun cr => cr.1.event

/-- The counters hold the counts of a log, each until its window is two windows old. -/
def Tracks (window : ℤ) (log : List (Event String)) (s : Counters String) : Prop :=
  ∀ key j,
    (windowCount window log key j = 0 ∧ s (windowKey key j) = none) ∨
    s.Holds (windowKey key j) (windowCount window log key j) ((j + 2) * window)

variable {limit window : ℤ} {log : List (Event String)} {s : Counters String} {c : RateCall}

/-- The same of one counter. -/
def Tracked (window : ℤ) (log : List (Event String)) (s : Counters String) (key : String)
    (j : ℤ) : Prop :=
  (windowCount window log key j = 0 ∧ s (windowKey key j) = none) ∨
    s.Holds (windowKey key j) (windowCount window log key j) ((j + 2) * window)

theorem tracks_empty (window : ℤ) : Tracks window [] emptyCounters :=
  fun _ _ => Or.inl ⟨rfl, rfl⟩

/-- A counter is read until its window is two windows old. -/
theorem Tracked.get {key : String} {j now : ℤ} (h : Tracked window log s key j)
    (hnow : now < (j + 2) * window) :
    (expiring.get now s (windowKey key j)).getD 0 = windowCount window log key j := by
  rcases h with ⟨hcount, hnone⟩ | hholds
  · rw [Counters.get_of_eq_none hnone, hcount]
    rfl
  · rw [Counters.get_of_holds hholds hnow]
    rfl

theorem now_lt_window_end (hW : 1 ≤ window) (t : ℤ) : t < (t / window + 1) * window :=
  Int.lt_ediv_add_one_mul_self t (by omega)

/-- The counters after a call for window `n` that is admitted. -/
def countCallAt (clock : ℤ) (key : String) (n window : ℤ) (s : Counters String) :
    Counters String :=
  ((s.incr clock (windowKey key n)).expire clock (windowKey key n) (window * 2)).expire clock
    (windowKey key (n - 1)) (window * 2)

/-- The counters after a call that is admitted. -/
def countCall (key : String) (window now : ℤ) (s : Counters String) : Counters String :=
  ((s.incr now (windowKey key (now / window))).expire now (windowKey key (now / window))
    (window * 2)).expire now (windowKey key (now / window - 1)) (window * 2)

/-- The script decides as the limiter does. -/
theorem Tracks.luaScript_eq (h : Tracks window log s) (hW : 1 ≤ window) (limit : ℤ)
    (key : String) (now : ℤ) :
    luaScript expiring now key limit window now s =
      if weightedTotal window log key now ≥ limit then
        (⟨false, weightedTotal window log key now, now / window * window + window⟩, s)
      else
        (⟨true, weightedTotal window log key now + 1, now / window * window + window⟩,
          countCall key window now s) := by
  have hend := now_lt_window_end hW now
  have hcurrent : now < (now / window + 2) * window := by
    rw [add_mul] at hend ⊢
    omega
  have hprevious : now < (now / window - 1 + 2) * window := by
    rw [show now / window - 1 + 2 = now / window + 1 by ring]
    exact hend
  simp only [luaScript, Tracked.get (h key _) hcurrent, Tracked.get (h key _) hprevious]
  rfl

theorem windowKey_pred_ne (key : String) (n : ℤ) : windowKey key (n - 1) ≠ windowKey key n := by
  intro h
  have := (windowKey_injective h).2
  omega

theorem countCallAt_other {clock n : ℤ} {key k : String} (hcurrent : k ≠ windowKey key n)
    (hprevious : k ≠ windowKey key (n - 1)) :
    countCallAt clock key n window s k = s k := by
  rw [countCallAt, Counters.expire_other hprevious, Counters.expire_other hcurrent,
    Counters.incr_other hcurrent]

/--
An admitted call keeps a counter in step with the log, if the counter has not
expired when the script runs and the call touches it.
-/
theorem Tracked.countCallAt {key key' : String} {j clock now : ℤ}
    (h : Tracked window log s key' j) (hstart : now / window * window ≤ clock)
    (hlive : key' = key → j = now / window ∨ j = now / window - 1 → clock < (j + 2) * window) :
    Tracked window (log ++ [⟨key, now⟩])
      (countCallAt clock key (now / window) window s) key' j := by
  have htouch : (now / window + 2) * window ≤ clock + window * 2 := by
    rw [add_mul]
    omega
  unfold Tracked
  rw [windowCount_snoc]
  by_cases hcurrent : windowKey key' j = windowKey key (now / window)
  · -- the counter of the call's own window
    obtain ⟨rfl, rfl⟩ := windowKey_injective hcurrent
    right
    rw [if_pos ⟨rfl, rfl⟩]
    have hsame : SmartHttpRequester.countCallAt clock key' (now / window) window s
          (windowKey key' (now / window)) =
        (s.incr clock (windowKey key' (now / window))).expire clock
          (windowKey key' (now / window)) (window * 2) (windowKey key' (now / window)) :=
      Counters.expire_other (windowKey_pred_ne key' (now / window)).symm (window * 2)
    refine (Counters.holds_congr hsame).2 ?_
    rcases h with ⟨hcount, hnone⟩ | hholds
    · rw [hcount]
      exact Counters.holds_touch_of_eq_none hnone htouch
    · exact Counters.holds_touch hholds (hlive rfl (Or.inl rfl)) htouch
  · have hne : ¬ (key = key' ∧ now / window = j) := by
      rintro ⟨rfl, rfl⟩
      exact hcurrent rfl
    rw [if_neg hne, Nat.add_zero]
    by_cases hprevious : windowKey key' j = windowKey key (now / window - 1)
    · -- the counter of the window before: only its expiry time moves
      obtain ⟨rfl, rfl⟩ := windowKey_injective hprevious
      have hsame : ((s.incr clock (windowKey key' (now / window))).expire clock
          (windowKey key' (now / window)) (window * 2)) (windowKey key' (now / window - 1)) =
          s (windowKey key' (now / window - 1)) := by
        rw [Counters.expire_other hcurrent, Counters.incr_other hcurrent]
      have hnow := hlive rfl (Or.inr rfl)
      rcases h with ⟨hcount, hnone⟩ | hholds
      · exact Or.inl ⟨hcount, Counters.expire_of_eq_none (hsame.trans hnone) _⟩
      · refine Or.inr (Counters.holds_expire ((Counters.holds_congr hsame).2 hholds) hnow ?_)
        rw [add_mul] at hnow htouch ⊢
        rw [sub_mul] at hnow ⊢
        omega
    · have hsame : SmartHttpRequester.countCallAt clock key (now / window) window s
          (windowKey key' j) = s (windowKey key' j) :=
        countCallAt_other hcurrent hprevious
      rcases h with ⟨hcount, hnone⟩ | hholds
      · exact Or.inl ⟨hcount, hsame.trans hnone⟩
      · exact Or.inr ((Counters.holds_congr hsame).2 hholds)

/-- An admitted call keeps the counters in step with the log. -/
theorem Tracks.countCall (h : Tracks window log s) (hW : 1 ≤ window) (key : String) (now : ℤ) :
    Tracks window (log ++ [⟨key, now⟩]) (countCall key window now s) := by
  have hend := now_lt_window_end hW now
  intro key' j
  refine Tracked.countCallAt (h key' j) (Int.ediv_mul_le now (by omega)) fun _ hj => ?_
  rcases hj with rfl | rfl
  · rw [add_mul] at hend ⊢
    omega
  · rw [show now / window - 1 + 2 = now / window + 1 by ring]
    exact hend

/-- A run on the store that forgets admits what the limiter admits. -/
theorem Tracks.runCalls (hW : 1 ≤ window) {calls : List RateCall}
    (hclock : ∀ c ∈ calls, c.executed = c.now) (h : Tracks window log s) (limit : ℤ) :
    log ++ admittedCalls (runCalls expiring limit window calls s).1 =
      (calls.map RateCall.event).foldl (record limit window) log := by
  induction calls generalizing log s with
  | nil =>
      simp [SmartHttpRequester.runCalls, admittedCalls]
  | cons c calls ih =>
      have hrest := fun c' hc' => hclock c' (List.mem_cons_of_mem c hc')
      rw [SmartHttpRequester.runCalls, List.map_cons, List.foldl_cons, record]
      simp only [checkRateLimit, hclock c (by simp), h.luaScript_eq hW, event_key, event_time]
      by_cases hadmits : weightedTotal window log c.key c.now < limit
      · have hafter : (log ++ [c.event]) ++ admittedCalls (SmartHttpRequester.runCalls expiring limit
            window calls (SmartHttpRequester.countCall c.key window c.now s)).1 =
            (calls.map RateCall.event).foldl (record limit window) (log ++ [c.event]) :=
          ih hrest (h.countCall hW c.key c.now)
        rw [if_neg (not_le.2 hadmits : ¬ weightedTotal window log c.key c.now ≥ limit),
          if_pos hadmits, ← hafter]
        simp [admittedCalls]
      · rw [if_pos (not_lt.1 hadmits : weightedTotal window log c.key c.now ≥ limit), if_neg hadmits,
          ← ih hrest h]
        simp [admittedCalls]

theorem runCalls_eq_admitted (hW : 1 ≤ window) (limit : ℤ) {calls : List RateCall}
    (hclock : ∀ c ∈ calls, c.executed = c.now) :
    admittedCalls (runCalls expiring limit window calls emptyCounters).1 =
      admitted limit window (calls.map RateCall.event) :=
  (tracks_empty window).runCalls hW hclock limit

end Simulation

end RateLimit

end SmartHttpRequester
