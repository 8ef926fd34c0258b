import SmartHttpRequester.RateLimitClients

/-!
# The rate-limit headers

A rejected request reports the estimate of the script, an admitted one the
estimate and itself, both truncated by Redis.  Neither exceeds the limit: the
counters that are stored stay less than one call above it (`Bounded`), whatever
has expired by the time of a call.

`remaining_consistent`: the header `X-RateLimit-Remaining` is 0 on a rejected
request and between 0 and `limit - 1` on an admitted one.
-/

namespace SmartHttpRequester

open Foundations

section RateLimitHeaders

variable {limit window clock now : ℤ} {key : String} {s : Counters String}

section Counts

/-- The counters of a client as the script finds them. -/
def liveCounts (clock : ℤ) (s : Counters String) (key : String) (j : ℤ) : ℕ :=
  (expiring.get clock s (windowKey key j)).getD 0

/-- The counters of a client as they are stored, expired or not. -/
def storedCounts (s : Counters String) (key : String) (j : ℤ) : ℕ :=
  s.value (windowKey key j)

theorem scriptTotal_eq_estimate :
    scriptTotal expiring clock key window now s = estimate window (liveCounts clock s key) now := by
  rfl

theorem scriptTotal_nonneg (hW : 1 ≤ window) (clock : ℤ) (key : String) (now : ℤ)
    (s : Counters String) :
    0 ≤ scriptTotal expiring clock key window now s := by
  rw [scriptTotal_eq_estimate]
  exact estimate_nonneg hW

theorem liveCounts_le_storedCounts (clock : ℤ) (s : Counters String) (key : String) (j : ℤ) :
    liveCounts clock s key j ≤ storedCounts s key j :=
  Counters.get_le_value clock s (windowKey key j)

theorem storedCounts_countCallAt_self (n : ℤ) :
    storedCounts (countCallAt clock key n window s) key n = liveCounts clock s key n + 1 := by
  have hsame : countCallAt clock key n window s (windowKey key n) =
      (s.incr clock (windowKey key n)).expire clock (windowKey key n) (window * 2)
        (windowKey key n) :=
    Counters.expire_other (windowKey_pred_ne key n).symm (window * 2)
  rw [storedCounts, Counters.value_congr hsame, Counters.value_expire_self,
    Counters.get_incr_self]
  rfl

theorem storedCounts_countCallAt_previous (n : ℤ) :
    storedCounts (countCallAt clock key n window s) key (n - 1) =
      liveCounts clock s key (n - 1) := by
  have hother : (s.incr clock (windowKey key n)).expire clock (windowKey key n) (window * 2)
      (windowKey key (n - 1)) = s (windowKey key (n - 1)) := by
    rw [Counters.expire_other (windowKey_pred_ne key n),
      Counters.incr_other (windowKey_pred_ne key n)]
  rw [storedCounts, countCallAt, Counters.value_expire_self, Counters.get_congr hother]
  rfl

/-- After an admitted call the stored counters weigh what the script has found, and one more. -/
theorem estimate_countCallAt :
    estimate window (storedCounts (countCallAt clock key (now / window) window s) key) now =
      scriptTotal expiring clock key window now s + 1 := by
  rw [scriptTotal_eq_estimate, estimate, estimate, storedCounts_countCallAt_self,
    storedCounts_countCallAt_previous]
  push_cast
  ring

/-- A call opens no counter but that of its own window. -/
theorem countCallAt_of_eq_none {key' : String} {j n : ℤ} (hs : s (windowKey key' j) = none)
    (hj : j ≠ n) : countCallAt clock key n window s (windowKey key' j) = none := by
  have hcurrent : windowKey key' j ≠ windowKey key n := fun h => hj (windowKey_injective h).2
  have hsame : (s.incr clock (windowKey key n)).expire clock (windowKey key n) (window * 2)
      (windowKey key' j) = none := by
    rw [Counters.expire_other hcurrent, Counters.incr_other hcurrent, hs]
  by_cases hprevious : windowKey key' j = windowKey key (n - 1)
  · rw [hprevious] at hsame ⊢
    exact Counters.expire_of_eq_none hsame _
  · rw [countCallAt, Counters.expire_other hprevious, hsame]

end Counts

section Bound

/-- What is stored stays less than one call above the limit from a time on. -/
structure Bounded (limit window last : ℤ) (s : Counters String) : Prop where
  total : ∀ key now, last ≤ now → estimate window (storedCounts s key) now < limit + 1
  later : ∀ key j, last / window < j → s (windowKey key j) = none

theorem bounded_empty (hlimit : 0 ≤ limit) (window last : ℤ) :
    Bounded limit window last emptyCounters := by
  refine ⟨fun key now _ => ?_, fun key j _ => rfl⟩
  have hzero : estimate window (storedCounts emptyCounters key) now = 0 := by
    simp [estimate, storedCounts, Counters.value, emptyCounters]
  have : (0 : ℚ) ≤ limit := by exact_mod_cast hlimit
  rw [hzero]
  linarith

theorem Bounded.later_le {last last' : ℤ} (h : Bounded limit window last s) (hW : 1 ≤ window)
    (hlast : last ≤ last') : Bounded limit window last' s := by
  refine ⟨fun key now hnow => h.total key now (hlast.trans hnow), fun key j hj => ?_⟩
  exact h.later key j ((Int.ediv_le_ediv (by omega) hlast).trans_lt hj)

theorem Bounded.countCallAt (h : Bounded limit window now s) (hW : 1 ≤ window)
    (hfree : scriptTotal expiring clock key window now s < limit) :
    Bounded limit window now (countCallAt clock key (now / window) window s) := by
  have hlater : ∀ key' j, now / window < j →
      SmartHttpRequester.countCallAt clock key (now / window) window s (windowKey key' j) = none :=
    fun key' j hj => countCallAt_of_eq_none (h.later key' j hj) (by omega)
  refine ⟨fun key' now' hnow => ?_, hlater⟩
  by_cases hkey : key' = key
  · subst hkey
    have hzero : ∀ j, now / window < j → storedCounts
        (SmartHttpRequester.countCallAt clock key' (now / window) window s) key' j = 0 :=
      fun j hj => Counters.value_of_eq_none (hlater key' j hj)
    have hfall := estimate_anti hW hnow hzero
    rw [estimate_countCallAt] at hfall
    linarith
  · have hsame : storedCounts (SmartHttpRequester.countCallAt clock key (now / window) window s)
        key' = storedCounts s key' := by
      funext j
      exact Counters.value_congr (countCallAt_other
        (ne_of_mem_windowKeys (Ne.symm hkey) (windowKey_mem key' j))
        (ne_of_mem_windowKeys (Ne.symm hkey) (windowKey_mem key' j)))
    rw [hsame]
    exact h.total key' now' hnow

theorem Bounded.luaScript (h : Bounded limit window now s) (hW : 1 ≤ window) (clock : ℤ)
    (key : String) :
    Bounded limit window now (luaScript expiring clock key limit window now s).2 := by
  rw [luaScript_store]
  split
  · rename_i hallowed
    exact h.countCallAt hW (luaScript_allowed_iff.1 hallowed)
  · exact h

/-- A client that is refused has reached the limit, and not one call more. -/
theorem Bounded.scriptTotal_lt (h : Bounded limit window now s) (hW : 1 ≤ window) (clock : ℤ)
    (key : String) :
    scriptTotal expiring clock key window now s < limit + 1 :=
  (estimate_mono hW (liveCounts_le_storedCounts clock s key)).trans_lt (h.total key now le_rfl)

theorem truncate_eq_floor {q : ℚ} (h : 0 ≤ q) : truncate q = ⌊q⌋ := by
  rw [truncate, Int.tdiv_eq_ediv_of_nonneg (Rat.num_nonneg.2 h), Rat.floor_def']

/-- A rejected call is told the limit. -/
theorem Bounded.total_of_rejected {c : RateCall} (h : Bounded limit window c.now s)
    (hW : 1 ≤ window) (hallowed : (checkRateLimit expiring limit window c s).1.allowed = false) :
    (checkRateLimit expiring limit window c s).1.total = limit := by
  have hlt := h.scriptTotal_lt hW c.executed c.key
  simp only [checkRateLimit, luaScript_eq] at hallowed ⊢
  split at hallowed
  · rename_i hfull
    simp only [if_pos hfull]
    rw [truncate_eq_floor (scriptTotal_nonneg hW c.executed c.key c.now s)]
    exact Int.floor_eq_iff.2 ⟨hfull, hlt⟩
  · cases hallowed

/-- An admitted call is told a number of calls that it is one of. -/
theorem total_of_admitted {c : RateCall} (hW : 1 ≤ window)
    (hallowed : (checkRateLimit expiring limit window c s).1.allowed = true) :
    1 ≤ (checkRateLimit expiring limit window c s).1.total ∧
      (checkRateLimit expiring limit window c s).1.total ≤ limit := by
  have hnonneg := scriptTotal_nonneg hW c.executed c.key c.now s
  simp only [checkRateLimit, luaScript_eq] at hallowed ⊢
  split at hallowed
  · cases hallowed
  · rename_i hfree
    have hbelow := Int.floor_lt.2 (not_le.1 hfree)
    have hfloor := Int.floor_nonneg.2 hnonneg
    simp only [if_neg hfree]
    rw [truncate_eq_floor (by linarith), Int.floor_add_one]
    omega

end Bound

section Requests

variable {β : Type} {strftime : ℤ → String}

theorem dispatchAll_snoc (requests : List (HttpRequest β)) (request : HttpRequest β) :
    (dispatchAll expiring strftime limit (requests ++ [request]) s).2 =
      (dispatch expiring strftime limit request
        (dispatchAll expiring strftime limit requests s).2).2 := by
  induction requests generalizing s with
  | nil =>
      rfl
  | cons request' requests ih =>
      exact ih

theorem Bounded.dispatch {request : HttpRequest β} (h : Bounded limit 60 request.now s) :
    Bounded limit 60 request.now (dispatch expiring strftime limit request s).2 := by
  cases hclient : request.client with
  | none =>
      simpa only [SmartHttpRequester.dispatch, hclient] using h
  | some ip =>
      simp only [SmartHttpRequester.dispatch, hclient]
      exact h.luaScript (by decide) request.executed (rateLimitKey ip)

/-- After requests that came in order. -/
theorem bounded_dispatchAll (hlimit : 0 ≤ limit) {requests : List (HttpRequest β)}
    (hsorted : requests.Pairwise fun r r' => r.now ≤ r'.now) {last : ℤ}
    (hlast : ∀ r ∈ requests, r.now ≤ last) :
    Bounded limit 60 last (dispatchAll expiring strftime limit requests emptyCounters).2 := by
  induction requests using List.reverseRecOn generalizing last with
  | nil =>
      exact bounded_empty hlimit 60 last
  | append_singleton requests request ih =>
      rw [List.pairwise_append] at hsorted
      have hbefore := ih hsorted.1 fun r hr => hsorted.2.2 r hr request (by simp)
      rw [dispatchAll_snoc]
      exact hbefore.dispatch.later_le (by decide) (hlast request (by simp))

theorem dispatch_some {request : HttpRequest β} {ip : String} (hclient : request.client = some ip) :
    (dispatch expiring strftime limit request s).1 =
      let result := (checkRateLimit expiring limit 60 (request.call ip) s).1
      ((((if result.allowed then request.next else jsonResponse 429 "Too many requests").setHeader
        "X-RateLimit-Limit" (toString limit)).setHeader
        "X-RateLimit-Remaining" (toString (limit - result.total))).setHeader
        "X-RateLimit-Reset" (strftime result.resetTime)) := by
  simp only [dispatch, hclient]

theorem rejected_status {request : HttpRequest β} {ip : String}
    (hclient : request.client = some ip)
    (hallowed : (checkRateLimit expiring limit 60 (request.call ip) s).1.allowed = false) :
    (dispatch expiring strftime limit request s).1.statusCode = 429 := by
  simp only [dispatch_some hclient, hallowed]
  rfl

theorem remaining_header {request : HttpRequest β} {ip : String}
    (hclient : request.client = some ip) :
    (dispatch expiring strftime limit request s).1.headers "X-RateLimit-Remaining" =
      some (toString
        (limit - (checkRateLimit expiring limit 60 (request.call ip) s).1.total)) := by
  rw [dispatch_some hclient]
  simp [HttpResponse.setHeader]

/--
Of requests that come in order, each is told how many remain: none if it is
rejected, else between none and all but one.
-/
theorem remaining_consistent (strftime : ℤ → String) {limit : ℤ} (hlimit : 0 ≤ limit)
    {requests : List (HttpRequest β)} {request : HttpRequest β} {ip : String}
    (hsorted : (requests ++ [request]).Pairwise fun r r' => r.now ≤ r'.now)
    (hclient : request.client = some ip) :
    let s := (dispatchAll expiring strftime limit requests emptyCounters).2
    let result := (checkRateLimit expiring limit 60 (request.call ip) s).1
    let response := (dispatch expiring strftime limit request s).1
    (result.allowed = false →
      response.statusCode = 429 ∧
      response.headers "X-RateLimit-Remaining" = some (toString (0 : ℤ))) ∧
    (result.allowed = true →
      ∃ remaining : ℤ, response.headers "X-RateLimit-Remaining" = some (toString remaining) ∧
        0 ≤ remaining ∧ remaining ≤ limit - 1) := by
  intro s result response
  rw [List.pairwise_append] at hsorted
  have hbounded : Bounded limit 60 request.now s :=
    bounded_dispatchAll hlimit hsorted.1 fun r hr => hsorted.2.2 r hr request (by simp)
  have hheader : response.headers "X-RateLimit-Remaining" =
      some (toString (limit - result.total)) :=
    remaining_header hclient
  constructor
  · intro hallowed
    have htotal : result.total = limit := hbounded.total_of_rejected (by decide) hallowed
    exact ⟨rejected_status hclient hallowed, by rw [hheader, htotal, sub_self]⟩
  · intro hallowed
    have htotal : 1 ≤ result.total ∧ result.total ≤ limit :=
      total_of_admitted (by decide) hallowed
    exact ⟨limit - result.total, hheader, by omega, by omega⟩

/-- The second call of a client whose limit is one. -/
theorem remaining_consistent_second :
    let first : HttpRequest Unit := ⟨some "::1", 7, 7, jsonResponse 200 "ok"⟩
    let second : HttpRequest Unit := ⟨some "::1", 8, 8, jsonResponse 200 "ok"⟩
    let s := (dispatchAll expiring toString 1 [first] emptyCounters).2
    let response := (dispatch expiring toString 1 second s).1
    response.statusCode = 429 ∧
      response.headers "X-RateLimit-Remaining" = some (toString (0 : ℤ)) := by
  intro first second s response
  have hsorted : ([first] ++ [second]).Pairwise fun r r' => r.now ≤ r'.now := by
    simp [first, second]
  have hclient : second.client = some "::1" := rfl
  exact (remaining_consistent toString (show (0 : ℤ) ≤ 1 by decide) hsorted hclient).1
    (by decide +kernel)

end Requests

end RateLimitHeaders

end SmartHttpRequester
