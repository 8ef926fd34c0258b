import SmartHttpRequester.RateLimitHeaders

/-!
# Waiting for the rate limiter

While a client makes no call that is admitted, the script's estimate for it
falls, whatever other clients do; a rejected call leaves no trace at all
(`waiting_never_hurts`).

The reset time that a rejected call returns is the end of its window.  At that
very second the counter of the window still has its whole weight, so a client
with a full counter is refused once more; later it is admitted
(`admitted_after_reset_iff`).
-/

namespace SmartHttpRequester

open Foundations

section RateLimitWaiting

variable {limit window : ℤ} {key : String} {s s' : Counters String}

section Runs

/-- The store after calls, from an empty one. -/
def storeAfter (limit window : ℤ) (calls : List RateCall) : Counters String :=
  (runCalls expiring limit window calls emptyCounters).2

/-- None of the calls of a client is admitted. -/
def NoneAdmitted (limit window : ℤ) (key : String) (calls : List RateCall) (s : Counters String) :
    Prop :=
  ∀ cr ∈ (runCalls expiring limit window calls s).1, cr.1.key = key → cr.2.allowed = false

theorem runCalls_append (calls calls' : List RateCall) (s : Counters String) :
    (runCalls expiring limit window (calls ++ calls') s).2 =
      (runCalls expiring limit window calls' (runCalls expiring limit window calls s).2).2 := by
  induction calls generalizing s with
  | nil =>
      rfl
  | cons c calls ih =>
      exact ih _

theorem checkRateLimit_snd_of_rejected {c : RateCall}
    (h : (checkRateLimit expiring limit window c s).1.allowed = false) :
    (checkRateLimit expiring limit window c s).2 = s := by
  have hreply : (luaScript expiring c.executed c.key limit window c.now s).1.allowed = false := h
  rw [checkRateLimit, luaScript_store, hreply]
  rfl

/-- Calls of which none of the client is admitted leave its counters as they are. -/
theorem NoneAdmitted.eqOn {calls : List RateCall} (h : NoneAdmitted limit window key calls s) :
    Set.EqOn (runCalls expiring limit window calls s).2 s (windowKeys key) := by
  induction calls generalizing s with
  | nil =>
      exact fun _ _ => rfl
  | cons c calls ih =>
      have hrest : NoneAdmitted limit window key calls (checkRateLimit expiring limit window c s).2 :=
        fun cr hcr => h cr (List.mem_cons_of_mem _ hcr)
      have hcall : Set.EqOn (checkRateLimit expiring limit window c s).2 s (windowKeys key) := by
        by_cases hkey : c.key = key
        · have hrejected := h _ List.mem_cons_self hkey
          rw [checkRateLimit_snd_of_rejected hrejected]
          exact fun _ _ => rfl
        · exact luaScript_other c.executed limit window c.now s hkey
      exact (ih hrest).trans hcall

/-- No call, no counter. -/
theorem runCalls_of_eq_none {calls : List RateCall} {j : ℤ} (hs : s (windowKey key j) = none)
    (hj : ∀ c ∈ calls, c.now / window < j) :
    (runCalls expiring limit window calls s).2 (windowKey key j) = none := by
  induction calls generalizing s with
  | nil =>
      exact hs
  | cons c calls ih =>
      refine ih ?_ fun c' hc' => hj c' (List.mem_cons_of_mem c hc')
      have hc := hj c (by simp)
      rw [checkRateLimit, luaScript_store]
      split
      · exact countCallAt_of_eq_none hs (by omega)
      · exact hs

theorem storeAfter_later (hW : 1 ≤ window) {calls : List RateCall} {t j : ℤ}
    (hcalls : ∀ c ∈ calls, c.now ≤ t) (hj : t / window < j) :
    storeAfter limit window calls (windowKey key j) = none :=
  runCalls_of_eq_none rfl fun c hc => (Int.ediv_le_ediv (by omega) (hcalls c hc)).trans_lt hj

/-- No counter exceeds the limit. -/
theorem storedCounts_le (hlimit : 0 ≤ limit) (hW : 1 ≤ window) (calls : List RateCall)
    (key : String) (j : ℤ) :
    (storedCounts (storeAfter limit window calls) key j : ℤ) ≤ limit := by
  induction calls using List.reverseRecOn generalizing key j with
  | nil =>
      simpa [storedCounts, storeAfter, runCalls, emptyCounters, Counters.value] using hlimit
  | append_singleton calls c ih =>
      have hstore : storeAfter limit window (calls ++ [c]) =
          (luaScript expiring c.executed c.key limit window c.now (storeAfter limit window calls)).2 :=
        runCalls_append calls [c] emptyCounters
      rw [hstore, luaScript_store]
      split
      · rename_i hallowed
        have hlt := count_lt_of_allowed hW hallowed
        by_cases hcurrent : windowKey key j = windowKey c.key (c.now / window)
        · obtain ⟨rfl, rfl⟩ := windowKey_injective hcurrent
          rw [storedCounts_countCallAt_self]
          exact_mod_cast hlt
        · by_cases hprevious : windowKey key j = windowKey c.key (c.now / window - 1)
          · obtain ⟨rfl, rfl⟩ := windowKey_injective hprevious
            rw [storedCounts_countCallAt_previous]
            exact (by exact_mod_cast liveCounts_le_storedCounts _ _ _ _ : (_ : ℤ) ≤ _).trans
              (ih c.key (c.now / window - 1))
          · rw [storedCounts, Counters.value_congr (countCallAt_other hcurrent hprevious)]
            exact ih key j
      · exact ih key j

end Runs

section Waiting

theorem liveCounts_eqOn (h : Set.EqOn s' s (windowKeys key)) (clock j : ℤ) :
    liveCounts clock s' key j = liveCounts clock s key j :=
  congrArg (Option.getD · 0) (Counters.get_congr (h (windowKey_mem key j)))

/-- Waiting lowers the estimate. -/
theorem scriptTotal_le {clock clock' t t' : ℤ} (hW : 1 ≤ window)
    (hlater : ∀ j, t / window < j → s (windowKey key j) = none)
    (hsame : Set.EqOn s' s (windowKeys key)) (ht : t ≤ t') (hclock : clock ≤ clock') :
    scriptTotal expiring clock' key window t' s' ≤ scriptTotal expiring clock key window t s := by
  have hexpire : ∀ j, liveCounts clock' s' key j ≤ liveCounts clock s key j := by
    intro j
    rw [liveCounts_eqOn hsame]
    exact Counters.get_later_le hclock s (windowKey key j)
  have hzero : ∀ j, t / window < j → liveCounts clock s key j = 0 := by
    intro j hj
    rw [liveCounts, Counters.get_of_eq_none (hlater j hj)]
    rfl
  rw [scriptTotal_eq_estimate, scriptTotal_eq_estimate]
  exact (estimate_mono hW hexpire).trans (estimate_anti hW ht hzero)

/-- Some rejected calls are left out of a run. -/
inductive DropsRejected :
    List (RateCall × RateLimitResult) → List (RateCall × RateLimitResult) → Prop
  | nil : DropsRejected [] []
  | keep {results kept : List (RateCall × RateLimitResult)} (cr : RateCall × RateLimitResult)
      (h : DropsRejected results kept) :
      DropsRejected (cr :: results) (cr :: kept)
  | drop {results kept : List (RateCall × RateLimitResult)} {cr : RateCall × RateLimitResult}
      (hrejected : cr.2.allowed = false) (h : DropsRejected results kept) :
      DropsRejected (cr :: results) kept

/-- The calls that are kept have the results they had. -/
theorem DropsRejected.runCalls_eq {calls : List RateCall}
    {kept : List (RateCall × RateLimitResult)}
    (h : DropsRejected (runCalls expiring limit window calls s).1 kept) :
    runCalls expiring limit window (kept.map Prod.fst) s =
      (kept, (runCalls expiring limit window calls s).2) := by
  induction calls generalizing s kept with
  | nil =>
      cases h
      rfl
  | cons c calls ih =>
      rw [runCalls] at h ⊢
      cases h with
      | keep _ h =>
          rw [List.map_cons, runCalls, ih h]
      | drop hrejected h =>
          rw [checkRateLimit_snd_of_rejected hrejected] at h ⊢
          exact ih h

/--
While a client has no call admitted, its estimate falls and it does not lose
admission; and leaving out rejected calls changes no other call's result.
-/
theorem waiting_never_hurts (limit : ℤ) {window : ℤ} (hW : 1 ≤ window) :
    (∀ (calls between : List RateCall) (key : String) (t t' clock clock' : ℤ),
      (∀ c ∈ calls, c.now ≤ t) → t ≤ t' → clock ≤ clock' →
      NoneAdmitted limit window key between (storeAfter limit window calls) →
      scriptTotal expiring clock' key window t' (storeAfter limit window (calls ++ between)) ≤
        scriptTotal expiring clock key window t (storeAfter limit window calls) ∧
      ((checkRateLimit expiring limit window ⟨key, t, clock⟩
          (storeAfter limit window calls)).1.allowed = true →
        (checkRateLimit expiring limit window ⟨key, t', clock'⟩
          (storeAfter limit window (calls ++ between))).1.allowed = true)) ∧
    ∀ (calls : List RateCall) (s : Counters String) (kept : List (RateCall × RateLimitResult)),
      DropsRejected (runCalls expiring limit window calls s).1 kept →
      (runCalls expiring limit window (kept.map Prod.fst) s).1 = kept := by
  constructor
  · intro calls between key t t' clock clock' hcalls ht hclock hbetween
    have hsame : Set.EqOn (storeAfter limit window (calls ++ between))
        (storeAfter limit window calls) (windowKeys key) := by
      rw [storeAfter, runCalls_append]
      exact hbetween.eqOn
    have hfall : scriptTotal expiring clock' key window t'
        (storeAfter limit window (calls ++ between)) ≤
          scriptTotal expiring clock key window t (storeAfter limit window calls) :=
      scriptTotal_le hW (fun j hj => storeAfter_later hW hcalls hj) hsame ht hclock
    refine ⟨hfall, fun hallowed => ?_⟩
    exact luaScript_allowed_iff.2 (hfall.trans_lt (luaScript_allowed_iff.1 hallowed))
  · intro calls s kept hkept
    rw [hkept.runCalls_eq]

/-- A client is admitted at 59 s, refused at 60 s, and waits until 119 s. -/
theorem waiting_never_hurts_next_window :
    scriptTotal expiring 119 "rate_limit:a" 60 119
        (storeAfter 1 60 ([⟨"rate_limit:a", 59, 59⟩] ++ [⟨"rate_limit:a", 60, 60⟩])) ≤
      scriptTotal expiring 60 "rate_limit:a" 60 60 (storeAfter 1 60 [⟨"rate_limit:a", 59, 59⟩]) := by
  have hbetween : NoneAdmitted 1 60 "rate_limit:a" [⟨"rate_limit:a", 60, 60⟩]
      (storeAfter 1 60 [⟨"rate_limit:a", 59, 59⟩]) := by
    unfold NoneAdmitted
    decide +kernel
  exact ((waiting_never_hurts 1 (show (1 : ℤ) ≤ 60 by decide)).1 _ _ "rate_limit:a" 60 119 60 119
    (by decide) (by decide) (by decide) hbetween).1

end Waiting

section Reset

/-- In the window after, only the old counter counts. -/
theorem scriptTotal_next {clock t n : ℤ} (ht : t / window = n + 1)
    (hnone : s (windowKey key (n + 1)) = none) :
    scriptTotal expiring clock key window t s = liveCounts clock s key n * windowWeight window t := by
  have hzero : liveCounts clock s key (n + 1) = 0 := by
    rw [liveCounts, Counters.get_of_eq_none hnone]
    rfl
  rw [scriptTotal_eq_estimate, estimate, ht, add_sub_cancel_right, hzero, Nat.cast_zero, zero_add]

/-- At the first second of the window after, the old counter decides; from then on it does not. -/
theorem scriptTotal_lt_iff_of_next_window {clock t n : ℤ} (hlimit : 1 ≤ limit) (hW : 1 ≤ window)
    (ht : (n + 1) * window ≤ t) (hcount : (liveCounts clock s key n : ℤ) ≤ limit)
    (hlater : ∀ j, n < j → s (windowKey key j) = none) :
    scriptTotal expiring clock key window t s < limit ↔
      t ≠ (n + 1) * window ∨ (liveCounts clock s key n : ℤ) < limit := by
  have hpos : (0 : ℚ) < limit := by exact_mod_cast hlimit
  have hcount' : (liveCounts clock s key n : ℚ) ≤ limit := by exact_mod_cast hcount
  have hwindow : n + 1 ≤ t / window := (Int.le_ediv_iff_mul_le (by omega)).2 ht
  rcases Int.lt_or_eq_of_le hwindow with hfar | hnear
  · -- two windows later nothing is left
    have hcurrent : liveCounts clock s key (t / window) = 0 := by
      rw [liveCounts, Counters.get_of_eq_none (hlater _ (by omega))]
      rfl
    have hprevious : liveCounts clock s key (t / window - 1) = 0 := by
      rw [liveCounts, Counters.get_of_eq_none (hlater _ (by omega))]
      rfl
    have hne : t ≠ (n + 1) * window := by
      rintro rfl
      rw [Int.mul_ediv_cancel _ (by omega)] at hfar
      omega
    rw [scriptTotal_eq_estimate, estimate, hcurrent, hprevious, Nat.cast_zero, zero_mul, zero_add]
    exact iff_of_true hpos (Or.inl hne)
  · have hsplit := Int.mul_ediv_add_emod t window
    rw [← hnear, mul_comm] at hsplit
    rw [scriptTotal_next hnear.symm (hlater _ (by omega))]
    by_cases hstart : t % window = 0
    · -- the reset time itself: the weight is one
      have hweight : windowWeight window t = 1 := by
        rw [windowWeight, hstart, Int.cast_zero, zero_div, sub_zero]
      have heq : t = (n + 1) * window := by omega
      rw [hweight, mul_one]
      refine ⟨fun h => Or.inr (by exact_mod_cast h), ?_⟩
      rintro (hne | hlt)
      · exact absurd heq hne
      · exact_mod_cast hlt
    · have hne : t ≠ (n + 1) * window := by omega
      refine iff_of_true ?_ (Or.inl hne)
      have hweight := windowWeight_lt_one hW hstart
      rcases Nat.eq_zero_or_pos (liveCounts clock s key n) with hzero | hsome
      · rw [hzero, Nat.cast_zero, zero_mul]
        exact hpos
      · have hsome' : (0 : ℚ) < liveCounts clock s key n := by exact_mod_cast hsome
        exact (mul_lt_of_lt_one_right hsome' hweight).trans_le hcount'

/--
After a call, as long as the client has no call admitted, a call from the reset
time on is admitted, unless it comes at that time exactly and the counter of the
first call's window is full.
-/
theorem admitted_after_reset_iff {limit window : ℤ} (hlimit : 1 ≤ limit) (hW : 1 ≤ window)
    {calls between : List RateCall} {first call : RateCall}
    (hcalls : ∀ c ∈ calls, c.now ≤ first.now)
    (hbetween : NoneAdmitted limit window first.key between
      (storeAfter limit window (calls ++ [first])))
    (hkey : call.key = first.key)
    (hreset : (checkRateLimit expiring limit window first
      (storeAfter limit window calls)).1.resetTime ≤ call.now) :
    (checkRateLimit expiring limit window call
        (storeAfter limit window (calls ++ [first] ++ between))).1.allowed = true ↔
      call.now ≠ (checkRateLimit expiring limit window first
        (storeAfter limit window calls)).1.resetTime ∨
      (liveCounts call.executed (storeAfter limit window (calls ++ [first] ++ between))
        call.key (first.now / window) : ℤ) < limit := by
  have hresetTime : (checkRateLimit expiring limit window first
      (storeAfter limit window calls)).1.resetTime = (first.now / window + 1) * window := by
    rw [checkRateLimit, luaScript_eq, add_mul, one_mul]
    split <;> rfl
  have hlast : ∀ c ∈ calls ++ [first], c.now ≤ first.now := by
    intro c hc
    rcases List.mem_append.1 hc with hc | hc
    · exact hcalls c hc
    · rw [List.mem_singleton.1 hc]
  have hsame : Set.EqOn (storeAfter limit window (calls ++ [first] ++ between))
      (storeAfter limit window (calls ++ [first])) (windowKeys first.key) := by
    rw [storeAfter, runCalls_append]
    exact hbetween.eqOn
  have hlater : ∀ j, first.now / window < j →
      storeAfter limit window (calls ++ [first] ++ between) (windowKey first.key j) = none := by
    intro j hj
    rw [hsame (windowKey_mem first.key j)]
    exact storeAfter_later hW hlast hj
  have hcount : (liveCounts call.executed (storeAfter limit window (calls ++ [first] ++ between))
      first.key (first.now / window) : ℤ) ≤ limit := by
    refine le_trans ?_ (storedCounts_le (by omega) hW (calls ++ [first] ++ between)
      first.key (first.now / window))
    exact_mod_cast liveCounts_le_storedCounts _ _ _ _
  rw [hresetTime] at hreset ⊢
  rw [hkey, ← scriptTotal_lt_iff_of_next_window hlimit hW hreset hcount hlater, ← hkey]
  exact luaScript_allowed_iff

def callOfA (t : ℤ) : RateCall :=
  ⟨"rate_limit:a", t, t⟩

/-- A full window, a rejected call, and a call one second after the reset time. -/
theorem admitted_after_reset_iff_next_second :
    (checkRateLimit expiring 1 60 (callOfA 1) (storeAfter 1 60 [callOfA 0])).1 =
      ⟨false, 1, 60⟩ ∧
    (checkRateLimit expiring 1 60 (callOfA 61)
      (storeAfter 1 60 ([callOfA 0] ++ [callOfA 1] ++ []))).1.allowed = true := by
  have hresult : (checkRateLimit expiring 1 60 (callOfA 1) (storeAfter 1 60 [callOfA 0])).1 =
      ⟨false, 1, 60⟩ := by
    decide +kernel
  have hbetween : NoneAdmitted 1 60 (callOfA 1).key []
      (storeAfter 1 60 ([callOfA 0] ++ [callOfA 1])) := by
    unfold NoneAdmitted
    decide +kernel
  have hreset : (checkRateLimit expiring 1 60 (callOfA 1)
      (storeAfter 1 60 [callOfA 0])).1.resetTime ≤ (callOfA 61).now := by
    rw [hresult]
    decide
  have hkey : (callOfA 61).key = (callOfA 1).key := rfl
  refine ⟨hresult, ?_⟩
  refine (admitted_after_reset_iff (by decide) (by decide) (by decide) hbetween hkey hreset).2 ?_
  rw [hresult]
  exact Or.inl (by decide)

/-- At the reset time itself the client is refused again. -/
theorem rejected_at_reset_time :
    ¬ ∀ (limit window : ℤ) (calls between : List RateCall) (rejected call : RateCall),
      1 ≤ limit → 1 ≤ window → InOrder (calls ++ [rejected] ++ between ++ [call]) →
      (checkRateLimit expiring limit window rejected
        (storeAfter limit window calls)).1.allowed = false →
      NoneAdmitted limit window rejected.key between
        (storeAfter limit window (calls ++ [rejected])) →
      call.key = rejected.key →
      (checkRateLimit expiring limit window rejected
        (storeAfter limit window calls)).1.resetTime ≤ call.now →
      (checkRateLimit expiring limit window call
        (storeAfter limit window (calls ++ [rejected] ++ between))).1.allowed = true := by
  intro h
  have hbetween : NoneAdmitted 1 60 (callOfA 1).key []
      (storeAfter 1 60 ([callOfA 0] ++ [callOfA 1])) := by
    unfold NoneAdmitted
    decide +kernel
  have hadmitted := h 1 60 [callOfA 0] [] (callOfA 1) (callOfA 60) (by decide) (by decide)
    ⟨by decide, by decide⟩ (by decide +kernel) hbetween rfl (by decide +kernel)
  revert hadmitted
  decide +kernel

end Reset

end RateLimitWaiting

end SmartHttpRequester
