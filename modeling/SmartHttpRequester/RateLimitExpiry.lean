import SmartHttpRequester.RateLimitBursts

/-!
# Expiry of the counters

The script sets the expiry time of a counter again whenever a call of its window
or of the next one is admitted, to two windows from then on.

`expiry_invisible`: if the clock of Redis agrees with the callers', no decision
depends on whether counters expire at all.  The callers read the clock before they
await Redis, so the script may run later and in another order;
`rateLimit_cap_of_late` says that a window still admits at most `limit` calls as
long as no script is late by a window or more.
-/

namespace SmartHttpRequester

open Foundations Function

section RateLimitExpiry

variable {limit window clock now : ℤ} {key : String} {log : List (Event String)}

section Script

/-- What the script returns depends on two counters only. -/
theorem luaScript_fst_congr {S S' : Type} {R : CounterStore String S}
    {R' : CounterStore String S'} {s : S} {s' : S'}
    (hcurrent : (R.get clock s (windowKey key (now / window))).getD 0 =
      (R'.get clock s' (windowKey key (now / window))).getD 0)
    (hprevious : (R.get clock s (windowKey key (now / window - 1))).getD 0 =
      (R'.get clock s' (windowKey key (now / window - 1))).getD 0) :
    (luaScript R clock key limit window now s).1 =
      (luaScript R' clock key limit window now s').1 := by
  simp only [luaScript, hcurrent, hprevious]
  split <;> rfl

/-- What the script leaves in the store. -/
theorem luaScript_snd {S : Type} (R : CounterStore String S) (s : S) :
    (luaScript R clock key limit window now s).2 =
      if (luaScript R clock key limit window now s).1.allowed then
        R.expire clock (windowKey key (now / window - 1)) (window * 2)
          (R.expire clock (windowKey key (now / window)) (window * 2)
            (R.incr clock (windowKey key (now / window)) s))
      else s := by
  simp only [luaScript]
  split <;> rfl

/-- The script admits a call only while the counter of its window is below the limit. -/
theorem count_lt_of_allowed {S : Type} {R : CounterStore String S} {s : S} (hW : 1 ≤ window)
    (h : (luaScript R clock key limit window now s).1.allowed = true) :
    (((R.get clock s (windowKey key (now / window))).getD 0 : ℕ) : ℤ) < limit := by
  have hpos : (0 : ℚ) < window := by exact_mod_cast hW
  have helapsed : ((now % window : ℤ) : ℚ) ≤ window := by
    exact_mod_cast (Int.emod_lt_of_pos now (show 0 < window by omega)).le
  have hweight : (0 : ℚ) ≤ 1 - ((now % window : ℤ) : ℚ) / window := by
    rw [sub_nonneg, div_le_one hpos]
    exact helapsed
  simp only [luaScript] at h
  split at h
  · cases h
  · rename_i htotal
    generalize (R.get clock s (windowKey key (now / window))).getD 0 = current at htotal ⊢
    generalize (R.get clock s (windowKey key (now / window - 1))).getD 0 = previous at htotal
    have hprevious : (0 : ℚ) ≤ (previous : ℚ) * (1 - ((now % window : ℤ) : ℚ) / window) :=
      mul_nonneg (Nat.cast_nonneg previous) hweight
    have hlt : (current : ℚ) < limit := by
      have := not_le.1 htotal
      linarith
    exact_mod_cast hlt

end Script

section Lasting

/-- Counters that never expire hold the counts of a log. -/
def TracksLasting (window : ℤ) (log : List (Event String)) (s : String → Option ℕ) : Prop :=
  ∀ key j, (s (windowKey key j)).getD 0 = windowCount window log key j

theorem tracksLasting_empty (window : ℤ) : TracksLasting window [] fun _ => none :=
  fun _ _ => rfl

theorem TracksLasting.incr {s : String → Option ℕ} (h : TracksLasting window log s) (clock : ℤ) :
    TracksLasting window (log ++ [⟨key, now⟩])
      (lasting.incr clock (windowKey key (now / window)) s) := by
  intro key' j
  have hcount := h key' j
  rw [windowCount_snoc]
  by_cases hcurrent : windowKey key' j = windowKey key (now / window)
  · obtain ⟨rfl, rfl⟩ := windowKey_injective hcurrent
    rw [← hcount, if_pos ⟨rfl, rfl⟩]
    simp only [lasting, update_self]
    cases s (windowKey key' (now / window)) <;> rfl
  · have hne : ¬ (key = key' ∧ now / window = j) := by
      rintro ⟨rfl, rfl⟩
      exact hcurrent rfl
    rw [if_neg hne, Nat.add_zero, ← hcount]
    simp only [lasting, update_of_ne hcurrent]

/-- Two stores that hold the counts of one log answer alike, and go on to do so. -/
theorem runCalls_expiring_eq_lasting {calls : List RateCall} {s : Counters String}
    {s' : String → Option ℕ} (hW : 1 ≤ window) (hclock : ∀ c ∈ calls, c.executed = c.now)
    (htracks : Tracks window log s) (hcounts : TracksLasting window log s') :
    (runCalls expiring limit window calls s).1 = (runCalls lasting limit window calls s').1 := by
  induction calls generalizing log s s' with
  | nil =>
      rfl
  | cons c calls ih =>
      have hend := now_lt_window_end hW c.now
      have hrest := fun c' hc' => hclock c' (List.mem_cons_of_mem c hc')
      have hreply : (luaScript expiring c.now c.key limit window c.now s).1 =
          (luaScript lasting c.now c.key limit window c.now s').1 := by
        refine luaScript_fst_congr ?_ ?_
        · refine (Tracked.get (htracks c.key _) ?_).trans (hcounts c.key _).symm
          rw [add_mul] at hend ⊢
          omega
        · refine (Tracked.get (htracks c.key _) ?_).trans (hcounts c.key _).symm
          rw [show c.now / window - 1 + 2 = c.now / window + 1 by ring]
          exact hend
      simp only [runCalls, checkRateLimit, hclock c (by simp), hreply]
      refine congrArg (List.cons _) ?_
      rw [luaScript_snd expiring, luaScript_snd lasting, hreply]
      split
      · exact ih hrest (htracks.countCall hW c.key c.now) (hcounts.incr c.now)
      · exact ih hrest htracks hcounts

/--
Expiry is invisible when the clock of Redis agrees with the callers', in
whatever order they come.
-/
theorem expiry_invisible (limit : ℤ) {window : ℤ} (hW : 1 ≤ window) {calls : List RateCall}
    (hclock : ∀ c ∈ calls, c.executed = c.now) :
    (runCalls expiring limit window calls emptyCounters).1 =
      (runCalls lasting limit window calls fun _ => none).1 :=
  runCalls_expiring_eq_lasting hW hclock (tracks_empty window) (tracksLasting_empty window)

/-- At the last call the counter of the first window has expired, and nothing shows it. -/
theorem expiry_invisible_gap :
    let calls : List RateCall :=
      [⟨"rate_limit:a", 59, 59⟩, ⟨"rate_limit:a", 61, 61⟩, ⟨"rate_limit:a", 240, 240⟩]
    expiring.get 240 (runCalls expiring 1 60 calls emptyCounters).2 (windowKey "rate_limit:a" 0) =
        none ∧
      lasting.get 240 (runCalls lasting 1 60 calls fun _ => none).2 (windowKey "rate_limit:a" 0) =
        some 1 ∧
      (runCalls expiring 1 60 calls emptyCounters).1 =
        (runCalls lasting 1 60 calls fun _ => none).1 :=
  ⟨by decide +kernel, by decide +kernel, expiry_invisible 1 (by decide) (by decide)⟩

end Lasting

section Late

/-- Redis runs the calls in this order, none of them late by a window or more. -/
structure InRedisOrder (window : ℤ) (calls : List RateCall) : Prop where
  sorted : calls.Pairwise fun c c' => c.executed ≤ c'.executed
  late : ∀ c ∈ calls, c.now ≤ c.executed ∧ c.executed < c.now + window

/-- The counters of the windows that calls can still be for. -/
def TracksOpen (window clock : ℤ) (log : List (Event String)) (s : Counters String) : Prop :=
  ∀ key j, clock < (j + 2) * window → Tracked window log s key j

theorem TracksOpen.later {clock' : ℤ} {s : Counters String} (h : TracksOpen window clock log s)
    (hclock : clock ≤ clock') : TracksOpen window clock' log s :=
  fun key j hj => h key j (hclock.trans_lt hj)

/-- No window of any client has more than `limit` calls in the log. -/
def WithinLimit (limit window : ℤ) (log : List (Event String)) : Prop :=
  ∀ key j, (windowCount window log key j : ℤ) ≤ limit

theorem WithinLimit.snoc (h : WithinLimit limit window log)
    (hlt : (windowCount window log key (now / window) : ℤ) < limit) :
    WithinLimit limit window (log ++ [⟨key, now⟩]) := by
  intro key' j
  have hold := h key' j
  rw [windowCount_snoc]
  split
  · rename_i hsame
    obtain ⟨rfl, rfl⟩ := hsame
    push_cast
    omega
  · simpa using hold

/-- A script that is not late by a window still finds the counter of its window. -/
theorem late_lt_window_end (hW : 1 ≤ window) (hlate : clock < now + window) :
    clock < (now / window + 2) * window := by
  have hend := now_lt_window_end hW now
  rw [add_mul] at hend ⊢
  omega

theorem TracksOpen.runCalls {calls : List RateCall} {s : Counters String} (hW : 1 ≤ window)
    (hcalls : InRedisOrder window calls) (hstart : ∀ c ∈ calls, clock ≤ c.executed)
    (htracks : TracksOpen window clock log s) (hlimit : WithinLimit limit window log) :
    WithinLimit limit window
      (log ++ admittedCalls (runCalls expiring limit window calls s).1) := by
  induction calls generalizing clock log s with
  | nil =>
      simpa [SmartHttpRequester.runCalls, admittedCalls] using hlimit
  | cons c calls ih =>
      obtain ⟨hfirst, hsorted⟩ := List.pairwise_cons.1 hcalls.sorted
      obtain ⟨hnow, hlate⟩ := hcalls.late c (by simp)
      have hrest : InRedisOrder window calls :=
        ⟨hsorted, fun c' hc' => hcalls.late c' (List.mem_cons_of_mem c hc')⟩
      have hfound := late_lt_window_end hW hlate
      have htracks' := htracks.later (hstart c (by simp))
      have hcount := Tracked.get (htracks' c.key (c.now / window) hfound) hfound
      rw [SmartHttpRequester.runCalls]
      cases hallowed : (luaScript expiring c.executed c.key limit window c.now s).1.allowed with
      | true =>
          have hstore : (luaScript expiring c.executed c.key limit window c.now s).2 =
              countCallAt c.executed c.key (c.now / window) window s := by
            rw [luaScript_snd, hallowed]
            rfl
          have hlt := count_lt_of_allowed hW hallowed
          rw [hcount] at hlt
          have hopen : TracksOpen window c.executed (log ++ [c.event])
              (countCallAt c.executed c.key (c.now / window) window s) := by
            intro key j hj
            refine (htracks' key j hj).countCallAt ?_ fun _ _ => hj
            exact (Int.ediv_mul_le c.now (by omega)).trans hnow
          have hafter := ih hrest hfirst hopen (hlimit.snoc hlt)
          simpa [checkRateLimit, admittedCalls, hallowed, hstore] using hafter
      | false =>
          have hstore : (luaScript expiring c.executed c.key limit window c.now s).2 = s := by
            rw [luaScript_snd, hallowed]
            rfl
          have hafter := ih hrest hfirst htracks' hlimit
          simpa [checkRateLimit, admittedCalls, hallowed, hstore] using hafter

/--
Calls of many callers, run by Redis in any order and each less than a window
late: a window admits at most `limit` of a client.
-/
theorem rateLimit_cap_of_late {limit window : ℤ} (hlimit : 0 ≤ limit) (hW : 1 ≤ window)
    {calls : List RateCall} (hcalls : InRedisOrder window calls) (key : String) (k : ℤ) :
    (admittedIn limit window calls key (k * window) : ℤ) ≤ limit := by
  have hstart : ∃ clock, ∀ c ∈ calls, clock ≤ c.executed := by
    cases calls with
    | nil => exact ⟨0, by simp⟩
    | cons c calls =>
        refine ⟨c.executed, fun c' hc' => ?_⟩
        rcases List.mem_cons.1 hc' with rfl | hc'
        · exact le_rfl
        · exact (List.pairwise_cons.1 hcalls.sorted).1 c' hc'
  obtain ⟨clock, hclock⟩ := hstart
  have hopen : TracksOpen window clock [] emptyCounters := fun key j _ => tracks_empty window key j
  have hcap := hopen.runCalls hW hcalls hclock (fun key j => by simpa [windowCount] using hlimit)
  rw [admittedIn, countIn_mul hW]
  exact hcap key k

/-- Read on two replicas at 59 s and 61 s, run in the opposite order. -/
def reorderedCalls : List RateCall :=
  [⟨"rate_limit:a", 61, 62⟩, ⟨"rate_limit:a", 59, 63⟩, ⟨"rate_limit:a", 58, 64⟩]

/-- One call is admitted in each window, and the late third one is refused. -/
theorem rateLimit_cap_reordered :
    InRedisOrder 60 reorderedCalls ∧
    admittedIn 1 60 reorderedCalls "rate_limit:a" (0 * 60) = 1 ∧
    (admittedIn 1 60 reorderedCalls "rate_limit:a" (0 * 60) : ℤ) ≤ 1 := by
  have hcalls : InRedisOrder 60 reorderedCalls := ⟨by decide, by decide⟩
  exact ⟨hcalls, by decide +kernel,
    rateLimit_cap_of_late (by decide) (by decide) hcalls "rate_limit:a" 0⟩

end Late

end RateLimitExpiry

end SmartHttpRequester
