import SmartHttpRequester.RateLimitWaiting

/-!
# How long an address is kept

The privacy notice promises that an address is kept for two minutes at most,
which is two windows.  The script sets the expiry time of the counter a call is
counted in to two windows from then on, but it does the same with the counter of
the window before, and so keeps that one for longer.

`retained_briefly_iff`: a run keeps the promise exactly if no call that is
admitted finds a counter of the window before.
-/

namespace SmartHttpRequester

open Foundations

section RateLimitRetention

variable {limit window : ℤ} {s : Counters String} {log : List (Event String)}

section Log

/-- The calls that were admitted. -/
def logAfter (limit window : ℤ) (calls : List RateCall) : List (Event String) :=
  admittedCalls (runCalls expiring limit window calls emptyCounters).1

theorem runCalls_append_fst (calls calls' : List RateCall) (s : Counters String) :
    (runCalls expiring limit window (calls ++ calls') s).1 =
      (runCalls expiring limit window calls s).1 ++
        (runCalls expiring limit window calls' (runCalls expiring limit window calls s).2).1 := by
  induction calls generalizing s with
  | nil =>
      rfl
  | cons c calls ih =>
      exact congrArg (List.cons _) (ih _)

theorem admittedCalls_append (results results' : List (RateCall × RateLimitResult)) :
    admittedCalls (results ++ results') = admittedCalls results ++ admittedCalls results' := by
  simp [admittedCalls]

theorem logAfter_append (calls calls' : List RateCall) :
    logAfter limit window (calls ++ calls') =
      logAfter limit window calls ++ admittedCalls
        (runCalls expiring limit window calls' (storeAfter limit window calls)).1 := by
  rw [logAfter, runCalls_append_fst, admittedCalls_append]
  rfl

theorem logAfter_snoc (calls : List RateCall) (c : RateCall) :
    logAfter limit window (calls ++ [c]) =
      if scriptTotal expiring c.executed c.key window c.now (storeAfter limit window calls) < limit
      then logAfter limit window calls ++ [c.event]
      else logAfter limit window calls := by
  rw [logAfter_append, runCalls, runCalls, checkRateLimit, luaScript_eq]
  by_cases hfree : scriptTotal expiring c.executed c.key window c.now
      (storeAfter limit window calls) < limit
  · rw [if_neg (not_le.2 hfree), if_pos hfree]
    rfl
  · rw [if_pos (not_lt.1 hfree), if_neg hfree]
    exact List.append_nil _

theorem storeAfter_snoc (calls : List RateCall) (c : RateCall) :
    storeAfter limit window (calls ++ [c]) =
      if scriptTotal expiring c.executed c.key window c.now (storeAfter limit window calls) < limit
      then countCallAt c.executed c.key (c.now / window) window (storeAfter limit window calls)
      else storeAfter limit window calls := by
  rw [storeAfter, runCalls_append, runCalls, runCalls, checkRateLimit, luaScript_eq, ← storeAfter]
  by_cases hfree : scriptTotal expiring c.executed c.key window c.now
      (storeAfter limit window calls) < limit
  · rw [if_neg (not_le.2 hfree), if_pos hfree]
  · rw [if_pos (not_lt.1 hfree), if_neg hfree]

end Log

section Promise

/-- The calls made until a time. -/
def callsUntil (T : ℤ) (calls : List RateCall) : List RateCall :=
  calls.filter fun c => c.now ≤ T

/-- At every time, every counter that is there counts an admitted call less than two windows old. -/
def RetainedBriefly (limit window : ℤ) (calls : List RateCall) : Prop :=
  ∀ (T : ℤ) (k : String), (storeAfter limit window (callsUntil T calls)).find T k ≠ none →
    ∃ e ∈ logAfter limit window (callsUntil T calls),
      windowKey e.key (e.time / window) = k ∧ T - 2 * window < e.time

/-- No call is admitted that finds a counter of its client for the window before. -/
def NoAdjacentWindows (limit window : ℤ) (calls : List RateCall) : Prop :=
  ∀ before c after, calls = before ++ c :: after →
    scriptTotal expiring c.executed c.key window c.now (storeAfter limit window before) < limit →
    expiring.get c.executed (storeAfter limit window before)
      (windowKey c.key (c.now / window - 1)) = none

theorem callsUntil_prefix {calls : List RateCall} (T : ℤ)
    (hsorted : calls.Pairwise fun c c' => c.now ≤ c'.now) :
    ∃ after, calls = callsUntil T calls ++ after := by
  induction calls with
  | nil =>
      exact ⟨[], rfl⟩
  | cons c calls ih =>
      obtain ⟨hfirst, hrest⟩ := List.pairwise_cons.1 hsorted
      by_cases hc : c.now ≤ T
      · obtain ⟨after, hafter⟩ := ih hrest
        refine ⟨after, ?_⟩
        rw [callsUntil, List.filter_cons_of_pos (by simpa using hc), List.cons_append]
        exact congrArg (List.cons c) hafter
      · refine ⟨c :: calls, ?_⟩
        have hnone : callsUntil T (c :: calls) = [] := by
          refine List.filter_eq_nil_iff.2 fun c' hc' => ?_
          rcases List.mem_cons.1 hc' with rfl | hc'
          · simpa using hc
          · have := hfirst c' hc'
            simp only [decide_eq_true_eq]
            omega
        rw [hnone, List.nil_append]

theorem NoAdjacentWindows.of_append {calls after : List RateCall}
    (h : NoAdjacentWindows limit window (calls ++ after)) : NoAdjacentWindows limit window calls :=
  fun before c rest heq => h before c (rest ++ after) (by rw [heq]; simp)

/-- Every stored counter expires two windows after a call that it counts. -/
def FreshlyCounted (window : ℤ) (log : List (Event String)) (s : Counters String) : Prop :=
  ∀ k c, s k = some c →
    ∃ e ∈ log, windowKey e.key (e.time / window) = k ∧ c.expiresAt = some (e.time + window * 2)

theorem FreshlyCounted.countCallAt {key : String} {now : ℤ} (h : FreshlyCounted window log s)
    (hprevious : expiring.get now s (windowKey key (now / window - 1)) = none) :
    FreshlyCounted window (log ++ [⟨key, now⟩])
      (countCallAt now key (now / window) window s) := by
  intro k c hk
  have hne := windowKey_pred_ne key (now / window)
  by_cases hcurrent : k = windowKey key (now / window)
  · subst hcurrent
    rw [SmartHttpRequester.countCallAt, Counters.expire_other hne.symm] at hk
    exact ⟨⟨key, now⟩, by simp, rfl, Counters.expiresAt_of_expire hk⟩
  · by_cases hbefore : k = windowKey key (now / window - 1)
    · subst hbefore
      have hother : ((s.incr now (windowKey key (now / window))).expire now
          (windowKey key (now / window)) (window * 2)) (windowKey key (now / window - 1)) =
          s (windowKey key (now / window - 1)) := by
        rw [Counters.expire_other hne, Counters.incr_other hne]
      rw [SmartHttpRequester.countCallAt, Counters.expire_of_get_eq_none
        ((Counters.get_congr hother).trans hprevious)] at hk
      cases hk
    · rw [countCallAt_other hcurrent hbefore] at hk
      obtain ⟨e, he, hkey, hexpires⟩ := h k c hk
      exact ⟨e, List.mem_append_left _ he, hkey, hexpires⟩

/-- As long as no admitted call finds a counter of the window before. -/
theorem freshlyCounted_storeAfter {calls : List RateCall}
    (hclock : ∀ c ∈ calls, c.executed = c.now) (h : NoAdjacentWindows limit window calls) :
    FreshlyCounted window (logAfter limit window calls) (storeAfter limit window calls) := by
  induction calls using List.reverseRecOn with
  | nil =>
      intro k c hk
      cases hk
  | append_singleton calls c ih =>
      have hbefore := ih (fun c' hc' => hclock c' (List.mem_append_left _ hc')) h.of_append
      have hnow := hclock c (by simp)
      have hnone := h calls c [] rfl
      rw [logAfter_snoc, storeAfter_snoc]
      split
      · rename_i hfree
        have hprevious := hnone hfree
        rw [hnow] at hprevious ⊢
        exact hbefore.countCallAt hprevious
      · exact hbefore

end Promise

section Refreshed

/-- A counter is kept by calls that come after its window and before it expires. -/
theorem holds_runCalls {key : String} {j t : ℤ} {n : ℕ} {calls : List RateCall}
    (hs : s.Holds (windowKey key j) n t)
    (hcalls : ∀ c ∈ calls, j < c.now / window ∧ c.executed < t ∧ t ≤ c.executed + window * 2) :
    (runCalls expiring limit window calls s).2.Holds (windowKey key j) n t := by
  induction calls generalizing s with
  | nil =>
      exact hs
  | cons c calls ih =>
      refine ih ?_ fun c' hc' => hcalls c' (List.mem_cons_of_mem c hc')
      obtain ⟨hwindow, hlive, hrefresh⟩ := hcalls c (by simp)
      rw [checkRateLimit, luaScript_store]
      split
      · have hcurrent : windowKey key j ≠ windowKey c.key (c.now / window) := by
          intro h
          have := (windowKey_injective h).2
          omega
        have hincr : ((s.incr c.executed (windowKey c.key (c.now / window))).expire c.executed
            (windowKey c.key (c.now / window)) (window * 2)).Holds (windowKey key j) n t := by
          refine (Counters.holds_congr ?_).2 hs
          rw [Counters.expire_other hcurrent, Counters.incr_other hcurrent]
        by_cases hprevious : windowKey key j = windowKey c.key (c.now / window - 1)
        · rw [countCallAt, ← hprevious]
          exact Counters.holds_expire hincr hlive hrefresh
        · exact (Counters.holds_congr (Counters.expire_other hprevious (window * 2))).2 hincr
      · exact hs

/-- An admitted call that finds a counter of the window before keeps it for two windows more. -/
theorem holds_previous {calls after : List RateCall} {c : RateCall} {n : ℕ} {T : ℤ}
    (hW : 1 ≤ window) (hclock : ∀ c' ∈ c :: after, c'.executed = c'.now)
    (hafter : ∀ c' ∈ after, c.now ≤ c'.now ∧ c'.now ≤ T) (hT : T < c.now + window * 2)
    (hfree : scriptTotal expiring c.executed c.key window c.now (storeAfter limit window calls) <
      limit)
    (hfound : expiring.get c.executed (storeAfter limit window calls)
      (windowKey c.key (c.now / window - 1)) = some n) :
    (storeAfter limit window (calls ++ c :: after)).Holds (windowKey c.key (c.now / window - 1)) n
      (c.now + window * 2) := by
  have hne := windowKey_pred_ne c.key (c.now / window)
  have hother : (((storeAfter limit window calls).incr c.executed
      (windowKey c.key (c.now / window))).expire c.executed (windowKey c.key (c.now / window))
      (window * 2)) (windowKey c.key (c.now / window - 1)) =
      storeAfter limit window calls (windowKey c.key (c.now / window - 1)) := by
    rw [Counters.expire_other hne, Counters.incr_other hne]
  have hrefreshed : (storeAfter limit window (calls ++ [c])).Holds
      (windowKey c.key (c.now / window - 1)) n (c.now + window * 2) := by
    have hnow : c.now + window * 2 = c.executed + window * 2 := by
      rw [hclock c (by simp)]
    rw [storeAfter_snoc, if_pos hfree, countCallAt, hnow]
    exact Counters.holds_expire_of_get ((Counters.get_congr hother).trans hfound)
  rw [show calls ++ c :: after = (calls ++ [c]) ++ after by simp, storeAfter, runCalls_append]
  refine holds_runCalls hrefreshed fun c' hc' => ?_
  obtain ⟨hlo, hhi⟩ := hafter c' hc'
  have hwindow : c.now / window ≤ c'.now / window := Int.ediv_le_ediv (by omega) hlo
  rw [hclock c' (List.mem_cons_of_mem c hc')]
  omega

/--
A run keeps every counter for less than two windows after a call it counts, if
and only if no admitted call finds a counter of its client for the window before.
-/
theorem retained_briefly_iff {limit window : ℤ} (hW : 1 ≤ window) {calls : List RateCall}
    (hcalls : InOrder calls) :
    RetainedBriefly limit window calls ↔ NoAdjacentWindows limit window calls := by
  constructor
  · intro hretained before c after heq hfree
    by_contra hfound
    obtain ⟨n, hn⟩ := Option.ne_none_iff_exists'.1 hfound
    -- the last second at which the counter is still there
    obtain ⟨T, hT⟩ : ∃ T, T = c.now + window * 2 - 1 := ⟨_, rfl⟩
    have hsorted := hcalls.sorted
    rw [heq, List.pairwise_append] at hsorted
    have hlater := (List.pairwise_cons.1 hsorted.2.1).1
    have huntil : callsUntil T calls = before ++ c :: callsUntil T after := by
      have hbefore : ∀ c' ∈ before, c'.now ≤ T := fun c' hc' =>
        (hsorted.2.2 c' hc' c (by simp)).trans (by omega)
      rw [heq, callsUntil, List.filter_append,
        List.filter_eq_self.2 fun c' hc' => by simpa using hbefore c' hc',
        List.filter_cons_of_pos (by simp; omega)]
      rfl
    have hclock : ∀ c' ∈ c :: callsUntil T after, c'.executed = c'.now := by
      intro c' hc'
      refine hcalls.clock c' ?_
      rw [heq]
      rcases List.mem_cons.1 hc' with rfl | hc'
      · simp
      · exact List.mem_append_right _ (List.mem_cons_of_mem _ (List.mem_filter.1 hc').1)
    have hholds := holds_previous hW hclock
      (fun c' hc' => ⟨hlater c' (List.mem_filter.1 hc').1, by simpa using (List.mem_filter.1 hc').2⟩)
      (by omega) hfree hn
    obtain ⟨x, hfind, -⟩ := Counters.find_of_holds hholds (show T < c.now + window * 2 by omega)
    obtain ⟨e, he, hkey, hrecent⟩ := hretained T _ (by rw [huntil, hfind]; simp)
    obtain ⟨-, hwindow⟩ := windowKey_injective hkey
    have hnow := Int.ediv_mul_le c.now (show window ≠ 0 by omega)
    have hend := now_lt_window_end hW e.time
    rw [hwindow, sub_add_cancel] at hend
    omega
  · intro hnone T k hfound
    obtain ⟨after, hafter⟩ := callsUntil_prefix T hcalls.sorted
    have hnone' : NoAdjacentWindows limit window (callsUntil T calls) := by
      rw [hafter] at hnone
      exact hnone.of_append
    have hclock : ∀ c ∈ callsUntil T calls, c.executed = c.now :=
      fun c hc => hcalls.clock c (List.mem_filter.1 hc).1
    obtain ⟨c, hc⟩ := Option.ne_none_iff_exists'.1 hfound
    obtain ⟨hstored, hlive⟩ := Counters.find_eq_some.1 hc
    obtain ⟨e, he, hkey, hexpires⟩ := freshlyCounted_storeAfter hclock hnone' k c hstored
    refine ⟨e, he, hkey, ?_⟩
    simp only [Counter.live, hexpires, Option.all_some, decide_eq_true_eq] at hlive
    omega

/-- Two calls keep the promise or not as their windows are apart or adjacent. -/
theorem retained_briefly_iff_gap :
    RetainedBriefly 2 60 [callOfA 0, callOfA 130] ∧
      ¬ RetainedBriefly 2 60 [callOfA 0, callOfA 119] := by
  constructor
  · refine (retained_briefly_iff (by decide) ⟨by decide, by decide⟩).2 fun before c after heq _ => ?_
    rcases before with _ | ⟨b, _ | ⟨b', before⟩⟩
    · cases heq
      decide +kernel
    · cases heq
      decide +kernel
    · simp at heq
  · intro hretained
    have hnone := (retained_briefly_iff (by decide) ⟨by decide, by decide⟩).1 hretained
      [callOfA 0] (callOfA 119) [] rfl (by decide +kernel)
    revert hnone
    decide +kernel

/-- Calls at 0 s and at 119 s: at 200 s the counter of the first minute is still there. -/
theorem not_retained_briefly :
    ¬ ∀ (limit window : ℤ) (calls : List RateCall), 1 ≤ window → InOrder calls →
      RetainedBriefly limit window calls := by
  intro h
  have hkept := h 2 60 [callOfA 0, callOfA 119] (by decide) ⟨by decide, by decide⟩ 200
    (windowKey "rate_limit:a" 0) (by decide +kernel)
  revert hkept
  decide +kernel

end Refreshed

end RateLimitRetention

end SmartHttpRequester
