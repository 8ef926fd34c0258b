import Mathlib.Algebra.Order.Field.Rat
import Mathlib.Tactic

/-!
# The two-counter sliding window

Events of a client are counted per window of length `W`.  An event is admitted
if the count of its window, plus the count of the window before weighted by the
part of that window that is less than `W` old, is below the limit.

The counters forget when in its window an event happened, so an interval that is
not aligned with the windows can hold more than `limit` admitted events.
`admittedIn_le` gives the exact bound `burst limit W a` for the interval
`[a, a + W)`, and `exists_admittedIn_eq` says that it is attained.
-/

namespace Foundations

section SlidingWindow

variable {κ : Type} [DecidableEq κ]

structure Event (κ : Type) where
  key : κ
  time : ℤ
deriving DecidableEq

/-- How many events of a client a log has in one window. -/
def windowCount (W : ℤ) (log : List (Event κ)) (k : κ) (j : ℤ) : ℕ :=
  log.countP fun e => e.key = k ∧ e.time / W = j

/-- The part of the window before that is less than `W` old at a time. -/
def windowWeight (W t : ℤ) : ℚ :=
  1 - (t % W : ℤ) / W

def weightedTotal (W : ℤ) (log : List (Event κ)) (k : κ) (t : ℤ) : ℚ :=
  windowCount W log k (t / W) + windowCount W log k (t / W - 1) * windowWeight W t

/-- The log after an event: with it if it is admitted. -/
def record (limit W : ℤ) (log : List (Event κ)) (e : Event κ) : List (Event κ) :=
  if weightedTotal W log e.key e.time < limit then log ++ [e] else log

/-- The admitted ones of a list of events. -/
def admitted (limit W : ℤ) (events : List (Event κ)) : List (Event κ) :=
  events.foldl (record limit W) []

/-- How many events of a client a log has in `[a, a + W)`. -/
def countIn (W a : ℤ) (log : List (Event κ)) (k : κ) : ℕ :=
  log.countP fun e => e.key = k ∧ a ≤ e.time ∧ e.time < a + W

/-- The most that can be admitted in `[a, a + W)`. -/
def burst (limit W a : ℤ) : ℤ :=
  if a % W = 0 then limit else 2 * limit - limit * (W - a % W + 1) / W

variable {limit W a : ℤ} {log : List (Event κ)} {k : κ} {j : ℤ} {e : Event κ}

section Counts

theorem admitted_snoc (events : List (Event κ)) (e : Event κ) :
    admitted limit W (events ++ [e]) = record limit W (admitted limit W events) e := by
  simp [admitted, List.foldl_append]

theorem windowCount_snoc :
    windowCount W (log ++ [e]) k j =
      windowCount W log k j + if e.key = k ∧ e.time / W = j then 1 else 0 := by
  simp [windowCount, List.countP_append, List.countP_singleton]

theorem countIn_snoc :
    countIn W a (log ++ [e]) k =
      countIn W a log k + if e.key = k ∧ a ≤ e.time ∧ e.time < a + W then 1 else 0 := by
  simp [countIn, List.countP_append, List.countP_singleton]

/-- Admission without fractions. -/
theorem weightedTotal_lt_iff (hW : 1 ≤ W) (t : ℤ) :
    weightedTotal W log k t < limit ↔
      windowCount W log k (t / W) * W +
        windowCount W log k (t / W - 1) * (W - t % W) < limit * W := by
  have hpos : (0 : ℚ) < W := by exact_mod_cast hW
  have hscaled : weightedTotal W log k t * W =
      ((windowCount W log k (t / W) * W +
        windowCount W log k (t / W - 1) * (W - t % W) : ℤ) : ℚ) := by
    simp only [weightedTotal, windowWeight]
    push_cast
    field_simp
  rw [← mul_lt_mul_iff_left₀ hpos, hscaled]
  exact_mod_cast Iff.rfl

/-- So the count of a window never exceeds the limit. -/
theorem windowCount_lt_of_admits (hW : 1 ≤ W) {t : ℤ} (h : weightedTotal W log k t < limit) :
    (windowCount W log k (t / W) : ℤ) < limit := by
  rw [weightedTotal_lt_iff hW] at h
  have hweight : 0 ≤ (windowCount W log k (t / W - 1) : ℤ) * (W - t % W) :=
    mul_nonneg (by omega) (by have := Int.emod_lt_of_pos t (show 0 < W by omega); omega)
  by_contra hge
  have hmul : limit * W ≤ windowCount W log k (t / W) * W :=
    mul_le_mul_of_nonneg_right (by omega) (by omega)
  omega

end Counts

section Decay

variable {counts counts' : ℤ → ℕ} {t t' : ℤ}

/-- The estimate from two counters, whatever they count. -/
def estimate (W : ℤ) (counts : ℤ → ℕ) (t : ℤ) : ℚ :=
  counts (t / W) + counts (t / W - 1) * windowWeight W t

theorem windowWeight_nonneg (hW : 1 ≤ W) (t : ℤ) : 0 ≤ windowWeight W t := by
  have hpos : (0 : ℚ) < W := by exact_mod_cast hW
  have helapsed : ((t % W : ℤ) : ℚ) ≤ W := by
    exact_mod_cast (Int.emod_lt_of_pos t (show 0 < W by omega)).le
  rw [windowWeight, sub_nonneg, div_le_one hpos]
  exact helapsed

theorem windowWeight_le_one (hW : 1 ≤ W) (t : ℤ) : windowWeight W t ≤ 1 := by
  have hpos : (0 : ℚ) ≤ W := by exact_mod_cast (show 0 ≤ W by omega)
  have helapsed : (0 : ℚ) ≤ ((t % W : ℤ) : ℚ) := by
    exact_mod_cast Int.emod_nonneg t (by omega)
  have := div_nonneg helapsed hpos
  rw [windowWeight]
  linarith

/-- Only the first moment of a window weighs the window before in full. -/
theorem windowWeight_lt_one (hW : 1 ≤ W) (ht : t % W ≠ 0) : windowWeight W t < 1 := by
  have hpos : (0 : ℚ) < W := by exact_mod_cast hW
  have helapsed : (0 : ℚ) < ((t % W : ℤ) : ℚ) := by
    have := Int.emod_nonneg t (show W ≠ 0 by omega)
    exact_mod_cast (show 0 < t % W by omega)
  have := div_pos helapsed hpos
  rw [windowWeight]
  linarith

theorem windowWeight_anti (hW : 1 ≤ W) (h : t ≤ t') (hsame : t' / W = t / W) :
    windowWeight W t' ≤ windowWeight W t := by
  have hpos : (0 : ℚ) < W := by exact_mod_cast hW
  have helapsed : ((t % W : ℤ) : ℚ) ≤ ((t' % W : ℤ) : ℚ) := by
    have ht := Int.mul_ediv_add_emod t W
    have ht' := Int.mul_ediv_add_emod t' W
    rw [hsame] at ht'
    exact_mod_cast (show t % W ≤ t' % W by omega)
  have := div_le_div_of_nonneg_right helapsed hpos.le
  rw [windowWeight, windowWeight]
  linarith

theorem estimate_nonneg (hW : 1 ≤ W) : 0 ≤ estimate W counts t :=
  add_nonneg (Nat.cast_nonneg _) (mul_nonneg (Nat.cast_nonneg _) (windowWeight_nonneg hW t))

theorem estimate_mono (hW : 1 ≤ W) (h : ∀ j, counts j ≤ counts' j) :
    estimate W counts t ≤ estimate W counts' t := by
  have hcurrent : (counts (t / W) : ℚ) ≤ counts' (t / W) := by exact_mod_cast h _
  have hprevious : (counts (t / W - 1) : ℚ) ≤ counts' (t / W - 1) := by exact_mod_cast h _
  exact add_le_add hcurrent
    (mul_le_mul_of_nonneg_right hprevious (windowWeight_nonneg hW t))

/-- Without new events the estimate falls, across any number of windows. -/
theorem estimate_anti (hW : 1 ≤ W) (h : t ≤ t') (hlater : ∀ j, t / W < j → counts j = 0) :
    estimate W counts t' ≤ estimate W counts t := by
  have hwindow : t / W ≤ t' / W := Int.ediv_le_ediv (by omega) h
  have hweight := windowWeight_nonneg hW t
  have hprevious : (0 : ℚ) ≤ counts (t / W - 1) * windowWeight W t :=
    mul_nonneg (Nat.cast_nonneg _) hweight
  rcases Int.lt_or_eq_of_le hwindow with hnext | hsame
  · -- a later window: its own counter is zero, and the one before is not above the old current one
    have hle : (counts (t' / W - 1) : ℚ) ≤ counts (t / W) := by
      rcases Int.lt_or_eq_of_le (show t / W ≤ t' / W - 1 by omega) with hfar | hnear
      · rw [hlater _ hfar, Nat.cast_zero]
        exact Nat.cast_nonneg _
      · rw [← hnear]
    have hfull : (counts (t' / W - 1) : ℚ) * windowWeight W t' ≤ counts (t' / W - 1) :=
      mul_le_of_le_one_right (Nat.cast_nonneg _) (windowWeight_le_one hW t')
    rw [estimate, estimate, hlater _ hnext, Nat.cast_zero]
    linarith
  · rw [estimate, estimate, ← hsame]
    exact add_le_add le_rfl (mul_le_mul_of_nonneg_left (windowWeight_anti hW h hsame.symm)
      (Nat.cast_nonneg _))

end Decay

section Bound

theorem windowCount_le (hW : 1 ≤ W) (hlimit : 0 ≤ limit) (events : List (Event κ)) (k : κ)
    (j : ℤ) :
    (windowCount W (admitted limit W events) k j : ℤ) ≤ limit := by
  induction events using List.reverseRecOn with
  | nil =>
      simpa [admitted, windowCount] using hlimit
  | append_singleton events e ih =>
      rw [admitted_snoc, record]
      split
      · rename_i hadmits
        rw [windowCount_snoc]
        split
        · rename_i he
          obtain ⟨rfl, rfl⟩ := he
          have hlt := windowCount_lt_of_admits hW hadmits
          push_cast
          omega
        · simpa using ih
      · exact ih

theorem mem_of_mem_admitted {events : List (Event κ)} (h : e ∈ admitted limit W events) :
    e ∈ events := by
  induction events using List.reverseRecOn with
  | nil =>
      cases h
  | append_singleton events e' ih =>
      rw [admitted_snoc, record] at h
      split at h
      · rcases List.mem_append.1 h with hold | hnew
        · exact List.mem_append_left _ (ih hold)
        · exact List.mem_append_right _ hnew
      · exact List.mem_append_left _ (ih h)

theorem window_of_mem (hW : 1 ≤ W) {t : ℤ} (hlo : a ≤ t) (hhi : t < a + W) :
    t / W = a / W ∨ t / W = a / W + 1 := by
  have hle : a / W ≤ t / W := Int.ediv_le_ediv (by omega) hlo
  have hge : t / W ≤ (a + 1 * W) / W := Int.ediv_le_ediv (by omega) (by omega)
  rw [Int.add_mul_ediv_right _ _ (by omega)] at hge
  omega

/-- In the second window an event of the interval comes earlier than the interval's start. -/
theorem second_window_offset {t : ℤ} (hhi : t < a + W) (hwindow : t / W = a / W + 1) :
    t % W < a % W := by
  have ht := Int.mul_ediv_add_emod t W
  have ha := Int.mul_ediv_add_emod a W
  rw [hwindow, mul_add, mul_one] at ht
  omega

theorem countIn_le (hW : 1 ≤ W) (log : List (Event κ)) (k : κ) (a : ℤ) :
    countIn W a log k ≤ windowCount W log k (a / W) + windowCount W log k (a / W + 1) := by
  induction log using List.reverseRecOn with
  | nil =>
      simp [countIn]
  | append_singleton log e ih =>
      rw [countIn_snoc, windowCount_snoc, windowCount_snoc]
      by_cases he : e.key = k ∧ a ≤ e.time ∧ e.time < a + W
      · rcases window_of_mem hW he.2.1 he.2.2 with h | h
        · simp only [he, h, and_self, if_true]
          omega
        · simp only [he, h, and_self, if_true]
          omega
      · rw [if_neg he]
        omega

/-- An interval that begins with a window is the window. -/
theorem countIn_mul (hW : 1 ≤ W) (log : List (Event κ)) (k : κ) (j : ℤ) :
    countIn W (j * W) log k = windowCount W log k j := by
  refine List.countP_congr fun e _ => ?_
  have hiff : e.time / W = j ↔ j * W ≤ e.time ∧ e.time < j * W + W :=
    Int.ediv_eq_iff_of_pos (by omega)
  simp [hiff]

/-- Before the second window has begun, only the first one counts. -/
theorem windowCount_eq_zero (hW : 1 ≤ W) {t : ℤ} (hlog : ∀ e ∈ log, e.time ≤ t)
    (hj : t / W < j) :
    windowCount W log k j = 0 := by
  rw [windowCount, List.countP_eq_zero]
  intro e he
  have hle : e.time / W ≤ t / W := Int.ediv_le_ediv (by omega) (hlog e he)
  simp only [decide_eq_true_eq, not_and]
  omega

/-- The arithmetic of the bound: `c` and `p` are the counts, `s` the time into the window. -/
theorem burst_of_admits {c p r s : ℤ} (hW : 1 ≤ W) (hp : 0 ≤ p) (hplimit : p ≤ limit)
    (hr : 1 ≤ r) (hs : s < r) (hadmits : c * W + p * (W - s) < limit * W) :
    p + c + 1 ≤ 2 * limit - limit * (W - r + 1) / W := by
  have hprevious : p * (W - r + 1) ≤ p * (W - s) := mul_le_mul_of_nonneg_left (by omega) hp
  have hrest : (limit - p) * (W - r + 1) ≤ (limit - p) * W :=
    mul_le_mul_of_nonneg_left (by omega) (by omega)
  have hlt : limit * (W - r + 1) < (2 * limit - p - c) * W := by
    calc
      limit * (W - r + 1) = p * (W - r + 1) + (limit - p) * (W - r + 1) := by ring
      _ ≤ p * (W - s) + (limit - p) * W := add_le_add hprevious hrest
      _ < (limit * W - c * W) + (limit - p) * W := by omega
      _ = (2 * limit - p - c) * W := by ring
  have hdiv := Int.ediv_lt_of_lt_mul (by omega) hlt
  omega

theorem limit_le_burst (hW : 1 ≤ W) (hlimit : 0 ≤ limit) :
    limit ≤ burst limit W a := by
  unfold burst
  split
  · exact le_rfl
  · rename_i hr
    have hpos : 0 ≤ a % W := Int.emod_nonneg a (by omega)
    have hmul : limit * (W - a % W + 1) ≤ limit * W :=
      mul_le_mul_of_nonneg_left (by omega) hlimit
    have hdiv : limit * (W - a % W + 1) / W ≤ limit * W / W :=
      Int.ediv_le_ediv (by omega) hmul
    rw [Int.mul_ediv_cancel _ (by omega)] at hdiv
    omega

/-- In every interval of length `W` at most `burst` events of a client are admitted. -/
theorem admittedIn_le (hW : 1 ≤ W) (hlimit : 0 ≤ limit) {events : List (Event κ)}
    (hsorted : events.Pairwise fun e e' => e.time ≤ e'.time) (k : κ) (a : ℤ) :
    (countIn W a (admitted limit W events) k : ℤ) ≤ burst limit W a := by
  induction events using List.reverseRecOn with
  | nil =>
      exact (Int.natCast_nonneg _).trans (hlimit.trans (limit_le_burst hW hlimit))
  | append_singleton events e ih =>
      rw [List.pairwise_append] at hsorted
      have hearlier : ∀ e' ∈ admitted limit W events, e'.time ≤ e.time :=
        fun e' he' => hsorted.2.2 e' (mem_of_mem_admitted he') e (by simp)
      have hcount := windowCount_le hW hlimit events k (a / W)
      rw [admitted_snoc, record]
      split
      · rename_i hadmits
        rw [countIn_snoc]
        split
        · -- the event is admitted and in the interval
          rename_i he
          obtain ⟨rfl, hlo, hhi⟩ := he
          have hle := countIn_le hW (admitted limit W events) e.key a
          rcases window_of_mem hW hlo hhi with hwindow | hwindow
          · have hlt := windowCount_lt_of_admits hW hadmits
            rw [hwindow] at hlt
            have hzero : windowCount W (admitted limit W events) e.key (a / W + 1) = 0 :=
              windowCount_eq_zero hW hearlier (by omega)
            have hburst := limit_le_burst (a := a) hW hlimit
            push_cast
            omega
          · have hoffset := second_window_offset (W := W) hhi hwindow
            rw [weightedTotal_lt_iff hW, hwindow, add_sub_cancel_right] at hadmits
            have hstart : 0 ≤ e.time % W := Int.emod_nonneg _ (by omega)
            rw [burst, if_neg (by omega)]
            have hbound :=
              burst_of_admits hW (Int.natCast_nonneg _) hcount (by omega) hoffset hadmits
            push_cast
            omega
        · simpa using ih hsorted.1
      · exact ih hsorted.1

end Bound

section Attained

theorem foldl_record_replicate (hW : 1 ≤ W) {m : ℕ}
    (h : ∀ i : ℕ, i < m → (windowCount W log e.key (e.time / W) + i : ℤ) * W +
      windowCount W log e.key (e.time / W - 1) * (W - e.time % W) < limit * W) :
    (List.replicate m e).foldl (record limit W) log = log ++ List.replicate m e := by
  induction m generalizing log with
  | zero =>
      simp
  | succ m ih =>
      have hadmits : weightedTotal W log e.key e.time < limit := by
        rw [weightedTotal_lt_iff hW]
        simpa using h 0 (by omega)
      have hrest : (List.replicate m e).foldl (record limit W) (log ++ [e]) =
          (log ++ [e]) ++ List.replicate m e := by
        refine ih fun i hi => ?_
        have hnext := h (i + 1) (by omega)
        rw [windowCount_snoc, windowCount_snoc, if_pos ⟨rfl, rfl⟩, if_neg (by omega)]
        push_cast at hnext ⊢
        rw [add_zero, add_right_comm, add_assoc]
        exact hnext
      rw [List.replicate_succ, List.foldl_cons, record, if_pos hadmits, hrest]
      simp

/-- A full window: the limit is admitted at any one time. -/
theorem admitted_replicate (hW : 1 ≤ W) (n : ℕ) (e : Event κ) :
    admitted n W (List.replicate n e) = List.replicate n e := by
  refine (foldl_record_replicate hW fun i hi => ?_).trans (List.nil_append _)
  simp only [windowCount, List.countP_nil, Nat.cast_zero, zero_add, zero_mul, add_zero]
  exact mul_lt_mul_of_pos_right (by exact_mod_cast hi) (by omega)

theorem countIn_replicate (m : ℕ) (hk : e.key = k) (hlo : a ≤ e.time) (hhi : e.time < a + W) :
    countIn W a (List.replicate m e) k = m := by
  simp [countIn, List.countP_replicate, hk, hlo, hhi]

theorem windowCount_replicate (m : ℕ) (hk : e.key = k) (j : ℤ) :
    windowCount W (List.replicate m e) k j = if e.time / W = j then m else 0 := by
  simp [windowCount, List.countP_replicate, hk]

/-- The last moment of the interval admits what the full window before it leaves. -/
theorem admits_last {n m i : ℕ} {r : ℤ} (hW : 0 < W) (hi : i < m)
    (hm : (n : ℤ) - n * (W - r + 1) / W = m) :
    ((0 : ℕ) + i : ℤ) * W + n * (W - (r - 1)) < n * W := by
  have hlt : (n : ℤ) * (W - r + 1) < (n * (W - r + 1) / W + 1) * W :=
    Int.lt_ediv_add_one_mul_self _ hW
  have hle : (n * (W - r + 1) / W + 1 : ℤ) * W ≤ (n - i) * W :=
    mul_le_mul_of_nonneg_right (by omega) hW.le
  have hexpand : ((n : ℤ) - i) * W = n * W - i * W := by ring
  have hcast : ((0 : ℕ) + i : ℤ) * W + n * (W - (r - 1)) = i * W + n * (W - r + 1) := by
    push_cast
    ring
  rw [hcast]
  omega

/-- The bound is attained in every interval. -/
theorem exists_admittedIn_eq (hW : 1 ≤ W) (hlimit : 0 ≤ limit) (k : κ) (a : ℤ) :
    ∃ events : List (Event κ),
      (events.Pairwise fun e e' => e.time ≤ e'.time) ∧
      (countIn W a (admitted limit W events) k : ℤ) = burst limit W a := by
  obtain ⟨n, rfl⟩ := Int.eq_ofNat_of_zero_le hlimit
  have hstart : 0 ≤ a % W := Int.emod_nonneg a (by omega)
  have hend : a % W < W := Int.emod_lt_of_pos a (by omega)
  by_cases hr : a % W = 0
  · -- an aligned interval: fill its window
    refine ⟨List.replicate n ⟨k, a⟩, List.pairwise_replicate_of_refl, ?_⟩
    have hcount : countIn W a (List.replicate n ⟨k, a⟩) k = n :=
      countIn_replicate n rfl le_rfl (show a < a + W by omega)
    rw [admitted_replicate hW, hcount, burst, if_pos hr]
  · -- fill the first window at its end, and wait for the last moment of the interval
    have hsplit := Int.mul_ediv_add_emod a W
    have hfirst : (a + (W - a % W) - 1) / W = a / W :=
      ((Int.ediv_emod_unique (r := W - 1) (by omega)).2 ⟨by omega, by omega, by omega⟩).1
    have hlast : (a + W - 1) / W = a / W + 1 ∧ (a + W - 1) % W = a % W - 1 := by
      refine (Int.ediv_emod_unique (by omega)).2 ⟨?_, by omega, by omega⟩
      rw [mul_add, mul_one]
      omega
    have hfloor : (n : ℤ) * (W - a % W + 1) / W ≤ n := by
      have := limit_le_burst (a := a) hW hlimit
      rw [burst, if_neg hr] at this
      omega
    obtain ⟨m, hm⟩ := Int.eq_ofNat_of_zero_le (sub_nonneg.2 hfloor)
    have hsecond : (List.replicate m ⟨k, a + W - 1⟩).foldl (record n W)
        (List.replicate n ⟨k, a + (W - a % W) - 1⟩) =
        List.replicate n ⟨k, a + (W - a % W) - 1⟩ ++ List.replicate m ⟨k, a + W - 1⟩ := by
      refine foldl_record_replicate hW fun i hi => ?_
      simp only [hlast]
      rw [windowCount_replicate n rfl, windowCount_replicate n rfl, hfirst, if_neg (by omega),
        if_pos (by omega)]
      exact admits_last (by omega) hi hm
    have hcount : countIn W a (List.replicate n ⟨k, a + (W - a % W) - 1⟩ ++
        List.replicate m ⟨k, a + W - 1⟩) k = n + m := by
      rw [countIn, List.countP_append]
      exact congrArg₂ (· + ·)
        (countIn_replicate n rfl (show a ≤ a + (W - a % W) - 1 by omega)
          (show a + (W - a % W) - 1 < a + W by omega))
        (countIn_replicate m rfl (show a ≤ a + W - 1 by omega)
          (show a + W - 1 < a + W by omega))
    refine ⟨List.replicate n ⟨k, a + (W - a % W) - 1⟩ ++ List.replicate m ⟨k, a + W - 1⟩, ?_, ?_⟩
    · refine List.pairwise_append.2 ⟨List.pairwise_replicate_of_refl,
        List.pairwise_replicate_of_refl, fun e he e' he' => ?_⟩
      rw [List.eq_of_mem_replicate he, List.eq_of_mem_replicate he']
      show a + (W - a % W) - 1 ≤ a + W - 1
      omega
    · have hfull : List.foldl (record n W) [] (List.replicate n ⟨k, a + (W - a % W) - 1⟩) =
          List.replicate n ⟨k, a + (W - a % W) - 1⟩ := admitted_replicate hW n _
      rw [admitted, List.foldl_append, hfull, hsecond, hcount, burst, if_neg hr]
      push_cast
      omega

end Attained

end SlidingWindow

end Foundations
