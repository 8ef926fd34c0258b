import Mathlib.Logic.Function.Basic
import Mathlib.Tactic

/-!
# Counters that expire

A store of counters, each with an optional time at which it disappears.
Incrementing a counter that is not there, or no longer there, starts it at one
without an expiry time; incrementing a live one keeps its expiry time.  Setting
the expiry time of a counter that is not there does nothing.

`CounterStore` is what a client uses of such a store; `expiring` is the store
that forgets, `lasting` the one that never does.
-/

namespace Foundations

open Function

section ExpiringStore

variable {K : Type}

/-- Operations on named counters; the first argument is the store's clock. -/
structure CounterStore (K S : Type) where
  get : ℤ → S → K → Option ℕ
  incr : ℤ → K → S → S
  expire : ℤ → K → ℤ → S → S

/-- A counter and the time at which it disappears. -/
structure Counter where
  value : ℕ
  expiresAt : Option ℤ
deriving DecidableEq

def Counter.live (now : ℤ) (c : Counter) : Bool :=
  c.expiresAt.all fun t => now < t

/-- Counters by name, those that have disappeared included. -/
abbrev Counters (K : Type) := K → Option Counter

namespace Counters

/-- The counter as a command at this time finds it. -/
def find (now : ℤ) (s : Counters K) (k : K) : Option Counter :=
  (s k).filter (Counter.live now)

variable [DecidableEq K]

/-- `INCR`. -/
def incr (now : ℤ) (k : K) (s : Counters K) : Counters K :=
  update s k
    (some
      (match s.find now k with
      | some c => { c with value := c.value + 1 }
      | none => ⟨1, none⟩))

/-- `EXPIRE`. -/
def expire (now : ℤ) (k : K) (seconds : ℤ) (s : Counters K) : Counters K :=
  update s k ((s.find now k).map fun c => { c with expiresAt := some (now + seconds) })

end Counters

variable [DecidableEq K]

/-- The store that forgets. -/
def expiring : CounterStore K (Counters K) where
  get now s k := (s.find now k).map Counter.value
  incr := Counters.incr
  expire := Counters.expire

def lasting : CounterStore K (K → Option ℕ) where
  get _ s k := s k
  incr _ k s := update s k (some ((s k).elim 1 (· + 1)))
  expire _ _ _ s := s

namespace Counters

variable {now t : ℤ} {k k' : K} {s : Counters K} {c : Counter} {n : ℕ}

/-- The counter is there at least until a time, and has a value. -/
def Holds (s : Counters K) (k : K) (n : ℕ) (t : ℤ) : Prop :=
  ∃ x, s k = some ⟨n, some x⟩ ∧ t ≤ x

omit [DecidableEq K] in
theorem holds_congr {s' : Counters K} (h : s' k = s k) : s'.Holds k n t ↔ s.Holds k n t := by
  rw [Holds, Holds, h]

omit [DecidableEq K] in
theorem find_of_holds (h : s.Holds k n t) (hnow : now < t) :
    ∃ x, s.find now k = some ⟨n, some x⟩ ∧ t ≤ x := by
  obtain ⟨x, hs, hx⟩ := h
  refine ⟨x, ?_, hx⟩
  rw [find, hs]
  exact Option.filter_eq_some_iff.2 ⟨rfl, by simpa [Counter.live] using hnow.trans_le hx⟩

theorem get_of_holds (h : s.Holds k n t) (hnow : now < t) :
    expiring.get now s k = some n := by
  obtain ⟨x, hfind, -⟩ := find_of_holds h hnow
  exact congrArg (Option.map Counter.value) hfind

omit [DecidableEq K] in
theorem find_of_eq_none (h : s k = none) : s.find now k = none := by
  simp [find, h]

theorem get_of_eq_none (h : s k = none) : expiring.get now s k = none :=
  congrArg (Option.map Counter.value) (find_of_eq_none h)

theorem holds_expire {seconds : ℤ} (h : s.Holds k n t) (hnow : now < t)
    (ht : t ≤ now + seconds) :
    (s.expire now k seconds).Holds k n t := by
  obtain ⟨x, hfind, -⟩ := find_of_holds h hnow
  exact ⟨now + seconds, by simp [expire, hfind], ht⟩

theorem expire_of_eq_none (h : s k = none) (seconds : ℤ) :
    s.expire now k seconds k = none := by
  simp [expire, find_of_eq_none h]

/-- `INCR` and then `EXPIRE` on a counter that is not there. -/
theorem holds_touch_of_eq_none {seconds : ℤ} (h : s k = none) (ht : t ≤ now + seconds) :
    ((s.incr now k).expire now k seconds).Holds k 1 t := by
  have hfind : (s.incr now k).find now k = some ⟨1, none⟩ := by
    simp [find, incr, h, Counter.live]
  exact ⟨now + seconds, by simp [expire, hfind], ht⟩

/-- `INCR` and then `EXPIRE` on a live counter. -/
theorem holds_touch {seconds : ℤ} (h : s.Holds k n t) (hnow : now < t)
    (ht : t ≤ now + seconds) :
    ((s.incr now k).expire now k seconds).Holds k (n + 1) t := by
  obtain ⟨x, hfind, hx⟩ := find_of_holds h hnow
  refine holds_expire ⟨x, ?_, hx⟩ hnow ht
  simp [incr, hfind]

theorem expire_other (hk : k' ≠ k) (seconds : ℤ) : s.expire now k seconds k' = s k' := by
  simp [expire, hk]

theorem incr_other (hk : k' ≠ k) : s.incr now k k' = s k' := by
  simp [incr, hk]

section Values

/-- What is stored under a name, whether or not it has disappeared. -/
def value (s : Counters K) (k : K) : ℕ :=
  (s k).elim 0 Counter.value

omit [DecidableEq K] in
theorem value_of_eq_none (h : s k = none) : s.value k = 0 := by
  simp [value, h]

omit [DecidableEq K] in
theorem value_congr {s' : Counters K} (h : s' k = s k) : s'.value k = s.value k := by
  rw [value, value, h]

omit [DecidableEq K] in
theorem find_eq_some : s.find now k = some c ↔ s k = some c ∧ c.live now = true :=
  Option.filter_eq_some_iff

theorem get_congr {s' : Counters K} (h : s' k = s k) :
    expiring.get now s' k = expiring.get now s k := by
  simp only [expiring, find, h]

/-- A command finds what is stored, or nothing. -/
theorem get_le_value (now : ℤ) (s : Counters K) (k : K) :
    (expiring.get now s k).getD 0 ≤ s.value k := by
  cases hfind : s.find now k with
  | none => simp [expiring, hfind]
  | some c =>
      obtain ⟨hs, -⟩ := find_eq_some.1 hfind
      simp [expiring, hfind, value, hs]

theorem live_of_live_later {now' : ℤ} (h : now ≤ now') (hlive : c.live now' = true) :
    c.live now = true := by
  cases hexpires : c.expiresAt with
  | none => simp [Counter.live, hexpires]
  | some t =>
      simp only [Counter.live, hexpires, Option.all_some, decide_eq_true_eq] at hlive ⊢
      exact h.trans_lt hlive

/-- With time counters only disappear. -/
theorem get_later_le {now' : ℤ} (h : now ≤ now') (s : Counters K) (k : K) :
    (expiring.get now' s k).getD 0 ≤ (expiring.get now s k).getD 0 := by
  cases hfind : s.find now' k with
  | none => simp [expiring, hfind]
  | some c =>
      obtain ⟨hs, hlive⟩ := find_eq_some.1 hfind
      have hbefore : s.find now k = some c := find_eq_some.2 ⟨hs, live_of_live_later h hlive⟩
      simp [expiring, hfind, hbefore]

theorem get_incr_self :
    expiring.get now (s.incr now k) k = some ((expiring.get now s k).getD 0 + 1) := by
  cases hfind : s.find now k with
  | none =>
      have hafter : (s.incr now k).find now k = some ⟨1, none⟩ :=
        find_eq_some.2 ⟨by simp [incr, hfind], by simp [Counter.live]⟩
      simp [expiring, hfind, hafter]
  | some c =>
      have hafter : (s.incr now k).find now k = some { c with value := c.value + 1 } :=
        find_eq_some.2 ⟨by simp [incr, hfind], (find_eq_some.1 hfind).2⟩
      simp [expiring, hfind, hafter]

theorem value_expire_self (seconds : ℤ) :
    (s.expire now k seconds).value k = (expiring.get now s k).getD 0 := by
  cases hfind : s.find now k with
  | none => simp [value, expire, expiring, hfind]
  | some c => simp [value, expire, expiring, hfind]

theorem expiresAt_of_expire {seconds : ℤ} (h : s.expire now k seconds k = some c) :
    c.expiresAt = some (now + seconds) := by
  rw [expire, Function.update_self, Option.map_eq_some_iff] at h
  obtain ⟨c', -, rfl⟩ := h
  rfl

theorem find_eq_none_of_get (h : expiring.get now s k = none) : s.find now k = none :=
  Option.map_eq_none_iff.1 h

/-- `EXPIRE` on a counter that has disappeared clears it away. -/
theorem expire_of_get_eq_none (h : expiring.get now s k = none) (seconds : ℤ) :
    s.expire now k seconds k = none := by
  simp [expire, find_eq_none_of_get h]

/-- `EXPIRE` on a live counter. -/
theorem holds_expire_of_get {seconds : ℤ} (h : expiring.get now s k = some n) :
    (s.expire now k seconds).Holds k n (now + seconds) := by
  obtain ⟨c, hfind, rfl⟩ := Option.map_eq_some_iff.1 h
  exact ⟨now + seconds, by simp [expire, hfind], le_rfl⟩

end Values

section Agreement

variable {s' : Counters K} {P : Set K}

/-- Stores that agree on some names go on to do so if the same counter is incremented. -/
theorem incr_eqOn (h : Set.EqOn s s' P) : Set.EqOn (s.incr now k) (s'.incr now k) P := by
  intro k' hk'
  by_cases hk : k' = k
  · subst hk
    simp [incr, find, h hk']
  · rw [incr_other hk, incr_other hk, h hk']

theorem expire_eqOn (h : Set.EqOn s s' P) (seconds : ℤ) :
    Set.EqOn (s.expire now k seconds) (s'.expire now k seconds) P := by
  intro k' hk'
  by_cases hk : k' = k
  · subst hk
    simp [expire, find, h hk']
  · rw [expire_other hk, expire_other hk, h hk']

end Agreement

end Counters

end ExpiringStore

end Foundations
