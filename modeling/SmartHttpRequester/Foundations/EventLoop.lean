import SmartHttpRequester.Foundations.ProgramTree
import SmartHttpRequester.Foundations.Schedules

/-!
# Coroutines in one event loop

Coroutines are program trees over operations of two kinds: those that are done at
once, and those that are awaited.  Only while a coroutine awaits something do
others run.  A turn of the loop starts a coroutine or completes the operation one
awaits, and lets it run to its next await or its end; between turns the
environment may act.

The coroutines may be any number, as each is started by a turn of its own.
`State.count` counts those that have been started and are in a given condition.
-/

namespace Foundations

open Function

section EventLoop

/-- How the operations of coroutines are answered. -/
structure EventLoop (C A O R E W : Type) where
  /-- `none` means that the operation is awaited -/
  now : O → W → Option (Except E R × W)
  /-- `none` means that the operation cannot be completed like this -/
  complete : C → O → W → Option (Except E R × W)
  env : A → W → Option W

inductive Turn (ι C A : Type)
  | start (i : ι)
  | resume (i : ι) (c : C)
  | env (a : A)

namespace EventLoop

/-- The world, what is left of each coroutine, and those that have been started. -/
structure State (ι O R E α W : Type) where
  world : W
  prog : ι → Prog O R E α
  started : List ι

variable {ι C A O R E α β W : Type}

/-- A coroutine runs to what it awaits next, or to its end. -/
def settle (now : O → W → Option (Except E R × W)) :
    Prog O R E α → W → Prog O R E α × W
  | .ret a, w => (.ret a, w)
  | .raise e, w => (.raise e, w)
  | .op o k, w =>
      match now o w with
      | some rw => settle now (k rw.1) rw.2
      | none => (.op o k, w)

theorem settle_now {now : O → W → Option (Except E R × W)} {o : O}
    {k : Except E R → Prog O R E α} {w w' : W} {r : Except E R} (h : now o w = some (r, w')) :
    settle now (.op o k) w = settle now (k r) w' := by
  rw [settle, h]

variable [DecidableEq ι] (L : EventLoop C A O R E W)

/-- The state after coroutine `i` has run as far as it can. -/
def State.proceed (s : State ι O R E α W) (i : ι) (p : Prog O R E α × W) (started : List ι) :
    State ι O R E α W where
  world := p.2
  prog := update s.prog i p.1
  started := started

def turn (s : State ι O R E α W) : Turn ι C A → Option (State ι O R E α W)
  | .start i =>
      if i ∈ s.started then none
      else some (s.proceed i (settle L.now (s.prog i) s.world) (s.started ++ [i]))
  | .resume i c =>
      if i ∈ s.started then
        match s.prog i with
        | .op o k =>
            (L.complete c o s.world).map fun rw =>
              s.proceed i (settle L.now (k rw.1) rw.2) s.started
        | _ => none
      else none
  | .env a => (L.env a s.world).map fun w => { s with world := w }

/-- No coroutine is in flight. -/
def State.Quiescent (s : State ι O R E α W) : Prop :=
  ∀ i ∈ s.started, (s.prog i).outcome?.isSome = true

instance (s : State ι O R E α W) : Decidable s.Quiescent :=
  inferInstanceAs (Decidable (∀ i ∈ s.started, _))

/-- The state in which nothing has been started. -/
def init (w : W) (p : ι → Prog O R E α) : State ι O R E α W where
  world := w
  prog := p
  started := []

variable {L} {s s' : State ι O R E α W} {t : Turn ι C A}

/-- Everything a turn can be, with its guards. -/
theorem turn_cases (h : turn L s t = some s') :
    (∃ i,
        t = .start i ∧
        i ∉ s.started ∧
        s' = s.proceed i (settle L.now (s.prog i) s.world) (s.started ++ [i])) ∨
    (∃ i c o k r w,
        t = .resume i c ∧
        i ∈ s.started ∧
        s.prog i = .op o k ∧
        L.complete c o s.world = some (r, w) ∧
        s' = s.proceed i (settle L.now (k r) w) s.started) ∨
    (∃ a w,
        t = .env a ∧
        L.env a s.world = some w ∧
        s' = { s with world := w }) := by
  cases t with
  | start i =>
      simp only [turn] at h
      split at h
      · cases h
      · rename_i hi
        exact Or.inl ⟨i, rfl, hi, (Option.some.inj h).symm⟩
  | resume i c =>
      simp only [turn] at h
      split at h
      · rename_i hi
        split at h
        · rename_i o k hp
          obtain ⟨⟨r, w⟩, hcomplete, rfl⟩ := Option.map_eq_some_iff.1 h
          exact Or.inr (Or.inl ⟨i, c, o, k, r, w, rfl, hi, hp, hcomplete, rfl⟩)
        · cases h
      · cases h
  | env a =>
      obtain ⟨w, henv, rfl⟩ := Option.map_eq_some_iff.1 h
      exact Or.inr (Or.inr ⟨a, w, rfl, henv, rfl⟩)

theorem nodup_turn (hs : s.started.Nodup) (h : turn L s t = some s') : s'.started.Nodup := by
  obtain ⟨i, -, hi, rfl⟩ | ⟨i, c, o, k, r, w, -, -, -, -, rfl⟩ | ⟨a, w, -, -, rfl⟩ := turn_cases h
  · refine List.nodup_append.2 ⟨hs, List.nodup_singleton i, fun j hj j' hj' hjj => ?_⟩
    obtain rfl := List.mem_singleton.1 hj'
    exact hi (hjj ▸ hj)
  · exact hs
  · exact hs

section Counting

/-- How many of the started coroutines are as `f` says. -/
def State.count (s : State ι O R E α W) (f : ι → Prog O R E α → Bool) : Int :=
  s.started.countP fun i => f i (s.prog i)

variable {f : ι → Prog O R E α → Bool} {i : ι} {p : Prog O R E α × W}

theorem count_start (hi : i ∉ s.started) :
    (s.proceed i p (s.started ++ [i])).count f = s.count f + if f i p.1 then 1 else 0 := by
  have hold : s.started.countP (fun j => f j (update s.prog i p.1 j)) =
      s.started.countP fun j => f j (s.prog j) := by
    refine List.countP_congr fun j hj => ?_
    have hne : j ≠ i := fun h => hi (h ▸ hj)
    simp [hne]
  simp only [State.count, State.proceed, List.countP_append, hold, List.countP_singleton,
    update_self]
  split <;> simp

theorem count_resume (hs : s.started.Nodup) (hi : i ∈ s.started) :
    (s.proceed i p s.started).count f + (if f i (s.prog i) then 1 else 0) =
      s.count f + if f i p.1 then 1 else 0 := by
  have hperm := List.perm_cons_erase hi
  have hrest : (s.started.erase i).countP (fun j => f j (update s.prog i p.1 j)) =
      (s.started.erase i).countP fun j => f j (s.prog j) := by
    refine List.countP_congr fun j hj => ?_
    have hne : j ≠ i := fun h => hs.not_mem_erase (h ▸ hj)
    simp [hne]
  simp only [State.count, State.proceed, hperm.countP_eq, List.countP_cons, hrest, update_self]
  push_cast
  split <;> split <;> simp

end Counting

end EventLoop

end EventLoop

end Foundations
