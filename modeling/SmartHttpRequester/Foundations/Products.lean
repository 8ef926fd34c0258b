import SmartHttpRequester.Foundations.Interleaving

/-!
# Two systems side by side

`Product.step` lets two systems take turns.  A step of either can be guarded by
what both states are.  Whatever the guard, the steps of one side are a run of
that side alone (`Product.run_left`, `Product.run_right`).

`Machine.exists_call_of_hist`: what stands in the history of a participant has
happened at some earlier place of the run.  `Prog.logMonitor` lets a
specification speak about the whole history.
-/

namespace Foundations

namespace Product

section Products

variable {S T L K : Type} (stepL : S → L → Option S) (stepR : T → K → Option T)
variable (guard : S × T → L ⊕ K → Bool)

def step (s : S × T) : L ⊕ K → Option (S × T)
  | .inl l =>
      if guard s (.inl l) then (stepL s.1 l).map fun s' => (s', s.2) else none
  | .inr k =>
      if guard s (.inr k) then (stepR s.2 k).map fun t' => (s.1, t') else none

variable {stepL stepR guard} {s s' t : S × T} {l : L ⊕ K} {ls : List (L ⊕ K)}

theorem step_cases (h : step stepL stepR guard s l = some s') :
    guard s l = true ∧
    ((∃ k, l = .inl k ∧ stepL s.1 k = some s'.1 ∧ s'.2 = s.2) ∨
      (∃ k, l = .inr k ∧ stepR s.2 k = some s'.2 ∧ s'.1 = s.1)) := by
  cases l with
  | inl k =>
      simp only [step] at h
      split at h
      · rename_i hguard
        obtain ⟨u, hu, rfl⟩ := Option.map_eq_some_iff.1 h
        exact ⟨hguard, Or.inl ⟨k, rfl, hu, rfl⟩⟩
      · cases h
  | inr k =>
      simp only [step] at h
      split at h
      · rename_i hguard
        obtain ⟨u, hu, rfl⟩ := Option.map_eq_some_iff.1 h
        exact ⟨hguard, Or.inr ⟨k, rfl, hu, rfl⟩⟩
      · cases h

/-- The steps of one side. -/
def lefts (ls : List (L ⊕ K)) : List L :=
  ls.filterMap Sum.getLeft?

def rights (ls : List (L ⊕ K)) : List K :=
  ls.filterMap Sum.getRight?

/-- The left system takes its own steps, and no others. -/
theorem run_left (h : Schedule.run (step stepL stepR guard) s ls = some t) :
    Schedule.run stepL s.1 (lefts ls) = some t.1 := by
  induction ls generalizing s with
  | nil =>
      cases h
      rfl
  | cons l ls ih =>
      obtain ⟨s₁, h₁, hrest⟩ := Schedule.run_cons_eq_some.1 h
      rcases (step_cases h₁).2 with ⟨k, rfl, hstep, -⟩ | ⟨k, rfl, -, hsame⟩
      · exact Schedule.run_cons_eq_some.2 ⟨s₁.1, hstep, ih hrest⟩
      · have hleft := ih hrest
        rwa [hsame] at hleft

theorem run_right (h : Schedule.run (step stepL stepR guard) s ls = some t) :
    Schedule.run stepR s.2 (rights ls) = some t.2 := by
  induction ls generalizing s with
  | nil =>
      cases h
      rfl
  | cons l ls ih =>
      obtain ⟨s₁, h₁, hrest⟩ := Schedule.run_cons_eq_some.1 h
      rcases (step_cases h₁).2 with ⟨k, rfl, -, hsame⟩ | ⟨k, rfl, hstep, -⟩
      · have hright := ih hrest
        rwa [hsame] at hright
      · exact Schedule.run_cons_eq_some.2 ⟨s₁.2, hstep, ih hrest⟩

/-- Where the left system takes a step, the product does. -/
theorem exists_of_lefts (h : Schedule.run (step stepL stepR guard) s ls = some t)
    {pre post : List L} {k : L} (hls : lefts ls = pre ++ k :: post) :
    ∃ before after u,
      ls = before ++ .inl k :: after ∧
      lefts before = pre ∧
      Schedule.run (step stepL stepR guard) s before = some u := by
  induction ls generalizing s pre with
  | nil => cases pre <;> cases hls
  | cons l ls ih =>
      obtain ⟨s₁, h₁, hrest⟩ := Schedule.run_cons_eq_some.1 h
      cases l with
      | inl l =>
          cases pre with
          | nil =>
              obtain ⟨rfl, -⟩ := List.cons.inj hls
              exact ⟨[], ls, s, rfl, rfl, rfl⟩
          | cons l' pre =>
              obtain ⟨rfl, htail⟩ := List.cons.inj hls
              obtain ⟨before, after, u, rfl, rfl, hu⟩ := ih hrest htail
              exact ⟨.inl l :: before, after, u, rfl, rfl,
                Schedule.run_cons_eq_some.2 ⟨s₁, h₁, hu⟩⟩
      | inr l =>
          obtain ⟨before, after, u, rfl, rfl, hu⟩ := ih hrest hls
          exact ⟨.inr l :: before, after, u, rfl, rfl,
            Schedule.run_cons_eq_some.2 ⟨s₁, h₁, hu⟩⟩

end Products

end Product

namespace Prog

/-- The monitor that allows everything and remembers all of it. -/
def logMonitor (O R E : Type) : Monitor O R E (List (O × Except E R)) where
  allows _ _ := True
  expects _ _ := True
  next g o r := g ++ [(o, r)]

theorem after_log {O R E : Type} (g hist : List (O × Except E R)) :
    (logMonitor O R E).after g hist = g ++ hist := by
  induction hist generalizing g with
  | nil =>
      exact (List.append_nil g).symm
  | cons e hist ih =>
      refine (ih (g ++ [e])).trans ?_
      rw [List.append_assoc, List.singleton_append]

end Prog

namespace Machine

section Histories

variable {ι C A O R E α W : Type} [DecidableEq ι] {M : Machine ι C A O R E W}
variable {s s' : Config ι O R E α W} {l : Label ι C A} {ls : List (Label ι C A)}

/-- What a participant has been answered, it was answered at some place of the run. -/
theorem exists_call_of_hist (hrun : M.run s ls = some s') {i : ι} {e : O × Except E R}
    (he : e ∈ s'.hist i) (hnew : e ∉ s.hist i) :
    ∃ pre c post t w,
      ls = pre ++ .op i c :: post ∧
      M.run s pre = some t ∧
      M.exec i c e.1 t.world = some (e.2, w) := by
  induction ls generalizing s with
  | nil =>
      cases hrun
      exact absurd he hnew
  | cons l ls ih =>
      obtain ⟨s₁, h₁, hrest⟩ := run_cons_eq_some.1 hrun
      by_cases hold : e ∈ s₁.hist i
      · rcases step_hist h₁ i with hsame | ⟨c, o, k, r, rfl, -, hexec, hsnoc⟩
        · exact absurd (hsame ▸ hold) hnew
        · rw [hsnoc, List.mem_append, List.mem_singleton] at hold
          obtain rfl : e = (o, r) := hold.resolve_left hnew
          exact ⟨[], c, ls, s, s₁.world, rfl, rfl, hexec⟩
      · obtain ⟨pre, c, post, t, w, rfl, hpre, hexec⟩ := ih hrest hold
        exact ⟨l :: pre, c, post, t, w, rfl, run_cons_eq_some.2 ⟨s₁, h₁, hpre⟩, hexec⟩

end Histories

end Machine

end Foundations
