import Mathlib.Tactic

/-!
# Schedules

A system takes labelled steps; all its nondeterminism is in the labels, so that
a schedule is a list of labels and running it is a partial function.  `Always`
is a property of every state of a run, `StepsMeet` a condition on every step in
the state in which it is taken.

`always_iff_stepsMeet`: where one step keeps a property exactly if it meets a
condition, a run keeps it exactly if all its steps do.
-/

namespace Foundations

namespace Schedule

section Schedules

variable {S L : Type} (step : S → L → Option S)

/-- Run a schedule; `none` if one of its steps is impossible. -/
def run : S → List L → Option S
  | s, [] => some s
  | s, l :: ls => (step s l).bind fun s' => run s' ls

/-- Every step of the schedule is taken in a state that meets a condition. -/
def StepsMeet (Q : S → L → Prop) : S → List L → Prop
  | _, [] => True
  | s, l :: ls => Q s l ∧ ∀ s', step s l = some s' → StepsMeet Q s' ls

/-- Every state the schedule leads through has a property. -/
def Always (P : S → Prop) (s : S) (ls : List L) : Prop :=
  ∀ pre post t, ls = pre ++ post → run step s pre = some t → P t

variable {step} {s s' t : S} {l : L} {ls ls' : List L} {P : S → Prop} {Q : S → L → Prop}

theorem run_cons_eq_some :
    run step s (l :: ls) = some t ↔ ∃ s', step s l = some s' ∧ run step s' ls = some t := by
  simp [run, Option.bind_eq_some_iff]

theorem run_append_eq_some :
    run step s (ls ++ ls') = some t ↔
      ∃ s', run step s ls = some s' ∧ run step s' ls' = some t := by
  induction ls generalizing s with
  | nil =>
      simp [run]
  | cons l ls ih =>
      simp only [List.cons_append, run_cons_eq_some, ih]
      constructor
      · rintro ⟨s₁, hstep, s₂, hrun, hrest⟩
        exact ⟨s₂, ⟨s₁, hstep, hrun⟩, hrest⟩
      · rintro ⟨s₂, ⟨s₁, hstep, hrun⟩, hrest⟩
        exact ⟨s₁, hstep, s₂, hrun, hrest⟩

/-- What every step preserves, every run preserves. -/
theorem invariant_of_run (I : S → Prop) (hstep : ∀ s l s', I s → step s l = some s' → I s')
    (hs : I s) (hrun : run step s ls = some t) : I t := by
  induction ls generalizing s with
  | nil =>
      cases hrun
      exact hs
  | cons l ls ih =>
      obtain ⟨s₁, h₁, hrest⟩ := run_cons_eq_some.1 hrun
      exact ih (hstep s l s₁ hs h₁) hrest

/-- The condition, at every place of the schedule. -/
theorem stepsMeet_iff :
    StepsMeet step Q s ls ↔
      ∀ pre l post t, ls = pre ++ l :: post → run step s pre = some t → Q t l := by
  induction ls generalizing s with
  | nil =>
      simp [StepsMeet]
  | cons l ls ih =>
      constructor
      · rintro ⟨hl, hrest⟩ pre l' post t hls ht
        cases pre with
        | nil =>
            cases ht
            cases hls
            exact hl
        | cons _ pre =>
            obtain ⟨rfl, htail⟩ := List.cons.inj hls
            obtain ⟨s', hs', ht⟩ := run_cons_eq_some.1 ht
            exact ih.1 (hrest s' hs') pre l' post t htail ht
      · intro h
        refine ⟨h [] l ls s rfl rfl, fun s' hs' => ih.2 fun pre l' post t hls ht => ?_⟩
        exact h (l :: pre) l' post t (by rw [hls]; rfl) (run_cons_eq_some.2 ⟨s', hs', ht⟩)

theorem always_nil : Always step P s [] ↔ P s := by
  constructor
  · intro h
    exact h [] [] s rfl rfl
  · intro h pre post t hls ht
    obtain ⟨rfl, -⟩ := List.append_eq_nil_iff.1 hls.symm
    cases ht
    exact h

theorem always_cons :
    Always step P s (l :: ls) ↔ P s ∧ ∀ s', step s l = some s' → Always step P s' ls := by
  constructor
  · intro h
    refine ⟨h [] (l :: ls) s rfl rfl, fun s' hs' pre post t hls ht => ?_⟩
    exact h (l :: pre) post t (by rw [hls]; rfl) (run_cons_eq_some.2 ⟨s', hs', ht⟩)
  · rintro ⟨hs, hrest⟩ pre post t hls ht
    cases pre with
    | nil =>
        cases ht
        exact hs
    | cons l' pre =>
        obtain ⟨rfl, htail⟩ := List.cons.inj hls
        obtain ⟨s', hs', ht⟩ := run_cons_eq_some.1 ht
        exact hrest s' hs' pre post t htail ht

theorem Always.mono {P' : S → Prop} (h : Always step P s ls) (hP : ∀ t, P t → P' t) :
    Always step P' s ls :=
  fun pre post t hls ht => hP t (h pre post t hls ht)

/-- What is preserved by the steps that meet a condition holds throughout a run of such steps. -/
theorem always_of_stepsMeet (I : S → Prop)
    (hstep : ∀ s l s', I s → Q s l → step s l = some s' → I s')
    (hs : I s) (hmeet : StepsMeet step Q s ls) : Always step I s ls := by
  induction ls generalizing s with
  | nil =>
      exact always_nil.2 hs
  | cons l ls ih =>
      exact always_cons.2
        ⟨hs, fun s' hs' => ih (hstep s l s' hs hmeet.1 hs') (hmeet.2 s' hs')⟩

/-- If a step keeps `P` exactly when it meets `Q`, a run keeps `P` exactly when its steps meet `Q`. -/
theorem always_iff_stepsMeet (I : S → Prop)
    (hI : ∀ s l s', I s → step s l = some s' → I s')
    (hiff : ∀ s l s', I s → P s → step s l = some s' → (P s' ↔ Q s l))
    (hs : I s) (hP : P s) (hrun : run step s ls = some t) :
    Always step P s ls ↔ StepsMeet step Q s ls := by
  induction ls generalizing s with
  | nil =>
      exact ⟨fun _ => trivial, fun _ => always_nil.2 hP⟩
  | cons l ls ih =>
      obtain ⟨s₁, h₁, hrest⟩ := run_cons_eq_some.1 hrun
      have hone := hiff s l s₁ hs hP h₁
      have honly : ∀ s', step s l = some s' → s' = s₁ :=
        fun s' hs' => Option.some.inj (hs'.symm.trans h₁)
      rw [always_cons]
      constructor
      · rintro ⟨-, hall⟩
        have hafter := hall s₁ h₁
        have hP₁ : P s₁ := hafter [] ls s₁ rfl rfl
        refine ⟨hone.1 hP₁, fun s' hs' => ?_⟩
        rw [honly s' hs']
        exact (ih (hI s l s₁ hs h₁) hP₁ hrest).1 hafter
      · rintro ⟨hQ, hmeet⟩
        refine ⟨hP, fun s' hs' => ?_⟩
        rw [honly s' hs']
        exact (ih (hI s l s₁ hs h₁) (hone.2 hQ) hrest).2 (hmeet s₁ h₁)

end Schedules

end Schedule

end Foundations
