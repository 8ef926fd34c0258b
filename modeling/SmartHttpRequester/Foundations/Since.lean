import Mathlib.Tactic

/-!
# Conditions that hold since a step

A condition on the state of a run that some steps set and others clear.  If one
step makes it true exactly by setting it, or by not clearing it while it holds,
then after a run it holds exactly if some step has set it and no later one has
cleared it (`holds_iff_setSince`).
-/

namespace Foundations

section Since

variable {σ α : Type}

/-- The state after a list of steps. -/
def stateAfter (next : σ → α → σ) (s : σ) (steps : List α) : σ :=
  steps.foldl next s

variable {next : σ → α → σ} {s : σ} {steps pre post : List α} {a : α}

@[simp] theorem stateAfter_snoc :
    stateAfter next s (steps ++ [a]) = next (stateAfter next s steps) a := by
  simp [stateAfter]

/-- Some step of the run sets the condition and no later step clears it. -/
def SetSince (next : σ → α → σ) (sets clears : σ → α → Prop) (s : σ) (steps : List α) : Prop :=
  ∃ pre a post,
    steps = pre ++ a :: post ∧
    sets (stateAfter next s pre) a ∧
    ∀ mid b rest, post = mid ++ b :: rest → ¬ clears (stateAfter next s (pre ++ a :: mid)) b

variable {sets clears : σ → α → Prop}

theorem not_setSince_nil : ¬ SetSince next sets clears s [] := by
  rintro ⟨pre, a, post, h, -⟩
  simp at h

theorem setSince_snoc :
    SetSince next sets clears s (steps ++ [a]) ↔
      sets (stateAfter next s steps) a ∨
        (SetSince next sets clears s steps ∧ ¬ clears (stateAfter next s steps) a) := by
  constructor
  · rintro ⟨pre, b, post, h, hsets, hkept⟩
    rcases List.eq_nil_or_concat post with rfl | ⟨post', c, rfl⟩
    · -- the last step sets it
      obtain ⟨rfl, hlast⟩ := List.append_inj' h rfl
      cases hlast
      exact Or.inl hsets
    · rw [List.concat_eq_append, ← List.cons_append, ← List.append_assoc] at h
      obtain ⟨rfl, hlast⟩ := List.append_inj' h rfl
      cases hlast
      refine Or.inr ⟨⟨pre, b, post', rfl, hsets, fun mid d rest hpost => ?_⟩, ?_⟩
      · exact hkept mid d (rest ++ [a]) (by rw [hpost]; simp)
      · exact hkept post' a [] (by simp)
  · rintro (hsets | ⟨⟨pre, b, post, rfl, hsets, hkept⟩, hlast⟩)
    · exact ⟨steps, a, [], rfl, hsets, fun mid b rest h => by simp at h⟩
    · refine ⟨pre, b, post ++ [a], by simp, hsets, fun mid c rest h => ?_⟩
      rcases List.eq_nil_or_concat rest with rfl | ⟨rest', d, rfl⟩
      · obtain ⟨rfl, hc⟩ := List.append_inj' h rfl
        cases hc
        exact hlast
      · rw [List.concat_eq_append, ← List.cons_append, ← List.append_assoc] at h
        obtain ⟨rfl, -⟩ := List.append_inj' h rfl
        exact hkept mid c rest' rfl

/-- A condition that steps set and clear holds exactly if it is set since some step. -/
theorem holds_iff_setSince {P : σ → Prop} (hs : ¬ P s)
    (hstep : ∀ s a, P (next s a) ↔ sets s a ∨ (P s ∧ ¬ clears s a)) (steps : List α) :
    P (stateAfter next s steps) ↔ SetSince next sets clears s steps := by
  induction steps using List.reverseRecOn with
  | nil =>
      exact iff_of_false hs not_setSince_nil
  | append_singleton steps a ih =>
      rw [stateAfter_snoc, hstep, setSince_snoc, ih]

/-- Where steps clear in whatever state, none of the later steps is a clearing one. -/
theorem setSince_const {clears : α → Prop} :
    SetSince next sets (fun _ => clears) s steps ↔
      ∃ pre a post,
        steps = pre ++ a :: post ∧
        sets (stateAfter next s pre) a ∧
        ∀ b ∈ post, ¬ clears b := by
  constructor
  · rintro ⟨pre, a, post, h, hsets, hkept⟩
    refine ⟨pre, a, post, h, hsets, fun b hb => ?_⟩
    obtain ⟨mid, rest, hpost⟩ := List.append_of_mem hb
    exact hkept mid b rest hpost
  · rintro ⟨pre, a, post, h, hsets, hkept⟩
    refine ⟨pre, a, post, h, hsets, ?_⟩
    rintro mid b rest rfl
    exact hkept b (by simp)

end Since

section Marks

variable {α β : Type} {mark : α → β} {pre pre' post post' : List α} {a a' : α}

/-- A list whose elements have distinct marks is split by a mark in one way. -/
theorem split_unique (hnodup : ((pre ++ a :: post).map mark).Nodup)
    (h : pre ++ a :: post = pre' ++ a' :: post') (hmark : mark a = mark a') :
    pre = pre' ∧ a = a' ∧ post = post' := by
  induction pre generalizing pre' with
  | nil =>
      cases pre' with
      | nil => simpa using h
      | cons b rest =>
          -- the head would have the mark of a later element
          simp only [List.nil_append, List.cons_append, List.cons.injEq] at h
          obtain ⟨rfl, rfl⟩ := h
          simp [hmark] at hnodup
  | cons b pre ih =>
      cases pre' with
      | nil =>
          simp only [List.nil_append, List.cons_append, List.cons.injEq] at h
          obtain ⟨rfl, rfl⟩ := h
          simp [hmark] at hnodup
      | cons c rest =>
          simp only [List.cons_append, List.cons.injEq] at h
          obtain ⟨rfl, h⟩ := h
          rw [List.cons_append, List.map_cons] at hnodup
          obtain ⟨rfl, ha, hpost⟩ := ih hnodup.of_cons h
          exact ⟨rfl, ha, hpost⟩

end Marks

end Foundations
