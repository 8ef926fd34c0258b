import Mathlib.Data.List.ReduceOption
import SmartHttpRequester.Foundations.Schedules

/-!
# Runs that amount to sequences of actions

The upper level of a design: users act on a store, one atomic action after
another (`ActionRun`).  A system below it may take many steps for what is one
action above.

`exists_entries`: if every step performs at most one action, a whole run
performs a sequence of actions, each at one place of the run; and at every place
the store above is what the actions up to there have made of it.
-/

namespace Foundations

section Linearization

variable {S L T K A : Type}

/-- A sequence of actions, each with its user. -/
inductive ActionRun (act : K → A → T → T → Prop) : T → List (K × A) → T → Prop
  | nil {t : T} : ActionRun act t [] t
  | snoc {t t₁ t₂ : T} {es : List (K × A)} {k : K} {a : A}
      (h : ActionRun act t es t₁) (ha : act k a t₁ t₂) :
      ActionRun act t (es ++ [(k, a)]) t₂

/-- The actions of one user. -/
def actionsOf [DecidableEq K] (k : K) (es : List (K × A)) : List A :=
  es.filterMap fun e => if e.1 = k then some e.2 else none

section Actions

variable [DecidableEq K] {k j : K} {es : List (K × A)} {a : A}

@[simp] theorem actionsOf_nil : actionsOf k ([] : List (K × A)) = [] := by
  rfl

theorem actionsOf_snoc_self : actionsOf k (es ++ [(k, a)]) = actionsOf k es ++ [a] := by
  simp [actionsOf]

theorem actionsOf_snoc_of_ne (h : j ≠ k) : actionsOf k (es ++ [(j, a)]) = actionsOf k es := by
  simp [actionsOf, h]

end Actions

/-- The actions of the first `n` steps. -/
def actionsUpTo (n : ℕ) (entries : List (Option (K × A))) : List (K × A) :=
  (entries.take n).reduceOption

@[simp] theorem actionsUpTo_zero (entries : List (Option (K × A))) :
    actionsUpTo 0 entries = [] := by
  rfl

theorem actionsUpTo_succ (n : ℕ) (e : Option (K × A)) (entries : List (Option (K × A))) :
    actionsUpTo (n + 1) (e :: entries) = e.toList ++ actionsUpTo n entries := by
  cases e <;> rfl

/-- The actions of all steps. -/
theorem actionsUpTo_length {R : L → Option (K × A) → Prop} {ls : List L}
    {entries : List (Option (K × A))} (h : List.Forall₂ R ls entries) :
    actionsUpTo ls.length entries = entries.reduceOption := by
  rw [actionsUpTo, h.length_eq, List.take_length]

/--
What the steps of a run perform; `none` where a step performs nothing.  At each place
of the run the invariant is one of the state there and of the actions up to there.
-/
theorem exists_entries {step : S → L → Option S} {By : L → K → Prop} {P : L → Prop}
    {Inv : S → List (K × A) → Prop}
    (hstep : ∀ {s es l s'}, P l → Inv s es → step s l = some s' →
      ∃ e : Option (K × A), (∀ p, e = some p → By l p.1) ∧ Inv s' (es ++ e.toList))
    {s s' : S} {es : List (K × A)} {ls : List L} (hls : ∀ l ∈ ls, P l) (h : Inv s es)
    (hrun : Schedule.run step s ls = some s') :
    ∃ entries : List (Option (K × A)),
      List.Forall₂ (fun l e => ∀ p, e = some p → By l p.1) ls entries ∧
      ∀ pre post t, ls = pre ++ post → Schedule.run step s pre = some t →
        Inv t (es ++ actionsUpTo pre.length entries) := by
  have hhere : ∀ {t : S} (entries : List (Option (K × A))), Schedule.run step s [] = some t →
      Inv t (es ++ actionsUpTo 0 entries) := by
    intro t entries ht
    cases ht
    simpa using h
  induction ls generalizing s es with
  | nil =>
      refine ⟨[], .nil, fun pre post t hls ht => ?_⟩
      obtain ⟨rfl, -⟩ := List.append_eq_nil_iff.1 hls.symm
      exact hhere [] ht
  | cons l ls ih =>
      obtain ⟨s₁, h₁, hrest⟩ := Schedule.run_cons_eq_some.1 hrun
      obtain ⟨e, hby, hnext⟩ := hstep (hls l (List.mem_cons_self ..)) h h₁
      obtain ⟨entries, hentries, hplaces⟩ :=
        ih (fun l' hl' => hls l' (List.mem_cons_of_mem _ hl')) hnext hrest fun entries ht => by
          cases ht
          simpa using hnext
      refine ⟨e :: entries, .cons hby hentries, fun pre post t hsplit ht => ?_⟩
      cases pre with
      | nil => exact hhere (e :: entries) ht
      | cons l' pre =>
          obtain ⟨rfl, htail⟩ := List.cons.inj hsplit
          obtain ⟨s₂, h₂, ht⟩ := Schedule.run_cons_eq_some.1 ht
          rw [h₁] at h₂
          cases h₂
          rw [List.length_cons, actionsUpTo_succ, ← List.append_assoc]
          exact hplaces pre post t htail ht

end Linearization

end Foundations
