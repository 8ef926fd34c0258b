import Mathlib.Data.List.Infix
import Mathlib.Data.List.Nodup
import Mathlib.Logic.Function.Basic

/-!
# A registry of declarations

A registry holds at most one value under each key.  A declaration enters a value
under a key that is free, changes nothing if the value is there already, and is
refused if there is another one or if a key is missing that it needs.  A restart
keeps the entries that are lasting and need nothing that is not.

Several parties may declare the entries of one plan, each in the order of the
plan, interleaved and over and over again.  `Plan.accepts`: if the registry did
not conflict with the plan at first, no party is ever refused; `eq_of_contains`:
an empty registry that has come to hold the whole plan is the plan.
-/

namespace Foundations

open Function

section Registry

variable {K : Type} {V : K → Type}

/-- At most one value for each key. -/
abbrev Registry (V : K → Type) : Type :=
  ∀ k, Option (V k)

namespace Registry

/-- The entry is there. -/
def Has (d : Registry V) (e : Sigma V) : Prop :=
  d e.1 = some e.2

def Contains (d : Registry V) (es : List (Sigma V)) : Prop :=
  ∀ e ∈ es, d.Has e

/-- Nothing else is there under the key. -/
def Admits (d : Registry V) (e : Sigma V) : Prop :=
  d e.1 = none ∨ d.Has e

/-- The registry conflicts with no entry. -/
def Compatible (d : Registry V) (es : List (Sigma V)) : Prop :=
  ∀ e ∈ es, d.Admits e

/-- What is there was there at first, or is one of the entries. -/
def Within (d₀ : Registry V) (es : List (Sigma V)) (d : Registry V) : Prop :=
  ∀ e, d.Has e → d₀.Has e ∨ e ∈ es

variable {d d' d₀ : Registry V} {e e' : Sigma V} {es pre : List (Sigma V)}

theorem Has.eq_of_key (h : d.Has e) (h' : d.Has e') (hkey : e.1 = e'.1) : e = e' := by
  obtain ⟨k, v⟩ := e
  obtain ⟨k', v'⟩ := e'
  obtain rfl : k = k' := hkey
  obtain rfl : v = v' := Option.some.inj (h.symm.trans h')
  rfl

theorem Has.admits_iff (h : d.Has e) (hkey : e'.1 = e.1) : d.Admits e' ↔ e' = e := by
  constructor
  · rintro (hnone | hhas)
    · rw [hkey, h] at hnone
      cases hnone
    · exact hhas.eq_of_key h hkey
  · rintro rfl
    exact Or.inr h

theorem within_refl : Within d₀ es d₀ :=
  fun _ h => Or.inl h

/-- What is within an empty registry and contains the entries is determined by them. -/
theorem eq_of_contains (h : Within (fun _ => none) es d) (hcontains : d.Contains es)
    (h' : Within (fun _ => none) es d') (hcontains' : d'.Contains es) : d = d' := by
  have hsub : ∀ {a b : Registry V}, Within (fun _ => none) es a → b.Contains es →
      ∀ k v, a k = some v → b k = some v := by
    intro a b ha hb k v hv
    rcases ha ⟨k, v⟩ hv with hnone | hmem
    · cases hnone
    · exact hb ⟨k, v⟩ hmem
  funext k
  cases hk : d k with
  | some v => exact (hsub h hcontains' k v hk).symm
  | none =>
      cases hk' : d' k with
      | none => rfl
      | some v =>
          rw [hsub h' hcontains k v hk'] at hk
          cases hk

section Declarations

variable [DecidableEq K] [∀ k, DecidableEq (V k)] {needs : K → List K}

/-- The registry takes the declaration. -/
def Accepts (needs : K → List K) (d : Registry V) (e : Sigma V) : Prop :=
  d.Admits e ∧ ∀ k ∈ needs e.1, (d k).isSome = true

instance (d : Registry V) (e : Sigma V) : Decidable (d.Admits e) :=
  inferInstanceAs (Decidable (d e.1 = none ∨ d e.1 = some e.2))

instance (d : Registry V) (e : Sigma V) : Decidable (d.Accepts needs e) :=
  inferInstanceAs (Decidable (_ ∧ _))

/-- `none` if the declaration is refused. -/
def declare (needs : K → List K) (e : Sigma V) (d : Registry V) : Option (Registry V) :=
  if d.Accepts needs e then some (update d e.1 (some e.2)) else none

theorem declare_eq_some :
    d.declare needs e = some d' ↔ d.Accepts needs e ∧ d' = update d e.1 (some e.2) := by
  unfold declare
  split
  · rename_i haccepts
    simp [haccepts, eq_comm]
  · rename_i haccepts
    simp [haccepts]

theorem has_of_declare (h : d.declare needs e = some d') : d'.Has e := by
  obtain ⟨-, rfl⟩ := declare_eq_some.1 h
  exact update_self ..

/-- A declaration removes and changes nothing. -/
theorem Has.declare (h : d.Has e') (hdeclare : d.declare needs e = some d') : d'.Has e' := by
  obtain ⟨haccepts, rfl⟩ := declare_eq_some.1 hdeclare
  by_cases hkey : e'.1 = e.1
  · obtain rfl := (h.admits_iff hkey.symm).1 haccepts.1
    exact update_self ..
  · exact (update_of_ne hkey ..).trans h

theorem has_or_eq_of_declare (h : d.declare needs e = some d') (he' : d'.Has e') :
    d.Has e' ∨ e' = e := by
  obtain ⟨-, rfl⟩ := declare_eq_some.1 h
  by_cases hkey : e'.1 = e.1
  · exact Or.inr (he'.eq_of_key (update_self ..) hkey)
  · exact Or.inl ((update_of_ne hkey ..).symm.trans he')

theorem Contains.declare (h : d.Contains es) (hdeclare : d.declare needs e = some d') :
    d'.Contains es :=
  fun e' he' => (h e' he').declare hdeclare

theorem Within.declare (h : Within d₀ es d) (he : e ∈ es) (hdeclare : d.declare needs e = some d') :
    Within d₀ es d' := by
  intro e' he'
  rcases has_or_eq_of_declare hdeclare he' with hold | rfl
  · exact h e' hold
  · exact Or.inr he

/-- Declaring again what is there changes nothing. -/
theorem declare_of_has (h : d.Has e) (hneeds : ∀ k ∈ needs e.1, (d k).isSome = true) :
    d.declare needs e = some d := by
  refine declare_eq_some.2 ⟨⟨Or.inr h, hneeds⟩, ?_⟩
  rw [show some e.2 = d e.1 from h.symm, update_eq_self]

end Declarations

section Restarts

variable {needs : K → List K} {lasting : ∀ k, V k → Bool}

/-- What a restart leaves. -/
def survive (needs : K → List K) (lasting : ∀ k, V k → Bool) (d : Registry V) : Registry V :=
  fun k =>
    if (d k).any (lasting k) && (needs k).all fun k' => (d k').any (lasting k') then d k else none

theorem has_of_survive (h : (d.survive needs lasting).Has e) : d.Has e := by
  unfold Has survive at h
  split at h
  · exact h
  · cases h

theorem Has.survive (h : d.Has e) (hlasting : lasting e.1 e.2 = true)
    (hneeds : ∀ k ∈ needs e.1, (d k).any (lasting k) = true) :
    (d.survive needs lasting).Has e := by
  have hkept : ((d e.1).any (lasting e.1) &&
      (needs e.1).all fun k' => (d k').any (lasting k')) = true := by
    rw [Bool.and_eq_true, List.all_eq_true]
    refine ⟨?_, hneeds⟩
    rw [show d e.1 = some e.2 from h]
    exact hlasting
  exact (if_pos hkept).trans h

theorem Within.survive (h : Within d₀ es d) : Within d₀ es (d.survive needs lasting) :=
  fun e he => h e (has_of_survive he)

end Restarts

section Plans

variable {needs : K → List K} {lasting : ∀ k, V k → Bool}

/-- Entries that belong together: lasting, with different keys, each after what it needs. -/
structure Plan (needs : K → List K) (lasting : ∀ k, V k → Bool) (es : List (Sigma V)) : Prop where
  keys : ∀ e ∈ es, ∀ e' ∈ es, e.1 = e'.1 → e = e'
  ordered : ∀ pre e, pre ++ [e] <+: es → ∀ k ∈ needs e.1, ∃ e' ∈ pre, e'.1 = k
  lasting : ∀ e ∈ es, lasting e.1 e.2 = true

section Checks

variable [DecidableEq K]

/-- Every entry comes after what it needs; some keys have come before. -/
def OrderedAfter (needs : K → List K) : List K → List (Sigma V) → Prop
  | _, [] => True
  | seen, e :: es => (∀ k ∈ needs e.1, k ∈ seen) ∧ OrderedAfter needs (e.1 :: seen) es

instance OrderedAfter.decidable : ∀ (seen : List K) (es : List (Sigma V)),
    Decidable (OrderedAfter needs seen es)
  | _, [] => isTrue trivial
  | seen, e :: es =>
      have := OrderedAfter.decidable (e.1 :: seen) es
      inferInstanceAs (Decidable ((∀ k ∈ needs e.1, k ∈ seen) ∧ _))

omit [DecidableEq K] in
theorem OrderedAfter.needed {seen : List K} (h : OrderedAfter needs seen es)
    (hpre : pre ++ [e] <+: es) {k : K} (hk : k ∈ needs e.1) :
    k ∈ seen ∨ ∃ e' ∈ pre, e'.1 = k := by
  induction es generalizing seen pre with
  | nil =>
      simp at hpre
  | cons first rest ih =>
      cases pre with
      | nil =>
          obtain rfl : e = first := (List.cons_prefix_cons.1 hpre).1
          exact Or.inl (h.1 k hk)
      | cons first' pre =>
          rw [List.cons_append, List.cons_prefix_cons] at hpre
          obtain ⟨rfl, hpre⟩ := hpre
          rcases ih h.2 hpre with hseen | ⟨e', he', hkey⟩
          · rcases List.mem_cons.1 hseen with rfl | hseen
            · exact Or.inr ⟨first', List.mem_cons_self .., rfl⟩
            · exact Or.inl hseen
          · exact Or.inr ⟨e', List.mem_cons_of_mem _ he', hkey⟩

omit [DecidableEq K] in
/-- A plan can be checked entry by entry. -/
theorem Plan.of_orderedAfter (hkeys : (es.map Sigma.fst).Nodup)
    (hordered : OrderedAfter needs [] es) (hlasting : ∀ e ∈ es, lasting e.1 e.2 = true) :
    Plan needs lasting es where
  keys _ he _ he' hkey := List.inj_on_of_nodup_map hkeys he he' hkey
  ordered pre e hpre k hk := by
    rcases hordered.needed hpre hk with hseen | hneeded
    · cases hseen
    · exact hneeded
  lasting := hlasting

end Checks

theorem Plan.needed (h : Plan needs lasting es) (hpre : pre <+: es) (he : e ∈ pre) :
    ∀ k ∈ needs e.1, ∃ e' ∈ pre, e'.1 = k := by
  intro k hk
  obtain ⟨before, after, rfl⟩ := List.append_of_mem he
  have hbefore : before ++ [e] <+: es := by
    refine List.IsPrefix.trans ⟨after, ?_⟩ hpre
    simp
  obtain ⟨e', he', hkey⟩ := h.ordered before e hbefore k hk
  exact ⟨e', List.mem_append_left _ he', hkey⟩

theorem Contains.isSome_of_mem {k : K} (h : d.Contains pre) (he : ∃ e' ∈ pre, e'.1 = k) :
    (d k).isSome = true := by
  obtain ⟨e', he', rfl⟩ := he
  rw [show d e'.1 = some e'.2 from h e' he']
  rfl

/-- A restart keeps what has been declared of a plan. -/
theorem Contains.survive (h : d.Contains pre) (hplan : Plan needs lasting es) (hpre : pre <+: es) :
    (d.survive needs lasting).Contains pre := by
  intro e he
  refine (h e he).survive (hplan.lasting e (hpre.subset he)) fun k hk => ?_
  obtain ⟨e', he', rfl⟩ := hplan.needed hpre he k hk
  rw [show d e'.1 = some e'.2 from h e' he']
  exact hplan.lasting e' (hpre.subset he')

/-- Parties that declare one plan are in nobody's way. -/
theorem Compatible.of_within (h : Compatible d₀ es) (hplan : Plan needs lasting es)
    (hwithin : Within d₀ es d) : Compatible d es := by
  intro e he
  cases hk : d e.1 with
  | none => exact Or.inl hk
  | some v =>
      have hhas : d.Has ⟨e.1, v⟩ := hk
      have hsame : e = ⟨e.1, v⟩ := by
        rcases hwithin _ hhas with hold | hmem
        · have hiff : d₀.Admits e ↔ e = ⟨e.1, v⟩ := hold.admits_iff rfl
          exact hiff.1 (h e he)
        · exact hplan.keys e he _ hmem rfl
      exact Or.inr ((congrArg d.Has hsame).mpr hhas)

/-- The next entry of a plan is accepted. -/
theorem Plan.accepts (hplan : Plan needs lasting es) (hcompatible : Compatible d₀ es)
    (hwithin : Within d₀ es d) (hnext : pre ++ [e] <+: es) (hcontains : d.Contains pre) :
    d.Accepts needs e := by
  have he : e ∈ es := hnext.subset (by simp)
  refine ⟨hcompatible.of_within hplan hwithin e he, fun k hk => ?_⟩
  exact hcontains.isSome_of_mem (hplan.ordered pre e hnext k hk)

end Plans

end Registry

end Registry

end Foundations
