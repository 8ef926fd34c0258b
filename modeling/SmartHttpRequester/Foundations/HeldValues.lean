import Mathlib.Tactic

/-!
# Values held at places

Every place holds at most one value, and values have names.  The places are
apart if no two of them hold values of one name; what one writes, moves or
drops keeps them apart, as long as the names that are written are new.

Once another value has been moved over a value, its name is nowhere
(`Apart.every_of_moveTo`).
-/

namespace Foundations

open Function

section HeldValues

variable {P V X : Type} (name : V → X)

/-- No two places hold values of one name. -/
def Apart (f : P → Option V) : Prop :=
  ∀ p q v v', f p = some v → f q = some v' → name v = name v' → p = q

/-- Every value that is held satisfies the condition. -/
def Every (Q : V → Prop) (f : P → Option V) : Prop :=
  ∀ p v, f p = some v → Q v

variable {name} {f f' : P → Option V} {Q Q' : V → Prop} {p q : P} {v : V}

theorem Every.mono (h : Every Q f) (hQ : ∀ v, Q v → Q' v) :
    Every Q' f :=
  fun p v hv => hQ v (h p v hv)

theorem Every.of_sub (h : Every Q f) (hsub : ∀ p v, f' p = some v → f p = some v) :
    Every Q f' :=
  fun p v hv => h p v (hsub p v hv)

theorem Apart.of_sub (h : Apart name f) (hsub : ∀ p v, f' p = some v → f p = some v) :
    Apart name f' :=
  fun p q v v' hv hv' => h p q v v' (hsub p v hv) (hsub q v' hv')

variable [DecidableEq P]

theorem sub_of_clear {q : P} {w : V} (h : update f p none q = some w) :
    f q = some w := by
  by_cases hq : q = p
  · subst hq
    simp at h
  · rwa [update_of_ne hq] at h

theorem Every.put (h : Every Q f) (hv : Q v) :
    Every Q (update f p (some v)) := by
  intro q w hw
  by_cases hq : q = p
  · subst hq
    rw [update_self] at hw
    cases hw
    exact hv
  · rw [update_of_ne hq] at hw
    exact h q w hw

theorem Apart.put (h : Apart name f) (hnew : Every (fun w => name w ≠ name v) f) :
    Apart name (update f p (some v)) := by
  intro q q' w w' hw hw' hname
  by_cases hq : q = p
  · by_cases hq' : q' = p
    · exact hq.trans hq'.symm
    · subst hq
      rw [update_self] at hw
      rw [update_of_ne hq'] at hw'
      cases hw
      exact absurd hname.symm (hnew q' w' hw')
  · rw [update_of_ne hq] at hw
    by_cases hq' : q' = p
    · subst hq'
      rw [update_self] at hw'
      cases hw'
      exact absurd hname (hnew q w hw)
    · rw [update_of_ne hq'] at hw'
      exact h q q' w w' hw hw' hname

/-- The value at a place is moved to another one, over what is there. -/
def moveTo (q p : P) (f : P → Option V) : P → Option V :=
  update (update f p (f q)) q none

/-- What is held after a move was held before, there or where it was moved from. -/
theorem moveTo_cases {r : P} {w : V} (h : moveTo q p f r = some w) :
    r ≠ q ∧ ((r = p ∧ f q = some w) ∨ (r ≠ p ∧ f r = some w)) := by
  unfold moveTo at h
  by_cases hr : r = q
  · subst hr
    simp at h
  · rw [update_of_ne hr] at h
    refine ⟨hr, ?_⟩
    by_cases hp : r = p
    · subst hp
      rw [update_self] at h
      exact Or.inl ⟨rfl, h⟩
    · rw [update_of_ne hp] at h
      exact Or.inr ⟨hp, h⟩

theorem Every.moveTo (h : Every Q f) :
    Every Q (moveTo q p f) := by
  intro r w hw
  obtain ⟨-, ⟨-, hq⟩ | ⟨-, hr⟩⟩ := moveTo_cases hw
  · exact h q w hq
  · exact h r w hr

theorem Apart.moveTo (h : Apart name f) :
    Apart name (moveTo q p f) := by
  intro r r' w w' hw hw' hname
  obtain ⟨hr, ⟨hp, hq⟩ | ⟨hp, hrow⟩⟩ := moveTo_cases hw
  · obtain ⟨hr', ⟨hp', hq'⟩ | ⟨hp', hrow'⟩⟩ := moveTo_cases hw'
    · exact hp.trans hp'.symm
    · exact absurd (h q r' w w' hq hrow' hname).symm hr'
  · obtain ⟨hr', ⟨hp', hq'⟩ | ⟨hp', hrow'⟩⟩ := moveTo_cases hw'
    · exact absurd (h r q w w' hrow hq' hname) hr
    · exact h r r' w w' hrow hrow' hname

/-- The name of a value that another one has been moved over is nowhere. -/
theorem Apart.every_of_moveTo (h : Apart name f) (hne : q ≠ p) (hv : f p = some v) :
    Every (fun w => name w ≠ name v) (Foundations.moveTo q p f) := by
  intro r w hw hname
  obtain ⟨-, ⟨-, hq⟩ | ⟨hp, hrow⟩⟩ := moveTo_cases hw
  · exact hne (h q p w v hq hv hname)
  · exact hp (h r p w v hrow hv hname)

end HeldValues

end Foundations
