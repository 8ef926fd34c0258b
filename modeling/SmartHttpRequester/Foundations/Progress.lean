import Mathlib.Data.DFinsupp.WellFounded
import SmartHttpRequester.Foundations.Interleaving

/-!
# Interleaved programs come to an end

A program tree has no infinite branch, whatever its operations answer.  So
finitely many participants take only finitely many steps, in whatever order they
take them and whatever the environment does in between
(`Machine.exists_last_action`).

Whether all of them get to the end is a matter of progress: if in every state in
which somebody is left somebody can take a step, then all end in every run that
does not pass them over for ever (`Machine.exists_all_ended`).

`Prog.EndsBy` says which operation a program performs last.
-/

namespace Foundations

open Function

section Progress

variable {ι C A O R E α W : Type}

namespace Prog

/-- The first program is what may be left of the second after one operation. -/
inductive Rest : Prog O R E α → Prog O R E α → Prop
  | answered (o : O) (k : Except E R → Prog O R E α) (r : Except E R) : Rest (k r) (op o k)
  | abandoned (o : O) (k : Except E R → Prog O R E α) (e : E) : Rest (raise e) (op o k)

theorem acc_raise (e : E) : Acc (Rest (α := α)) (raise e : Prog O R E α) :=
  Acc.intro _ fun _ h => by cases h

/-- No branch of a program is infinite. -/
theorem wellFounded_rest : WellFounded (Rest : Prog O R E α → Prog O R E α → Prop) := by
  refine ⟨fun p => ?_⟩
  induction p with
  | ret a =>
      exact Acc.intro _ fun _ h => by cases h
  | raise e =>
      exact acc_raise e
  | op o k ih =>
      refine Acc.intro _ fun q h => ?_
      cases h with
      | answered _ _ r => exact ih r
      | abandoned _ _ e => exact acc_raise e

def Ended (p : Prog O R E α) : Prop :=
  p.next? = none

theorem exists_op_of_not_ended {p : Prog O R E α} (h : ¬ p.Ended) : ∃ o k, p = .op o k := by
  obtain ⟨o, ho⟩ := Option.ne_none_iff_exists'.1 h
  obtain ⟨k, hk⟩ := exists_op_of_next? ho
  exact ⟨o, k, hk⟩

theorem not_rest_of_ended {p q : Prog O R E α} (hp : p.Ended) : ¬ Rest q p := by
  rintro (⟨o, k, r⟩ | ⟨o, k, e⟩)
  · cases hp
  · cases hp

/-- The monitor that remembers the operation performed last. -/
def lastMonitor (O R E : Type) : Monitor O R E (Option O) where
  allows _ _ := True
  expects _ _ := True
  next _ o _ := some o

/-- However the program ends, the operation it performs last is `o`. -/
def EndsBy (o : O) (p : Prog O R E α) : Prop :=
  ∀ g, p.wp (lastMonitor O R E) (fun _ g' => g' = some o) g

theorem endsBy_effect (o : O) : (effect o : Prog O R E Unit).EndsBy o := by
  intro g
  exact (wp_effect _ o _ g).2 ⟨trivial, fun _ _ => rfl, fun _ _ => rfl⟩

/-- What a `finally` block ends by, the whole statement ends by. -/
theorem EndsBy.tryFinally {o : O} {f : Prog O R E Unit} (hf : f.EndsBy o) (p : Prog O R E α) :
    (p.tryFinally f).EndsBy o := by
  intro g
  refine (wp_tryFinally _ p f _ g).2 (wp_of_allows _ (fun _ _ => trivial) fun r g' => ?_)
  refine wp_mono _ (hf g') fun r' g'' hlast => ?_
  cases r' with
  | ok u => exact hlast
  | error e => exact hlast

/-- The last operation of a program that has ended. -/
theorem EndsBy.last {o : O} {p : Prog O R E α} {g : Option O}
    (h : p.wp (lastMonitor O R E) (fun _ g' => g' = some o) g) (hp : p.Ended) : g = some o := by
  cases p with
  | ret a => exact h
  | raise e => exact h
  | op o' k => cases hp

end Prog

namespace Machine

variable [DecidableEq ι] {M : Machine ι C A O R E W} {s s' t : Config ι O R E α W} {l : Label ι C A} {ls : List (Label ι C A)}

/-- In a step of a participant its program gets shorter, and the others keep theirs. -/
theorem rest_of_step (h : M.step s l = some s') {i : ι} (hi : l.actor = some i) :
    Prog.Rest (s'.prog i) (s.prog i) ∧ ∀ j, j ≠ i → s'.prog j = s.prog j := by
  constructor
  · obtain ⟨j, c, o, k, r, w, rfl, hp, -, rfl⟩ | ⟨a, w, rfl, -, rfl⟩ | ⟨j, o, k, rfl, hp, rfl⟩ :=
      step_cases h
    · cases hi
      rw [hp]
      simpa using Prog.Rest.answered o k r
    · cases hi
    · cases hi
      rw [hp]
      simpa using Prog.Rest.abandoned o k M.killed
  · intro j hji
    rcases step_participant h j with ⟨-, hsame, -⟩ | ⟨c, o, k, r, rfl, -⟩ | ⟨rfl, -⟩
    · exact hsame
    · exact absurd (Option.some.inj hi) hji
    · exact absurd (Option.some.inj hi) hji

/-- Whoever takes a step had not ended. -/
theorem not_ended_of_step (h : M.step s l = some s') {i : ι} (hi : l.actor = some i) :
    ¬ (s.prog i).Ended := by
  intro hended
  exact Prog.not_rest_of_ended hended (rest_of_step h hi).1

/-- What a step of the environment leaves alone. -/
theorem prog_of_env (h : M.step s l = some s') (hl : l.actor = none) : s'.prog = s.prog := by
  obtain ⟨j, c, o, k, r, w, rfl, -⟩ | ⟨a, w, rfl, -, rfl⟩ | ⟨j, o, k, rfl, -⟩ := step_cases h
  · cases hl
  · rfl
  · cases hl

omit [DecidableEq ι] in
/-- Shorter programs, in the lexicographic order of the participants. -/
theorem wellFounded_shorter [Finite ι] :
    WellFounded (Pi.Lex (WellOrderingRel : ι → ι → Prop)
      (fun {_} => (Prog.Rest : Prog O R E α → Prog O R E α → Prop))) := by
  exact Pi.Lex.wellFounded _ fun _ => Prog.wellFounded_rest

theorem shorter_of_step (h : M.step s l = some s') (hl : l.actor.isSome = true) :
    Pi.Lex (WellOrderingRel : ι → ι → Prop)
      (fun {_} => (Prog.Rest : Prog O R E α → Prog O R E α → Prop)) s'.prog s.prog := by
  obtain ⟨i, hi⟩ := Option.isSome_iff_exists.1 hl
  obtain ⟨hrest, hothers⟩ := rest_of_step h hi
  refine ⟨i, fun j hj => hothers j ?_, hrest⟩
  rintro rfl
  exact irrefl_of WellOrderingRel j hj

/-- In an infinite run there is a last step of a participant; then only the environment acts. -/
theorem exists_last_action [Finite ι] {run : ℕ → Config ι O R E α W} {label : ℕ → Label ι C A}
    (hrun : ∀ n, M.step (run n) (label n) = some (run (n + 1))) :
    ∃ N, ∀ n, N ≤ n → (label n).actor = none := by
  -- induction on what is left of the programs at the beginning of the run
  have hwf := InvImage.wf (Config.prog : Config ι O R E α W → ι → Prog O R E α)
    wellFounded_shorter
  generalize hs : run 0 = s
  induction s using hwf.induction generalizing run label with
  | _ s ih =>
      by_cases hnone : ∀ n, (label n).actor = none
      · exact ⟨0, fun n _ => hnone n⟩
      · push Not at hnone
        classical
        let m := Nat.find hnone
        have hm : (label m).actor.isSome = true := Option.isSome_iff_ne_none.2 (Nat.find_spec hnone)
        have hbefore : ∀ n, n ≤ m → (run n).prog = s.prog := by
          intro n hn
          induction n with
          | zero =>
              rw [hs]
          | succ n ihn =>
              have hidle : (label n).actor = none := by
                simpa using Nat.find_min hnone (show n < m by omega)
              rw [prog_of_env (hrun n) hidle, ihn (by omega)]
        have hshorter := shorter_of_step (hrun m) hm
        rw [hbefore m le_rfl] at hshorter
        obtain ⟨N, hN⟩ := @ih (run (m + 1)) hshorter (fun n => run (m + 1 + n))
          (fun n => label (m + 1 + n)) (fun n => hrun (m + 1 + n)) rfl
        refine ⟨m + 1 + N, fun n hn => ?_⟩
        have hlast := hN (n - (m + 1)) (by omega)
        rwa [show m + 1 + (n - (m + 1)) = n by omega] at hlast

/--
Some participant takes a step again as long as one could take a step of a
certain kind.
-/
def Fair (M : Machine ι C A O R E W) (Q : Config ι O R E α W → Label ι C A → Prop)
    (run : ℕ → Config ι O R E α W) (label : ℕ → Label ι C A) : Prop :=
  ∀ n, (∃ l s', l.actor.isSome = true ∧ Q (run n) l ∧ M.step (run n) l = some s') →
    ∃ m, n ≤ m ∧ (label m).actor.isSome = true

/-- If somebody who is left can always take a step, a fair run ends all programs. -/
theorem exists_all_ended [Finite ι] {Q : Config ι O R E α W → Label ι C A → Prop}
    {run : ℕ → Config ι O R E α W} {label : ℕ → Label ι C A}
    (hrun : ∀ n, M.step (run n) (label n) = some (run (n + 1)))
    (hfair : M.Fair Q run label)
    (hprogress : ∀ n, (∃ i, ¬ ((run n).prog i).Ended) →
      ∃ l s', l.actor.isSome = true ∧ Q (run n) l ∧ M.step (run n) l = some s') :
    ∃ N, ∀ n, N ≤ n → ∀ i, ((run n).prog i).Ended := by
  obtain ⟨N, hN⟩ := exists_last_action hrun
  refine ⟨N, fun n hn => ?_⟩
  by_contra hleft
  push Not at hleft
  obtain ⟨m, hnm, hactor⟩ := hfair n (hprogress n hleft)
  rw [hN m (hn.trans hnm)] at hactor
  cases hactor

end Machine

end Progress

end Foundations
