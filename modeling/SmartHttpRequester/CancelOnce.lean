import SmartHttpRequester.StaleReads

/-!
# Cancellations and the counter of canceled tasks

`cancel_task` decides on the status it has read, so two DELETEs of the owner
that both read `pending` both succeed, and the task is counted twice
(`cancels_twice`).  The counter is also incremented before the commit.

`canceledOnce`: when no cancellation commits between the read and the write of
another of the owner's DELETEs, and a request that has counted is neither
abandoned nor disturbed before its commit, a task is canceled once, and in every
quiescent state the counter is the number of canceled tasks.
-/

namespace SmartHttpRequester

open Foundations Function

section CancelOnce

variable {ι : Type}

/-- The request has counted its cancellation and has not attempted its commit. -/
def Unsettled (s : TaskConfig ι) (i : ι) : Prop :=
  (ghostOf (s.hist i)).counted = true ∧ (ghostOf (s.hist i)).attempted = false

/-- The step neither overtakes a DELETE nor disturbs a request that has counted. -/
structure CancelsCleanly (reqs : ι → TaskRequest) (s : TaskConfig ι) (l : TaskLabel ι) :
    Prop where
  inTime : NoOvertaking reqs TaskRequest.Cancels s l
  finishes : ∀ i, Unsettled s i → l ≠ .kill i ∧ ∀ c, l = .op i c → c.fault = .none

def Quiescent (s : TaskConfig ι) : Prop :=
  ∀ i, s.hist i = [] ∨ (s.prog i).next? = none

/-- The tasks whose committed status is `canceled`. -/
def canceledTasks (s : TaskConfig ι) : Finset UUID :=
  s.world.tasks.keys.toFinset.filter fun id =>
    (committedTask s id).any fun row => row.status = .canceled

theorem mem_canceledTasks {s : TaskConfig ι} {id : UUID} :
    id ∈ canceledTasks s ↔ ∃ row, committedTask s id = some row ∧ row.status = .canceled := by
  simp only [canceledTasks, Finset.mem_filter, List.mem_toFinset, Option.any_eq_true,
    decide_eq_true_eq, and_iff_right_iff_imp]
  rintro ⟨row, hrow, -⟩
  by_contra hid
  simp [committedTask, Table.committed, s.world.tasks.support id hid, Slot.empty] at hrow

theorem canceledTasks_congr {s s' : TaskConfig ι}
    (h : ∀ id, (∃ row, committedTask s' id = some row ∧ row.status = .canceled) ↔
      ∃ row, committedTask s id = some row ∧ row.status = .canceled) :
    canceledTasks s' = canceledTasks s := by
  ext id
  rw [mem_canceledTasks, mem_canceledTasks, h]

section Ghost

variable {g : TaskGhost} {o : TaskOp} {r : Reply}

theorem TaskGhost.counted_of_next (h : (g.next o r).counted = true) :
    g.counted = true ∨ ∃ status amount rows,
      o = .inc (.tasksCompletedTotal status) amount ∧ r = .ok rows := by
  cases r with
  | ok rows =>
      cases o with
      | execute st => cases st <;> exact Or.inl h
      | inc counter amount =>
          cases counter with
          | tasksCreatedTotal => exact Or.inl h
          | tasksCompletedTotal status => exact Or.inr ⟨status, amount, rows, rfl, rfl⟩
      | _ => exact Or.inl h
  | error e =>
      cases o with
      | execute st => cases st <;> exact Or.inl h
      | _ => exact Or.inl h

theorem TaskGhost.next_attempted (o : TaskOp) (r : Reply) (h : g.attempted = true) :
    (g.next o r).attempted = true := by
  cases r with
  | ok rows =>
      cases o with
      | execute st => cases st <;> exact h
      | inc counter amount => cases counter <;> exact h
      | commit => rfl
      | _ => exact h
  | error e =>
      cases o with
      | execute st => cases st <;> exact h
      | commit => rfl
      | _ => exact h

theorem TaskGhost.next_commit_attempted (r : Reply) :
    (g.next .commit r).attempted = true := by
  cases r <;> rfl

theorem TaskGhost.attempted_of_next (h : (g.next o r).attempted = true) :
    g.attempted = true ∨ o = .commit := by
  cases r with
  | ok rows =>
      cases o with
      | execute st => cases st <;> exact Or.inl h
      | inc counter amount => cases counter <;> exact Or.inl h
      | commit => exact Or.inr rfl
      | _ => exact Or.inl h
  | error e =>
      cases o with
      | execute st => cases st <;> exact Or.inl h
      | commit => exact Or.inr rfl
      | _ => exact Or.inl h

theorem TaskGhost.failed_of_next (h : (g.next o r).failed = true) :
    g.failed = true ∨ (g.counted = true ∧ ∃ e, r = .error e) := by
  cases r with
  | ok rows =>
      cases o with
      | execute st => cases st <;> exact Or.inl h
      | inc counter amount => cases counter <;> exact Or.inl h
      | _ => exact Or.inl h
  | error e =>
      have hfail : g.failed = true ∨ g.counted = true := by
        cases o with
        | execute st => cases st <;> exact Bool.or_eq_true_iff.1 h
        | _ => exact Bool.or_eq_true_iff.1 h
      exact hfail.imp_right fun hcounted => ⟨hcounted, e, rfl⟩

theorem TaskGhost.next_applied_eq (hcommit : o ≠ .commit)
    (hread : ∀ st, o = .execute st → st.write? = none) :
    (g.next o r).applied = g.applied := by
  cases r with
  | ok rows =>
      cases o with
      | execute st =>
          cases st <;> first | rfl | exact absurd (hread _ rfl) (by simp [Stmt.write?])
      | inc counter amount => cases counter <;> rfl
      | commit => exact absurd rfl hcommit
      | _ => rfl
  | error e =>
      cases o with
      | execute st =>
          cases st <;> first | rfl | exact absurd (hread _ rfl) (by simp [Stmt.write?])
      | commit => exact absurd rfl hcommit
      | _ => rfl

end Ghost

variable [DecidableEq ι] {reqs : ι → TaskRequest} {s s' : TaskConfig ι} {l : TaskLabel ι}
variable {w w' : World ι} {ls : List (TaskLabel ι)}

/-- The call counts cancellations and leaves the table alone. -/
structure Counts (o : TaskOp) (w w' : World ι) (amount : Nat) : Prop where
  call : o = .inc (.tasksCompletedTotal .canceled) amount
  tasks : w'.tasks = w.tasks
  counter : w'.tasksCompletedTotal .canceled = w.tasksCompletedTotal .canceled + amount

theorem runOp_counter {i : ι} {c : Choice} {o : TaskOp} {r : Reply}
    (h : runOp i c o w = some (r, w')) :
    (∃ amount, Counts o w w' amount) ∨
    ((∀ amount, o ≠ .inc (.tasksCompletedTotal .canceled) amount) ∧
      w'.tasksCompletedTotal .canceled = w.tasksCompletedTotal .canceled) := by
  cases o with
  | execute st =>
      obtain ⟨tasks, notices, rfl⟩ := runStmt_frame (w := w.begin i) h
      exact Or.inr ⟨by simp, rfl⟩
  | inc counter amount =>
      cases h
      cases counter with
      | tasksCreatedTotal => exact Or.inr ⟨by simp, rfl⟩
      | tasksCompletedTotal status =>
          by_cases hstatus : status = .canceled
          · subst hstatus
            exact Or.inl ⟨amount, rfl, rfl, by simp [World.inc]⟩
          · exact Or.inr ⟨by simp [hstatus], by simp [World.inc, Ne.symm hstatus]⟩
  | _ =>
      cases h
      exact Or.inr ⟨by simp, rfl⟩

/-- Only counting a cancellation changes the counter. -/
theorem callOp_counter {i : ι} {c : Choice} {o : TaskOp} {r : Reply}
    (h : callOp i c o w = some (r, w')) :
    (∃ amount, Counts o w w' amount) ∨
    ((∀ amount, o ≠ .inc (.tasksCompletedTotal .canceled) amount) ∧
      w'.tasksCompletedTotal .canceled = w.tasksCompletedTotal .canceled) := by
  rcases callOp_cases h with ⟨r', hrun, -, -⟩ | ⟨f, -, hlocal, -, rfl⟩
  · exact runOp_counter hrun
  · refine Or.inr ⟨?_, ?_⟩
    · rintro amount rfl
      cases hlocal
    · cases o <;> rfl

/--
How counting and committing are in step: who has counted and not committed holds
the row of a task that is still pending, who has committed has canceled it, and
no task is counted twice.
-/
structure Tally (reqs : ι → TaskRequest) (s : TaskConfig ι) : Prop where
  running : ∀ {i}, Unsettled s i → ∃ o k, s.prog i = .op o k
  holding : ∀ {i}, Unsettled s i → ∃ id,
    (reqs i).Cancels id ∧
    (ghostOf (s.hist i)).wrote = some (.cancel id) ∧
    (ghostOf (s.hist i)).applied = true ∧
    (ghostOf (s.hist i)).Entitled (reqs i).user id
  canceled : ∀ {i id}, (ghostOf (s.hist i)).counted = true →
    (ghostOf (s.hist i)).attempted = true → (reqs i).Cancels id →
    ∃ row, committedTask s id = some row ∧ row.status = .canceled
  unique : ∀ {i j id}, (ghostOf (s.hist i)).counted = true →
    (ghostOf (s.hist j)).counted = true → (reqs i).Cancels id → (reqs j).Cancels id → i = j
  undisturbed : ∀ {i}, (ghostOf (s.hist i)).failed = true →
    (ghostOf (s.hist i)).attempted = true
  counter : ∃ L : Finset ι, (∀ i, i ∈ L ↔ Unsettled s i) ∧
    s.world.tasksCompletedTotal .canceled = (canceledTasks s).card + L.card

omit [DecidableEq ι] in
theorem Tally.holds (h : Tally reqs s) (ht : Timely reqs TaskRequest.Cancels s) {i : ι} {id : UUID}
    (hi : Unsettled s i) (hreq : (reqs i).Cancels id) :
    ∃ row old,
      (s.world.tasks.slot id).pending = some (i, row) ∧
      row.status = .canceled ∧
      committedTask s id = some old ∧
      old.status = .pending := by
  obtain ⟨o, k, hp⟩ := h.running hi
  obtain ⟨id', hreq', hwrote, happlied, hentitled⟩ := h.holding hi
  obtain rfl : id' = id := TaskRequest.eq_of_cancels hreq' hreq
  obtain ⟨row, hrow⟩ := ht.sound.coupled.held hp hwrote happlied trivial
  obtain ⟨old, hold⟩ : ∃ old, committedTask s id' = some old := by
    obtain ⟨found, hfound, -, -⟩ := hentitled
    obtain ⟨old, hold, -⟩ := ht.sound.coupled.found hfound
    exact ⟨old, hold⟩
  obtain ⟨u, hu⟩ := ht.sound.coupled.updated hrow hold
  have hsame : some u = some (.cancel id') := hu.wrote.symm.trans hwrote
  cases hsame
  refine ⟨row, old, hrow, ?_, hold, ?_⟩
  · rw [hu.makes.status]
    rfl
  · exact ht.upToDate.writing (u := .cancel id') hreq hp hwrote trivial happlied hentitled hold

section Call

variable {i : ι} {c : Choice} {o : TaskOp} {k : Reply → TaskProg Response} {r : Reply}

/-- An unsettled request goes straight to its commit. -/
theorem Tally.unsettled_call (h : Tally reqs s) (ht : Timely reqs TaskRequest.Cancels s)
    (hclean : CancelsCleanly reqs s (.op i c)) (hp : s.prog i = .op o k)
    (hexec : callOp i c o s.world = some (r, w)) (hi : Unsettled s i) :
    (∃ rows, r = .ok rows) ∧
    (o = .commit ∨
      (o ≠ .commit ∧ o.ends r = false ∧ ∀ st, o = .execute st → st.write? = none)) := by
  obtain ⟨id, hreq, hwrote, -, -⟩ := h.holding hi
  have hon := TaskRequest.onTask_of_cancels hreq
  have hpermits := ht.sound.disciplined.permits hp
  have hdone : ¬ (ghostOf (s.hist i)).Accounted := by
    intro haccounted
    have hattempted : (ghostOf (s.hist i)).attempted = true :=
      (haccounted hi.1).elim (fun htrue => htrue) h.undisturbed
    rw [hi.2] at hattempted
    cases hattempted
  have hok : ∃ rows, r = .ok rows := by
    refine callOp_succeeds ((hclean.finishes i hi).2 c rfl) ?_ hexec
    rintro rows bindparams rfl
    exact TaskRequest.not_creates_of_onTask hon hpermits.1
  refine ⟨hok, ?_⟩
  by_cases hcommit : o = .commit
  · exact Or.inl hcommit
  · refine Or.inr ⟨hcommit, ?_, ?_⟩
    · cases o with
      | commit => exact absurd rfl hcommit
      | rollback => exact absurd hpermits hdone
      | close => exact absurd hpermits hdone
      | _ => rfl
    · rintro st rfl
      by_contra hwrite
      obtain ⟨u, hu⟩ := Option.ne_none_iff_exists'.1 hwrite
      have hnone := (ht.sound.coupled.write_target ht.sound.disciplined hp hu).1
      rw [hwrote] at hnone
      cases hnone

theorem Tally.undisturbed_call (h : Tally reqs s) (ht : Timely reqs TaskRequest.Cancels s)
    (hclean : CancelsCleanly reqs s (.op i c)) (hp : s.prog i = .op o k)
    (hexec : callOp i c o s.world = some (r, w))
    (hfailed : ((ghostOf (s.hist i)).next o r).failed = true) :
    ((ghostOf (s.hist i)).next o r).attempted = true := by
  rcases TaskGhost.failed_of_next hfailed with hold | ⟨hcounted, e, rfl⟩
  · exact TaskGhost.next_attempted o r (h.undisturbed hold)
  · by_cases hattempted : (ghostOf (s.hist i)).attempted = true
    · exact TaskGhost.next_attempted o _ hattempted
    · rw [Bool.not_eq_true] at hattempted
      obtain ⟨⟨rows, hrows⟩, -⟩ := h.unsettled_call ht hclean hp hexec ⟨hcounted, hattempted⟩
      cases hrows

omit [DecidableEq ι] in
theorem counting_call (ht : Timely reqs TaskRequest.Cancels s)
    {status : TaskStatus} {amount : Nat}
    (hp : s.prog i = .op (.inc (.tasksCompletedTotal status) amount) k) :
    status = .canceled ∧ amount = 1 ∧
    (ghostOf (s.hist i)).counted = false ∧ (ghostOf (s.hist i)).attempted = false ∧
    ∃ id row old,
      (reqs i).Cancels id ∧
      (ghostOf (s.hist i)).wrote = some (.cancel id) ∧
      (ghostOf (s.hist i)).applied = true ∧
      (ghostOf (s.hist i)).Entitled (reqs i).user id ∧
      (s.world.tasks.slot id).pending = some (i, row) ∧
      committedTask s id = some old ∧ old.status = .pending := by
  obtain ⟨hstatus, hamount, hcounted, hattempted, id, hreq, hwrote, happlied, hentitled⟩ :=
    ht.sound.disciplined.permits hp
  obtain ⟨row, hrow⟩ := ht.sound.coupled.held hp hwrote happlied trivial
  obtain ⟨old, hold⟩ : ∃ old, committedTask s id = some old := by
    obtain ⟨found, hfound, -, -⟩ := hentitled
    obtain ⟨old, hold, -⟩ := ht.sound.coupled.found hfound
    exact ⟨old, hold⟩
  exact ⟨hstatus, hamount, hcounted, hattempted, id, row, old, hreq, hwrote, happlied, hentitled,
    hrow, hold,
    ht.upToDate.writing (u := .cancel id) hreq hp hwrote trivial happlied hentitled hold⟩

theorem Tally.holding_call (h : Tally reqs s) (ht : Timely reqs TaskRequest.Cancels s)
    (hclean : CancelsCleanly reqs s (.op i c)) (hp : s.prog i = .op o k)
    (hexec : callOp i c o s.world = some (r, w))
    (hcounted : ((ghostOf (s.hist i)).next o r).counted = true)
    (hattempted : ((ghostOf (s.hist i)).next o r).attempted = false) :
    ∃ id,
      (reqs i).Cancels id ∧
      ((ghostOf (s.hist i)).next o r).wrote = some (.cancel id) ∧
      ((ghostOf (s.hist i)).next o r).applied = true ∧
      ((ghostOf (s.hist i)).next o r).Entitled (reqs i).user id := by
  rcases TaskGhost.counted_of_next hcounted with hold | ⟨status, amount, rows, rfl, rfl⟩
  · have hbefore : (ghostOf (s.hist i)).attempted = false := by
      by_contra htrue
      rw [Bool.not_eq_false] at htrue
      rw [TaskGhost.next_attempted o r htrue] at hattempted
      cases hattempted
    obtain ⟨-, rfl | ⟨hcommit, hends, hread⟩⟩ :=
      h.unsettled_call ht hclean hp hexec ⟨hold, hbefore⟩
    · rw [TaskGhost.next_commit_attempted] at hattempted
      cases hattempted
    · obtain ⟨id, hreq, hwrote, happlied, row, hfound, howner, hpending⟩ :=
        h.holding ⟨hold, hbefore⟩
      exact ⟨id, hreq, (TaskGhost.next_wrote hends hread).trans hwrote,
        (TaskGhost.next_applied_eq hcommit hread).trans happlied,
        row, TaskGhost.next_found_of_some hfound, howner, hpending⟩
  · obtain ⟨-, -, -, -, id, row, old, hreq, hwrote, happlied, hentitled, -⟩ := counting_call ht hp
    exact ⟨id, hreq, hwrote, happlied, hentitled⟩

/-- The commit of an unsettled request makes its task canceled. -/
theorem Tally.commit_call (h : Tally reqs s) (ht : Timely reqs TaskRequest.Cancels s)
    (hclean : CancelsCleanly reqs s (.op i c)) (hp : s.prog i = .op .commit k)
    (hexec : callOp i c .commit s.world = some (r, w)) (hi : Unsettled s i) {id : UUID}
    (hreq : (reqs i).Cancels id) :
    ∃ row, w.tasks.committed id = some row ∧ row.status = .canceled := by
  obtain ⟨row, old, hrow, hcanceled, -, -⟩ := h.holds ht hi hreq
  obtain ⟨⟨rows, rfl⟩, -⟩ := h.unsettled_call ht hclean hp hexec hi
  cases callOp_ok hexec
  refine ⟨row, ?_, hcanceled⟩
  show ((s.world.tasks.slot id).commit i).committed = some row
  rw [Slot.commit_of_pending hrow]

/-- Every other call leaves the set of canceled tasks alone. -/
theorem canceled_iff_of_other (ht : Timely reqs TaskRequest.Cancels s)
    (hstep : (taskMachine ι).step s l = some s')
    (hother : ∀ i c k, l = .op i c → s.prog i = .op .commit k → ¬ Unsettled s i) (id : UUID) :
    (∃ row, committedTask s' id = some row ∧ row.status = .canceled) ↔
      ∃ row, committedTask s id = some row ∧ row.status = .canceled := by
  rcases step_committed hstep id with hsame | ⟨i, c, k, new, rfl, hp, hnew, hnew'⟩
  · rw [hsame]
  · have hunsettled := hother i c k rfl hp
    obtain ⟨hsettled, hattempted⟩ := ht.sound.disciplined.permits hp
    cases hold : committedTask s id with
    | none =>
        have hstatus := (ht.sound.coupled.inserted hnew hold).status
        rw [hnew']
        simp only [Option.some.injEq, exists_eq_left', reduceCtorEq, false_and, exists_false,
          iff_false]
        rcases hstatus with hstatus | hstatus <;> simp [hstatus]
    | some old =>
        obtain ⟨u, hu⟩ := ht.sound.coupled.updated hnew hold
        have hmakes := hu.makes
        rw [hnew']
        simp only [Option.some.injEq, exists_eq_left', hmakes.status]
        have hconditions := hsettled.of_wrote hu.wrote
        cases u with
        | cancel taskId =>
            exact absurd ⟨hconditions.2.2.1,
              hattempted (TaskRequest.onTask_of_cancels hconditions.2.1)⟩ hunsettled
        | data taskId => rfl
        | confirm taskId => simp [RowWrite.statusAfter, hmakes.1]

end Call

section Step

omit [DecidableEq ι] in
/-- Nobody counts a cancellation of a task that another request has counted. -/
theorem Tally.not_counting (h : Tally reqs s) (ht : Timely reqs TaskRequest.Cancels s)
    {i j : ι} {status : TaskStatus} {amount : Nat} {k : Reply → TaskProg Response} {id : UUID}
    (hp : s.prog i = .op (.inc (.tasksCompletedTotal status) amount) k)
    (hj : (ghostOf (s.hist j)).counted = true)
    (hi : (reqs i).Cancels id) (hreq : (reqs j).Cancels id) :
    False := by
  obtain ⟨-, -, hcounted, -, id', row, old, hreq', -, -, -, hrow, hold, hpending⟩ :=
    counting_call ht hp
  obtain rfl : id' = id := TaskRequest.eq_of_cancels hreq' hi
  by_cases hattempted : (ghostOf (s.hist j)).attempted = true
  · obtain ⟨old', hold', hcanceled⟩ := h.canceled hj hattempted hreq
    rw [hold] at hold'
    cases hold'
    rw [hpending] at hcanceled
    cases hcanceled
  · rw [Bool.not_eq_true] at hattempted
    obtain ⟨row', -, hrow', -⟩ := h.holds ht ⟨hj, hattempted⟩ hreq
    rw [hrow] at hrow'
    cases hrow'
    rw [hcounted] at hj
    cases hj

theorem Tally.undisturbed_step (h : Tally reqs s) (ht : Timely reqs TaskRequest.Cancels s)
    (hclean : CancelsCleanly reqs s l) (hstep : (taskMachine ι).step s l = some s') {i : ι}
    (hfailed : (ghostOf (s'.hist i)).failed = true) :
    (ghostOf (s'.hist i)).attempted = true := by
  rcases Machine.step_hist hstep i with hhist | ⟨c, o, k, r, rfl, hp, hexec, hhist⟩
  · rw [hhist] at hfailed ⊢
    exact h.undisturbed hfailed
  · rw [hhist, ghostOf_snoc] at hfailed ⊢
    exact h.undisturbed_call ht hclean hp hexec hfailed

theorem Tally.running_step (h : Tally reqs s) (ht : Timely reqs TaskRequest.Cancels s)
    (hclean : CancelsCleanly reqs s l) (hstep : (taskMachine ι).step s l = some s') {i : ι}
    (hi : Unsettled s' i) :
    ∃ o k, s'.prog i = .op o k := by
  have hundisturbed := h.undisturbed_step ht hclean hstep (i := i)
  obtain ⟨hcounted, hattempted⟩ := hi
  rcases Machine.step_participant hstep i with ⟨-, hprog, hhist⟩ |
      ⟨c, o, k, r, rfl, hp, hexec, hprog, hhist⟩ | ⟨rfl, -, hhist⟩
  · rw [hhist] at hcounted hattempted
    rw [hprog]
    exact h.running ⟨hcounted, hattempted⟩
  · -- a request that ends has been brought to a commit, or was disturbed
    rw [hhist, ghostOf_snoc] at hcounted hattempted hundisturbed
    rw [hprog]
    refine Prog.exists_op_of_wp _ (Monitored.after_call (taskMachine_meets reqs)
      ht.sound.disciplined hp hexec) fun r' hends => ?_
    have htrue : ((ghostOf (s.hist i)).next o r).attempted = true :=
      (hends.accounted hcounted).elim (fun h => h) hundisturbed
    rw [hattempted] at htrue
    cases htrue
  · rw [hhist] at hcounted hattempted
    exact absurd rfl (hclean.finishes i ⟨hcounted, hattempted⟩).1

theorem Tally.holding_step (h : Tally reqs s) (ht : Timely reqs TaskRequest.Cancels s)
    (hclean : CancelsCleanly reqs s l) (hstep : (taskMachine ι).step s l = some s') {i : ι}
    (hi : Unsettled s' i) :
    ∃ id,
      (reqs i).Cancels id ∧
      (ghostOf (s'.hist i)).wrote = some (.cancel id) ∧
      (ghostOf (s'.hist i)).applied = true ∧
      (ghostOf (s'.hist i)).Entitled (reqs i).user id := by
  obtain ⟨hcounted, hattempted⟩ := hi
  rcases Machine.step_hist hstep i with hhist | ⟨c, o, k, r, rfl, hp, hexec, hhist⟩
  · rw [hhist] at hcounted hattempted ⊢
    exact h.holding ⟨hcounted, hattempted⟩
  · rw [hhist, ghostOf_snoc] at hcounted hattempted ⊢
    exact h.holding_call ht hclean hp hexec hcounted hattempted

theorem Tally.canceled_step (h : Tally reqs s) (ht : Timely reqs TaskRequest.Cancels s)
    (hclean : CancelsCleanly reqs s l) (hstep : (taskMachine ι).step s l = some s') {i : ι}
    {id : UUID} (hcounted : (ghostOf (s'.hist i)).counted = true)
    (hattempted : (ghostOf (s'.hist i)).attempted = true) (hreq : (reqs i).Cancels id) :
    ∃ row, committedTask s' id = some row ∧ row.status = .canceled := by
  have hkept : (∃ row, committedTask s id = some row ∧ row.status = .canceled) →
      ∃ row, committedTask s' id = some row ∧ row.status = .canceled := by
    rintro ⟨old, hold, hcanceled⟩
    obtain ⟨row, hrow, hadvance⟩ := ht.sound.coupled.step_advance hstep hold
    refine ⟨row, hrow, statusPath_canceled ?_⟩
    rw [← hcanceled]
    exact hadvance.status.to_reflTransGen
  rcases Machine.step_hist hstep i with hhist | ⟨c, o, k, r, rfl, hp, hexec, hhist⟩
  · rw [hhist] at hcounted hattempted
    exact hkept (h.canceled hcounted hattempted hreq)
  · rw [hhist, ghostOf_snoc] at hcounted hattempted
    rcases TaskGhost.counted_of_next hcounted with hold | ⟨status, amount, rows, rfl, -⟩
    · by_cases hbefore : (ghostOf (s.hist i)).attempted = true
      · exact hkept (h.canceled hold hbefore hreq)
      · rcases TaskGhost.attempted_of_next hattempted with htrue | rfl
        · exact absurd htrue hbefore
        · rw [Bool.not_eq_true] at hbefore
          exact h.commit_call ht hclean hp hexec ⟨hold, hbefore⟩ hreq
    · obtain ⟨-, -, -, hfalse, -⟩ := counting_call ht hp
      rcases TaskGhost.attempted_of_next hattempted with htrue | hcommit
      · rw [hfalse] at htrue
        cases htrue
      · cases hcommit

/-- Who has counted after a step had counted before or is counting. -/
theorem counted_of_step (hstep : (taskMachine ι).step s l = some s') {i : ι}
    (hcounted : (ghostOf (s'.hist i)).counted = true) :
    (ghostOf (s.hist i)).counted = true ∨
    (l.actor = some i ∧
      ∃ status amount k, s.prog i = .op (.inc (.tasksCompletedTotal status) amount) k) := by
  rcases Machine.step_hist hstep i with hhist | ⟨c, o, k, r, rfl, hp, -, hhist⟩
  · rw [hhist] at hcounted
    exact Or.inl hcounted
  · rw [hhist, ghostOf_snoc] at hcounted
    rcases TaskGhost.counted_of_next hcounted with hold | ⟨status, amount, rows, rfl, -⟩
    · exact Or.inl hold
    · exact Or.inr ⟨rfl, status, amount, k, hp⟩

theorem Tally.unique_step (h : Tally reqs s) (ht : Timely reqs TaskRequest.Cancels s)
    (hstep : (taskMachine ι).step s l = some s') {i j : ι} {id : UUID}
    (hi : (ghostOf (s'.hist i)).counted = true) (hj : (ghostOf (s'.hist j)).counted = true)
    (hreq : (reqs i).Cancels id) (hreq' : (reqs j).Cancels id) :
    i = j := by
  rcases counted_of_step hstep hi with hi | ⟨hactor, status, amount, k, hp⟩ <;>
    rcases counted_of_step hstep hj with hj | ⟨hactor', status', amount', k', hp'⟩
  · exact h.unique hi hj hreq hreq'
  · exact (h.not_counting ht hp' hi hreq' hreq).elim
  · exact (h.not_counting ht hp hj hreq hreq').elim
  · rw [hactor] at hactor'
    exact Option.some.inj hactor'

end Step

section Counter

omit [DecidableEq ι] in
/-- Who has counted and not committed, after a call that is neither. -/
theorem TaskGhost.next_unsettled {g : TaskGhost} {o : TaskOp} {r : Reply}
    (hcount : ∀ status amount, o ≠ .inc (.tasksCompletedTotal status) amount)
    (hcommit : o = .commit → ¬ (g.counted = true ∧ g.attempted = false)) :
    ((g.next o r).counted = true ∧ (g.next o r).attempted = false) ↔
      (g.counted = true ∧ g.attempted = false) := by
  constructor
  · rintro ⟨hcounted, hattempted⟩
    constructor
    · rcases TaskGhost.counted_of_next hcounted with hold | ⟨status, amount, -, ho, -⟩
      · exact hold
      · exact absurd ho (hcount status amount)
    · by_contra htrue
      rw [Bool.not_eq_false] at htrue
      rw [TaskGhost.next_attempted o r htrue] at hattempted
      cases hattempted
  · intro hbefore
    refine ⟨TaskGhost.next_counted o r hbefore.1, ?_⟩
    by_contra htrue
    rw [Bool.not_eq_false] at htrue
    rcases TaskGhost.attempted_of_next htrue with hold | ho
    · rw [hbefore.2] at hold
      cases hold
    · exact hcommit ho hbefore

theorem unsettled_of_step (hstep : (taskMachine ι).step s l = some s') {i : ι}
    (hi : ∀ c o k, l = .op i c → s.prog i = .op o k →
      (∀ status amount, o ≠ .inc (.tasksCompletedTotal status) amount) ∧
      (o = .commit → ¬ Unsettled s i)) :
    Unsettled s' i ↔ Unsettled s i := by
  rcases Machine.step_hist hstep i with hhist | ⟨c, o, k, r, rfl, hp, -, hhist⟩
  · rw [Unsettled, hhist, Unsettled]
  · obtain ⟨hcount, hcommit⟩ := hi c o k rfl hp
    rw [Unsettled, hhist, ghostOf_snoc]
    exact TaskGhost.next_unsettled hcount hcommit

theorem unsettled_of_other {i j : ι} {c : Choice}
    (hstep : (taskMachine ι).step s (.op i c) = some s') (hj : j ≠ i) :
    Unsettled s' j ↔ Unsettled s j := by
  refine unsettled_of_step hstep ?_
  rintro c' o k' hl -
  cases hl
  exact absurd rfl hj

theorem step_counter (hstep : (taskMachine ι).step s l = some s') :
    (∃ i c k amount,
      l = .op i c ∧
      s.prog i = .op (.inc (.tasksCompletedTotal .canceled) amount) k ∧
      s'.world.tasksCompletedTotal .canceled =
        s.world.tasksCompletedTotal .canceled + amount) ∨
    ((∀ i c k amount, l = .op i c →
        s.prog i ≠ .op (.inc (.tasksCompletedTotal .canceled) amount) k) ∧
      s'.world.tasksCompletedTotal .canceled = s.world.tasksCompletedTotal .canceled) := by
  obtain ⟨i, c, o, k, r, w, rfl, hp, hexec, rfl⟩ | ⟨a, w, rfl, henv, rfl⟩ |
      ⟨i, o, k, rfl, hp, rfl⟩ := Machine.step_cases hstep
  · rcases callOp_counter hexec with ⟨amount, rfl, -, hcounter⟩ | ⟨hother, hcounter⟩
    · exact Or.inl ⟨i, c, k, amount, rfl, hp, hcounter⟩
    · refine Or.inr ⟨?_, hcounter⟩
      rintro j c' k' amount hl hp'
      cases hl
      rw [hp] at hp'
      cases hp'
      exact hother amount rfl
  · refine Or.inr ⟨by simp, ?_⟩
    cases a with
    | tick d =>
        cases henv
        rfl
    | broker a =>
        obtain ⟨b, -, rfl⟩ := Option.map_eq_some_iff.1 henv
        rfl
  · exact Or.inr ⟨by simp, rfl⟩

theorem Tally.counter_count (h : Tally reqs s) (ht : Timely reqs TaskRequest.Cancels s)
    {i : ι} {c : Choice} {k : Reply → TaskProg Response} {status : TaskStatus} {amount : Nat}
    (hstep : (taskMachine ι).step s (.op i c) = some s')
    (hp : s.prog i = .op (.inc (.tasksCompletedTotal status) amount) k) :
    ∃ L : Finset ι, (∀ j, j ∈ L ↔ Unsettled s' j) ∧
      s'.world.tasksCompletedTotal .canceled = (canceledTasks s').card + L.card := by
  obtain ⟨L, hL, hcounter⟩ := h.counter
  obtain ⟨rfl, rfl, hcounted, hattempted, -⟩ := counting_call ht hp
  obtain ⟨r, hexec, -, hhist⟩ := Machine.step_call hstep hp
  have hnew : Unsettled s' i := by
    have hanswers := taskMachine_meets reqs i c _ s.world r s'.world hexec
    cases r with
    | ok rows =>
        rw [Unsettled, hhist, ghostOf_snoc]
        exact ⟨rfl, hattempted⟩
    | error e =>
        cases hanswers.1
  have hother : ∀ j, j ≠ i → (Unsettled s' j ↔ Unsettled s j) := fun j hj =>
    unsettled_of_other hstep hj
  have hsame : canceledTasks s' = canceledTasks s := by
    refine canceledTasks_congr (canceled_iff_of_other ht hstep ?_)
    rintro j c' k' hl hp'
    cases hl
    rw [hp] at hp'
    cases hp'
  have hinc : s'.world.tasksCompletedTotal .canceled =
      s.world.tasksCompletedTotal .canceled + 1 := by
    rcases step_counter hstep with ⟨j, c', k', amount, hl, hp', hinc⟩ | ⟨hnone, -⟩
    · cases hl
      rw [hp] at hp'
      cases hp'
      exact hinc
    · exact absurd hp (hnone i c k 1 rfl)
  have hi : i ∉ L := by
    rw [hL i]
    rintro ⟨htrue, -⟩
    rw [hcounted] at htrue
    cases htrue
  refine ⟨insert i L, fun j => ?_, ?_⟩
  · by_cases hj : j = i
    · simp [hj, hnew]
    · rw [Finset.mem_insert, hother j hj, ← hL j]
      simp [hj]
  · rw [hinc, hcounter, hsame, Finset.card_insert_of_notMem hi]
    omega

theorem committed_of_cancel_commit (ht : Timely reqs TaskRequest.Cancels s)
    {i : ι} {c : Choice} {id id' : UUID}
    (hstep : (taskMachine ι).step s (.op i c) = some s')
    (hreq : (reqs i).Cancels id) (hwrote : (ghostOf (s.hist i)).wrote = some (.cancel id))
    (hid : id' ≠ id) :
    committedTask s' id' = committedTask s id' := by
  rcases step_committed hstep id' with hsame | ⟨j, c', k, new, hl, -, hnew, -⟩
  · exact hsame
  · exfalso
    cases hl
    cases hold : committedTask s id' with
    | none =>
        exact TaskRequest.not_creates_of_onTask (TaskRequest.onTask_of_cancels hreq)
          (ht.sound.coupled.inserted hnew hold).creates
    | some old =>
        obtain ⟨u, hu⟩ := ht.sound.coupled.updated hnew hold
        have hsame : some u = some (.cancel id) := hu.wrote.symm.trans hwrote
        cases hsame
        exact hid hu.taskId.symm

/-- Its commit moves it from the waiting requests to the canceled tasks. -/
theorem Tally.counter_commit (h : Tally reqs s) (ht : Timely reqs TaskRequest.Cancels s)
    {i : ι} {c : Choice} {k : Reply → TaskProg Response}
    (hclean : CancelsCleanly reqs s (.op i c))
    (hstep : (taskMachine ι).step s (.op i c) = some s') (hp : s.prog i = .op .commit k)
    (hi : Unsettled s i) :
    ∃ L : Finset ι, (∀ j, j ∈ L ↔ Unsettled s' j) ∧
      s'.world.tasksCompletedTotal .canceled = (canceledTasks s').card + L.card := by
  obtain ⟨L, hL, hcounter⟩ := h.counter
  obtain ⟨id, hreq, hwrote, -⟩ := h.holding hi
  obtain ⟨row, old, hrow, hcanceled, hold, hpending⟩ := h.holds ht hi hreq
  obtain ⟨r, hexec, -, hhist⟩ := Machine.step_call hstep hp
  have hnew : ∃ row, committedTask s' id = some row ∧ row.status = .canceled :=
    h.commit_call ht hclean hp hexec hi hreq
  have hsettled : ¬ Unsettled s' i := by
    rw [Unsettled, hhist, ghostOf_snoc, TaskGhost.next_commit_attempted]
    simp
  have hother : ∀ j, j ≠ i → (Unsettled s' j ↔ Unsettled s j) := fun j hj =>
    unsettled_of_other hstep hj
  have hinsert : canceledTasks s' = insert id (canceledTasks s) := by
    ext id'
    rw [Finset.mem_insert, mem_canceledTasks, mem_canceledTasks]
    by_cases hid : id' = id
    · subst hid
      simpa using hnew
    · rw [committed_of_cancel_commit ht hstep hreq hwrote hid]
      simp [hid]
  have hid : id ∉ canceledTasks s := by
    rw [mem_canceledTasks]
    rintro ⟨row', hrow', hcanceled'⟩
    rw [hold] at hrow'
    cases hrow'
    rw [hpending] at hcanceled'
    cases hcanceled'
  have hsame : s'.world.tasksCompletedTotal .canceled =
      s.world.tasksCompletedTotal .canceled := by
    rcases step_counter hstep with ⟨j, c', k', amount, hl, hp', -⟩ | ⟨-, hsame⟩
    · cases hl
      rw [hp] at hp'
      cases hp'
    · exact hsame
  have hmem : i ∈ L := (hL i).2 hi
  refine ⟨L.erase i, fun j => ?_, ?_⟩
  · by_cases hj : j = i
    · simp [hj, hsettled]
    · rw [Finset.mem_erase, hother j hj, ← hL j]
      simp [hj]
  · rw [hsame, hcounter, hinsert, Finset.card_insert_of_notMem hid, Finset.card_erase_of_mem hmem]
    have hpos : 0 < L.card := Finset.card_pos.2 ⟨i, hmem⟩
    omega

theorem Tally.counter_step (h : Tally reqs s) (ht : Timely reqs TaskRequest.Cancels s)
    (hclean : CancelsCleanly reqs s l) (hstep : (taskMachine ι).step s l = some s') :
    ∃ L : Finset ι, (∀ j, j ∈ L ↔ Unsettled s' j) ∧
      s'.world.tasksCompletedTotal .canceled = (canceledTasks s').card + L.card := by
  by_cases hcount : ∃ i c status amount k,
      l = .op i c ∧ s.prog i = .op (.inc (.tasksCompletedTotal status) amount) k
  · obtain ⟨i, c, status, amount, k, rfl, hp⟩ := hcount
    exact h.counter_count ht hstep hp
  by_cases hcommit : ∃ i c k, l = .op i c ∧ s.prog i = .op .commit k ∧ Unsettled s i
  · obtain ⟨i, c, k, rfl, hp, hi⟩ := hcommit
    exact h.counter_commit ht hclean hstep hp hi
  -- nothing is counted, and no counted cancellation is committed
  have hcommit' : ∀ i c k, l = .op i c → s.prog i = .op .commit k → ¬ Unsettled s i :=
    fun i c k hl hp hi => hcommit ⟨i, c, k, hl, hp, hi⟩
  obtain ⟨L, hL, hcounter⟩ := h.counter
  have hsame : ∀ j, Unsettled s' j ↔ Unsettled s j := by
    intro j
    refine unsettled_of_step hstep ?_
    rintro c o k hl hp
    constructor
    · rintro status amount rfl
      exact hcount ⟨j, c, status, amount, k, hl, hp⟩
    · rintro rfl
      exact hcommit' j c k hl hp
  refine ⟨L, fun j => (hL j).trans (hsame j).symm, ?_⟩
  rw [canceledTasks_congr (canceled_iff_of_other ht hstep hcommit'), ← hcounter]
  rcases step_counter hstep with ⟨i, c, k, amount, hl, hp, -⟩ | ⟨-, hcounter'⟩
  · exact absurd ⟨i, c, _, amount, k, hl, hp⟩ hcount
  · exact hcounter'

theorem Tally.step (h : Tally reqs s) (ht : Timely reqs TaskRequest.Cancels s)
    (hclean : CancelsCleanly reqs s l) (hstep : (taskMachine ι).step s l = some s') :
    Tally reqs s' where
  running := h.running_step ht hclean hstep
  holding := h.holding_step ht hclean hstep
  canceled := h.canceled_step ht hclean hstep
  unique := h.unique_step ht hstep
  undisturbed := h.undisturbed_step ht hclean hstep
  counter := h.counter_step ht hclean hstep

end Counter

section Main

/-- No task is canceled yet, and none is counted. -/
structure World.Uncanceled (w : World ι) : Prop where
  rows : ∀ id row, w.tasks.committed id = some row → row.status ≠ .canceled
  counter : w.tasksCompletedTotal .canceled = 0

omit [DecidableEq ι] in
theorem startTasks_tally [UrlValidator] (hw : w.Uncanceled) (reqs : ι → TaskRequest) :
    Tally reqs (startTasks w reqs) where
  running h := by cases h.1
  holding h := by cases h.1
  canceled h := by cases h
  unique h := by cases h
  undisturbed h := by cases h
  counter := by
    refine ⟨∅, fun i => ?_, ?_⟩
    · simp only [Finset.notMem_empty, false_iff]
      rintro ⟨hcounted, -⟩
      cases hcounted
    · have hnone : canceledTasks (startTasks w reqs) = ∅ := by
        refine Finset.eq_empty_of_forall_notMem fun id hid => ?_
        obtain ⟨row, hrow, hcanceled⟩ := mem_canceledTasks.1 hid
        exact hw.rows id row hrow hcanceled
      rw [hnone]
      exact hw.counter

omit [DecidableEq ι] in
theorem Tally.counter_of_quiescent (h : Tally reqs s) (hs : Quiescent s) :
    s.world.tasksCompletedTotal .canceled = (canceledTasks s).card := by
  obtain ⟨L, hL, hcounter⟩ := h.counter
  have hnone : L = ∅ := by
    refine Finset.eq_empty_of_forall_notMem fun i hi => ?_
    have hunsettled := (hL i).1 hi
    rcases hs i with hhist | hnext
    · have hcounted := hunsettled.1
      rw [hhist] at hcounted
      cases hcounted
    · obtain ⟨o, k, hp⟩ := h.running hunsettled
      rw [hp] at hnext
      cases hnext
  rw [hcounter, hnone, Finset.card_empty, Nat.add_zero]

/-- A task is canceled once, and the counter agrees with the table at rest. -/
structure CanceledOnce (reqs : ι → TaskRequest) (s : TaskConfig ι) : Prop where
  once : ∀ i j id, (reqs i).Cancels id → (reqs j).Cancels id →
    Succeeds s i → Succeeds s j → i = j
  counter : Quiescent s → s.world.tasksCompletedTotal .canceled = (canceledTasks s).card

/--
In every run whose steps overtake no DELETE and disturb no request that has
counted, every state reached has canceled each task once.
-/
theorem canceledOnce [UrlValidator] (hw : w.Quiet) (huncanceled : w.Uncanceled)
    (hmeet : (taskMachine ι).StepsMeet (CancelsCleanly reqs) (startTasks w reqs) ls) :
    (taskMachine ι).Always (CanceledOnce reqs) (startTasks w reqs) ls := by
  have hboth : (taskMachine ι).Always
      (fun s => Timely reqs TaskRequest.Cancels s ∧ Tally reqs s) (startTasks w reqs) ls :=
    Machine.always_of_stepsMeet _
      (fun _ _ _ h hclean hstep =>
        ⟨h.1.step hclean.inTime hstep, h.2.step h.1 hclean hstep⟩)
      ⟨startTasks_timely hw reqs _, startTasks_tally huncanceled reqs⟩ hmeet
  refine hboth.mono fun s h => ⟨?_, h.2.counter_of_quiescent⟩
  intro i j id hi hj hsucceeds hsucceeds'
  exact h.2.unique ((h.1.earned i id hsucceeds).2 hi) ((h.1.earned j id hsucceeds').2 hj) hi hj

/-- No call fails and no request is abandoned. -/
def unfailing : TaskLabel ι → Bool
  | .op _ { fault := .none, .. } => true
  | .env _ => true
  | _ => false

omit [DecidableEq ι] in
theorem finishes_of_unfailing (hl : unfailing l = true) (i : ι) :
    l ≠ .kill i ∧ ∀ c, l = .op i c → c.fault = .none := by
  constructor
  · rintro rfl
    cases hl
  · rintro ⟨fault, ids, order⟩ rfl
    cases fault with
    | none => rfl
    | _ => cases hl

/-- One DELETE after the other; the second finds the task canceled. -/
def deletesInTurn : List (TaskLabel (Fin 2)) :=
  turns (List.replicate 7 false ++ List.replicate 4 true)

/-- Of two DELETEs in turn the first cancels the task and counts it. -/
theorem canceledOnce_inTurn :
    letI := sampleUrls
    let start := startTasks (worldOf (Fin 2) [samplePending]) fun _ => sampleDelete
    (((taskMachine (Fin 2)).run start deletesInTurn).map fun s =>
        ((s.prog 0).outcome?.isSome && (s.prog 1).outcome?.isSome,
          s.world.tasksCompletedTotal .canceled, canceledTasks s)) = some (true, 1, {7}) ∧
    (taskMachine (Fin 2)).Always (CanceledOnce fun _ => sampleDelete) start deletesInTurn := by
  let := sampleUrls
  have hquiet := worldOf_quiet (ι := Fin 2) [samplePending]
  have huncanceled : (worldOf (Fin 2) [samplePending]).Uncanceled := by
    refine ⟨fun id row hrow => ?_, rfl⟩
    have hmem := List.mem_of_find?_eq_some hrow
    obtain rfl := List.mem_singleton.1 hmem
    decide
  have haside : (taskMachine (Fin 2)).StepsMeet (fun s l => OthersAside s l ∧ unfailing l = true)
      (startTasks (worldOf (Fin 2) [samplePending]) fun _ => sampleDelete) deletesInTurn := by
    decide
  refine ⟨by decide, canceledOnce hquiet huncanceled ?_⟩
  refine haside.imp (Sound fun _ => sampleDelete) (fun _ _ _ h hstep => h.step hstep) ?_
    (sound_of_run hquiet Machine.run_nil)
  rintro s l hsound ⟨hothers, hl⟩
  exact ⟨hsound.noOvertaking_of_othersAside hothers, fun i _ => finishes_of_unfailing hl i⟩

/-- Both DELETEs read the status before either writes. -/
def bothRead : List (TaskLabel (Fin 2)) :=
  turns ([false, true] ++ List.replicate 6 false ++ List.replicate 6 true)

/-- Two DELETEs of one task succeed; the task is counted twice. -/
theorem cancels_twice :
    letI := sampleUrls
    ∃ s : TaskConfig (Fin 2),
      (taskMachine (Fin 2)).run (startTasks (worldOf (Fin 2) [samplePending])
        fun _ => sampleDelete) bothRead = some s ∧
      Succeeds s 0 ∧ Succeeds s 1 ∧
      Quiescent s ∧
      s.world.tasksCompletedTotal .canceled = 2 ∧
      (canceledTasks s).card = 1 ∧
      ¬ CanceledOnce (fun _ => sampleDelete) s := by
  let := sampleUrls
  have hfinal : ((taskMachine (Fin 2)).run (startTasks (worldOf (Fin 2) [samplePending])
      fun _ => sampleDelete) bothRead).map
      (fun s => (responds s 0 && responds s 1, (s.prog 0).next?.isNone && (s.prog 1).next?.isNone,
        s.world.tasksCompletedTotal .canceled, (canceledTasks s).card)) =
      some (true, true, 2, 1) := by
    decide
  obtain ⟨s, hs, heq⟩ := Option.map_eq_some_iff.1 hfinal
  simp only [Prod.mk.injEq, Bool.and_eq_true, Option.isNone_iff_eq_none] at heq
  obtain ⟨⟨h0, h1⟩, ⟨hend0, hend1⟩, hcounter, hcard⟩ := heq
  refine ⟨s, hs, succeeds_of_responds h0, succeeds_of_responds h1, ?_, hcounter, hcard, ?_⟩
  · intro i
    right
    match i with
    | 0 => exact hend0
    | 1 => exact hend1
  · intro honce
    have hsame := honce.once 0 1 7 rfl rfl (succeeds_of_responds h0) (succeeds_of_responds h1)
    exact absurd hsame (by decide)

end Main

end CancelOnce

end SmartHttpRequester
