import SmartHttpRequester.TaskLifecycle

/-!
# Isolation of task writes

`update_task` and `cancel_task` run their UPDATE before anyone has looked at the
owner or the status.  What saves the table is that the exception reaches
`get_db`, which rolls back: a request that ends in an HTTP error has never
attempted a commit, so its whole run can be deleted from a schedule without any
other request noticing (`taskWrites_isolated`).
-/

namespace SmartHttpRequester

open Foundations Function

section TaskIsolation

variable {ι : Type}

section History

/-- Every call in the history of a request was in order when it was made. -/
def Obeyed (reqs : ι → TaskRequest) (s : TaskConfig ι) : Prop :=
  ∀ i, ∀ e ∈ s.hist i, ∃ g, (reqs i).Permits g e.1

theorem commit_notMem_of_not_attempted {hist : List (TaskOp × Reply)}
    (h : (ghostOf hist).attempted = false) :
    ∀ e ∈ hist, e.1 ≠ .commit := by
  induction hist using List.reverseRecOn with
  | nil =>
      simp
  | append_singleton hist e ih =>
      obtain ⟨o, r⟩ := e
      rw [ghostOf_snoc] at h
      have hlast : (ghostOf hist).attempted = false ∧ o ≠ .commit := by
        cases r with
        | ok rows =>
            cases o with
            | execute st => cases st <;> exact ⟨h, by simp⟩
            | inc counter amount => cases counter <;> exact ⟨h, by simp⟩
            | commit => cases h
            | _ => exact ⟨h, by simp⟩
        | error err =>
            cases o with
            | execute st => cases st <;> exact ⟨h, by simp⟩
            | commit => cases h
            | _ => exact ⟨h, by simp⟩
      intro e he
      rcases List.mem_append.1 he with hold | hnew
      · exact ih hlast.1 e hold
      · rw [List.mem_singleton] at hnew
        subst hnew
        exact hlast.2

variable [DecidableEq ι] {reqs : ι → TaskRequest} {s s' : TaskConfig ι} {l : TaskLabel ι}
variable {ls : List (TaskLabel ι)}

theorem Obeyed.step (h : Obeyed reqs s) (hd : Disciplined reqs s)
    (hstep : (taskMachine ι).step s l = some s') :
    Obeyed reqs s' := by
  obtain ⟨i, c, o, k, r, w, rfl, hp, hexec, rfl⟩ | ⟨a, w, rfl, henv, rfl⟩ |
      ⟨i, o, k, rfl, hp, rfl⟩ := Machine.step_cases hstep
  · intro j e he
    by_cases hji : j = i
    · subst hji
      simp only [update_self, List.mem_append, List.mem_singleton] at he
      rcases he with hold | rfl
      · exact h j e hold
      · exact ⟨_, hd.permits hp⟩
    · simp only [update_of_ne hji] at he
      exact h j e he
  · exact h
  · exact h

theorem obeyed_of_run [UrlValidator] {w : World ι}
    (hrun : (taskMachine ι).run (startTasks w reqs) ls = some s) :
    Obeyed reqs s :=
  (Machine.invariant_of_run (fun s => Disciplined reqs s ∧ Obeyed reqs s)
    (fun _ _ _ hs hstep => ⟨hs.1.step hstep, hs.2.step hs.1 hstep⟩)
    ⟨startTasks_disciplined w reqs, fun i e he => by cases he⟩ hrun).2

end History

section Hiding

variable [DecidableEq ι] {i : ι}

def TaskOp.Undone : TaskOp → Prop
  | .commit => False
  | .basicPublish _ _ _ => False
  | .execute (.insertTasks _ _) => False
  | _ => True

/-- The world without what request `i` has not committed, for all that others can see. -/
structure SameOutside (i : ι) (w v : World ι) : Prop where
  tasks : v.tasks = w.tasks.rollback i
  started : ∀ j, j ≠ i → v.started j = w.started j
  clock : v.clock = w.clock
  broker : v.broker = w.broker

theorem SameOutside.now {w v : World ι} (h : SameOutside i w v) {j : ι} (hji : j ≠ i) :
    v.now j = w.now j := by
  simp [World.now, h.started j hji, h.clock]

theorem SameOutside.begin {w v : World ι} (h : SameOutside i w v) {j : ι} (hji : j ≠ i) :
    SameOutside i (w.begin j) (v.begin j) where
  tasks := h.tasks
  started j' hj' := by
    by_cases hjj : j' = j
    · subst hjj
      simp [World.begin, h.started j' hj', h.clock]
    · simp [World.begin, hjj, h.started j' hj']
  clock := h.clock
  broker := h.broker

theorem SameOutside.of_updateRow {w w' v : World ι} {r : Reply} {j : ι} {taskId : UUID}
    {f : TaskRow → Option TaskRow} (h : SameOutside i w v) (hji : j ≠ i)
    (hexec : updateRow j taskId f w = some (r, w')) :
    ∃ v', updateRow j taskId f v = some (r, v') ∧ SameOutside i w' v' := by
  obtain ⟨t, ht, heq⟩ := Option.map_eq_some_iff.1 hexec
  cases heq
  have ht' : v.tasks.modify j taskId f = some (t.rollback i) := by
    rw [h.tasks]
    exact Table.rollback_modify hji ht
  simp only [updateRow, ht', Option.map_some]
  exact ⟨_, rfl, rfl, h.started, h.clock, h.broker⟩

theorem SameOutside.of_runStmt {w w' v : World ι} {r : Reply} {j : ι} {c : Choice} {st : Stmt}
    (h : SameOutside i w v) (hji : j ≠ i) (hexec : runStmt j c st w = some (r, w')) :
    ∃ v', runStmt j c st v = some (r, v') ∧ SameOutside i w' v' := by
  cases st with
  | insertTasks rows bindparams =>
      simp only [runStmt] at hexec ⊢
      split at hexec
      · cases hexec
        exact ⟨v, rfl, h⟩
      · split at hexec
        · rename_i hlength
          obtain ⟨t, ht, heq⟩ := Option.map_eq_some_iff.1 hexec
          cases heq
          have ht' := Table.rollback_insertAll hji ht
          rw [← h.tasks] at ht'
          rw [if_pos hlength, h.now hji]
          simp only [insertRows, ht', Option.map_some]
          exact ⟨_, rfl, rfl, h.started, h.clock, h.broker⟩
        · cases hexec
  | selectOwnerStatus taskId =>
      cases hexec
      refine ⟨v, ?_, h⟩
      simp [runStmt, h.tasks, Slot.visible_rollback_other hji]
  | selectTask taskId =>
      cases hexec
      refine ⟨v, ?_, h⟩
      simp [runStmt, h.tasks, Slot.visible_rollback_other hji]
  | selectUserTasks userId skip limit =>
      simp only [runStmt] at hexec ⊢
      split at hexec
      · rename_i hperm
        cases hexec
        have hkeys : c.order.Perm v.tasks.keys := by simpa [h.tasks] using hperm
        refine ⟨v, ?_, h⟩
        rw [if_pos hkeys, h.tasks, Table.rollback_rows hji]
      · cases hexec
  | cancelTask taskId =>
      simp only [runStmt, h.now hji] at hexec ⊢
      exact h.of_updateRow hji hexec
  | updateTask taskId url method headers body =>
      simp only [runStmt, h.now hji] at hexec ⊢
      exact h.of_updateRow hji hexec
  | confirmTask taskId =>
      exact h.of_updateRow hji hexec

/-- What happens to one field when both worlds end a transaction of `j`. -/
theorem SameOutside.ended {w v : World ι} (h : SameOutside i w v) {j : ι} :
    ∀ j', j' ≠ i → update v.started j none j' = update w.started j none j' := by
  intro j' hj'
  by_cases hjj : j' = j
  · subst hjj
    simp
  · simp [hjj, h.started j' hj']

theorem SameOutside.rollback {w v : World ι} (h : SameOutside i w v) {j : ι} :
    SameOutside i (w.rollback j) (v.rollback j) where
  tasks := by
    show v.tasks.rollback j = (w.tasks.rollback j).rollback i
    rw [h.tasks, Table.rollback_rollback_comm]
  started := h.ended
  clock := h.clock
  broker := h.broker

theorem SameOutside.commit {w v : World ι} (h : SameOutside i w v) {j : ι} (hji : j ≠ i) :
    SameOutside i (w.commit j) (v.commit j) where
  tasks := by
    show v.tasks.commit j = (w.tasks.commit j).rollback i
    rw [h.tasks, Table.rollback_commit hji]
  started := h.ended
  clock := h.clock
  broker := h.broker

theorem SameOutside.inc {w v : World ι} (h : SameOutside i w v) (counter : TaskCounter)
    (amount : Nat) : SameOutside i (w.inc counter amount) (v.inc counter amount) := by
  cases counter <;> exact ⟨h.tasks, h.started, h.clock, h.broker⟩

/-- Another request's call does the same in both worlds. -/
theorem SameOutside.of_runOp {w w' v : World ι} {r : Reply} {j : ι} {c : Choice} {o : TaskOp}
    (h : SameOutside i w v) (hji : j ≠ i) (hexec : runOp j c o w = some (r, w')) :
    ∃ v', runOp j c o v = some (r, v') ∧ SameOutside i w' v' := by
  cases o with
  | execute st =>
      exact (h.begin hji).of_runStmt hji hexec
  | commit =>
      cases hexec
      exact ⟨_, rfl, h.commit hji⟩
  | rollback =>
      cases hexec
      exact ⟨_, rfl, h.rollback⟩
  | close =>
      cases hexec
      exact ⟨_, rfl, h.rollback⟩
  | basicPublish exchange routingKey message =>
      cases hexec
      exact ⟨_, rfl, h.tasks, h.started, h.clock, by rw [h.broker]⟩
  | inc counter amount =>
      cases hexec
      exact ⟨_, rfl, h.inc counter amount⟩
  | _ =>
      cases hexec
      exact ⟨_, rfl, h.tasks, h.started, h.clock, h.broker⟩

theorem SameOutside.of_callOp {w w' v : World ι} {r : Reply} {j : ι} {c : Choice} {o : TaskOp}
    (h : SameOutside i w v) (hji : j ≠ i) (hexec : callOp j c o w = some (r, w')) :
    ∃ v', callOp j c o v = some (r, v') ∧ SameOutside i w' v' := by
  simp only [callOp] at hexec ⊢
  split at hexec
  · exact h.of_runOp hji hexec
  · split at hexec
    · cases hexec
    · rename_i f _ hlocal
      cases hexec
      rw [if_neg hlocal]
      refine ⟨_, rfl, ?_⟩
      cases o with
      | rollback => exact h.rollback
      | close => exact h.rollback
      | _ => exact h
  · split at hexec
    · cases hexec
    · rename_i f _ hlocal
      obtain ⟨⟨r', w''⟩, hrun, heq⟩ := Option.map_eq_some_iff.1 hexec
      cases heq
      obtain ⟨v', hv', hsame⟩ := h.of_runOp hji hrun
      refine ⟨v', ?_, hsame⟩
      rw [if_neg hlocal, hv']
      rfl

/-- A call that a rollback undoes does not change what the others see. -/
theorem SameOutside.of_runOp_self {w w' v : World ι} {r : Reply} {c : Choice} {o : TaskOp}
    (h : SameOutside i w v) (ho : o.Undone) (hexec : runOp i c o w = some (r, w')) :
    SameOutside i w' v := by
  have hself : ∀ (tasks : Table ι UUID TaskRow) (x : Option Timestamp) (w₁ : World ι),
      w₁.tasks = tasks → tasks.rollback i = w.tasks.rollback i →
      w₁.started = update w.started i x → w₁.clock = w.clock → w₁.broker = w.broker →
      SameOutside i w₁ v := by
    intro tasks x w₁ htasks hrollback hstarted hclock hbroker
    refine ⟨?_, fun j hj => ?_, h.clock.trans hclock.symm, h.broker.trans hbroker.symm⟩
    · rw [htasks, hrollback, h.tasks]
    · rw [hstarted, update_of_ne hj, h.started j hj]
  cases o with
  | execute st =>
      have hmodify : ∀ {taskId : UUID} {f : TaskRow → Option TaskRow},
          updateRow i taskId f (w.begin i) = some (r, w') → SameOutside i w' v := by
        intro taskId f hrow
        obtain ⟨t, ht, heq⟩ := Option.map_eq_some_iff.1 hrow
        cases heq
        exact hself t _ _ rfl (Table.rollback_modify_self ht) rfl rfl rfl
      cases st with
      | insertTasks rows bindparams => cases ho
      | selectOwnerStatus taskId =>
          cases hexec
          exact hself w.tasks _ _ rfl rfl rfl rfl rfl
      | selectTask taskId =>
          cases hexec
          exact hself w.tasks _ _ rfl rfl rfl rfl rfl
      | selectUserTasks userId skip limit =>
          simp only [runOp, runStmt] at hexec
          split at hexec
          · cases hexec
            exact hself w.tasks _ _ rfl rfl rfl rfl rfl
          · cases hexec
      | cancelTask taskId => exact hmodify hexec
      | updateTask taskId url method headers body => exact hmodify hexec
      | confirmTask taskId => exact hmodify hexec
  | commit => cases ho
  | basicPublish exchange routingKey message => cases ho
  | rollback =>
      cases hexec
      exact hself _ _ _ rfl Table.rollback_rollback_self rfl rfl rfl
  | close =>
      cases hexec
      exact hself _ _ _ rfl Table.rollback_rollback_self rfl rfl rfl
  | inc counter amount =>
      cases hexec
      cases counter <;> exact ⟨h.tasks, h.started, h.clock, h.broker⟩
  | _ =>
      cases hexec
      exact ⟨h.tasks, h.started, h.clock, h.broker⟩

theorem SameOutside.killed {w v : World ι} (h : SameOutside i w v) :
    SameOutside i (w.rollback i) v where
  tasks := by
    show v.tasks = (w.tasks.rollback i).rollback i
    rw [h.tasks, Table.rollback_rollback_self]
  started j hj := by
    show v.started j = update w.started i none j
    rw [update_of_ne hj, h.started j hj]
  clock := h.clock
  broker := h.broker

theorem taskMachine_hides (i : ι) :
    Hides (taskMachine ι) i TaskOp.Undone (SameOutside i) where
  self := by
    intro c o w w' r v h ho hexec
    rcases callOp_cases hexec with ⟨r', hrun, -, -⟩ | ⟨f, -, -, -, rfl⟩
    · exact h.of_runOp_self ho hrun
    · cases o with
      | rollback => exact h.killed
      | close => exact h.killed
      | _ => exact h
  other hji h hexec := h.of_callOp hji hexec
  env := by
    intro a w w' v h henv
    cases a with
    | tick d =>
        cases henv
        exact ⟨_, rfl, h.tasks, h.started, by rw [h.clock], h.broker⟩
    | broker a =>
        obtain ⟨b, hb, rfl⟩ := Option.map_eq_some_iff.1 henv
        refine ⟨{ v with broker := b }, ?_, h.tasks, h.started, h.clock, rfl⟩
        show (setupRabbitmqWithRetries.act v.broker a).map _ = _
        rw [h.broker, hb]
        rfl
  killSelf h := h.killed
  killOther _ h := h.rollback

end Hiding

section Isolation

variable [DecidableEq ι] {reqs : ι → TaskRequest} {s s' : TaskConfig ι} {l : TaskLabel ι}
variable {ls : List (TaskLabel ι)} {w : World ι}

/-- No step of a request changes a committed row of somebody else. -/
theorem Sound.foreign_row_kept (h : Sound reqs s) {i : ι} (hl : l.actor = some i)
    (hstep : (taskMachine ι).step s l = some s') {id : UUID} {row : TaskRow}
    (hrow : committedTask s id = some row) (hforeign : row.userId ≠ (reqs i).user) :
    committedTask s' id = some row := by
  rcases step_committed hstep id with hsame | ⟨j, c, k, new, rfl, hp, hnew, -⟩
  · exact hsame.trans hrow
  · obtain rfl : j = i := Option.some.inj hl
    exact absurd (h.owner_of_commit hp hnew hrow).1 hforeign

omit [DecidableEq ι] in
theorem undone_of_permits {req : TaskRequest} {g : TaskGhost} {o : TaskOp} (hon : req.OnTask)
    (hpermits : req.Permits g o) (ho : o ≠ .commit) :
    o.Undone := by
  cases o with
  | execute st =>
      cases st with
      | insertTasks rows bindparams =>
          exact absurd hpermits.1 (TaskRequest.not_creates_of_onTask hon)
      | _ => trivial
  | commit => exact absurd rfl ho
  | basicPublish exchange routingKey message =>
      obtain ⟨-, -, ⟨hsingle, -⟩ | ⟨hbatch, -⟩⟩ := hpermits
      · cases req <;> simp_all [TaskRequest.OnTask, TaskRequest.IsSingle]
      · cases req <;> simp_all [TaskRequest.OnTask, TaskRequest.IsBatch]
  | _ => trivial

theorem World.Quiet.sameOutside (hw : w.Quiet) (i : ι) : SameOutside i w w where
  tasks := by
    ext1
    · funext id
      exact (Slot.rollback_eq_self fun v hv => by simp [hw.pending] at hv).symm
    · rfl
  started _ _ := rfl
  clock := rfl
  broker := rfl

/-- A request that has not committed can be deleted from the run. -/
theorem run_without [UrlValidator] (hw : w.Quiet)
    (hrun : (taskMachine ι).run (startTasks w reqs) ls = some s) {i : ι}
    (hon : (reqs i).OnTask) (hattempted : (ghostOf (s.hist i)).attempted = false) :
    ∃ t, (taskMachine ι).run (startTasks w reqs) (withoutActor i ls) = some t ∧
      ∀ id, committedTask t id = committedTask s id := by
  have hundone : ∀ e ∈ s.hist i, e.1.Undone := by
    intro e he
    obtain ⟨g, hg⟩ := obeyed_of_run hrun i e he
    exact undone_of_permits hon hg (commit_notMem_of_not_attempted hattempted e he)
  obtain ⟨t, ht, hsame⟩ := Machine.run_erase (taskMachine_hides i)
    ⟨hw.sameOutside i, fun _ _ => rfl, fun _ _ => rfl⟩
    (stepsMeet_performs_of_hist hrun hundone) hrun
  refine ⟨t, ht, fun id => ?_⟩
  show (t.world.tasks.slot id).committed = (s.world.tasks.slot id).committed
  rw [hsame.world.tasks]
  exact Slot.rollback_committed i _

/--
Ownership and error atomicity, in every run: (a) a request never changes a
committed row of another user; (b) a GET, PUT or DELETE of a task that has ended
in an HTTP error can be deleted from the run, and the committed table is the same.
-/
theorem taskWrites_isolated [UrlValidator] (hw : w.Quiet)
    (hrun : (taskMachine ι).run (startTasks w reqs) ls = some s) :
    (∀ i l s', l.actor = some i → (taskMachine ι).step s l = some s' →
      ∀ id row, committedTask s id = some row → row.userId ≠ (reqs i).user →
        committedTask s' id = some row) ∧
    (∀ i code detail, (reqs i).OnTask →
      (s.prog i).outcome? = some (.error (.httpException code detail)) →
      ∃ t, (taskMachine ι).run (startTasks w reqs) (withoutActor i ls) = some t ∧
        ∀ id, committedTask t id = committedTask s id) := by
  have hsound := sound_of_run hw hrun
  constructor
  · intro i l s' hl hstep id row hrow hforeign
    exact hsound.foreign_row_kept hl hstep hrow hforeign
  · intro i code detail hon houtcome
    rcases Monitored.outcome hsound.disciplined houtcome with hkilled | hends
    · cases hkilled
    · exact run_without hw hrun hon (hends.refused hon code detail rfl)

/-- A PUT by user 2 and the DELETE by user 1, who owns the task. -/
def foreignEditAndDelete : Fin 2 → TaskRequest :=
  ![sampleEdit 2, sampleDelete]

/-- The PUT writes first, is refused and rolled back; then the DELETE goes on. -/
def foreignEditSchedule : List (TaskLabel (Fin 2)) :=
  turns ([false, true] ++ List.replicate 4 false ++ List.replicate 6 true)

/-- The refused PUT can be deleted from the run, and the task is canceled just the same. -/
theorem taskWrites_isolated_foreign :
    letI := sampleUrls
    ∃ s t : TaskConfig (Fin 2),
      (taskMachine (Fin 2)).run (startTasks (worldOf (Fin 2) [samplePending])
        foreignEditAndDelete) foreignEditSchedule = some s ∧
      (s.prog 0).outcome? = some (.error (.httpException 403 "Access denied")) ∧
      (taskMachine (Fin 2)).run (startTasks (worldOf (Fin 2) [samplePending])
        foreignEditAndDelete) (withoutActor 0 foreignEditSchedule) = some t ∧
      ∀ id, committedTask t id = committedTask s id := by
  let := sampleUrls
  obtain ⟨s, hs⟩ := Option.isSome_iff_exists.1
    (show ((taskMachine (Fin 2)).run (startTasks (worldOf (Fin 2) [samplePending])
      foreignEditAndDelete) foreignEditSchedule).isSome = true by decide)
  have houtcome : ((taskMachine (Fin 2)).run (startTasks (worldOf (Fin 2) [samplePending])
      foreignEditAndDelete) foreignEditSchedule).bind (fun s => (s.prog 0).outcome?) =
      some (.error (.httpException 403 "Access denied")) := by
    decide
  rw [hs] at houtcome
  obtain ⟨t, ht, hsame⟩ := (taskWrites_isolated (worldOf_quiet [samplePending]) hs).2 0 403
    "Access denied" trivial houtcome
  exact ⟨s, t, hs, houtcome, ht, hsame⟩

end Isolation

end TaskIsolation

end SmartHttpRequester
