import SmartHttpRequester.Acknowledged
import SmartHttpRequester.PoisonRows
import SmartHttpRequester.StatusNotices
import SmartHttpRequester.StuckTasks

/-!
# Responses and stored tasks

A client that creates, edits or cancels a task is shown the task.  PUT and
DELETE read the row again after their UPDATE, and a batch shows the rows as its
INSERT returned them; both hold these rows until they commit.  A single creation
also shows the row its INSERT returned, `BEFORE RMQ`, but goes on to confirm it.

`shows_stored_iff`: once the request is committed, reading its tasks returns
what it has shown, unless it is a single creation, and then never.
-/

namespace SmartHttpRequester

open Foundations Function

section StoredResponses

/-- The tasks a response shows. -/
def Response.shown : Response → List TaskResponse
  | .task shown => [shown]
  | .tasks shown => shown

variable {ι : Type} [DecidableEq ι]

/-- Each task of the response is, in all its fields, what `get_request_task` returns. -/
def ShowsStored [UrlValidator] (user : UserId) (r : Response) (w : World ι) : Prop :=
  ∀ task ∈ r.shown, ∀ j, Idle j w → ∃ v,
    (getRequestTask task.id user).eval (callOp j {}) w = some (.ok task, v)

variable {reqs : ι → TaskRequest} {s s' : TaskConfig ι} {l : TaskLabel ι}
variable {ls : List (TaskLabel ι)} {w : World ι} {i : ι} {r : Response}
variable {k : Reply → TaskProg Response} {c : Choice}

section Confirmed

/-- A creation that has committed its confirmation leaves no row of its own `BEFORE RMQ`. -/
def Confirmed (reqs : ι → TaskRequest) (s : TaskConfig ι) : Prop :=
  ∀ {i row old},
    (reqs i).IsSingle → (creationOf (s.hist i)).failed = false →
    (creationOf (s.hist i)).confirmed = true → row ∈ (creationOf (s.hist i)).durable →
    committedTask s row.id = some old → old.status ≠ .beforeRmq

theorem committedTask_of_commit (hp : s.prog i = .op .commit k) (hreaches : c.fault.Reaches)
    (hstep : (taskMachine ι).step s (.op i c) = some s') {id : UUID} {row : TaskRow}
    (hrow : HoldsVersion s i id row) :
    committedTask s' id = some row := by
  obtain ⟨reply, hexec, -, -⟩ := Machine.step_call hstep hp
  rw [committedTask, callOp_commit_of_reaches hreaches hexec]
  exact (Slot.commit_committed i _).trans (Slot.visible_eq_of_pending hrow)

/-- The commit of a confirmation leaves the row confirmed. -/
theorem Accurate.confirmed_of_commit (ha : Accurate reqs s) (hholds : HoldsConfirmed reqs s)
    (hsingle : (reqs i).IsSingle) (hp : s.prog i = .op .commit k) (hreaches : c.fault.Reaches)
    (hstep : (taskMachine ι).step s (.op i c) = some s')
    (hconfirming : (creationOf (s.hist i)).confirming = true) {row old : TaskRow}
    (hrow : row ∈ (creationOf (s.hist i)).durable) (hold : committedTask s' row.id = some old) :
    old.status ≠ .beforeRmq := by
  intro hbefore
  obtain ⟨first, hfirst, -⟩ := ha.recorded.durable hrow
  obtain ⟨new, hnew, hstatus⟩ := hholds hsingle hp hconfirming hrow hfirst
    (ha.sound.before_of_step hstep hfirst hold hbefore)
  have hcommitted := committedTask_of_commit hp hreaches hstep hnew
  obtain rfl : old = new := Option.some.inj (hold.symm.trans hcommitted)
  exact hstatus hbefore

theorem Confirmed.step (h : Confirmed reqs s) (ha : Accurate reqs s)
    (hholds : HoldsConfirmed reqs s) (hstep : (taskMachine ι).step s l = some s') :
    Confirmed reqs s' := by
  intro i row old hsingle hfailed hconfirmed hrow hold
  -- a row that was confirmed stays so
  have hkept : (creationOf (s.hist i)).failed = false → (creationOf (s.hist i)).confirmed = true →
      row ∈ (creationOf (s.hist i)).durable → old.status ≠ .beforeRmq := by
    intro hfailed hconfirmed hrow hbefore
    obtain ⟨first, hfirst, -⟩ := ha.recorded.durable hrow
    exact h hsingle hfailed hconfirmed hrow hfirst
      (ha.sound.before_of_step hstep hfirst hold hbefore)
  rcases Machine.step_hist hstep i with hhist | ⟨c, o, k, r, rfl, hp, hexec, hsnoc⟩
  · rw [hhist] at hfailed hconfirmed hrow
    exact hkept hfailed hconfirmed hrow
  · rw [hsnoc, creationOf_snoc] at hfailed hconfirmed hrow
    have hfailed' : (creationOf (s.hist i)).failed = false := by
      by_contra hno
      rw [Bool.not_eq_false] at hno
      rw [CreationGhost.next_failed hno] at hfailed
      cases hfailed
    by_cases ho : o = .commit
    · subst ho
      cases r with
      | error e =>
          rw [CreationGhost.next_error_failed] at hfailed
          cases hfailed
      | ok rows =>
          have hphase := (ha.creating.permits hp (TaskRequest.creates_of_single hsingle)).2.2
            hsingle
          have hreaches : c.fault.Reaches := by
            cases hfault : c.fault with
            | before f => simp [callOp, hfault, TaskOp.isLocal, taskMachine] at hexec
            | _ => trivial
          have hconfirms : ((creationOf (s.hist i)).confirmed ||
              (creationOf (s.hist i)).confirming) = true := hconfirmed
          rcases hphase with hinsert | hconfirm
          · rw [hinsert.confirmed, hinsert.confirming] at hconfirms
            cases hconfirms
          · have hdurable : row ∈ (creationOf (s.hist i)).durable := by
              rcases CreationGhost.next_durable hrow with hkept | ⟨-, -, hmem⟩
              · exact hkept
              · rw [hconfirm.rows] at hmem
                cases hmem
            rcases hconfirm.confirms with hconfirming | hyes
            · exact ha.confirmed_of_commit hholds hsingle hp hreaches hstep hconfirming hdurable
                hold
            · exact hkept hfailed' hyes hdurable
    · rw [CreationGhost.next_confirmed ho] at hconfirmed
      rcases CreationGhost.next_durable hrow with hdurable | ⟨hcommit, -, -⟩
      · exact hkept hfailed' hconfirmed hdurable
      · exact absurd hcommit ho

end Confirmed

section Shown

variable [UrlValidator]

/-- What holds of every state that requests can reach, as far as responses are concerned. -/
structure Displayed (reqs : ι → TaskRequest) (rows : Rows) (s : TaskConfig ι) : Prop where
  reviewed : Reviewed reqs rows s
  lone : LoneRows reqs s
  holds : HoldsConfirmed reqs s
  confirmed : Confirmed reqs s
  fits : NoticesFit s.world

theorem Displayed.step {rows : Rows} (h : Displayed reqs rows s)
    (hstep : (taskMachine ι).step s l = some s') :
    Displayed reqs rows s' where
  reviewed := h.reviewed.step hstep
  lone := h.lone.step h.reviewed.accurate hstep
  holds := HoldsConfirmed.step h.holds h.reviewed.accurate h.lone hstep
  confirmed := Confirmed.step h.confirmed h.reviewed.accurate h.holds hstep
  fits := h.fits.step h.reviewed.accurate.sound hstep

theorem displayed_of_run (hw : w.Quiet) (hkeyed : w.Keyed)
    (hrun : (taskMachine ι).run (startTasks w reqs) ls = some s) :
    Displayed reqs w.tasks.committed s := by
  refine Machine.invariant_of_run (Displayed reqs w.tasks.committed)
    (fun _ _ _ h hstep => h.step hstep) ⟨reviewed_of_run hw Machine.run_nil,
      fun i _ => Nat.zero_le _, fun _ _ hconfirming => ?_, fun _ _ hconfirmed => ?_,
      hw.noticesFit hkeyed⟩ hrun
  · cases hconfirming
  · cases hconfirmed

omit [DecidableEq ι] [UrlValidator] in
theorem handed_eq (s : TaskConfig ι) (i : ι) : handed s i = (shownOf (s.hist i)).handed := by
  unfold handed
  induction s.hist i using List.reverseRecOn with
  | nil =>
      rfl
  | append_singleton hist e ih =>
      obtain ⟨o, r⟩ := e
      rw [shownOf_snoc, List.findSome?_append, ih]
      cases o with
      | respond response => cases r <;> rfl
      | execute st => cases r <;> cases st <;> simp [TaskOp.response?] <;> rfl
      | _ => cases r <;> simp [TaskOp.response?] <;> rfl

/-- A task that the request holds is read as it was validated, once it is committed. -/
theorem reads_committed (hp : s.prog i = .op .commit k) (hreaches : c.fault.Reaches)
    (hstep : (taskMachine ι).step s (.op i c) = some s') {id : UUID} {row : TaskRow}
    {task : TaskResponse} (hrow : HoldsVersion s i id row) (hid : task.id = id)
    (howner : row.userId = (reqs i).user) (htask : TaskResponse.modelValidate row = some task)
    {j : ι} (hidle : Idle j s'.world) :
    ∃ v, (getRequestTask task.id (reqs i).user).eval (callOp j {}) s'.world =
      some (.ok task, v) := by
  have hcommitted := committedTask_of_commit hp hreaches hstep hrow
  refine ⟨s'.world.begin j, ?_⟩
  rw [hid, getRequestTask_eval hidle hcommitted, fetched, htask]
  exact congrArg (fun r => some (r, s'.world.begin j)) (if_neg (not_not.2 howner))

/-- What a PUT or DELETE reports is what the row it wrote validates to. -/
theorem TaskRequest.reports_written {req : TaskRequest} {g : ShownGhost} {taskId : UUID}
    (h : req.Reports g r) (hreq : req.Cancels taskId ∨ req.Edits taskId) :
    ∃ row task,
      g.wrote = some taskId ∧ g.seen = some (taskId, row) ∧
      TaskResponse.modelValidate row = some task ∧ r = .task task := by
  cases req with
  | delete user id =>
      obtain rfl : id = taskId := hreq.elim (fun hid => hid) False.elim
      exact h
  | update user id taskData =>
      obtain rfl : id = taskId := hreq.elim False.elim (fun hid => hid)
      exact h
  | _ => exact hreq.elim False.elim False.elim

/-- A PUT or DELETE shows the version it commits. -/
theorem Displayed.shows_written {rows : Rows} (h : Displayed reqs rows s) {taskId : UUID}
    (hreq : (reqs i).Cancels taskId ∨ (reqs i).Edits taskId) (hp : s.prog i = .op .commit k)
    (hhanded : handed s i = some r) (hreaches : c.fault.Reaches)
    (hstep : (taskMachine ι).step s (.op i c) = some s') :
    ShowsStored (reqs i).user r s'.world := by
  obtain ⟨ha, hshowing, hholds, -⟩ := h.reviewed
  obtain ⟨hchecked, hreports⟩ := hshowing.checks hp
  rw [handed_eq] at hhanded
  have hreport := hreports r hhanded
  have hon : (reqs i).OnTask :=
    hreq.elim TaskRequest.onTask_of_cancels TaskRequest.onTask_of_edits
  obtain ⟨row, task, hwrote, hseen, htask, rfl⟩ := TaskRequest.reports_written hreport hreq
  obtain ⟨u, hu, happlied, hforced, rfl⟩ := shownOf_wrote hwrote
  obtain ⟨held, hheld⟩ := ha.sound.coupled.held hp hu happlied hforced
  -- the version it holds is the one it has read back
  have hcommitted : ∃ old, committedTask s u.taskId = some old := by
    by_contra hno
    have hnone := Option.eq_none_iff_forall_ne_some.2 fun old hold => hno ⟨old, hold⟩
    exact TaskRequest.not_creates_of_onTask hon
      (ha.sound.coupled.inserted hheld hnone).creates
  obtain ⟨old, hold⟩ := hcommitted
  obtain rfl : held = row := by
    rcases hholds hheld hold hon with hunread | hread
    · rw [hchecked.unread] at hunread
      cases hunread
    · rw [hread] at hseen
      exact congrArg Prod.snd (Option.some.inj hseen)
  obtain ⟨howner, -⟩ := ha.sound.owner_of_commit hp hheld hold
  obtain ⟨v, hv⟩ := ha.sound.coupled.updated hheld hold
  intro task' htask' j hidle
  rw [Response.shown, List.mem_singleton] at htask'
  subst htask'
  have hid : task'.id = u.taskId :=
    (TaskResponse.modelValidate_eq_some htask).2.1.trans (h.fits.pending u.taskId i held hheld)
  exact reads_committed hp hreaches hstep hheld hid (hv.makes.sameTask.userId.trans howner) htask
    hidle

omit [DecidableEq ι] in
/-- A task is fetched with the status of its row. -/
theorem status_of_fetched {id : UUID} {user : UserId} {row : TaskRow} {task : TaskResponse}
    (h : fetched id user row = .ok task) : task.status = row.status := by
  unfold fetched at h
  cases htask : TaskResponse.modelValidate row with
  | none =>
      rw [htask] at h
      cases h
  | some task' =>
      rw [htask] at h
      simp only [Option.elim_some] at h
      split at h
      · cases h
      · cases h
        exact (TaskResponse.modelValidate_eq_some htask).2.2.1

/-- A batch shows the rows it commits. -/
theorem Displayed.shows_batch {rows : Rows} (h : Displayed reqs rows s) (hbatch : (reqs i).IsBatch)
    (hp : s.prog i = .op .commit k) (hhanded : handed s i = some r) (hreaches : c.fault.Reaches)
    (hstep : (taskMachine ι).step s (.op i c) = some s') :
    ShowsStored (reqs i).user r s'.world := by
  obtain ⟨ha, hshowing, -, -⟩ := h.reviewed
  obtain ⟨-, hreports⟩ := hshowing.checks hp
  rw [handed_eq] at hhanded
  have hreport := hreports r hhanded
  obtain ⟨tasks, htasks, rfl⟩ : ∃ tasks,
      List.Forall₂ (fun row task => TaskResponse.modelValidate row = some task)
        (shownOf (s.hist i)).rows tasks ∧ r = .tasks tasks := by
    cases hi : reqs i with
    | createBatch user tasksData =>
        rw [hi] at hreport
        exact hreport
    | _ =>
        rw [hi] at hbatch
        exact hbatch.elim
  intro task htask j hidle
  obtain ⟨row, hrow, hvalid⟩ : ∃ row ∈ (shownOf (s.hist i)).rows,
      TaskResponse.modelValidate row = some task := exists_of_forall₂ htasks htask
  rw [(shownOf_rows (s.hist i)).1] at hrow
  have hslot := ha.recorded.own hp hrow
  have hheld : HoldsVersion s i row.id row := congrArg Slot.pending hslot
  have howner := (ha.sound.coupled.inserted hheld (congrArg Slot.committed hslot)).userId
  exact reads_committed hp hreaches hstep hheld (TaskResponse.modelValidate_eq_some hvalid).2.1
    howner hvalid hidle

/-- A single creation shows a task `BEFORE RMQ` that is stored with another status. -/
theorem Displayed.not_shows_single {rows : Rows} (h : Displayed reqs rows s)
    (hsingle : (reqs i).IsSingle) (hp : s.prog i = .op .commit k)
    (hhanded : handed s i = some r) (hreaches : c.fault.Reaches)
    (hstep : (taskMachine ι).step s (.op i c) = some s') :
    ¬ ShowsStored (reqs i).user r s'.world := by
  obtain ⟨ha, hshowing, -, -⟩ := h.reviewed
  obtain ⟨-, hreports⟩ := hshowing.checks hp
  rw [handed_eq] at hhanded
  have hreport := hreports r hhanded
  obtain ⟨row, task, hdurable, hstatus, htask, rfl⟩ : ∃ row task,
      (shownOf (s.hist i)).durable = [row] ∧ row.status = .beforeRmq ∧
      TaskResponse.modelValidate row = some task ∧ r = .task task := by
    cases hi : reqs i with
    | create user taskData =>
        rw [hi] at hreport
        exact hreport
    | _ =>
        rw [hi] at hsingle
        exact hsingle.elim
  have hrow : row ∈ (creationOf (s.hist i)).durable := by
    rw [← (shownOf_rows (s.hist i)).2, hdurable]
    exact List.mem_singleton_self row
  obtain ⟨-, hid, hshown, -⟩ := TaskResponse.modelValidate_eq_some htask
  obtain ⟨stored, hstored, -⟩ := ha.recorded.durable_of_step ha.sound hstep hrow
  have hconfirmed : stored.status ≠ .beforeRmq := by
    obtain ⟨hfailed, -, hphase⟩ := ha.creating.permits hp (TaskRequest.creates_of_single hsingle)
    rcases hphase hsingle with hinsert | ⟨-, hconfirming | hyes⟩
    · rw [hinsert.durable] at hrow
      cases hrow
    · exact ha.confirmed_of_commit h.holds hsingle hp hreaches hstep hconfirming hrow hstored
    · intro hbefore
      obtain ⟨first, hfirst, -⟩ := ha.recorded.durable hrow
      exact h.confirmed hsingle hfailed hyes hrow hfirst
        (ha.sound.before_of_step hstep hfirst hstored hbefore)
  intro hshows
  have hidle : Idle i s'.world := by
    intro id row' hrow'
    obtain ⟨reply, hexec, -, -⟩ := Machine.step_call hstep hp
    rw [callOp_commit_of_reaches hreaches hexec] at hrow'
    exact (Slot.commit_pending.1 hrow').1 rfl
  obtain ⟨v, heval⟩ := hshows task (List.mem_singleton_self task) i hidle
  rw [hid, getRequestTask_eval hidle hstored] at heval
  have hfetched := congrArg Prod.fst (Option.some.inj heval)
  rw [← status_of_fetched hfetched, hshown] at hconfirmed
  exact hconfirmed hstatus

/--
When a POST, PUT or DELETE has handed over its response and its last commit takes
effect, every task it has shown is, in all fields, what reading it returns, if and
only if the request is not a single creation.
-/
theorem shows_stored_iff (hw : w.Quiet) (hkeyed : w.Keyed)
    (hpre : (taskMachine ι).run (startTasks w reqs) ls = some s)
    (hreq : (reqs i).IsSingle ∨ (reqs i).ReportsChange) (hp : s.prog i = .op .commit k)
    (hhanded : handed s i = some r) (hreaches : c.fault.Reaches)
    (hstep : (taskMachine ι).step s (.op i c) = some s') :
    ShowsStored (reqs i).user r s'.world ↔ ¬ (reqs i).IsSingle := by
  have hdisplayed := displayed_of_run hw hkeyed hpre
  constructor
  · intro hshows hsingle
    exact hdisplayed.not_shows_single hsingle hp hhanded hreaches hstep hshows
  · intro hsingle
    rcases hreq.resolve_left hsingle with hbatch | ⟨taskId, hwrites⟩
    · exact hdisplayed.shows_batch hbatch hp hhanded hreaches hstep
    · exact hdisplayed.shows_written hwrites hp hhanded hreaches hstep

section Sample

omit [DecidableEq ι] [UrlValidator] in
theorem worldOf_keyed (rows : List TaskRow) : (worldOf ι rows).Keyed := by
  intro id row hrow
  have hfind : rows.find? (fun row => row.id = id) = some row := hrow
  simpa using List.find?_some hfind

omit [UrlValidator] in
/-- A DELETE shows the canceled task, and that is what is read from then on. -/
theorem shows_stored_delete :
    letI := sampleUrls
    ∃ (s s' : TaskConfig (Fin 1)) (r : Response),
      (taskMachine (Fin 1)).run (startTasks (worldOf (Fin 1) [samplePending])
        fun _ => sampleDelete) (List.replicate 5 (callOf 0)) = some s ∧
      (taskMachine (Fin 1)).step s (callOf 0) = some s' ∧
      handed s 0 = some r ∧ r.statuses = [.canceled] ∧
      ShowsStored 1 r s'.world := by
  let := sampleUrls
  obtain ⟨s, s', t, hpre, hstep, -⟩ := Machine.exists_of_run_isSome
    (show ((taskMachine (Fin 1)).run (startTasks (worldOf (Fin 1) [samplePending])
      fun _ => sampleDelete) (List.replicate 5 (callOf 0) ++ callOf 0 :: [])).isSome = true by
        decide)
  have hcommits : ((taskMachine (Fin 1)).run (startTasks (worldOf (Fin 1) [samplePending])
      fun _ => sampleDelete) (List.replicate 5 (callOf 0))).map
        (fun s => ((s.prog 0).next?, (handed s 0).map Response.statuses)) =
      some (some .commit, some [.canceled]) := by
    decide
  rw [hpre, Option.map_some, Option.some.injEq, Prod.mk.injEq] at hcommits
  obtain ⟨hnext, hstatuses⟩ := hcommits
  obtain ⟨r, hhanded, hr⟩ := Option.map_eq_some_iff.1 hstatuses
  obtain ⟨k, hk⟩ := Prog.exists_op_of_next? hnext
  have hreq : sampleDelete.IsSingle ∨ sampleDelete.ReportsChange := Or.inr (Or.inr ⟨7, Or.inl rfl⟩)
  have hreaches : (Choice.fault {}).Reaches := trivial
  have hshows := shows_stored_iff (worldOf_quiet [samplePending]) (worldOf_keyed [samplePending])
    hpre hreq hk hhanded hreaches hstep
  exact ⟨s, s', r, hpre, hstep, hhanded, hr, hshows.2 id⟩

omit [UrlValidator] in
/-- A single creation shows `BEFORE RMQ`; the task is `pending` when it is committed. -/
theorem create_shows_unconfirmed :
    letI := sampleUrls
    ∃ (s s' : TaskConfig (Fin 1)) (r : Response),
      (taskMachine (Fin 1)).run (startTasks (worldOf (Fin 1) [])
        fun _ => .create 1 sampleTask) (insertOf 0 [3] :: List.replicate 10 (callOf 0)) = some s ∧
      (taskMachine (Fin 1)).step s (callOf 0) = some s' ∧
      (s.prog 0).next? = some .commit ∧ handed s 0 = some r ∧ r.statuses = [.beforeRmq] ∧
      (committedTask s' 3).map TaskRow.status = some .pending ∧
      ¬ ShowsStored 1 r s'.world := by
  let := sampleUrls
  obtain ⟨s, s', t, hpre, hstep, hpost⟩ := Machine.exists_of_run_isSome
    (show ((taskMachine (Fin 1)).run (startTasks (worldOf (Fin 1) [])
      fun _ => .create 1 sampleTask)
        ((insertOf 0 [3] :: List.replicate 10 (callOf 0)) ++ callOf 0 :: [])).isSome = true by
          decide)
  have hcommits : ((taskMachine (Fin 1)).run (startTasks (worldOf (Fin 1) [])
      fun _ => .create 1 sampleTask) (insertOf 0 [3] :: List.replicate 10 (callOf 0))).map
        (fun s => ((s.prog 0).next?, (handed s 0).map Response.statuses,
          ((taskMachine (Fin 1)).step s (callOf 0)).map
            fun s' => (committedTask s' 3).map TaskRow.status)) =
      some (some .commit, some [.beforeRmq], some (some .pending)) := by
    decide
  rw [hpre, Option.map_some, Option.some.injEq, Prod.mk.injEq, Prod.mk.injEq, hstep] at hcommits
  obtain ⟨hnext, hstatuses, hstored⟩ := hcommits
  obtain ⟨r, hhanded, hr⟩ := Option.map_eq_some_iff.1 hstatuses
  obtain ⟨k, hk⟩ := Prog.exists_op_of_next? hnext
  have hreaches : (Choice.fault {}).Reaches := trivial
  have hdisplayed := displayed_of_run (worldOf_quiet []) (worldOf_keyed []) hpre
  exact ⟨s, s', r, hpre, hstep, hnext, hhanded, hr, Option.some.inj hstored,
    hdisplayed.not_shows_single trivial hk hhanded hreaches hstep⟩

end Sample

end Shown

end StoredResponses

end SmartHttpRequester
