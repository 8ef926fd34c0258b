import SmartHttpRequester.Pagination
import SmartHttpRequester.TaskLifecycle

/-!
# A request by itself

What a request on existing tasks amounts to when no other request is in progress
and none of its calls fails: a response and a new table, both functions of the
committed table.  `request_outcome` connects them with the programs.

A PUT writes its row before owner and status are looked at, and so does a DELETE
of a pending task; what is refused afterwards is rolled back.
-/

namespace SmartHttpRequester

open Foundations Function

section SequentialRequests

/-- Committed rows by id. -/
abbrev Rows := UUID → Option TaskRow

abbrev Outcome := Except Exc Response × Rows

variable [UrlValidator]

section Outcomes

def canceledRow (now : Timestamp) (row : TaskRow) : TaskRow :=
  { row with status := .canceled, updatedAt := some now }

def editedRow (taskData : TaskUpdate) (now : Timestamp) (row : TaskRow) : TaskRow :=
  { row with
    url := taskData.url.str
    method := taskData.method
    headers := taskData.headers
    body := taskData.body
    updatedAt := some now }

/-- `cancel_task` writes a pending row only. -/
def canceledIfPending (now : Timestamp) (row : TaskRow) : TaskRow :=
  if row.status = .pending then canceledRow now row else row

def infoOutcome (user : UserId) (taskId : UUID) (rows : Rows) : Outcome :=
  match rows taskId with
  | none => (.error (.httpException 404 "Task not found"), rows)
  | some row =>
      match TaskResponse.modelValidate row with
      | none => (.error (.validationError row.errorText), rows)
      | some task =>
          if row.userId ≠ user then (.error (.httpException 403 "Access denied"), rows)
          else (.ok (.task task), rows)

/-- The common part of PUT and DELETE; the row is written first. -/
def writeOutcome (user : UserId) (taskId : UUID) (past : String) (written : TaskRow → TaskRow)
    (rows : Rows) : Outcome :=
  match rows taskId with
  | none => (.error (.httpException 404 "Task not found"), rows)
  | some row =>
      match TaskResponse.modelValidate (written row) with
      | none => (.error (.validationError (written row).errorText), rows)
      | some task =>
          if row.userId ≠ user then (.error (.httpException 403 "Access denied"), rows)
          else if row.status ≠ .pending then
            (.error (.httpException 400 (invalidStatusText past row.status)), rows)
          else (.ok (.task task), update rows taskId (some (written row)))

def userTasksOutcome (user : UserId) (skip limit : Nat) (order : List UUID) (rows : Rows) :
    Outcome :=
  ((validated (userPage user skip limit (order.filterMap rows))).map .tasks, rows)

end Outcomes

section Alone

variable {ι : Type} [DecidableEq ι] {i : ι} {order : List UUID} {α : Type}
variable {w v : World ι} {rows own : Rows}

/-- Without failures the program ends, and as the postcondition says. -/
abbrev Alone (i : ι) (order : List UUID) (p : TaskProg α)
    (Q : Except Exc α → World ι → Prop) (w : World ι) : Prop :=
  p.Achieves (callOp i { order := order }) id Q w

/-- The committed rows, the rows as request `i` sees them, and no row lock in its way. -/
structure Sees (i : ι) (rows own : Rows) (w : World ι) : Prop where
  committed : w.tasks.committed = rows
  visible : ∀ id, (w.tasks.slot id).visible i = own id
  unlocked : ∀ id, (w.tasks.slot id).lockedFor i = false

omit [UrlValidator] in
theorem World.Quiet.sees (hw : w.Quiet) (i : ι) :
    Sees i w.tasks.committed w.tasks.committed w where
  committed := rfl
  visible id := Slot.visible_eq_committed (by simp [hw.pending])
  unlocked id := by simp [Slot.lockedFor, hw.pending]

omit [UrlValidator] in
theorem alone_execute {s : Stmt} {answer : List TaskRow}
    {Q : Except Exc (List TaskRow) → World ι → Prop}
    (h : runStmt i { order := order } s (w.begin i) = some (.ok answer, v))
    (hQ : Q (.ok answer) v) :
    Alone i order (execute s) Q w := by
  refine Prog.achieves_perform fun w' hw => ?_
  cases hw
  exact ⟨.ok answer, v, h, hQ⟩

omit [UrlValidator] in
theorem alone_effect {o : TaskOp} {answer : List TaskRow} {Q : Except Exc Unit → World ι → Prop}
    (h : runOp i { order := order } o w = some (.ok answer, v)) (hQ : Q (.ok ()) v) :
    Alone i order (Prog.effect o) Q w := by
  refine Prog.achieves_effect fun w' hw => ?_
  cases hw
  exact ⟨answer, v, h, hQ⟩

omit [UrlValidator] in
/-- A SELECT by id answers the row that the request sees. -/
theorem alone_select {taskId : UUID} {s : Stmt}
    {Q : Except Exc (List TaskRow) → World ι → Prop}
    (hs : s = .selectOwnerStatus taskId ∨ s = .selectTask taskId) (hw : Sees i rows own w)
    (hQ : ∀ answer, fetchone answer = own taskId → Q (.ok answer) (w.begin i)) :
    Alone i order (execute s) Q w := by
  have hrun : runStmt i { order := order } s (w.begin i) =
      some (.ok ((w.tasks.slot taskId).visible i).toList, w.begin i) := by
    rcases hs with rfl | rfl <;> rfl
  refine alone_execute hrun (hQ _ ?_)
  rw [fetchone_toList, hw.visible]

omit [UrlValidator] in
/-- An UPDATE that is not in anybody's way writes the row. -/
theorem Sees.updateRow {taskId : UUID} {row new : TaskRow} {f : TaskRow → Option TaskRow}
    (hw : Sees i rows own w) (hrow : own taskId = some row) (hf : f row = some new) :
    ∃ v, updateRow i taskId f w = some (.ok [], v) ∧
      Sees i rows (update own taskId (some new)) v ∧ v.started = w.started := by
  have hmodify : w.tasks.modify i taskId f =
      some (w.tasks.set taskId ((w.tasks.slot taskId).write i new)) := by
    simp [Table.modify, hw.visible, hrow, hf, hw.unlocked]
  refine ⟨_, Option.map_eq_some_iff.2 ⟨_, hmodify, rfl⟩, ⟨?_, fun id => ?_, fun id => ?_⟩, rfl⟩
  · refine Eq.trans (funext fun id => ?_) hw.committed
    by_cases hid : id = taskId
    · subst hid
      simp [Table.committed]
    · simp [Table.committed, hid]
  · by_cases hid : id = taskId
    · subst hid
      simp
    · simpa [hid] using hw.visible id
  · by_cases hid : id = taskId
    · subst hid
      simp [Slot.lockedFor, Slot.write]
    · simpa [hid] using hw.unlocked id

theorem alone_modelValidate {row : TaskRow} {Q : Except Exc TaskResponse → World ι → Prop}
    (hQ : Q ((TaskResponse.modelValidate row).elim (.error (.validationError row.errorText)) .ok)
      w) :
    Alone i order (modelValidate row) Q w := by
  unfold modelValidate
  cases hrow : TaskResponse.modelValidate row with
  | none =>
      rw [hrow] at hQ
      exact Prog.achieves_raise hQ
  | some task =>
      rw [hrow] at hQ
      exact Prog.achieves_ret hQ

theorem alone_reselectTask {taskId : UUID} {row : TaskRow}
    {Q : Except Exc TaskResponse → World ι → Prop}
    (hw : Sees i rows own w) (hrow : own taskId = some row)
    (hQ : Q ((TaskResponse.modelValidate row).elim (.error (.validationError row.errorText)) .ok)
      (w.begin i)) :
    Alone i order (reselectTask taskId) Q w := by
  refine Prog.Achieves.bind (alone_select (Or.inr rfl) hw fun answer hanswer => ⟨answer, rfl, ?_⟩)
  rw [hanswer, hrow]
  exact alone_modelValidate hQ

omit [UrlValidator] in
@[simp] theorem World.now_begin (i : ι) (w : World ι) : (w.begin i).now i = w.now i := by
  simp [World.now, World.begin]

omit [UrlValidator] in
theorem Sees.begin (hw : Sees i rows own w) : Sees i rows own (w.begin i) :=
  ⟨hw.committed, hw.visible, hw.unlocked⟩

/-- How `cancel_task` and `update_task` end, with the row written or left alone. -/
def Wrote (i : ι) (rows : Rows) (taskId : UUID) (written : TaskRow → TaskRow)
    (r : Except Exc (Option (TaskResponse × UserId × TaskStatus))) (v : World ι) : Prop :=
  match rows taskId with
  | none => r = .ok none ∧ Sees i rows rows v
  | some row =>
      r = (TaskResponse.modelValidate (written row)).elim
        (.error (.validationError (written row).errorText))
        (fun task => .ok (some (task, row.userId, row.status))) ∧
      Sees i rows (update rows taskId (some (written row))) v

theorem wrote_of_eq_none {taskId : UUID} {written : TaskRow → TaskRow} (hrow : rows taskId = none)
    (hw : Sees i rows rows w) :
    Wrote i rows taskId written (.ok none) w := by
  unfold Wrote
  rw [hrow]
  exact ⟨rfl, hw⟩

/-- The end of both: the row is read again and shown. -/
theorem wrote_of_reselect {taskId : UUID} {row new : TaskRow} {written : TaskRow → TaskRow}
    {rest : TaskResponse → TaskProg Unit}
    (hrest : ∀ task v, Sees i rows own v →
      Alone i order (rest task) (fun r v' => r = .ok () ∧ Sees i rows own v') v)
    (hrow : rows taskId = some row) (hnew : written row = new)
    (hown : own = update rows taskId (some new)) (hw : Sees i rows own w) :
    Alone i order
      (do
        let task ← reselectTask taskId
        rest task
        pure (some (task, row.userId, row.status)))
      (Wrote i rows taskId written) w := by
  subst hown hnew
  refine Prog.Achieves.handle (alone_reselectTask hw (update_self ..) ?_)
  cases htask : TaskResponse.modelValidate (written row) with
  | none =>
      refine Prog.achieves_raise ?_
      simp only [Wrote, hrow, htask]
      exact ⟨rfl, hw.begin⟩
  | some task =>
      refine Prog.Achieves.bind ((hrest task _ hw.begin).mono ?_)
      rintro r v ⟨rfl, hv⟩
      refine ⟨(), rfl, Prog.achieves_ret ?_⟩
      simp only [Wrote, hrow, htask]
      exact ⟨rfl, hv⟩

theorem alone_cancelTask {taskId : UUID} (hw : Sees i rows rows w) :
    Alone i order (cancelTask taskId) (Wrote i rows taskId (canceledIfPending (w.now i))) w := by
  refine Prog.Achieves.bind (alone_select (Or.inl rfl) hw fun answer hanswer =>
    ⟨answer, rfl, ?_⟩)
  rw [hanswer]
  cases hrow : rows taskId with
  | none =>
      exact Prog.achieves_ret (wrote_of_eq_none hrow hw.begin)
  | some row =>
      have hnothing : ∀ {own : Rows} {v : World ι}, Sees i rows own v →
          Alone i order (pure ()) (fun r v' => r = .ok () ∧ Sees i rows own v') v :=
        fun hv => Prog.achieves_ret ⟨rfl, hv⟩
      have hrest : ∀ {own : Rows} {v : World ι}, Sees i rows own v →
          own = update rows taskId (some (canceledIfPending (w.now i) row)) →
          Alone i order (do
            let task ← reselectTask taskId
            pure (some (task, row.userId, row.status)))
            (Wrote i rows taskId (canceledIfPending (w.now i))) v :=
        fun hv hown => wrote_of_reselect (fun _ _ hv' => hnothing hv') hrow rfl hown hv
      dsimp only
      by_cases hpending : row.status = .pending
      · obtain ⟨v, hupdate, hv, -⟩ := hw.begin.begin.updateRow (f := setCanceled (w.now i))
          hrow rfl
        have hrun : runOp i { order := order } (.execute (.cancelTask taskId)) (w.begin i) =
            some (.ok [], v) := by
          simpa [runOp, runStmt] using hupdate
        rw [if_pos hpending]
        refine Prog.Achieves.bind (alone_effect hrun ⟨(), rfl, hrest hv ?_⟩)
        rw [canceledIfPending, if_pos hpending]
        rfl
      · rw [if_neg hpending]
        refine hrest hw.begin ?_
        rw [canceledIfPending, if_neg hpending, ← hrow, update_eq_self]

theorem alone_updateTask {taskId : UUID} {taskData : TaskUpdate} (hw : Sees i rows rows w) :
    Alone i order
      (updateTask taskId taskData.url.str taskData.method taskData.headers taskData.body)
      (Wrote i rows taskId (editedRow taskData (w.now i))) w := by
  refine Prog.Achieves.bind (alone_select (Or.inl rfl) hw fun answer hanswer =>
    ⟨answer, rfl, ?_⟩)
  rw [hanswer]
  cases hrow : rows taskId with
  | none =>
      exact Prog.achieves_ret (wrote_of_eq_none hrow hw.begin)
  | some row =>
      obtain ⟨v, hupdate, hv, -⟩ := hw.begin.begin.updateRow (f := setData taskData.url.str
        taskData.method taskData.headers taskData.body (w.now i)) hrow rfl
      have hrun : runOp i { order := order } (.execute (.updateTask taskId taskData.url.str
          taskData.method taskData.headers taskData.body)) (w.begin i) = some (.ok [], v) := by
        simpa [runOp, runStmt] using hupdate
      refine Prog.Achieves.bind (alone_effect hrun ⟨(), rfl, ?_⟩)
      refine wrote_of_reselect (fun task v' hv' => ?_) hrow rfl rfl hv
      -- the publication to Redis does not concern the table
      refine Prog.Achieves.tryCatch ?_
      split
      · refine alone_effect (show runOp i _ (.redisPublish task.id task.status) v' =
          some (.ok [], _) from rfl) ⟨(), rfl, rfl, ?_⟩
        exact ⟨hv'.committed, hv'.visible, hv'.unlocked⟩
      · exact Prog.achieves_ret ⟨(), rfl, rfl, hv'⟩

/-- How a handler ends that stands for an outcome: with the new rows, or with nothing to commit. -/
def Settles (i : ι) (rows : Rows) (out : Outcome) (r : Except Exc Response) (v : World ι) : Prop :=
  r = out.1 ∧
    match out.1 with
    | .ok _ => Sees i rows out.2 v
    | .error _ => out.2 = rows ∧ v.tasks.committed = rows

omit [UrlValidator] in
theorem settles_refused {e : Exc} (hw : Sees i rows own w) :
    Settles i rows (.error e, rows) (.error e) w :=
  ⟨rfl, rfl, hw.committed⟩

/-- What PUT and DELETE have in common after their repository function. -/
theorem alone_written {taskId : UUID} {user : UserId} {past : String}
    {written : TaskRow → TaskRow} {rest : TaskResponse → TaskProg TaskResponse}
    {p : TaskProg (Option (TaskResponse × UserId × TaskStatus))}
    (hp : Alone i order p (Wrote i rows taskId written) w)
    (hrest : ∀ task own v, Sees i rows own v →
      Alone i order (rest task) (fun r v' => r = .ok task ∧ Sees i rows own v') v) :
    Alone i order
      (answerWritten taskId user past p rest)
      (Settles i rows (writeOutcome user taskId past written rows)) w := by
  refine Prog.Achieves.handle (Prog.Achieves.handle (Prog.Achieves.handle (hp.mono ?_)))
  intro r v hv
  unfold Wrote at hv
  unfold writeOutcome
  cases hrow : rows taskId with
  | none =>
      rw [hrow] at hv
      obtain ⟨rfl, hsees⟩ := hv
      exact Prog.achieves_raise (Prog.achieves_raise (Prog.achieves_raise (settles_refused hsees)))
  | some row =>
      rw [hrow] at hv
      obtain ⟨rfl, hsees⟩ := hv
      dsimp only
      cases htask : TaskResponse.modelValidate (written row) with
      | none =>
          exact Prog.achieves_raise (Prog.achieves_raise (Prog.achieves_raise
            (settles_refused hsees)))
      | some task =>
          dsimp only [Option.elim, Prog.andThen]
          split
          · exact Prog.achieves_raise (Prog.achieves_raise (Prog.achieves_raise
              (settles_refused hsees)))
          · split
            · exact Prog.achieves_raise (Prog.achieves_raise (Prog.achieves_raise
                (settles_refused hsees)))
            · refine (hrest task _ v hsees).mono ?_
              rintro r v' ⟨rfl, hsees'⟩
              exact Prog.achieves_ret (Prog.achieves_ret ⟨rfl, hsees'⟩)

theorem alone_requestDelete {taskId : UUID} {user : UserId} (hw : Sees i rows rows w) :
    Alone i order (requestDelete taskId user)
      (Settles i rows
        (writeOutcome user taskId "canceled" (canceledIfPending (w.now i)) rows)) w := by
  rw [requestDelete_eq]
  refine alone_written (alone_cancelTask hw) fun task own v hv => ?_
  refine Prog.Achieves.bind (alone_effect (show runOp i _ (.inc _ _) v = some (.ok [], _) from rfl)
    ⟨(), rfl, Prog.achieves_ret ⟨rfl, ?_⟩⟩)
  exact ⟨hv.committed, hv.visible, hv.unlocked⟩

theorem alone_requestUpdate {taskId : UUID} {user : UserId} {taskData : TaskUpdate}
    (hw : Sees i rows rows w) :
    Alone i order (requestUpdate taskId taskData user)
      (Settles i rows
        (writeOutcome user taskId "updated" (editedRow taskData (w.now i)) rows)) w := by
  rw [requestUpdate_eq]
  exact alone_written (alone_updateTask hw) fun _ _ _ hv => Prog.achieves_ret ⟨rfl, hv⟩

theorem alone_requestInfo {taskId : UUID} {user : UserId} (hw : Sees i rows rows w) :
    Alone i order (requestInfo taskId user) (Settles i rows (infoOutcome user taskId rows)) w := by
  have hrefused : ∀ e, Settles i rows (.error e, rows) (.error e) (w.begin i) :=
    fun e => settles_refused hw.begin
  refine Prog.Achieves.handle (Prog.Achieves.handle (Prog.Achieves.handle (Prog.Achieves.handle
    (alone_select (Or.inr rfl) hw fun answer hanswer => ?_))))
  dsimp only [Prog.andThen]
  rw [hanswer]
  unfold infoOutcome
  cases hrow : rows taskId with
  | none =>
      exact Prog.achieves_ret (Prog.achieves_raise (Prog.achieves_raise
        (Prog.achieves_raise (hrefused _))))
  | some row =>
      refine Prog.Achieves.handle (alone_modelValidate ?_)
      dsimp only
      cases htask : TaskResponse.modelValidate row with
      | none =>
          exact Prog.achieves_raise (Prog.achieves_raise (Prog.achieves_raise
            (Prog.achieves_raise (hrefused _))))
      | some task =>
          refine Prog.achieves_ret ?_
          dsimp only
          split
          · exact Prog.achieves_raise (Prog.achieves_raise (Prog.achieves_raise (hrefused _)))
          · exact Prog.achieves_ret (Prog.achieves_ret (Prog.achieves_ret ⟨rfl, hw.begin⟩))

theorem alone_requestUserTasks {user : UserId} {skip limit : Nat} (hw : Sees i rows rows w)
    (horder : order.Perm w.tasks.keys) :
    Alone i order (requestUserTasks user skip limit)
      (Settles i rows (userTasksOutcome user skip limit order rows)) w := by
  have hrows : w.tasks.rows i order = order.filterMap rows :=
    List.filterMap_congr fun id _ => hw.visible id
  have hrun : runStmt i { order := order } (.selectUserTasks user skip limit) (w.begin i) =
      some (.ok (userPage user skip limit (order.filterMap rows)), w.begin i) := by
    rw [← hrows]
    exact if_pos horder
  refine Prog.Achieves.handle (Prog.Achieves.handle (alone_execute hrun ?_))
  rintro v rfl
  refine ⟨_, _, eval_validateAll _ _ _, ?_⟩
  unfold userTasksOutcome
  cases validated (userPage user skip limit (order.filterMap rows)) with
  | error e => exact Prog.achieves_raise (settles_refused hw.begin)
  | ok tasks => exact Prog.achieves_ret ⟨rfl, hw.begin⟩

omit [UrlValidator] in
/-- The session around a handler: commit what it did, or roll it back. -/
theorem alone_getDb {handler : TaskProg Response} {out : Outcome}
    (h : Alone i order handler (Settles i rows out) w) :
    Alone i order (getDb handler) (fun r v => r = out.1 ∧ v.tasks.committed = out.2) w := by
  refine Prog.Achieves.tryFinally (Prog.Achieves.handle (Prog.Achieves.handle (h.mono ?_)))
  rintro r v ⟨rfl, hsettled⟩
  cases hout : out.1 with
  | error e =>
      rw [hout] at hsettled
      obtain ⟨hrows, hcommitted⟩ := hsettled
      refine Prog.achieves_raise ?_
      refine Prog.Achieves.bind (alone_effect (show runOp i _ .rollback v = some (.ok [], _) from
        rfl) ⟨(), rfl, Prog.achieves_raise ?_⟩)
      refine alone_effect (show runOp i _ .close (v.rollback i) = some (.ok [], _) from rfl)
        ⟨rfl, rfl, ?_⟩
      rw [hrows, ← hcommitted]
      funext id
      exact (Slot.rollback_committed i _).trans (Slot.rollback_committed i _)
  | ok response =>
      rw [hout] at hsettled
      refine Prog.Achieves.bind (alone_effect (show runOp i _ (.respond response) v =
        some (.ok [], v) from rfl) ⟨(), rfl, ?_⟩)
      refine Prog.Achieves.bind (alone_effect (show runOp i _ .commit v = some (.ok [], _) from
        rfl) ⟨(), rfl, Prog.achieves_ret (Prog.achieves_ret ?_)⟩)
      refine alone_effect (show runOp i _ .close (v.commit i) = some (.ok [], _) from rfl)
        ⟨rfl, rfl, ?_⟩
      funext id
      refine (Slot.rollback_committed i _).trans ((Slot.commit_committed i _).trans ?_)
      exact hsettled.visible id

end Alone

section Requests

/-- What a request on existing tasks amounts to; `now` is its `NOW()`. -/
def TaskRequest.outcome (now : Timestamp) (order : List UUID) (rows : Rows) :
    TaskRequest → Option Outcome
  | .info user taskId => some (infoOutcome user taskId rows)
  | .userTasks user skip limit => some (userTasksOutcome user skip limit order rows)
  | .delete user taskId =>
      some (writeOutcome user taskId "canceled" (canceledIfPending now) rows)
  | .update user taskId taskData =>
      some (writeOutcome user taskId "updated" (editedRow taskData now) rows)
  | .create _ _ => none
  | .createBatch _ _ => none

variable {ι : Type} [DecidableEq ι] {i : ι} {order : List UUID} {w : World ι}

/-- A request that is alone answers and changes the table as its outcome says. -/
theorem request_outcome {req : TaskRequest} {out : Outcome} (hw : w.Quiet)
    (horder : order.Perm w.tasks.keys)
    (hout : req.outcome w.clock order w.tasks.committed = some out) :
    ∃ v, req.program.eval (callOp i { order := order }) w = some (out.1, v) ∧
      v.tasks.committed = out.2 := by
  have hnow : w.now i = w.clock := by simp [World.now, hw.started]
  have hsees := hw.sees i
  have halone : Alone i order req.handler (Settles i w.tasks.committed out) w := by
    cases req with
    | info user taskId =>
        cases hout
        exact alone_requestInfo hsees
    | userTasks user skip limit =>
        cases hout
        exact alone_requestUserTasks hsees horder
    | delete user taskId =>
        cases hout
        rw [← hnow]
        exact alone_requestDelete hsees
    | update user taskId taskData =>
        cases hout
        rw [← hnow]
        exact alone_requestUpdate hsees
    | create user taskData => cases hout
    | createBatch user tasksData => cases hout
  obtain ⟨r, v, heval, rfl, hcommitted⟩ := alone_getDb halone w rfl
  exact ⟨v, heval, hcommitted⟩

end Requests


end SequentialRequests

end SmartHttpRequester
