import SmartHttpRequester.BatchInsert
import SmartHttpRequester.SequentialRequests

/-!
# The task store

What the API is for: a store of tasks in which users create tasks, confirm,
cancel and edit their own, each action at once.  A request is one or two such
actions (`TaskRequest.Effects`): a single creation creates a task and confirms
it, every other request that changes anything does so by one action.

Only what is visible to everybody is in the store.  `TaskLinearization` connects
it with the interleaved runs of the API.
-/

namespace SmartHttpRequester

open Foundations Function

section TaskStore

inductive StoreAction
  | created (rows : List TaskRow)
  | confirmed (taskId : UUID)
  | canceled (taskId : UUID)
  | edited (taskId : UUID) (taskData : TaskUpdate)

/-- A confirmation leaves a task alone that is no longer `BEFORE RMQ`. -/
def confirmedRow (row : TaskRow) : TaskRow :=
  (setPending row).getD row

/-- One action of a user, on a store of tasks. -/
inductive StoreAction.Performed (user : UserId) : StoreAction → Rows → Rows → Prop
  | created {rows : List TaskRow} {before after : Rows}
      (howner : ∀ row ∈ rows, row.userId = user)
      (hnew : ∀ row ∈ rows, before row.id = none ∧ after row.id = some row)
      (hframe : ∀ id, (∀ row ∈ rows, row.id ≠ id) → after id = before id) :
      Performed user (.created rows) before after
  | confirmed {taskId : UUID} {old : TaskRow} {before : Rows}
      (hold : before taskId = some old) (howner : old.userId = user) :
      Performed user (.confirmed taskId) before (update before taskId (some (confirmedRow old)))
  | canceled {taskId : UUID} {old : TaskRow} {before : Rows} (now : Timestamp)
      (hold : before taskId = some old) (howner : old.userId = user)
      (hstatus : old.status = .pending ∨ old.status = .canceled) :
      Performed user (.canceled taskId) before
        (update before taskId (some (canceledRow now old)))
  | edited {taskId : UUID} {taskData : TaskUpdate} {old : TaskRow} {before : Rows}
      (now : Timestamp) (hold : before taskId = some old) (howner : old.userId = user)
      (hstatus : old.status = .pending ∨ old.status = .canceled) :
      Performed user (.edited taskId taskData) before
        (update before taskId (some (editedRow taskData now old)))

section Requests

/-- What a creation inserts. -/
def TaskRequest.news : TaskRequest → List NewTask
  | .create user taskData => [newTask user taskData .beforeRmq]
  | .createBatch user tasksData => tasksData.map fun taskData => newTask user taskData .pending
  | .info _ _ => []
  | .userTasks _ _ _ => []
  | .delete _ _ => []
  | .update _ _ _ => []

/-- The rows are those of the creation, up to ids and the time. -/
def TaskRequest.Inserts (req : TaskRequest) (rows : List TaskRow) : Prop :=
  ∃ createdAt ids,
    ids.length = req.news.length ∧ rows = List.zipWith (NewTask.toRow createdAt) ids req.news

/-- The actions of a request that succeeds. -/
def TaskRequest.Effects (req : TaskRequest) (actions : List StoreAction) : Prop :=
  match req with
  | .create _ _ =>
      ∃ row, req.Inserts [row] ∧ actions = [.created [row], .confirmed row.id]
  | .createBatch _ _ => ∃ rows, req.Inserts rows ∧ actions = [.created rows]
  | .delete _ taskId => actions = [.canceled taskId]
  | .update _ taskId taskData => actions = [.edited taskId taskData]
  | .info _ _ => actions = []
  | .userTasks _ _ _ => actions = []

/-- A beginning of the actions of the request. -/
def TaskRequest.MayPerform (req : TaskRequest) (actions : List StoreAction) : Prop :=
  ∃ rest, req.Effects (actions ++ rest)

theorem TaskRequest.Effects.mayPerform {req : TaskRequest} {actions : List StoreAction}
    (h : req.Effects actions) : req.MayPerform actions :=
  ⟨[], by rwa [List.append_nil]⟩

/-- Some rows are those of the creation. -/
theorem TaskRequest.exists_inserts (req : TaskRequest) :
    req.Inserts (List.zipWith (NewTask.toRow 0) (List.replicate req.news.length 0) req.news) :=
  ⟨0, _, List.length_replicate, rfl⟩

/-- Nothing is a beginning of everything. -/
theorem TaskRequest.mayPerform_nil (req : TaskRequest) : req.MayPerform [] := by
  cases req with
  | create user taskData =>
      exact ⟨_, _, TaskRequest.exists_inserts (.create user taskData), rfl⟩
  | createBatch user tasksData =>
      exact ⟨_, _, TaskRequest.exists_inserts (.createBatch user tasksData), rfl⟩
  | info user taskId => exact ⟨[], rfl⟩
  | userTasks user skip limit => exact ⟨[], rfl⟩
  | delete user taskId => exact ⟨_, rfl⟩
  | update user taskId taskData => exact ⟨_, rfl⟩

end Requests

end TaskStore

end SmartHttpRequester
