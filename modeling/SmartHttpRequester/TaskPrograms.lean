import SmartHttpRequester.TaskOperations

/-!
# The task programs

`repository/task.py`, `domain/tasks.py`, the endpoints of
`api/v1/requests.py`, and the session dependency `get_db` that wraps every one
of them.  Log calls are left out.

`getDb` commits after the response has been handed to the client: FastAPI runs
the code after a dependency's `yield` once the response is sent.  Any exception
of the handler rolls the session back and travels on.
-/

namespace SmartHttpRequester

open Foundations

section TaskPrograms

variable [UrlValidator]

section Repository

/-- `fetchone()`. -/
def fetchone (rows : List TaskRow) : Option TaskRow :=
  rows.head?

/-- VALUES row of the single INSERT. -/
def createTaskRow : InsertRow where
  userId := .param "user_id"
  url := .param "url"
  method := .param "method"
  headers := .param "headers"
  body := .param "body"
  maxAttempts := .param "max_attempts"
  status := .param "status"
  attemptCount := .literal (.int 0)

/-- `None` or a dictionary, as a Python value. -/
def pyHeaders : Option Headers → PyValue
  | some d => .dict d
  | none => .none

/-- `None` or a string, as a Python value. -/
def pyText : Option String → PyValue
  | some s => .str s
  | none => .none

/-- Bind parameters of the single INSERT. -/
def createTaskParams (userId : UserId) (url : String) (method : HttpMethod)
    (headers : Option Headers) (body : Option String) (maxAttempts : Int)
    (status : TaskStatus) : List BindParameter :=
  [⟨"user_id", .int userId, .Integer⟩,
    ⟨"url", .str url, .TEXT⟩,
    ⟨"method", .method method, .TEXT⟩,
    ⟨"headers", pyHeaders headers, .JSONB⟩,
    ⟨"body", pyText body, .TEXT⟩,
    ⟨"max_attempts", .int maxAttempts, .Integer⟩,
    ⟨"status", .status status, .TEXT⟩]

/-- `TaskRepository.create_task`. -/
def createTask (userId : UserId) (url : String) (method : HttpMethod)
    (headers : Option Headers) (body : Option String) (maxAttempts : Int)
    (status : TaskStatus := .pending) : TaskProg TaskResponse := do
  let query ← execute (.insertTasks [createTaskRow]
    (createTaskParams userId url method headers body maxAttempts status))
  match fetchone query with
  | none => .raise (.attributeError "'NoneType' object has no attribute 'id'")
  | some rawTask => modelValidate rawTask

/-- `TaskRepository.get_task_by_id`. -/
def getTaskById (taskId : UUID) : TaskProg (Option (TaskResponse × UserId)) := do
  let query ← execute (.selectTask taskId)
  match fetchone query with
  | none => pure none
  | some rawTask =>
      let task ← modelValidate rawTask
      pure (some (task, rawTask.userId))

/-- The name `f"{field}_{idx}"`. -/
def numbered (field : String) (idx : Nat) : String :=
  field ++ "_" ++ toString idx

/-- VALUES row the loop of `create_tasks_batch` appends. -/
def batchRow (idx : Nat) : InsertRow where
  userId := .param "user_id"
  url := .param (numbered "url" idx)
  method := .param (numbered "method" idx)
  headers := .param (numbered "headers" idx)
  body := .param (numbered "body" idx)
  maxAttempts := .param (numbered "max_attempts" idx)
  status := .literal (.status .pending)
  attemptCount := .literal (.int 0)

/-- Bind parameters the loop appends; the URL is bound as the object it is. -/
def batchParams (idx : Nat) (task : TaskCreate) : List BindParameter :=
  [⟨numbered "url" idx, .url task.url, .TEXT⟩,
    ⟨numbered "method" idx, .method task.method, .TEXT⟩,
    ⟨numbered "headers" idx, pyHeaders task.headers, .JSONB⟩,
    ⟨numbered "body" idx, pyText task.body, .TEXT⟩,
    ⟨numbered "max_attempts" idx, .int task.maxAttempts, .Integer⟩]

/-- The loop `for idx, task in enumerate(tasks_data)` of `create_tasks_batch`. -/
def batchLoop : Nat → List TaskCreate → List InsertRow × List BindParameter →
    List InsertRow × List BindParameter
  | _, [], acc => acc
  | idx, task :: rest, (values, bindparams) =>
      batchLoop (idx + 1) rest
        (values ++ [batchRow idx], bindparams ++ batchParams idx task)

/-- The INSERT of `create_tasks_batch`. -/
def batchInsert (userId : UserId) (tasksData : List TaskCreate) : Stmt :=
  let built := batchLoop 0 tasksData ([], [⟨"user_id", .int userId, .Integer⟩])
  .insertTasks built.1 built.2

/-- `[TaskResponse.model_validate(task) for task in raw_tasks]`. -/
def validateAll : List TaskRow → TaskProg (List TaskResponse)
  | [] => pure []
  | rawTask :: rest => do
      let task ← modelValidate rawTask
      let tasks ← validateAll rest
      pure (task :: tasks)

/-- `TaskRepository.create_tasks_batch`. -/
def createTasksBatch (userId : UserId) (tasksData : List TaskCreate) :
    TaskProg (List TaskResponse) :=
  if tasksData.isEmpty then pure []
  else do
    let rawTasks ← execute (batchInsert userId tasksData)
    validateAll rawTasks

/-- `TaskRepository.get_user_tasks`. -/
def getUserTasks (userId : UserId) (skip limit : Nat) : TaskProg (List TaskResponse) := do
  let rawTasks ← execute (.selectUserTasks userId skip limit)
  validateAll rawTasks

/-- `TaskResponse.model_validate(query.fetchone())` after a write to the row. -/
def reselectTask (taskId : UUID) : TaskProg TaskResponse := do
  let query ← execute (.selectTask taskId)
  match fetchone query with
  | none => .raise (.validationError (UrlValidator.errorText none))
  | some rawTask => modelValidate rawTask

/-- `TaskRepository.cancel_task`. -/
def cancelTask (taskId : UUID) :
    TaskProg (Option (TaskResponse × UserId × TaskStatus)) := do
  let query ← execute (.selectOwnerStatus taskId)
  match fetchone query with
  | none => pure none
  | some result =>
      let userId := result.userId
      let currentStatus := result.status
      if currentStatus = .pending then
        Prog.effect (.execute (.cancelTask taskId))
      let task ← reselectTask taskId
      pure (some (task, userId, currentStatus))

/-- `TaskRepository.update_task`. -/
def updateTask (taskId : UUID) (url : String) (method : HttpMethod)
    (headers : Option Headers) (body : Option String) :
    TaskProg (Option (TaskResponse × UserId × TaskStatus)) := do
  let query ← execute (.selectOwnerStatus taskId)
  match fetchone query with
  | none => pure none
  | some result =>
      let userId := result.userId
      let currentStatus := result.status
      Prog.effect (.execute (.updateTask taskId url method headers body))
      let task ← reselectTask taskId
      Prog.tryCatch
        (if currentStatus ≠ task.status then
          Prog.effect (.redisPublish task.id task.status)
        else pure ())
        (fun _ => pure ())
      pure (some (task, userId, currentStatus))

/-- `TaskRepository.confirm_rmq_task`. -/
def confirmRmqTask (id : UUID) : TaskProg Unit := do
  Prog.effect (.execute (.confirmTask id))
  Prog.effect .commit

end Repository

section Domain

/-- `create_request_task`. -/
def createRequestTask (userId : UserId) (taskData : TaskCreate) : TaskProg TaskResponse := do
  let task ← createTask userId taskData.url.str taskData.method taskData.headers
    taskData.body taskData.maxAttempts .beforeRmq
  Prog.effect .commit
  publishTask ⟨task.id⟩ task.maxAttempts
  confirmRmqTask task.id
  Prog.effect .commit
  Prog.effect (.inc .tasksCreatedTotal 1)
  pure task

/-- The loop over the created tasks of `create_request_tasks_batch`. -/
def publishAll : List TaskResponse → TaskProg Unit
  | [] => pure ()
  | task :: rest => do
      publishTask ⟨task.id⟩ task.maxAttempts
      publishAll rest

/-- `create_request_tasks_batch`. -/
def createRequestTasksBatch (userId : UserId) (tasksData : List TaskCreate) :
    TaskProg (List TaskResponse) :=
  if tasksData.length = 0 then
    .raise (.valueError "At least one task must be provided.")
  else do
    let tasks ← createTasksBatch userId tasksData
    publishAll tasks
    Prog.effect (.inc .tasksCreatedTotal tasks.length)
    pure tasks

/-- `get_request_task`. -/
def getRequestTask (taskId : UUID) (userId : UserId) : TaskProg TaskResponse := do
  match ← getTaskById taskId with
  | none => .raise (.taskNotFoundError taskId)
  | some (task, taskUserId) =>
      if taskUserId ≠ userId then .raise (.accessDeniedError taskId)
      else pure task

/-- `get_user_request_tasks`. -/
def getUserRequestTasks (userId : UserId) (skip limit : Nat) : TaskProg (List TaskResponse) :=
  getUserTasks userId skip limit

/-- The text of `InvalidTaskStatusError`. -/
def invalidStatusText (past : String) (currentStatus : TaskStatus) : String :=
  "Task cannot be " ++ past ++ ". Current status: " ++ currentStatus.text ++
    ". Only pending tasks can be " ++ past ++ "."

/-- `cancel_request_task`. -/
def cancelRequestTask (taskId : UUID) (userId : UserId) : TaskProg TaskResponse := do
  match ← cancelTask taskId with
  | none => .raise (.taskNotFoundError taskId)
  | some (task, taskUserId, currentStatus) =>
      if taskUserId ≠ userId then .raise (.accessDeniedError taskId)
      else if currentStatus ≠ .pending then
        .raise (.invalidTaskStatusError (invalidStatusText "canceled" currentStatus))
      else do
        Prog.effect (.inc (.tasksCompletedTotal .canceled) 1)
        pure task

/-- `update_request_task`. -/
def updateRequestTask (taskId : UUID) (userId : UserId) (taskData : TaskUpdate) :
    TaskProg TaskResponse := do
  match ← updateTask taskId taskData.url.str taskData.method taskData.headers taskData.body with
  | none => .raise (.taskNotFoundError taskId)
  | some (task, taskUserId, currentStatus) =>
      if taskUserId ≠ userId then .raise (.accessDeniedError taskId)
      else if currentStatus ≠ .pending then
        .raise (.invalidTaskStatusError (invalidStatusText "updated" currentStatus))
      else pure task

end Domain

section Api

/-- The `except` clauses that the endpoints on one task share. -/
def taskErrors : Exc → Exc
  | .taskNotFoundError _ => .httpException 404 "Task not found"
  | .accessDeniedError _ => .httpException 403 "Access denied"
  | .invalidTaskStatusError text => .httpException 400 text
  | e => e

/-- `request_create`. -/
def requestCreate (taskData : TaskCreate) (user : UserId) : TaskProg Response := do
  let task ← Prog.tryCatch (createRequestTask user taskData)
    (fun exc => .raise (.httpException 500 exc.str))
  pure (.task task)

/-- `request_info`. -/
def requestInfo (taskId : UUID) (user : UserId) : TaskProg Response := do
  let task ← Prog.tryCatch (getRequestTask taskId user) (fun exc => .raise (taskErrors exc))
  pure (.task task)

/-- `request_user_tasks`. -/
def requestUserTasks (user : UserId) (skip limit : Nat) : TaskProg Response := do
  let tasks ← getUserRequestTasks user skip limit
  pure (.tasks tasks)

/-- `request_delete`. -/
def requestDelete (taskId : UUID) (user : UserId) : TaskProg Response := do
  let task ← Prog.tryCatch (cancelRequestTask taskId user) (fun exc => .raise (taskErrors exc))
  pure (.task task)

/-- `request_update`. -/
def requestUpdate (taskId : UUID) (taskData : TaskUpdate) (user : UserId) :
    TaskProg Response := do
  let task ← Prog.tryCatch (updateRequestTask taskId user taskData)
    (fun exc => .raise (taskErrors exc))
  pure (.task task)

/--
What `request_delete` and `request_update` have in common after their
repository function `p`; the rest of the domain function is `rest`.
-/
def answerWritten (taskId : UUID) (user : UserId) (past : String)
    (p : TaskProg (Option (TaskResponse × UserId × TaskStatus)))
    (rest : TaskResponse → TaskProg TaskResponse) : TaskProg Response := do
  let task ← Prog.tryCatch
    (do
      match ← p with
      | none => .raise (.taskNotFoundError taskId)
      | some (task, taskUserId, currentStatus) =>
          if taskUserId ≠ user then .raise (.accessDeniedError taskId)
          else if currentStatus ≠ .pending then
            .raise (.invalidTaskStatusError (invalidStatusText past currentStatus))
          else rest task)
    (fun exc => .raise (taskErrors exc))
  pure (.task task)

theorem requestDelete_eq (taskId : UUID) (user : UserId) :
    requestDelete taskId user =
      answerWritten taskId user "canceled" (cancelTask taskId) (fun task => do
        Prog.effect (.inc (.tasksCompletedTotal .canceled) 1)
        pure task) := by
  rfl

theorem requestUpdate_eq (taskId : UUID) (taskData : TaskUpdate) (user : UserId) :
    requestUpdate taskId taskData user =
      answerWritten taskId user "updated"
        (updateTask taskId taskData.url.str taskData.method taskData.headers taskData.body)
        pure := by
  rfl

/-- `request_create_batch`. -/
def requestCreateBatch (tasksData : List TaskCreate) (user : UserId) : TaskProg Response := do
  let tasks ← Prog.tryCatch (createRequestTasksBatch user tasksData)
    (fun exc =>
      if exc.isValueError then .raise (.httpException 400 exc.str)
      else .raise (.httpException 500 exc.str))
  pure (.tasks tasks)

/-- `get_db` around a handler. -/
def getDb (handler : TaskProg Response) : TaskProg Response :=
  Prog.tryFinally
    (Prog.tryCatch
      (do
        let response ← handler
        Prog.effect (.respond response)
        Prog.effect .commit
        pure response)
      (fun exc => do
        Prog.effect .rollback
        .raise exc))
    (Prog.effect .close)

/-- An authenticated request to `/v1/requests`. -/
inductive TaskRequest
  | create (user : UserId) (taskData : TaskCreate)
  | createBatch (user : UserId) (tasksData : List TaskCreate)
  | info (user : UserId) (taskId : UUID)
  | userTasks (user : UserId) (skip limit : Nat)
  | delete (user : UserId) (taskId : UUID)
  | update (user : UserId) (taskId : UUID) (taskData : TaskUpdate)

/-- The user who makes the request. -/
def TaskRequest.user : TaskRequest → UserId
  | .create user _ => user
  | .createBatch user _ => user
  | .info user _ => user
  | .userTasks user _ _ => user
  | .delete user _ => user
  | .update user _ _ => user

/-- The endpoint of the request. -/
def TaskRequest.handler : TaskRequest → TaskProg Response
  | .create user taskData => requestCreate taskData user
  | .createBatch user tasksData => requestCreateBatch tasksData user
  | .info user taskId => requestInfo taskId user
  | .userTasks user skip limit => requestUserTasks user skip limit
  | .delete user taskId => requestDelete taskId user
  | .update user taskId taskData => requestUpdate taskId taskData user

/-- What the server does for the request. -/
def TaskRequest.program (req : TaskRequest) : TaskProg Response :=
  getDb req.handler

end Api

end TaskPrograms

end SmartHttpRequester
