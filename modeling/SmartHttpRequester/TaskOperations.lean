import SmartHttpRequester.Foundations.ProgramTree
import SmartHttpRequester.RabbitTopology

/-!
# Operations of the task programs

What the task code does to the outside: SQL statements in a session, commit and
rollback, AMQP calls, the Redis channel, counters, and the HTTP response.  Each
is one awaited call of the source, so between any two of them other requests
may run.

The INSERT of the batch path is built in a loop from numbered parameter names;
statements therefore carry their VALUES rows and bind parameters as the source
builds them, and are evaluated by looking the names up.
-/

namespace SmartHttpRequester

open Foundations

section TaskOperations

/-- Python values that are bound to parameters.  `url` is not a `str`. -/
inductive PyValue
  | none
  | int (n : Int)
  | str (s : String)
  | url (u : HttpUrl)
  | method (m : HttpMethod)
  | status (s : TaskStatus)
  | dict (d : Headers)
deriving DecidableEq

inductive SqlType
  | Integer
  | TEXT
  | JSONB
deriving DecidableEq

/-- `BindParameter(name, value, type)`. -/
structure BindParameter where
  name : String
  value : PyValue
  type : SqlType
deriving DecidableEq

inductive SqlExpr
  | param (name : String)
  | literal (v : PyValue)
deriving DecidableEq

/-- One VALUES row of an INSERT into `tasks`. -/
structure InsertRow where
  userId : SqlExpr
  url : SqlExpr
  method : SqlExpr
  headers : SqlExpr
  body : SqlExpr
  maxAttempts : SqlExpr
  status : SqlExpr
  attemptCount : SqlExpr
deriving DecidableEq

structure NewTask where
  userId : UserId
  url : String
  method : HttpMethod
  headers : Option Headers
  body : Option String
  maxAttempts : Int
  status : TaskStatus
  attemptCount : Int
deriving DecidableEq

def SqlExpr.eval (bindparams : List BindParameter) : SqlExpr → Option PyValue
  | .param name => (bindparams.find? fun p => p.name = name).map BindParameter.value
  | .literal v => some v

def PyValue.asInt : PyValue → Option Int
  | .int n => some n
  | _ => Option.none

/-- Text of a value in a TEXT column; whether the driver takes it is another matter. -/
def PyValue.asText : PyValue → Option String
  | .str s => some s
  | .url u => some u.str
  | _ => Option.none

def PyValue.asNullableText : PyValue → Option (Option String)
  | .none => some Option.none
  | v => v.asText.map some

def PyValue.asMethod : PyValue → Option HttpMethod
  | .method m => some m
  | _ => Option.none

def PyValue.asStatus : PyValue → Option TaskStatus
  | .status s => some s
  | _ => Option.none

def PyValue.asJson : PyValue → Option (Option Headers)
  | .none => some Option.none
  | .dict d => some (some d)
  | _ => Option.none

/-- Value of an expression as what its column holds. -/
def SqlExpr.evalAs {α : Type} (bindparams : List BindParameter) (column : PyValue → Option α)
    (e : SqlExpr) : Option α :=
  (e.eval bindparams).bind column

def InsertRow.eval (bindparams : List BindParameter) (row : InsertRow) : Option NewTask := do
  let userId ← row.userId.evalAs bindparams PyValue.asInt
  let url ← row.url.evalAs bindparams PyValue.asText
  let method ← row.method.evalAs bindparams PyValue.asMethod
  let headers ← row.headers.evalAs bindparams PyValue.asJson
  let body ← row.body.evalAs bindparams PyValue.asNullableText
  let maxAttempts ← row.maxAttempts.evalAs bindparams PyValue.asInt
  let status ← row.status.evalAs bindparams PyValue.asStatus
  let attemptCount ← row.attemptCount.evalAs bindparams PyValue.asInt
  return { userId, url, method, headers, body, maxAttempts, status, attemptCount }

/-- A row evaluates to a task if and only if each of its columns evaluates to the task's. -/
theorem InsertRow.eval_eq_some {bindparams : List BindParameter} {row : InsertRow} {t : NewTask} :
    row.eval bindparams = some t ↔
      row.userId.evalAs bindparams PyValue.asInt = some t.userId ∧
      row.url.evalAs bindparams PyValue.asText = some t.url ∧
      row.method.evalAs bindparams PyValue.asMethod = some t.method ∧
      row.headers.evalAs bindparams PyValue.asJson = some t.headers ∧
      row.body.evalAs bindparams PyValue.asNullableText = some t.body ∧
      row.maxAttempts.evalAs bindparams PyValue.asInt = some t.maxAttempts ∧
      row.status.evalAs bindparams PyValue.asStatus = some t.status ∧
      row.attemptCount.evalAs bindparams PyValue.asInt = some t.attemptCount := by
  simp only [InsertRow.eval, Option.bind_eq_bind, Option.bind_eq_some_iff, Option.pure_def]
  constructor
  · rintro ⟨userId, hu, url, hurl, method, hm, headers, hh, body, hb, maxAttempts, hx,
      status, hs, attemptCount, ha, ht⟩
    cases ht
    exact ⟨hu, hurl, hm, hh, hb, hx, hs, ha⟩
  · rintro ⟨hu, hurl, hm, hh, hb, hx, hs, ha⟩
    exact ⟨_, hu, _, hurl, _, hm, _, hh, _, hb, _, hx, _, hs, _, ha, rfl⟩

/-- A list evaluates if each of its elements does. -/
theorem mapM_eq_some_iff {α β : Type} {f : α → Option β} {l : List α} {l' : List β} :
    l.mapM f = some l' ↔ l.map f = l'.map some := by
  induction l generalizing l' with
  | nil =>
      cases l' <;> simp
  | cons a l ih =>
      simp only [List.mapM_cons, Option.pure_def, Option.bind_eq_bind, Option.bind_eq_some_iff,
        Option.some.injEq, ih, List.map_cons]
      constructor
      · rintro ⟨b, hb, bs, hbs, rfl⟩
        simp [hb, hbs]
      · intro h
        cases l' with
        | nil => cases h
        | cons b bs => exact ⟨b, (List.cons.inj h).1, bs, (List.cons.inj h).2, rfl⟩

/-- The SQL statements of `repository/task.py`. -/
inductive Stmt
  /-- `INSERT INTO tasks (...) VALUES rows RETURNING ...` -/
  | insertTasks (rows : List InsertRow) (bindparams : List BindParameter)
  /-- `SELECT user_id, status FROM tasks WHERE id = :task_id` -/
  | selectOwnerStatus (taskId : UUID)
  /-- `SELECT id, user_id, ... FROM tasks WHERE id = :task_id` -/
  | selectTask (taskId : UUID)
  /-- `... WHERE user_id = :user_id ORDER BY ... LIMIT :limit OFFSET :skip` -/
  | selectUserTasks (userId : UserId) (skip limit : Nat)
  /-- `UPDATE tasks SET status = 'canceled', updated_at = NOW() WHERE id = :task_id` -/
  | cancelTask (taskId : UUID)
  /-- `UPDATE tasks SET url = :url, ..., updated_at = NOW() WHERE id = :task_id` -/
  | updateTask (taskId : UUID) (url : String) (method : HttpMethod)
      (headers : Option Headers) (body : Option String)
  /-- `update tasks set status = 'pending' where id=:id and status = 'BEFORE RMQ'` -/
  | confirmTask (taskId : UUID)
deriving DecidableEq

/-- Counters of `services/metrics.py` that the task code increments. -/
inductive TaskCounter
  | tasksCreatedTotal
  | tasksCompletedTotal (status : TaskStatus)
deriving DecidableEq

inductive Response
  | task (task : TaskResponse)
  | tasks (tasks : List TaskResponse)
deriving DecidableEq

/-- One awaited call of the task code. -/
inductive TaskOp
  | execute (s : Stmt)
  | commit
  | rollback
  | close
  | openChannel
  | declareExchange (name : String) (durable : Bool)
  | basicPublish (exchange routingKey : String) (message : TaskMessage)
  | closeChannel
  | redisPublish (taskId : UUID) (status : TaskStatus)
  | inc (counter : TaskCounter) (amount : Nat)
  | respond (r : Response)
deriving DecidableEq

inductive Exc
  | taskNotFoundError (taskId : UUID)
  | accessDeniedError (taskId : UUID)
  | invalidTaskStatusError (text : String)
  | valueError (text : String)
  /-- pydantic's, a subclass of `ValueError` -/
  | validationError (text : String)
  | attributeError (text : String)
  /-- of a driver or the network -/
  | external (text : String)
  | httpException (statusCode : Nat) (detail : String)
  /-- not an `Exception`: the process died or the task was cancelled -/
  | cancelledError
deriving DecidableEq

/-- `isinstance(exc, ValueError)`. -/
def Exc.isValueError : Exc → Bool
  | .valueError _ => true
  | .validationError _ => true
  | _ => false

/-- `str(exc)`, for the exceptions whose text reaches a response. -/
def Exc.str : Exc → String
  | .invalidTaskStatusError text => text
  | .valueError text => text
  | .validationError text => text
  | .attributeError text => text
  | .external text => text
  | _ => ""

/-- A coroutine of the task code: an operation is answered by rows. -/
abbrev TaskProg := Prog TaskOp (List TaskRow) Exc

/-- `await session.execute(stmt)`. -/
def execute (s : Stmt) : TaskProg (List TaskRow) :=
  Prog.perform (.execute s)

/-- What pydantic says of a row that does not validate. -/
def TaskRow.errorText [UrlValidator] (row : TaskRow) : String :=
  UrlValidator.errorText (some row.url)

/-- `TaskResponse.model_validate(raw_task)`. -/
def modelValidate [UrlValidator] (row : TaskRow) : TaskProg TaskResponse :=
  match TaskResponse.modelValidate row with
  | some task => pure task
  | none => .raise (.validationError row.errorText)

/-- `publish_task`. -/
def publishTask (payload : TaskPayload) (attempts : Int) : TaskProg Unit := do
  Prog.effect .openChannel
  Prog.tryFinally
    (do
      Prog.effect (.declareExchange TASK_EXCHANGE true)
      Prog.effect (.basicPublish TASK_EXCHANGE TASK_QUEUE (taskMessage payload attempts)))
    (Prog.effect .closeChannel)

end TaskOperations

end SmartHttpRequester
