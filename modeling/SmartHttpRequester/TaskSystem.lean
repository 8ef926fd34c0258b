import SmartHttpRequester.Foundations.Interleaving
import SmartHttpRequester.Foundations.ReadCommitted
import SmartHttpRequester.TaskPrograms

/-!
# The running system

Any number of requests run interleaved, one awaited call at a time, against one
world: the `tasks` table under READ COMMITTED, the broker with the declared
topology, the counters and the clock.

The choices of a step are part of its label: the values of `gen_random_uuid()`,
the order in which PostgreSQL lists rows, and whether the call fails, before or
after it took effect.  Whether a driver takes the values a statement binds is
one more reason for a call to fail; a step may fail for any reason.  A request
may be abandoned before any of its calls (`Label.kill`): its process died, or
its task was cancelled.  Its transaction is then rolled back by the server.
-/

namespace SmartHttpRequester

open Foundations Function

section TaskSystem

inductive TgOp
  | INSERT
  | UPDATE
deriving DecidableEq

structure Notice where
  taskId : UUID
  status : TaskStatus
  operation : TgOp
deriving DecidableEq

/-- `notify_task_status_change` of `migrations/0003_task_notify_trigger.sql`. -/
def notifyTaskStatusChange (old : Option TaskRow) (new : TaskRow) : List Notice :=
  match old with
  | none => [⟨new.id, new.status, .INSERT⟩]
  | some row => if new.status ≠ row.status then [⟨new.id, new.status, .UPDATE⟩] else []

/-- What the requests share.  `ι` names the requests. -/
structure World (ι : Type) where
  tasks : Table ι UUID TaskRow
  /-- `NOW()` of the transaction a request has open -/
  started : ι → Option Timestamp
  /-- notifications a request's transaction has raised -/
  notices : ι → List Notice
  notified : List Notice
  clock : Timestamp
  broker : BrokerState String TaskMessage
  redis : List (UUID × TaskStatus)
  tasksCreatedTotal : Nat
  tasksCompletedTotal : TaskStatus → Nat

/-- A failing call: with what text, and whether as a `ValueError`. -/
structure Failure where
  text : String
  valueError : Bool

def Failure.exc (f : Failure) : Exc :=
  if f.valueError then .valueError f.text else .external f.text

/-- Whether a call fails, and if so before or after it took effect. -/
inductive Fault
  | none
  | before (f : Failure)
  | after (f : Failure)

structure Choice where
  fault : Fault := .none
  /-- values of `gen_random_uuid()` -/
  ids : List UUID := []
  /-- order in which a listing finds the rows -/
  order : List UUID := []

inductive EnvAction
  | tick (d : Nat)
  | broker (a : BrokerAction String)

variable {ι : Type} [DecidableEq ι]

namespace World

def begin (i : ι) (w : World ι) : World ι :=
  { w with started := update w.started i (some ((w.started i).getD w.clock)) }

/-- `NOW()`. -/
def now (i : ι) (w : World ι) : Timestamp :=
  (w.started i).getD w.clock

/-- COMMIT: versions and notifications become visible. -/
def commit (i : ι) (w : World ι) : World ι :=
  { w with
    tasks := w.tasks.commit i
    started := update w.started i none
    notices := update w.notices i []
    notified := w.notified ++ w.notices i }

/-- ROLLBACK. -/
def rollback (i : ι) (w : World ι) : World ι :=
  { w with
    tasks := w.tasks.rollback i
    started := update w.started i none
    notices := update w.notices i [] }

end World

def NewTask.toRow (createdAt : Timestamp) (id : UUID) (t : NewTask) : TaskRow where
  id := id
  userId := t.userId
  url := t.url
  method := t.method
  headers := t.headers
  body := t.body
  status := t.status
  attemptCount := t.attemptCount
  maxAttempts := t.maxAttempts
  result := none
  createdAt := createdAt
  updatedAt := none

/-- `SET status = 'canceled', updated_at = NOW()`. -/
def setCanceled (now : Timestamp) (row : TaskRow) : Option TaskRow :=
  some { row with status := .canceled, updatedAt := some now }

/-- `SET url = :url, ..., updated_at = NOW()`. -/
def setData (url : String) (method : HttpMethod) (headers : Option Headers)
    (body : Option String) (now : Timestamp) (row : TaskRow) : Option TaskRow :=
  some
    { row with
      url := url
      method := method
      headers := headers
      body := body
      updatedAt := some now }

/-- `set status = 'pending' where status = 'BEFORE RMQ'`. -/
def setPending (row : TaskRow) : Option TaskRow :=
  if row.status = .beforeRmq then some { row with status := .pending } else none

/-- `COALESCE(updated_at, created_at)`. -/
def TaskRow.modifiedAt (row : TaskRow) : Timestamp :=
  row.updatedAt.getD row.createdAt

/-- A page of the user's rows, from the rows in the order they are found. -/
def userPage (userId : UserId) (skip limit : Nat) (rows : List TaskRow) : List TaskRow :=
  (((rows.filter fun row => row.userId = userId).insertionSort
    fun a b => b.modifiedAt ≤ a.modifiedAt).drop skip).take limit

abbrev Reply := Except Exc (List TaskRow)

/-- An UPDATE of one row; the trigger sees the version before and after. -/
def updateRow (i : ι) (taskId : UUID) (f : TaskRow → Option TaskRow) (w : World ι) :
    Option (Reply × World ι) :=
  (w.tasks.modify i taskId f).map fun t =>
    (.ok [],
      { w with
        tasks := t
        notices := update w.notices i (w.notices i ++
          match ((w.tasks.slot taskId).visible i).bind f with
          | some new => notifyTaskStatusChange ((w.tasks.slot taskId).visible i) new
          | none => []) })

def insertRows (i : ι) (rows : List TaskRow) (w : World ι) : Option (Reply × World ι) :=
  (w.tasks.insertAll i (rows.map fun row => (row.id, row))).map fun t =>
    (.ok rows,
      { w with
        tasks := t
        notices := update w.notices i
          (w.notices i ++ rows.flatMap (notifyTaskStatusChange none)) })

/-- A statement inside an open transaction. -/
def runStmt (i : ι) (c : Choice) (s : Stmt) (w : World ι) : Option (Reply × World ι) :=
  match s with
  | .insertTasks rows bindparams =>
      match rows.mapM (InsertRow.eval bindparams) with
      | none => some (.error (.external "invalid input for query argument"), w)
      | some news =>
          if c.ids.length = news.length then
            insertRows i (List.zipWith (NewTask.toRow (w.now i)) c.ids news) w
          else none
  | .selectOwnerStatus taskId | .selectTask taskId =>
      some (.ok ((w.tasks.slot taskId).visible i).toList, w)
  | .selectUserTasks userId skip limit =>
      if c.order.Perm w.tasks.keys then
        some (.ok (userPage userId skip limit (w.tasks.rows i c.order)), w)
      else none
  | .cancelTask taskId => updateRow i taskId (setCanceled (w.now i)) w
  | .updateTask taskId url method headers body =>
      updateRow i taskId (setData url method headers body (w.now i)) w
  | .confirmTask taskId => updateRow i taskId setPending w

/-- `counter.inc(amount)`. -/
def World.inc (counter : TaskCounter) (amount : Nat) (w : World ι) : World ι :=
  match counter with
  | .tasksCreatedTotal => { w with tasksCreatedTotal := w.tasksCreatedTotal + amount }
  | .tasksCompletedTotal status =>
      { w with
        tasksCompletedTotal :=
          update w.tasksCompletedTotal status (w.tasksCompletedTotal status + amount) }

/-- The effect of a call that goes through; `none` if it waits for a row lock. -/
def runOp (i : ι) (c : Choice) (o : TaskOp) (w : World ι) : Option (Reply × World ι) :=
  match o with
  | .execute s => runStmt i c s (w.begin i)
  | .commit => some (.ok [], w.commit i)
  | .rollback | .close => some (.ok [], w.rollback i)
  | .basicPublish exchange routingKey message =>
      some (.ok [],
        { w with
          broker := setupRabbitmqWithRetries.publish exchange routingKey message w.broker })
  | .redisPublish taskId status => some (.ok [], { w with redis := w.redis ++ [(taskId, status)] })
  | .inc counter amount => some (.ok [], w.inc counter amount)
  | .openChannel | .declareExchange _ _ | .closeChannel | .respond _ => some (.ok [], w)

/-- What is left of a call that fails before it took effect. -/
def lostOp (i : ι) (o : TaskOp) (w : World ι) : World ι :=
  match o with
  -- the connection is gone, so the server rolls the transaction back
  | .rollback | .close => w.rollback i
  | _ => w

/-- Counters live in the process; all other calls leave it. -/
def TaskOp.isLocal : TaskOp → Bool
  | .inc _ _ => true
  | _ => false

/-- One call of a request.  A local call does not fail. -/
def callOp (i : ι) (c : Choice) (o : TaskOp) (w : World ι) : Option (Reply × World ι) :=
  match c.fault with
  | .none => runOp i c o w
  | .before f => if o.isLocal then none else some (.error f.exc, lostOp i o w)
  | .after f =>
      if o.isLocal then none else (runOp i c o w).map fun rw => (.error f.exc, rw.2)

def envStep (a : EnvAction) (w : World ι) : Option (World ι) :=
  match a with
  | .tick d => some { w with clock := w.clock + d }
  | .broker a => (setupRabbitmqWithRetries.act w.broker a).map fun b => { w with broker := b }

/-- The task system as a machine for the request programs. -/
def taskMachine (ι : Type) [DecidableEq ι] :
    Machine ι Choice EnvAction TaskOp (List TaskRow) Exc (World ι) where
  exec := callOp
  env := envStep
  kill := World.rollback
  killed := .cancelledError

abbrev TaskConfig (ι : Type) := Config ι TaskOp (List TaskRow) Exc Response (World ι)

abbrev TaskLabel (ι : Type) := Label ι Choice EnvAction

/-- No request has begun: nothing is uncommitted and no transaction is open. -/
structure World.Quiet (w : World ι) : Prop where
  pending : ∀ id, (w.tasks.slot id).pending = none
  started : ∀ i, w.started i = none
  notices : ∀ i, w.notices i = []

def worldOf (ι : Type) (rows : List TaskRow) : World ι where
  tasks :=
    { slot := fun id => ⟨rows.find? fun row => row.id = id, none⟩
      keys := (rows.map TaskRow.id).dedup
      nodup := List.nodup_dedup _
      support := by
        intro id hid
        have hnone : rows.find? (fun row => row.id = id) = none := by
          simpa [List.find?_eq_none] using hid
        simp [hnone, Slot.empty] }
  started := fun _ => none
  notices := fun _ => []
  notified := []
  clock := 0
  broker := BrokerState.empty
  redis := []
  tasksCreatedTotal := 0
  tasksCompletedTotal := fun _ => 0

omit [DecidableEq ι] in
theorem worldOf_quiet (rows : List TaskRow) : (worldOf ι rows).Quiet where
  pending _ := rfl
  started _ := rfl
  notices _ := rfl

/-- The version of a task every request can see. -/
def committedTask (s : TaskConfig ι) (id : UUID) : Option TaskRow :=
  s.world.tasks.committed id

def startTasks [UrlValidator] (w : World ι) (reqs : ι → TaskRequest) : TaskConfig ι :=
  Machine.start w fun i => (reqs i).program

section Sample

/-- A validator that knows one URL, which is its own canonical text. -/
abbrev sampleUrls : UrlValidator where
  validate text := if text = "https://example.com/" then some ⟨text⟩ else none
  errorText _ := "1 validation error for TaskResponse"

def samplePending : TaskRow where
  id := 7
  userId := 1
  url := "https://example.com/"
  method := .GET
  headers := none
  body := none
  status := .pending
  attemptCount := 0
  maxAttempts := 5
  result := none
  createdAt := 0
  updatedAt := none

/-- A step in which request `i` makes its next call, and nothing fails. -/
def callOf (i : ι) : TaskLabel ι :=
  .op i {}

/-- The calls of two requests; `true` is a turn of the second. -/
def turns (order : List Bool) : List (TaskLabel (Fin 2)) :=
  order.map fun second => callOf (if second then 1 else 0)

def sampleEdit (user : UserId) : TaskRequest :=
  .update user 7 { url := ⟨"https://example.com/"⟩, method := .POST }

def sampleDelete : TaskRequest :=
  .delete 1 7

def sampleTask : TaskCreate where
  url := ⟨"https://example.com/"⟩
  maxAttempts_le := by decide

/-- A step in which request `i` inserts rows with the given ids. -/
def insertOf (i : ι) (ids : List UUID) : TaskLabel ι :=
  .op i { ids := ids }

/-- The response that a call hands over. -/
def TaskOp.response? : TaskOp → Option Response
  | .respond r => some r
  | _ => none

/-- A request about to hand over a response. -/
theorem next?_of_response? {p : TaskProg Response} {r : Response}
    (h : p.next?.bind TaskOp.response? = some r) :
    p.next? = some (.respond r) := by
  obtain ⟨o, hnext, ho⟩ := Option.bind_eq_some_iff.1 h
  rw [hnext]
  cases o <;> cases ho
  rfl

/-- The statuses a response shows. -/
def Response.statuses : Response → List TaskStatus
  | .task shown => [shown.status]
  | .tasks shown => shown.map TaskResponse.status

/-- The schedule of a single creation from the INSERT to the end of the session. -/
def singleSchedule : List (TaskLabel (Fin 1)) :=
  insertOf 0 [3] :: List.replicate 12 (callOf 0)

end Sample

end TaskSystem

end SmartHttpRequester
