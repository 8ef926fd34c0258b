import SmartHttpRequester.TaskSystem

/-!
# What a request may do

The monitor of one request remembers what the request has read, written and
published so far, and says which calls are in order at that point: an UPDATE
only of the row that was read first, a commit only once owner and status have
been checked, a publish only of a task the request has inserted, and so on.

`TaskRequest.disciplined`: the program of every request keeps to this, whatever
its calls answer.  Nothing here looks at the tables; what the discipline means
for them is the subject of the modules that follow.
-/

namespace SmartHttpRequester

open Foundations

section TaskDiscipline

inductive RowWrite
  | cancel (taskId : UUID)
  | data (taskId : UUID)
  | confirm (taskId : UUID)
deriving DecidableEq

/-- What a request has done so far. -/
structure TaskGhost where
  /-- the row its first SELECT by id returned -/
  found : Option (UUID × TaskRow) := none
  /-- ids of rows inserted and not yet committed -/
  own : List UUID := []
  /-- ids of rows inserted and committed -/
  durable : List UUID := []
  /-- UPDATE not yet committed -/
  wrote : Option RowWrite := none
  /-- an UPDATE was sent at some time -/
  sent : Bool := false
  /-- the UPDATE on record succeeded -/
  applied : Bool := false
  /-- a cancellation was counted -/
  counted : Bool := false
  /-- a COMMIT was attempted -/
  attempted : Bool := false
  /-- a call failed after the cancellation was counted -/
  failed : Bool := false
  /-- the response was handed over -/
  responded : Bool := false

namespace TaskGhost

/-- A SELECT by id returned rows; only the first such SELECT counts. -/
def find (g : TaskGhost) (taskId : UUID) (rows : List TaskRow) : TaskGhost :=
  { g with found := g.found.or ((fetchone rows).map fun row => (taskId, row)) }

def fail (g : TaskGhost) : TaskGhost :=
  { g with failed := g.failed || g.counted }

/-- The open transaction has ended without a commit. -/
def dropped (g : TaskGhost) : TaskGhost :=
  { g with own := [], wrote := none }

def write (g : TaskGhost) (w : RowWrite) (applied : Bool) : TaskGhost :=
  { g with wrote := some w, sent := true, applied := applied }

def read (g : TaskGhost) (rows : List TaskRow) : Stmt → TaskGhost
  | .insertTasks _ _ => { g with own := g.own ++ rows.map TaskRow.id }
  | .selectOwnerStatus taskId => g.find taskId rows
  | .selectTask taskId => g.find taskId rows
  | .selectUserTasks _ _ _ => g
  | .cancelTask taskId => g.write (.cancel taskId) true
  | .updateTask taskId _ _ _ _ => g.write (.data taskId) true
  | .confirmTask taskId => g.write (.confirm taskId) true

def succeed (g : TaskGhost) (rows : List TaskRow) : TaskOp → TaskGhost
  | .execute s => g.read rows s
  | .commit =>
      { g with
        durable := g.durable ++ g.own
        own := []
        wrote := none
        attempted := true }
  | .rollback => g.dropped
  | .close => g.dropped
  | .inc .tasksCreatedTotal _ => g
  | .inc (.tasksCompletedTotal _) _ => { g with counted := true }
  | .respond _ => { g with responded := true }
  | .openChannel => g
  | .declareExchange _ _ => g
  | .basicPublish _ _ _ => g
  | .closeChannel => g
  | .redisPublish _ _ => g

/-- A statement failed; it may or may not have taken effect. -/
def unsure (g : TaskGhost) : Stmt → TaskGhost
  | .insertTasks _ _ => g
  | .selectOwnerStatus _ => g
  | .selectTask _ => g
  | .selectUserTasks _ _ _ => g
  | .cancelTask taskId => g.write (.cancel taskId) false
  | .updateTask taskId _ _ _ _ => g.write (.data taskId) false
  | .confirmTask taskId => g.write (.confirm taskId) false

/-- The effect of a call that failed: it may or may not have taken effect. -/
def falter (g : TaskGhost) : TaskOp → TaskGhost
  | .execute s => g.fail.unsure s
  | .commit => { g.fail with own := [], applied := false, attempted := true }
  | .rollback => g.fail.dropped
  | .close => g.fail.dropped
  | .respond _ => { g.fail with responded := true }
  | .inc _ _ => g.fail
  | .openChannel => g.fail
  | .declareExchange _ _ => g.fail
  | .basicPublish _ _ _ => g.fail
  | .closeChannel => g.fail
  | .redisPublish _ _ => g.fail

/-- The ghost after one answered call. -/
def next (g : TaskGhost) (o : TaskOp) : Except Exc (List TaskRow) → TaskGhost
  | .ok rows => g.succeed rows o
  | .error _ => g.falter o

end TaskGhost

def TaskRequest.Creates : TaskRequest → Prop
  | .create _ _ => True
  | .createBatch _ _ => True
  | _ => False

def TaskRequest.Cancels (taskId : UUID) : TaskRequest → Prop
  | .delete _ id => id = taskId
  | _ => False

def TaskRequest.Edits (taskId : UUID) : TaskRequest → Prop
  | .update _ id _ => id = taskId
  | _ => False

/-- A GET, PUT or DELETE of one task. -/
def TaskRequest.OnTask : TaskRequest → Prop
  | .info _ _ => True
  | .delete _ _ => True
  | .update _ _ _ => True
  | _ => False

def TaskRequest.IsSingle : TaskRequest → Prop
  | .create _ _ => True
  | _ => False

def TaskRequest.IsBatch : TaskRequest → Prop
  | .createBatch _ _ => True
  | _ => False

/-- The row found is the user's own and was pending. -/
def TaskGhost.Entitled (g : TaskGhost) (user : UserId) (taskId : UUID) : Prop :=
  ∃ row, g.found = some (taskId, row) ∧ row.userId = user ∧ row.status = .pending

/-- What may be committed: an UPDATE whose conditions have been checked. -/
def TaskGhost.Settled (g : TaskGhost) (req : TaskRequest) : Prop :=
  match g.wrote with
  | none => True
  | some (.cancel taskId) =>
      g.applied = true ∧ req.Cancels taskId ∧ g.counted = true ∧ g.Entitled req.user taskId
  | some (.data taskId) => g.applied = true ∧ req.Edits taskId ∧ g.Entitled req.user taskId
  | some (.confirm taskId) => g.applied = true ∧ req.IsSingle ∧ taskId ∈ g.durable

/-- The conditions of the UPDATE on record. -/
theorem TaskGhost.Settled.of_wrote {g : TaskGhost} {req : TaskRequest} {u : RowWrite}
    (h : g.Settled req) (hwrote : g.wrote = some u) :
    match u with
    | .cancel taskId =>
        g.applied = true ∧ req.Cancels taskId ∧ g.counted = true ∧ g.Entitled req.user taskId
    | .data taskId => g.applied = true ∧ req.Edits taskId ∧ g.Entitled req.user taskId
    | .confirm taskId => g.applied = true ∧ req.IsSingle ∧ taskId ∈ g.durable := by
  unfold Settled at h
  rw [hwrote] at h
  cases u <;> exact h

/-- A counted cancellation has been brought to a commit, or a call has failed. -/
def TaskGhost.Accounted (g : TaskGhost) : Prop :=
  g.counted = true → g.attempted = true ∨ g.failed = true

structure FirstVersion (req : TaskRequest) (t : NewTask) : Prop where
  userId : t.userId = req.user
  attemptCount : t.attemptCount = 0
  status : t.status = .beforeRmq ∨ t.status = .pending

/-- The calls that are in order. -/
def TaskRequest.Permits (req : TaskRequest) (g : TaskGhost) : TaskOp → Prop
  | .execute (.insertTasks rows bindparams) =>
      req.Creates ∧
      ∀ news, rows.mapM (InsertRow.eval bindparams) = some news →
        ∀ t ∈ news, FirstVersion req t
  | .execute (.selectOwnerStatus _) => req.OnTask ∧ g.wrote = none
  | .execute (.selectTask taskId) =>
      req.OnTask ∧ (g.wrote = none ∨ ∃ row, g.found = some (taskId, row))
  | .execute (.selectUserTasks _ _ _) => True
  | .execute (.cancelTask taskId) =>
      req.Cancels taskId ∧ g.wrote = none ∧ g.sent = false ∧
      ∃ row, g.found = some (taskId, row) ∧ row.status = .pending
  | .execute (.updateTask taskId _ _ _ _) =>
      req.Edits taskId ∧ g.wrote = none ∧ g.sent = false ∧
      ∃ row, g.found = some (taskId, row)
  | .execute (.confirmTask taskId) =>
      req.IsSingle ∧ g.wrote = none ∧ taskId ∈ g.durable
  | .commit => g.Settled req ∧ (req.OnTask → g.attempted = false)
  | .rollback => g.Accounted
  | .close => g.Accounted
  | .basicPublish exchange routingKey message =>
      exchange = TASK_EXCHANGE ∧ routingKey = TASK_QUEUE ∧
      ((req.IsSingle ∧ message.body.taskId ∈ g.durable) ∨
        (req.IsBatch ∧ message.body.taskId ∈ g.own))
  | .inc .tasksCreatedTotal _ => True
  | .inc (.tasksCompletedTotal status) amount =>
      status = .canceled ∧ amount = 1 ∧ g.counted = false ∧ g.attempted = false ∧
      ∃ taskId, req.Cancels taskId ∧ g.wrote = some (.cancel taskId) ∧ g.applied = true ∧
        g.Entitled req.user taskId
  | .respond _ =>
      g.Settled req ∧ (req.OnTask → g.attempted = false) ∧
      (∀ taskId, req.Cancels taskId → g.wrote = some (.cancel taskId)) ∧
      (∀ taskId, req.Edits taskId → g.wrote = some (.data taskId))
  | _ => True

/-- A call fails as a driver or the network makes it fail; a local one does not fail. -/
def Answers (o : TaskOp) : Except Exc (List TaskRow) → Prop
  | .ok _ => True
  | .error e => o.isLocal = false ∧ ∃ f : Failure, e = f.exc

def taskMonitor (req : TaskRequest) : Prog.Monitor TaskOp (List TaskRow) Exc TaskGhost where
  allows := req.Permits
  expects := Answers
  next := TaskGhost.next

/-- How a request ends that was not abandoned. -/
structure TaskRequest.Ends (req : TaskRequest) (r : Except Exc Response) (g : TaskGhost) :
    Prop where
  notAbandoned : r ≠ .error .cancelledError
  refused : req.OnTask → ∀ code detail, r = .error (.httpException code detail) →
    g.attempted = false
  accounted : g.Accounted

theorem Failure.exc_ne_cancelledError (f : Failure) : f.exc ≠ .cancelledError := by
  unfold Failure.exc
  split <;> simp

theorem Failure.exc_ne_httpException (f : Failure) (code : Nat) (detail : String) :
    f.exc ≠ .httpException code detail := by
  unfold Failure.exc
  split <;> simp

theorem taskErrors_ne_cancelledError {e : Exc} (he : e ≠ .cancelledError) :
    taskErrors e ≠ .cancelledError := by
  cases e <;> simp_all [taskErrors]

theorem TaskGhost.fail_eq_self {g : TaskGhost} (h : g.counted = false) :
    g.fail = g := by
  cases g
  simp_all [TaskGhost.fail]

/-- The row of the single INSERT has every column bound to its argument. -/
theorem createTaskRow_eval (userId : UserId) (url : String) (method : HttpMethod)
    (headers : Option Headers) (body : Option String) (maxAttempts : Int) (status : TaskStatus) :
    createTaskRow.eval (createTaskParams userId url method headers body maxAttempts status) =
      some
        { userId := userId
          url := url
          method := method
          headers := headers
          body := body
          maxAttempts := maxAttempts
          status := status
          attemptCount := 0 } := by
  refine InsertRow.eval_eq_some.2 ⟨rfl, rfl, rfl, ?_, ?_, rfl, rfl, rfl⟩
  · cases headers <;> rfl
  · cases body <;> rfl

/-- The rows and parameters that the batch loop appends to what it has. -/
theorem batchLoop_eq (idx : Nat) (tasksData : List TaskCreate)
    (values : List InsertRow) (bindparams : List BindParameter) :
    batchLoop idx tasksData (values, bindparams) =
      (values ++ (List.range' idx tasksData.length).map batchRow,
        bindparams ++
          (tasksData.zipIdx idx).flatMap fun p => batchParams p.2 p.1) := by
  induction tasksData generalizing idx values bindparams with
  | nil =>
      simp [batchLoop]
  | cons task rest ih =>
      simp [batchLoop, ih, List.range'_succ]

/-- A row of the batch INSERT belongs to the requesting user and starts as pending. -/
theorem batchRow_eval {user : UserId} {idx : Nat} {params : List BindParameter} {t : NewTask}
    (h : (batchRow idx).eval (⟨"user_id", .int user, .Integer⟩ :: params) = some t) :
    t.userId = user ∧ t.attemptCount = 0 ∧ t.status = .pending := by
  obtain ⟨hu, -, -, -, -, -, hs, ha⟩ := InsertRow.eval_eq_some.1 h
  exact ⟨(Option.some.inj hu).symm, (Option.some.inj ha).symm, (Option.some.inj hs).symm⟩

theorem mem_of_mapM_eq_some {α β : Type} {f : α → Option β} {l : List α} {l' : List β}
    (h : l.mapM f = some l') {b : β} (hb : b ∈ l') :
    ∃ a ∈ l, f a = some b := by
  have hmem : some b ∈ l.map f := mapM_eq_some_iff.1 h ▸ List.mem_map_of_mem hb
  exact List.mem_map.1 hmem

theorem exists_of_forall₂ {α β : Type} {R : α → β → Prop} {as : List α} {bs : List β}
    (h : List.Forall₂ R as bs) {b : β} (hb : b ∈ bs) :
    ∃ a ∈ as, R a b := by
  induction h with
  | nil =>
      cases hb
  | @cons a b' as bs hab _ ih =>
      rcases List.mem_cons.1 hb with rfl | hb
      · exact ⟨a, List.mem_cons_self .., hab⟩
      · obtain ⟨a', ha', hab'⟩ := ih hb
        exact ⟨a', List.mem_cons_of_mem _ ha', hab'⟩

section Specifications

variable {req : TaskRequest}

/-- Ghost of a request that works on one task and has decided nothing yet. -/
def TaskGhost.working (found : Option (UUID × TaskRow)) (wrote : Option RowWrite) : TaskGhost :=
  { found := found, wrote := wrote, sent := wrote.isSome, applied := wrote.isSome }

/-- An exception of the task code itself, and a ghost that has decided nothing. -/
def Undecided (e : Exc) (g : TaskGhost) : Prop :=
  e ≠ .cancelledError ∧ g.attempted = false ∧ g.counted = false

theorem wp_execute {s : Stmt} {Q : Except Exc (List TaskRow) → TaskGhost → Prop} {g : TaskGhost}
    (hpermits : req.Permits g (.execute s))
    (hok : ∀ rows, Q (.ok rows) (g.read rows s))
    (herr : ∀ f : Failure, Q (.error f.exc) (g.falter (.execute s))) :
    (execute s).wp (taskMonitor req) Q g := by
  refine (Prog.wp_perform _ _ _ _).2 ⟨hpermits, fun rows _ => hok rows, ?_⟩
  rintro e ⟨-, f, rfl⟩
  exact herr f

theorem wp_call {o : TaskOp} {Q : Except Exc Unit → TaskGhost → Prop} {g : TaskGhost}
    (hpermits : req.Permits g o)
    (hok : ∀ rows, Q (.ok ()) (g.succeed rows o))
    (herr : o.isLocal = false → ∀ f : Failure, Q (.error f.exc) (g.falter o)) :
    (Prog.effect o : TaskProg Unit).wp (taskMonitor req) Q g := by
  refine (Prog.wp_effect _ _ _ _).2 ⟨hpermits, fun rows _ => hok rows, ?_⟩
  rintro e ⟨hlocal, f, rfl⟩
  exact herr hlocal f

theorem wp_select {taskId : UUID} {s : Stmt} {g : TaskGhost}
    {Q : Except Exc (List TaskRow) → TaskGhost → Prop}
    (hs : s = .selectOwnerStatus taskId ∨ s = .selectTask taskId)
    (hg : g = .working none none) (hon : req.OnTask)
    (hnone : ∀ rows, fetchone rows = none → Q (.ok rows) (.working none none))
    (hsome : ∀ rows row, fetchone rows = some row →
      Q (.ok rows) (.working (some (taskId, row)) none))
    (herr : ∀ f : Failure, Q (.error f.exc) (.working none none)) :
    (execute s).wp (taskMonitor req) Q g := by
  subst hg
  have hread : ∀ rows, (TaskGhost.working none none).read rows s =
      .working ((fetchone rows).map fun row => (taskId, row)) none := by
    intro rows
    rcases hs with rfl | rfl <;> simp [TaskGhost.read, TaskGhost.find, TaskGhost.working]
  refine wp_execute ?_ (fun rows => ?_) (fun f => ?_)
  · rcases hs with rfl | rfl
    · exact ⟨hon, rfl⟩
    · exact ⟨hon, Or.inl rfl⟩
  · rw [hread]
    cases hrow : fetchone rows with
    | none => exact hnone rows hrow
    | some row => exact hsome rows row hrow
  · rcases hs with rfl | rfl <;> exact herr f

variable [UrlValidator]

/-- Validating a row asks nothing of anybody, whatever monitor watches. -/
theorem wp_modelValidate {G : Type} {m : Prog.Monitor TaskOp (List TaskRow) Exc G} {g : G}
    {row : TaskRow} {Q : Except Exc TaskResponse → G → Prop}
    (hok : ∀ task, TaskResponse.modelValidate row = some task → Q (.ok task) g)
    (herr : Q (.error (.validationError row.errorText)) g) :
    (modelValidate row).wp m Q g := by
  unfold modelValidate
  split
  · rename_i task htask
    exact hok task htask
  · exact herr

theorem wp_validateAll {G : Type} {m : Prog.Monitor TaskOp (List TaskRow) Exc G} {g : G}
    {rows : List TaskRow} {Q : Except Exc (List TaskResponse) → G → Prop}
    (hok : ∀ tasks, List.Forall₂ (fun row task => TaskResponse.modelValidate row = some task)
      rows tasks → Q (.ok tasks) g)
    (herr : ∀ row ∈ rows, Q (.error (.validationError row.errorText)) g) :
    (validateAll rows).wp m Q g := by
  induction rows generalizing Q with
  | nil =>
      exact hok [] .nil
  | cons rawTask rest ih =>
      refine (Prog.wp_bind _ _ _ _ _).2 (wp_modelValidate (fun task htask => ?_)
        (herr rawTask (List.mem_cons_self ..)))
      refine (Prog.wp_bind _ _ _ _ _).2 (ih (fun tasks htasks => ?_)
        fun row hrow => herr row (List.mem_cons_of_mem _ hrow))
      exact hok (task :: tasks) (.cons htask htasks)

omit [UrlValidator] in
/--
What is asked of the four calls `get_db` makes around a handler.  `U` is what
holds when the session is about to be rolled back, `C` when it is about to be
closed.
-/
theorem wp_getDb {G : Type} {m : Prog.Monitor TaskOp (List TaskRow) Exc G} {g : G}
    {handler : TaskProg Response} {Q : Except Exc Response → G → Prop}
    (C : Except Exc Response → G → Prop) (U : Exc → G → Prop)
    (hclose : ∀ r g, C r g → (Prog.effect .close : TaskProg Unit).wp m
      (fun r' g' => Prog.onResult (fun _ => Q r g') (fun e => Q (.error e) g') r') g)
    (hrollback : ∀ e g, U e g → (Prog.effect .rollback : TaskProg Unit).wp m
      (fun r g' => Prog.onResult (fun _ => C (.error e) g') (fun e' => C (.error e') g') r) g)
    (hhandler : handler.wp m
      (fun r g' => Prog.onResult
        (fun response => (Prog.effect (.respond response) : TaskProg Unit).wp m
          (fun r' g'' => Prog.onResult
            (fun _ => (Prog.effect .commit : TaskProg Unit).wp m
              (fun r'' g₃ => Prog.onResult (fun _ => C (.ok response) g₃) (fun e => U e g₃) r'')
              g'')
            (fun e => U e g'') r') g')
        (fun e => U e g') r) g) :
    (getDb handler).wp m Q g := by
  have hunwinds : ∀ (e : Exc) (g' : G), U e g' →
      ((do
          Prog.effect .rollback
          .raise e) : TaskProg Response).wp m
        (fun r g'' => (Prog.effect .close : TaskProg Unit).wp m
          (fun r' g₃ => Prog.onResult (fun _ => Q r g₃) (fun e' => Q (.error e') g₃) r') g'') g' := by
    intro e g' hg'
    refine (Prog.wp_bind _ _ _ _ _).2 (Prog.wp_mono _ (hrollback e g' hg') ?_)
    rintro (e' | _) g'' hg''
    · exact hclose _ _ hg''
    · exact hclose _ _ hg''
  refine (Prog.wp_tryFinally _ _ _ _ _).2 ((Prog.wp_tryCatch _ _ _ _ _).2
    ((Prog.wp_bind _ _ _ _ _).2 (Prog.wp_mono _ hhandler ?_)))
  rintro (e | response) g' hg'
  · exact hunwinds e g' hg'
  · refine (Prog.wp_bind _ _ _ _ _).2 (Prog.wp_mono _ hg' ?_)
    rintro (e | _) g'' hg''
    · exact hunwinds e g'' hg''
    · refine (Prog.wp_bind _ _ _ _ _).2 (Prog.wp_mono _ hg'' ?_)
      rintro (e | _) g₃ hg₃
      · exact hunwinds e g₃ hg₃
      · exact hclose (.ok response) g₃ hg₃

theorem map_id_of_validated {rows : List TaskRow} {tasks : List TaskResponse}
    (h : List.Forall₂ (fun row task => TaskResponse.modelValidate row = some task) rows tasks) :
    tasks.map TaskResponse.id = rows.map TaskRow.id := by
  induction h with
  | nil =>
      rfl
  | cons htask _ ih =>
      rw [List.map_cons, List.map_cons, (TaskResponse.modelValidate_eq_some htask).2.1, ih]

/-- Reading the row again changes nothing the request remembers. -/
theorem reselectTask_spec {taskId : UUID} {row : TaskRow} {wrote : Option RowWrite}
    (hon : req.OnTask) :
    (reselectTask taskId).wp (taskMonitor req)
      (fun r g => g = .working (some (taskId, row)) wrote ∧ r ≠ .error .cancelledError)
      (.working (some (taskId, row)) wrote) := by
  refine (Prog.wp_bind _ _ _ _ _).2 (wp_execute ⟨hon, Or.inr ⟨row, rfl⟩⟩ ?_ ?_)
  · intro rows
    simp only [Prog.onResult_ok]
    split
    · exact ⟨rfl, by simp⟩
    · exact wp_modelValidate (fun task _ => ⟨rfl, by simp⟩) ⟨rfl, by simp⟩
  · intro f
    exact ⟨rfl, by simpa using f.exc_ne_cancelledError⟩

/-- Validation raises or returns the tasks of the rows, one for each in order. -/
theorem validateAll_spec (rows : List TaskRow) {g : TaskGhost} :
    (validateAll rows).wp (taskMonitor req)
      (fun r g' => g' = g ∧ r ≠ .error .cancelledError ∧
        ∀ tasks, r = .ok tasks → tasks.map TaskResponse.id = rows.map TaskRow.id) g := by
  refine wp_validateAll (fun tasks htasks => ⟨rfl, by simp, ?_⟩)
    fun row _ => ⟨rfl, by simp, by simp⟩
  rintro _ ⟨⟩
  exact map_id_of_validated htasks

/-- What a request knows after it has read its row and written to it. -/
def ReadAndWrote (taskId : UUID) (write : TaskStatus → Option RowWrite) :
    Option (TaskResponse × UserId × TaskStatus) → TaskGhost → Prop
  | none, g => g = .working none none
  | some (_, userId, currentStatus), g =>
      ∃ row : TaskRow,
        userId = row.userId ∧
        currentStatus = row.status ∧
        g = .working (some (taskId, row)) (write row.status)

/-- `cancel_task` writes if the status it read is pending. -/
def cancelsIfPending (taskId : UUID) (status : TaskStatus) : Option RowWrite :=
  if status = .pending then some (.cancel taskId) else none

/-- The rest of `cancel_task` and `update_task`: read the row once more. -/
theorem reselectTask_answers {taskId : UUID} {row : TaskRow} {wrote : Option RowWrite}
    (hon : req.OnTask) :
    (reselectTask taskId).wp (taskMonitor req)
      (fun r g => Prog.onResult
        (fun _ => g = .working (some (taskId, row)) wrote) (Undecided · g) r)
      (.working (some (taskId, row)) wrote) := by
  refine Prog.wp_mono _ (reselectTask_spec hon) ?_
  rintro (e | task) g ⟨rfl, he⟩
  · exact ⟨fun h => he (h ▸ rfl), rfl, rfl⟩
  · rfl

theorem cancelTask_spec {taskId : UUID} (hreq : req.Cancels taskId) (hon : req.OnTask) :
    (cancelTask taskId).wp (taskMonitor req)
      (fun r g => Prog.onResult (ReadAndWrote taskId (cancelsIfPending taskId) · g)
        (Undecided · g) r)
      (.working none none) := by
  refine (Prog.wp_bind _ _ _ _ _).2 (wp_select (Or.inl rfl) rfl hon ?_ ?_ ?_)
  · intro rows hrow
    simp [hrow, ReadAndWrote]
  · intro rows row hrow
    simp only [Prog.onResult_ok, hrow]
    -- both branches go on to read the row again
    have hrest : (do
          let task ← reselectTask taskId
          pure (some (task, row.userId, row.status)) :
          TaskProg (Option (TaskResponse × UserId × TaskStatus))).wp (taskMonitor req)
        (fun r g => Prog.onResult (ReadAndWrote taskId (cancelsIfPending taskId) · g)
          (Undecided · g) r)
        (.working (some (taskId, row)) (cancelsIfPending taskId row.status)) := by
      refine (Prog.wp_bind _ _ _ _ _).2 (Prog.wp_mono _ (reselectTask_answers hon) ?_)
      rintro (e | task) g hg
      · exact hg
      · exact ⟨row, rfl, rfl, hg⟩
    by_cases hpending : row.status = .pending
    · rw [if_pos hpending]
      refine (Prog.wp_bind _ _ _ _ _).2 (wp_call ⟨hreq, rfl, rfl, row, rfl, hpending⟩ ?_ ?_)
      · intro _
        have hwrote : cancelsIfPending taskId row.status = some (.cancel taskId) :=
          if_pos hpending
        rw [hwrote] at hrest
        exact hrest
      · intro _ f
        exact ⟨f.exc_ne_cancelledError, rfl, rfl⟩
    · rw [if_neg hpending]
      simpa [cancelsIfPending, hpending] using hrest
  · intro f
    exact ⟨f.exc_ne_cancelledError, rfl, rfl⟩

theorem updateTask_spec {taskId : UUID} {url : String} {method : HttpMethod}
    {headers : Option Headers} {body : Option String}
    (hreq : req.Edits taskId) (hon : req.OnTask) :
    (updateTask taskId url method headers body).wp (taskMonitor req)
      (fun r g => Prog.onResult (ReadAndWrote taskId (fun _ => some (.data taskId)) · g)
        (Undecided · g) r)
      (.working none none) := by
  refine (Prog.wp_bind _ _ _ _ _).2 (wp_select (Or.inl rfl) rfl hon ?_ ?_ ?_)
  · intro rows hrow
    simp [hrow, ReadAndWrote]
  · intro rows row hrow
    simp only [Prog.onResult_ok, hrow]
    refine (Prog.wp_bind _ _ _ _ _).2 (wp_call ⟨hreq, rfl, rfl, row, rfl⟩ ?_ ?_)
    · intro _
      refine (Prog.wp_bind _ _ _ _ _).2 (Prog.wp_mono _ (reselectTask_answers hon) ?_)
      rintro (e | task) g hg
      · exact hg
      · subst hg
        -- a failing publication to Redis is caught
        have hredis : (if row.status ≠ task.status then
              Prog.effect (.redisPublish task.id task.status)
            else pure () : TaskProg Unit).wp (taskMonitor req)
            (fun _ g => g = .working (some (taskId, row)) (some (.data taskId)))
            (.working (some (taskId, row)) (some (.data taskId))) := by
          split
          · exact wp_call trivial (fun _ => rfl) (fun _ _ => rfl)
          · rfl
        refine (Prog.wp_bind _ _ _ _ _).2 ((Prog.wp_tryCatch _ _ _ _ _).2
          (Prog.wp_mono _ hredis ?_))
        rintro (e | u) g rfl
        · exact ⟨row, rfl, rfl, rfl⟩
        · exact ⟨row, rfl, rfl, rfl⟩
    · intro _ f
      exact ⟨f.exc_ne_cancelledError, rfl, rfl⟩
  · intro f
    exact ⟨f.exc_ne_cancelledError, rfl, rfl⟩

/-- What `get_db` needs of a handler. -/
def Handled (req : TaskRequest) : Except Exc Response → TaskGhost → Prop
  | .ok response, g => req.Permits g (.respond response)
  | .error e, g =>
      e ≠ .cancelledError ∧ (req.OnTask → g.attempted = false) ∧ g.counted = false

omit [UrlValidator] in
theorem Undecided.handled {e : Exc} {g : TaskGhost} (h : Undecided e g) :
    Handled req (.error e) g :=
  ⟨h.1, fun _ => h.2.1, h.2.2⟩

omit [UrlValidator] in
/-- What PUT and DELETE have in common after their repository function. -/
theorem handled_of_written {taskId : UUID} {user : UserId} {past : String}
    {write : TaskStatus → Option RowWrite} {rest : TaskResponse → TaskProg TaskResponse}
    {p : TaskProg (Option (TaskResponse × UserId × TaskStatus))}
    (hp : p.wp (taskMonitor req)
      (fun r g => Prog.onResult (ReadAndWrote taskId write · g) (Undecided · g) r)
      (.working none none))
    (hrest : ∀ task row, row.userId = user → row.status = .pending →
      (rest task).wp (taskMonitor req)
        (fun r g => Prog.onResult (fun task => Handled req (.ok (.task task)) g)
          (fun e => Handled req (.error (taskErrors e)) g) r)
        (.working (some (taskId, row)) (write .pending))) :
    (answerWritten taskId user past p rest).wp (taskMonitor req) (Handled req)
      (.working none none) := by
  refine (Prog.wp_bind _ _ _ _ _).2 ((Prog.wp_tryCatch _ _ _ _ _).2 ?_)
  refine (Prog.wp_bind _ _ _ _ _).2 (Prog.wp_mono _ hp ?_)
  rintro (e | _ | ⟨task, userId, currentStatus⟩) g hg
  · obtain ⟨he, hworking⟩ := hg
    exact Undecided.handled ⟨taskErrors_ne_cancelledError he, hworking⟩
  · obtain rfl : g = .working none none := hg
    exact Undecided.handled ⟨by simp [taskErrors], rfl, rfl⟩
  · obtain ⟨row, rfl, rfl, rfl⟩ := hg
    simp only [Prog.onResult_ok]
    split
    · exact Undecided.handled ⟨by simp [taskErrors], rfl, rfl⟩
    · rename_i howner
      split
      · exact Undecided.handled ⟨by simp [taskErrors], rfl, rfl⟩
      · rename_i hstatus
        have howner : row.userId = user := by simpa using howner
        have hstatus : row.status = .pending := by simpa using hstatus
        rw [hstatus]
        refine Prog.wp_mono _ (hrest task row howner hstatus) ?_
        rintro (e | task') g hg
        · exact hg
        · exact hg

theorem requestDelete_spec {taskId : UUID} {user : UserId}
    (hreq : req = .delete user taskId) :
    (requestDelete taskId user).wp (taskMonitor req) (Handled req) (.working none none) := by
  subst hreq
  rw [requestDelete_eq]
  refine handled_of_written (cancelTask_spec rfl trivial) fun task row howner hstatus => ?_
  refine (Prog.wp_bind _ _ _ _ _).2 (wp_call
    ⟨rfl, rfl, rfl, rfl, taskId, rfl, rfl, rfl, row, rfl, howner, hstatus⟩ ?_ ?_)
  · intro _
    refine ⟨⟨rfl, rfl, rfl, row, rfl, howner, hstatus⟩, fun _ => rfl, ?_, ?_⟩
    · rintro id rfl
      rfl
    · intro id hid
      cases hid
  · intro hlocal
    cases hlocal

theorem requestUpdate_spec {taskId : UUID} {user : UserId} {taskData : TaskUpdate}
    (hreq : req = .update user taskId taskData) :
    (requestUpdate taskId taskData user).wp (taskMonitor req) (Handled req)
      (.working none none) := by
  subst hreq
  rw [requestUpdate_eq]
  refine handled_of_written (updateTask_spec rfl trivial) fun task row howner hstatus => ?_
  refine ⟨⟨rfl, rfl, row, rfl, howner, hstatus⟩, fun _ => rfl, ?_, ?_⟩
  · intro id hid
    cases hid
  · rintro id rfl
    rfl

theorem requestInfo_spec {taskId : UUID} {user : UserId} (hreq : req = .info user taskId) :
    (requestInfo taskId user).wp (taskMonitor req) (Handled req) (.working none none) := by
  subst hreq
  refine (Prog.wp_bind _ _ _ _ _).2 ((Prog.wp_tryCatch _ _ _ _ _).2 ?_)
  refine (Prog.wp_bind _ _ _ _ _).2 ((Prog.wp_bind _ _ _ _ _).2
    (wp_select (Or.inr rfl) rfl trivial ?_ ?_ ?_))
  · intro rows hrow
    simp only [Prog.onResult_ok, hrow]
    exact Undecided.handled ⟨by simp [taskErrors], rfl, rfl⟩
  · intro rows row hrow
    simp only [Prog.onResult_ok, hrow]
    refine (Prog.wp_bind _ _ _ _ _).2 (wp_modelValidate (fun task _ => ?_) ?_)
    · simp only [Prog.onResult_ok, Prog.wp_pure]
      split
      · exact Undecided.handled ⟨by simp [taskErrors], rfl, rfl⟩
      · refine ⟨trivial, fun _ => rfl, ?_, ?_⟩
        · intro id hid
          cases hid
        · intro id hid
          cases hid
    · exact Undecided.handled ⟨by simp [taskErrors], rfl, rfl⟩
  · intro f
    exact Undecided.handled ⟨taskErrors_ne_cancelledError f.exc_ne_cancelledError, rfl, rfl⟩

def HandledTasks (r : Except Exc Response) (g : TaskGhost) : Prop :=
  r ≠ .error .cancelledError ∧ g.counted = false ∧ ∀ response, r = .ok response → g.wrote = none

theorem requestUserTasks_spec {user : UserId} {skip limit : Nat}
    (hreq : req = .userTasks user skip limit) :
    (requestUserTasks user skip limit).wp (taskMonitor req) HandledTasks (.working none none) := by
  subst hreq
  refine (Prog.wp_bind _ _ _ _ _).2 ((Prog.wp_bind _ _ _ _ _).2
    (wp_execute trivial (fun rows => ?_) (fun f => ?_)))
  · simp only [Prog.onResult_ok]
    refine Prog.wp_mono _ (validateAll_spec rows) ?_
    rintro (e | tasks) g ⟨rfl, he, -⟩
    · exact ⟨by simpa using he, rfl, by simp⟩
    · exact ⟨by simp, rfl, fun _ _ => rfl⟩
  · exact ⟨by simpa using f.exc_ne_cancelledError, rfl, by simp⟩

omit [UrlValidator] in
theorem publishTask_spec {payload : TaskPayload} {attempts : Int} {g : TaskGhost}
    (hcounted : g.counted = false)
    (hpermits : req.Permits g
      (.basicPublish TASK_EXCHANGE TASK_QUEUE (taskMessage payload attempts))) :
    (publishTask payload attempts).wp (taskMonitor req)
      (fun r g' => g' = g ∧ r ≠ .error .cancelledError) g := by
  have hcall : ∀ o, req.Permits g o → (∀ rows, g.succeed rows o = g) → g.falter o = g.fail →
      (Prog.effect o : TaskProg Unit).wp (taskMonitor req)
        (fun r g' => g' = g ∧ r ≠ .error .cancelledError) g := by
    intro o hallowed hsucceed hfalter
    refine wp_call hallowed (fun rows => ⟨hsucceed rows, by simp⟩) (fun _ f => ⟨?_, ?_⟩)
    · rw [hfalter, TaskGhost.fail_eq_self hcounted]
    · simpa using f.exc_ne_cancelledError
  have hclose : ∀ r : Except Exc Unit, r ≠ .error .cancelledError →
      (Prog.effect .closeChannel : TaskProg Unit).wp (taskMonitor req)
        (fun r' g' => Prog.onResult
          (fun _ => g' = g ∧ r ≠ .error .cancelledError)
          (fun e => g' = g ∧ (.error e : Except Exc Unit) ≠ .error .cancelledError) r')
        g := by
    intro r hr
    refine Prog.wp_mono _ (hcall .closeChannel trivial (fun _ => rfl) rfl) ?_
    rintro (e | _) g' ⟨rfl, he⟩
    · exact ⟨rfl, he⟩
    · exact ⟨rfl, hr⟩
  refine (Prog.wp_bind _ _ _ _ _).2
    (Prog.wp_mono _ (hcall .openChannel trivial (fun _ => rfl) rfl) ?_)
  rintro (e | _) g₁ ⟨rfl, he⟩
  · exact ⟨rfl, by simpa using he⟩
  · refine (Prog.wp_tryFinally _ _ _ _ _).2 ((Prog.wp_bind _ _ _ _ _).2
      (Prog.wp_mono _ (hcall (.declareExchange _ _) trivial (fun _ => rfl) rfl) ?_))
    rintro (e | _) g₂ ⟨rfl, he⟩
    · exact hclose _ he
    · refine Prog.wp_mono _ (hcall (.basicPublish _ _ _) hpermits (fun _ => rfl) rfl) ?_
      rintro r g₃ ⟨rfl, hr⟩
      exact hclose _ hr

theorem createTask_spec {userId : UserId} {url : String} {method : HttpMethod}
    {headers : Option Headers} {body : Option String} {maxAttempts : Int}
    (hcreates : req.Creates) (huser : req.user = userId) :
    (createTask userId url method headers body maxAttempts .beforeRmq).wp (taskMonitor req)
      (fun r g => Prog.onResult
        (fun task => ∃ own, g = { own := own } ∧ task.id ∈ own)
        (fun e => e ≠ .cancelledError ∧ g.counted = false) r)
      {} := by
  have hfirst : ∀ news, [createTaskRow].mapM (InsertRow.eval (createTaskParams userId url method
      headers body maxAttempts .beforeRmq)) = some news → ∀ t ∈ news, FirstVersion req t := by
    intro news hnews t ht
    simp only [List.mapM_cons, List.mapM_nil, createTaskRow_eval] at hnews
    cases hnews
    rw [List.mem_singleton] at ht
    subst ht
    exact ⟨huser.symm, rfl, Or.inl rfl⟩
  refine (Prog.wp_bind _ _ _ _ _).2 (wp_execute ⟨hcreates, hfirst⟩ (fun rows => ?_) (fun f => ?_))
  · simp only [Prog.onResult_ok]
    cases hrow : fetchone rows with
    | none =>
        exact ⟨by simp, rfl⟩
    | some rawTask =>
        have hmem : rawTask ∈ rows := List.mem_of_mem_head? hrow
        refine wp_modelValidate (fun task htask => ⟨_, rfl, ?_⟩) ⟨by simp, rfl⟩
        rw [(TaskResponse.modelValidate_eq_some htask).2.1]
        simpa using List.mem_map_of_mem hmem
  · exact ⟨f.exc_ne_cancelledError, rfl⟩

theorem requestCreate_spec {user : UserId} {taskData : TaskCreate}
    (hreq : req = .create user taskData) :
    (requestCreate taskData user).wp (taskMonitor req) HandledTasks {} := by
  subst hreq
  have hcommit : ∀ {Q : Except Exc Unit → TaskGhost → Prop} {g : TaskGhost},
      g.Settled (.create user taskData) →
      Q (.ok ()) (g.succeed [] .commit) →
      (∀ f : Failure, Q (.error f.exc) (g.falter .commit)) →
      (Prog.effect .commit : TaskProg Unit).wp (taskMonitor (.create user taskData)) Q g :=
    fun hsettled hok herr => wp_call ⟨hsettled, False.elim⟩ (fun _ => hok) (fun _ f => herr f)
  have hfailed : ∀ (e : Exc) (g : TaskGhost), g.counted = false →
      HandledTasks (.error (.httpException 500 e.str)) g :=
    fun e g hg => ⟨by simp, hg, by simp⟩
  refine (Prog.wp_bind _ _ _ _ _).2 ((Prog.wp_tryCatch _ _ _ _ _).2 ?_)
  refine (Prog.wp_bind _ _ _ _ _).2 (Prog.wp_mono _ (createTask_spec trivial rfl) ?_)
  rintro (e | task) g hg
  · exact hfailed e g hg.2
  · obtain ⟨own, rfl, hid⟩ := hg
    -- first commit: the row is durable
    refine (Prog.wp_bind _ _ _ _ _).2 (hcommit trivial ?_ fun f => hfailed _ _ rfl)
    -- publish: the ghost stays
    refine (Prog.wp_bind _ _ _ _ _).2 (Prog.wp_mono _ (publishTask_spec
      rfl ⟨rfl, rfl, Or.inl ⟨trivial, by simpa [TaskGhost.succeed, taskMessage] using hid⟩⟩) ?_)
    rintro (e | _) g ⟨rfl, -⟩
    · exact hfailed e _ rfl
    · -- confirm, and commit twice
      refine (Prog.wp_bind _ _ _ _ _).2 ((Prog.wp_bind _ _ _ _ _).2 (wp_call
        ⟨trivial, rfl, by simpa [TaskGhost.succeed] using hid⟩ (fun _ => ?_)
        (fun _ f => hfailed _ _ rfl)))
      refine hcommit ⟨rfl, trivial, by simpa [TaskGhost.succeed, TaskGhost.read,
        TaskGhost.write] using hid⟩ ?_ (fun f => hfailed _ _ rfl)
      refine (Prog.wp_bind _ _ _ _ _).2 (hcommit trivial ?_ (fun f => hfailed _ _ rfl))
      refine (Prog.wp_bind _ _ _ _ _).2 (wp_call trivial (fun _ => ?_) (fun hlocal => ?_))
      · exact ⟨by simp, rfl, fun _ _ => rfl⟩
      · cases hlocal

omit [UrlValidator] in
theorem publishAll_spec {tasks : List TaskResponse} {g : TaskGhost}
    (hbatch : req.IsBatch) (hcounted : g.counted = false)
    (hown : ∀ task ∈ tasks, task.id ∈ g.own) :
    (publishAll tasks).wp (taskMonitor req)
      (fun r g' => g' = g ∧ r ≠ .error .cancelledError) g := by
  induction tasks with
  | nil =>
      exact ⟨rfl, by simp⟩
  | cons task rest ih =>
      have hhead : task.id ∈ g.own := hown task (List.mem_cons_self ..)
      refine (Prog.wp_bind _ _ _ _ _).2 (Prog.wp_mono _ (publishTask_spec hcounted
        ⟨rfl, rfl, Or.inr ⟨hbatch, hhead⟩⟩) ?_)
      rintro (e | _) g' ⟨rfl, he⟩
      · exact ⟨rfl, by simpa using he⟩
      · exact ih fun task htask => hown task (List.mem_cons_of_mem _ htask)

theorem createTasksBatch_spec {userId : UserId} {tasksData : List TaskCreate}
    (hcreates : req.Creates) (huser : req.user = userId) :
    (createTasksBatch userId tasksData).wp (taskMonitor req)
      (fun r g => r ≠ .error .cancelledError ∧ (∃ own, g = { own := own }) ∧
        ∀ tasks, r = .ok tasks → ∀ task ∈ tasks, task.id ∈ g.own)
      {} := by
  unfold createTasksBatch
  split
  · refine ⟨by simp, ⟨[], rfl⟩, ?_⟩
    rintro tasks ⟨⟩ task htask
    cases htask
  · have hfirst : ∀ news, (batchLoop 0 tasksData
        ([], [⟨"user_id", .int userId, .Integer⟩])).1.mapM (InsertRow.eval (batchLoop 0 tasksData
          ([], [⟨"user_id", .int userId, .Integer⟩])).2) = some news →
        ∀ t ∈ news, FirstVersion req t := by
      intro news hnews t ht
      obtain ⟨row, hrow, heval⟩ := mem_of_mapM_eq_some hnews ht
      rw [batchLoop_eq] at hrow heval
      simp only [List.nil_append, List.mem_map] at hrow
      obtain ⟨idx, -, rfl⟩ := hrow
      obtain ⟨hu, ha, hs⟩ := batchRow_eval heval
      exact ⟨hu.trans huser.symm, ha, Or.inr hs⟩
    refine (Prog.wp_bind _ _ _ _ _).2
      (wp_execute ⟨hcreates, hfirst⟩ (fun rows => ?_) (fun f => ?_))
    · refine Prog.wp_mono _ (validateAll_spec rows) ?_
      rintro r g ⟨rfl, hr, htasks⟩
      refine ⟨hr, ⟨_, rfl⟩, fun tasks htasks' task htask => ?_⟩
      have hids := htasks tasks htasks'
      have hmem : task.id ∈ rows.map TaskRow.id := hids ▸ List.mem_map_of_mem htask
      simpa [TaskGhost.read, batchInsert] using hmem
    · exact ⟨by simpa using f.exc_ne_cancelledError, ⟨[], rfl⟩, by simp⟩

theorem requestCreateBatch_spec {user : UserId} {tasksData : List TaskCreate}
    (hreq : req = .createBatch user tasksData) :
    (requestCreateBatch tasksData user).wp (taskMonitor req) HandledTasks {} := by
  subst hreq
  have hfailed : ∀ (e : Exc) (g : TaskGhost), g.counted = false →
      (if e.isValueError then (.raise (.httpException 400 e.str) : TaskProg (List TaskResponse))
        else .raise (.httpException 500 e.str)).wp (taskMonitor (.createBatch user tasksData))
        (fun r g' => Prog.onResult
          (fun tasks => (pure (.tasks tasks) : TaskProg Response).wp
            (taskMonitor (.createBatch user tasksData)) HandledTasks g')
          (fun e => HandledTasks (.error e) g') r) g := by
    intro e g hg
    split <;> exact ⟨by simp, hg, by simp⟩
  refine (Prog.wp_bind _ _ _ _ _).2 ((Prog.wp_tryCatch _ _ _ _ _).2 ?_)
  unfold createRequestTasksBatch
  split
  · exact hfailed _ _ rfl
  · refine (Prog.wp_bind _ _ _ _ _).2 (Prog.wp_mono _ (createTasksBatch_spec trivial rfl) ?_)
    rintro (e | tasks) g ⟨he, ⟨own, rfl⟩, htasks⟩
    · exact hfailed e _ rfl
    · refine (Prog.wp_bind _ _ _ _ _).2 (Prog.wp_mono _
        (publishAll_spec trivial rfl (htasks tasks rfl)) ?_)
      rintro (e | _) g ⟨rfl, -⟩
      · exact hfailed e _ rfl
      · refine (Prog.wp_bind _ _ _ _ _).2 (wp_call trivial (fun _ => ?_) (fun hlocal => ?_))
        · exact ⟨by simp, rfl, fun _ _ => rfl⟩
        · cases hlocal

omit [UrlValidator] in
theorem TaskGhost.Accounted.fail {g : TaskGhost} (h : g.Accounted) : g.fail.Accounted :=
  fun hcounted => (h hcounted).imp_right fun hfailed => by simp [TaskGhost.fail, hfailed]

omit [UrlValidator] in
theorem getDb_spec {handler : TaskProg Response} {g : TaskGhost}
    (hhandler : handler.wp (taskMonitor req) (Handled req) g) :
    (getDb handler).wp (taskMonitor req) req.Ends g := by
  have hfailed : ∀ (f : Failure) (g' : TaskGhost), g'.Accounted → req.Ends (.error f.exc) g' := by
    refine fun f g' haccounted => ⟨by simpa using f.exc_ne_cancelledError, ?_, haccounted⟩
    intro _ code detail hf
    exact absurd (Except.error.inj hf) (f.exc_ne_httpException code detail)
  refine wp_getDb req.Ends (fun e g' => req.Ends (.error e) g') (fun r g' hg' => ?_)
    (fun e g' hg' => ?_) (Prog.wp_mono _ hhandler ?_)
  · refine wp_call hg'.accounted (fun _ => ?_) (fun _ f => hfailed f _ hg'.accounted.fail)
    exact ⟨hg'.notAbandoned, hg'.refused, hg'.accounted⟩
  · refine wp_call hg'.accounted (fun _ => ?_) (fun _ f => hfailed f _ hg'.accounted.fail)
    exact ⟨hg'.notAbandoned, hg'.refused, hg'.accounted⟩
  · rintro (e | response) g' hg
    · obtain ⟨he, hattempted, hcounted⟩ := hg
      refine ⟨by simpa using he, fun hon _ _ _ => hattempted hon, fun hcounted' => ?_⟩
      rw [hcounted] at hcounted'
      cases hcounted'
    · obtain ⟨hsettled, hattempted, -⟩ := id hg
      refine wp_call hg (fun _ => ?_) (fun _ f => ?_)
      · refine wp_call ⟨hsettled, hattempted⟩ (fun _ => ?_) (fun _ f => ?_)
        · exact ⟨by simp, by simp, fun _ => Or.inl rfl⟩
        · exact hfailed f _ fun _ => Or.inl rfl
      · refine hfailed f _ fun hcounted => Or.inr ?_
        have hcounted : g'.counted = true := hcounted
        simp [TaskGhost.falter, TaskGhost.fail, hcounted]

omit [UrlValidator] in
theorem HandledTasks.handled {r : Except Exc Response} {g : TaskGhost} (hon : ¬ req.OnTask)
    (h : HandledTasks r g) : Handled req r g := by
  obtain ⟨hr, hcounted, hwrote⟩ := h
  cases r with
  | error e =>
      exact ⟨by simpa using hr, fun h => absurd h hon, hcounted⟩
  | ok response =>
      have hnone := hwrote response rfl
      refine ⟨by simp [TaskGhost.Settled, hnone], fun h => absurd h hon, ?_, ?_⟩
      · intro taskId hcancels
        cases req <;> simp [TaskRequest.Cancels] at hcancels
        exact absurd trivial hon
      · intro taskId hedits
        cases req <;> simp [TaskRequest.Edits] at hedits
        exact absurd trivial hon

/-- Every request does only what is in order, whatever its calls answer. -/
theorem TaskRequest.disciplined (req : TaskRequest) :
    req.program.wp (taskMonitor req) req.Ends {} := by
  refine getDb_spec ?_
  cases hreq : req with
  | create user taskData =>
      exact Prog.wp_mono _ (requestCreate_spec rfl) fun _ _ h => h.handled id
  | createBatch user tasksData =>
      exact Prog.wp_mono _ (requestCreateBatch_spec rfl) fun _ _ h => h.handled id
  | info user taskId =>
      exact requestInfo_spec rfl
  | userTasks user skip limit =>
      exact Prog.wp_mono _ (requestUserTasks_spec rfl) fun _ _ h => h.handled id
  | delete user taskId =>
      exact requestDelete_spec rfl
  | update user taskId taskData =>
      exact requestUpdate_spec rfl

end Specifications

section Running

variable {ι : Type}

/-- What the history of a request amounts to. -/
def ghostOf (hist : List (TaskOp × Reply)) : TaskGhost :=
  hist.foldl (fun g e => g.next e.1 e.2) {}

theorem ghostOf_snoc (hist : List (TaskOp × Reply)) (o : TaskOp) (r : Reply) :
    ghostOf (hist ++ [(o, r)]) = (ghostOf hist).next o r := by
  simp [ghostOf, List.foldl_append]

section Answering

variable [DecidableEq ι]

theorem runOp_answers {i : ι} {c : Choice} {o : TaskOp} {w w' : World ι} {e : Exc}
    (h : runOp i c o w = some (.error e, w')) :
    o.isLocal = false ∧ ∃ f : Failure, e = f.exc := by
  cases o with
  | execute s =>
      refine ⟨rfl, ?_⟩
      cases s with
      | insertTasks rows bindparams =>
          simp only [runOp, runStmt] at h
          split at h
          · cases h
            exact ⟨⟨_, false⟩, rfl⟩
          · split at h
            · simp [insertRows] at h
            · cases h
      | selectUserTasks userId skip limit =>
          simp only [runOp, runStmt] at h
          split at h <;> simp at h
      | _ => simp [runOp, runStmt, updateRow] at h
  | _ => simp [runOp] at h

/-- A call takes effect, and then is answered or seems to fail; or it fails before. -/
theorem callOp_cases {i : ι} {c : Choice} {o : TaskOp} {w w' : World ι} {r : Reply}
    (h : callOp i c o w = some (r, w')) :
    (∃ r',
        runOp i c o w = some (r', w') ∧
        (∀ f, c.fault ≠ .before f) ∧
        (r = r' ∨ o.isLocal = false ∧ ∃ f : Failure, r = .error f.exc)) ∨
    (∃ f,
        c.fault = .before f ∧
        o.isLocal = false ∧
        r = .error f.exc ∧
        w' = lostOp i o w) := by
  unfold callOp at h
  split at h
  · rename_i hfault
    exact Or.inl ⟨r, h, by simp [hfault], Or.inl rfl⟩
  · rename_i f hfault
    split at h
    · cases h
    · rename_i hlocal
      cases h
      exact Or.inr ⟨f, hfault, by simpa using hlocal, rfl, rfl⟩
  · rename_i f hfault
    split at h
    · cases h
    · rename_i hlocal
      obtain ⟨⟨r', w''⟩, hrun, heq⟩ := Option.map_eq_some_iff.1 h
      cases heq
      exact Or.inl ⟨r', hrun, by simp [hfault], Or.inr ⟨by simpa using hlocal, f, rfl⟩⟩

theorem taskMachine_meets (reqs : ι → TaskRequest) :
    (taskMachine ι).Meets fun i => taskMonitor (reqs i) := by
  intro i c o w r w' h
  cases r with
  | ok rows => trivial
  | error e =>
      rcases callOp_cases h with ⟨r', hrun, -, rfl | ⟨hlocal, f, hr⟩⟩ | ⟨f, -, hlocal, hr, -⟩
      · exact runOp_answers hrun
      · exact ⟨hlocal, f, Except.error.inj hr⟩
      · exact ⟨hlocal, f, Except.error.inj hr⟩

end Answering

/-- All requests of a configuration have kept, and will keep, to what is in order. -/
abbrev Disciplined (reqs : ι → TaskRequest) (s : TaskConfig ι) : Prop :=
  Monitored (fun i => taskMonitor (reqs i)) (fun _ => {}) (fun i => (reqs i).Ends)
    .cancelledError s

theorem startTasks_disciplined [UrlValidator] (w : World ι) (reqs : ι → TaskRequest) :
    Disciplined reqs (startTasks w reqs) :=
  Monitored.start fun i => (reqs i).disciplined

theorem Disciplined.permits {reqs : ι → TaskRequest} {s : TaskConfig ι}
    (h : Disciplined reqs s) {i : ι} {o : TaskOp} {k : Reply → TaskProg Response}
    (hp : s.prog i = .op o k) :
    (reqs i).Permits (ghostOf (s.hist i)) o :=
  Monitored.allows h hp

theorem Disciplined.step [DecidableEq ι] {reqs : ι → TaskRequest} {s s' : TaskConfig ι}
    {l : TaskLabel ι}
    (h : Disciplined reqs s) (hstep : (taskMachine ι).step s l = some s') :
    Disciplined reqs s' :=
  Monitored.step (M := taskMachine ι) (taskMachine_meets reqs) h hstep

end Running

end TaskDiscipline

end SmartHttpRequester
