import SmartHttpRequester.Creations

/-!
# What a request shows

A third monitor.  It remembers the rows that the INSERT of a request returned,
the row its last SELECT returned, whether an UPDATE was sent after that SELECT,
and the response.  A request commits only when every row it has inserted, and
the row it has written, was read back and validates; and what it responds is
what these rows validate to.

`HoldsSeen` connects this with the table: the version that a PUT or a DELETE is
about to commit is the row it has read back.
-/

namespace SmartHttpRequester

open Foundations Function

section ShownRows

/-- What a request has been shown so far. -/
structure ShownGhost where
  /-- rows inserted and not yet committed -/
  rows : List TaskRow := []
  /-- rows inserted and committed -/
  durable : List TaskRow := []
  /-- an UPDATE of the row was sent, and the row has not been read since -/
  unread : Option UUID := none
  /-- the row the SELECT of all columns returned -/
  seen : Option (UUID × TaskRow) := none
  /-- the row a PUT or DELETE has written and not yet committed -/
  wrote : Option UUID := none
  /-- the response handed over -/
  handed : Option Response := none

namespace ShownGhost

/-- The open transaction has ended without a commit. -/
def dropped (g : ShownGhost) : ShownGhost :=
  { g with rows := [], wrote := none }

def succeed (g : ShownGhost) (rows : List TaskRow) : TaskOp → ShownGhost
  | .execute (.insertTasks _ _) => { g with rows := g.rows ++ rows }
  | .execute (.selectTask taskId) =>
      { g with unread := none, seen := (fetchone rows).map fun row => (taskId, row) }
  | .execute (.cancelTask taskId) => { g with unread := some taskId, wrote := some taskId }
  | .execute (.updateTask taskId _ _ _ _) =>
      { g with unread := some taskId, wrote := some taskId }
  | .execute (.confirmTask _) => { g with wrote := none }
  | .commit => { g.dropped with durable := g.durable ++ g.rows }
  | .rollback => g.dropped
  | .close => g.dropped
  | .respond response => { g with handed := g.handed.or (some response) }
  | _ => g

def falter (g : ShownGhost) : TaskOp → ShownGhost
  | .execute (.cancelTask taskId) => { g with unread := some taskId, wrote := none }
  | .execute (.updateTask taskId _ _ _ _) => { g with unread := some taskId, wrote := none }
  | .execute (.confirmTask _) => { g with wrote := none }
  | .commit => g.dropped
  | .rollback => g.dropped
  | .close => g.dropped
  | .respond response => { g with handed := g.handed.or (some response) }
  | _ => g

def next (g : ShownGhost) (o : TaskOp) : Except Exc (List TaskRow) → ShownGhost
  | .ok rows => g.succeed rows o
  | .error _ => g.falter o

theorem succeed_selectTask {g : ShownGhost} {taskId : UUID} {rows : List TaskRow} {row : TaskRow}
    (hrow : fetchone rows = some row) :
    g.succeed rows (.execute (.selectTask taskId)) =
      { g with unread := none, seen := some (taskId, row) } := by
  have hseen : (fetchone rows).map (fun row => (taskId, row)) = some (taskId, row) := by
    rw [hrow]
    rfl
  exact congrArg (fun seen => { g with unread := none, seen := seen }) hseen

end ShownGhost

/-- An INSERT that succeeds returns a row for each of its VALUES, with the status bound there. -/
def Returns (o : TaskOp) (r : Except Exc (List TaskRow)) : Prop :=
  ∀ values bindparams rows,
    o = .execute (.insertTasks values bindparams) → r = .ok rows →
    ∃ news, values.mapM (InsertRow.eval bindparams) = some news ∧
      rows.map TaskRow.status = news.map NewTask.status

variable [UrlValidator]

def TaskRow.Validates (row : TaskRow) : Prop :=
  (TaskResponse.modelValidate row).isSome = true

/-- The response is what the rows validate to that the request has read back. -/
def TaskRequest.Reports (req : TaskRequest) (g : ShownGhost) (r : Response) : Prop :=
  match req with
  | .create _ _ =>
      ∃ row task,
        g.durable = [row] ∧ row.status = .beforeRmq ∧
        TaskResponse.modelValidate row = some task ∧ r = .task task
  | .createBatch _ _ =>
      ∃ tasks,
        List.Forall₂ (fun row task => TaskResponse.modelValidate row = some task) g.rows tasks ∧
        r = .tasks tasks
  | .userTasks _ _ _ => True
  | .info _ taskId =>
      ∃ row task,
        g.seen = some (taskId, row) ∧
        TaskResponse.modelValidate row = some task ∧ r = .task task
  | .delete _ taskId | .update _ taskId _ =>
      ∃ row task,
        g.wrote = some taskId ∧ g.seen = some (taskId, row) ∧
        TaskResponse.modelValidate row = some task ∧ r = .task task

/-- Every row on record was read back after its last write, and validates. -/
structure ShownGhost.Checked (g : ShownGhost) : Prop where
  unread : g.unread = none
  rows : ∀ row ∈ g.rows, row.Validates
  seen : ∀ id row, g.seen = some (id, row) → row.Validates

/-- The calls in order: read back what was written, and commit what has been checked. -/
def TaskRequest.Checks (req : TaskRequest) (g : ShownGhost) : TaskOp → Prop
  | .execute (.selectTask taskId) =>
      g.seen = none ∧ (g.unread = none ∨ g.unread = some taskId)
  | .commit => g.Checked ∧ ∀ r, g.handed = some r → req.Reports g r
  | _ => True

def shownMonitor (req : TaskRequest) : Prog.Monitor TaskOp (List TaskRow) Exc ShownGhost where
  allows := req.Checks
  expects := Returns
  next := ShownGhost.next

section Specifications

variable {req : TaskRequest}

theorem wp_shown_call {o : TaskOp} {Q : Except Exc Unit → ShownGhost → Prop} {g : ShownGhost}
    (hchecks : req.Checks g o)
    (hok : ∀ rows, Q (.ok ()) (g.succeed rows o))
    (herr : ∀ e, Q (.error e) (g.falter o)) :
    (Prog.effect o : TaskProg Unit).wp (shownMonitor req) Q g :=
  (Prog.wp_effect _ _ _ _).2 ⟨hchecks, fun rows _ => hok rows, fun e _ => herr e⟩

theorem wp_shown_execute {s : Stmt} {Q : Except Exc (List TaskRow) → ShownGhost → Prop}
    {g : ShownGhost} (hchecks : req.Checks g (.execute s))
    (hok : ∀ rows, Returns (.execute s) (.ok rows) → Q (.ok rows) (g.succeed rows (.execute s)))
    (herr : ∀ e, Q (.error e) (g.falter (.execute s))) :
    (execute s).wp (shownMonitor req) Q g :=
  (Prog.wp_perform _ _ _ _).2 ⟨hchecks, fun rows hrows => hok rows hrows, fun e _ => herr e⟩

theorem validates_of_eq_some {row : TaskRow} {task : TaskResponse}
    (h : TaskResponse.modelValidate row = some task) : row.Validates :=
  Option.isSome_iff_exists.2 ⟨task, h⟩

/-- A row that is read back validates, or the request has failed. -/
theorem reselectTask_shows {taskId : UUID} {g : ShownGhost} (hseen : g.seen = none)
    (hunread : g.unread = none ∨ g.unread = some taskId) :
    (reselectTask taskId).wp (shownMonitor req)
      (fun r g' => Prog.onResult
        (fun task => ∃ row,
          g' = { g with unread := none, seen := some (taskId, row) } ∧
          TaskResponse.modelValidate row = some task)
        (fun _ => True) r) g := by
  refine (Prog.wp_bind _ _ _ _ _).2
    (wp_shown_execute ⟨hseen, hunread⟩ (fun rows _ => ?_) (fun _ => trivial))
  simp only [Prog.onResult_ok]
  cases hrow : fetchone rows with
  | none =>
      trivial
  | some row =>
      rw [ShownGhost.succeed_selectTask hrow]
      exact wp_modelValidate (fun task htask => ⟨row, rfl, htask⟩) trivial

/-- What PUT and DELETE return: the row as it was read back. -/
def ReadBack (taskId : UUID) : Option (TaskResponse × UserId × TaskStatus) → ShownGhost → Prop
  | none, _ => True
  | some (task, _, currentStatus), g => ∃ row wrote,
      g = { seen := some (taskId, row), wrote := wrote } ∧
      (currentStatus = .pending → wrote = some taskId) ∧
      TaskResponse.modelValidate row = some task

theorem cancelTask_shows {taskId : UUID} :
    (cancelTask taskId).wp (shownMonitor req)
      (fun r g => Prog.onResult (ReadBack taskId · g) (fun _ => True) r) {} := by
  refine (Prog.wp_bind _ _ _ _ _).2
    (wp_shown_execute trivial (fun rows _ => ?_) (fun _ => trivial))
  simp only [Prog.onResult_ok]
  cases hrow : fetchone rows with
  | none =>
      trivial
  | some row =>
      have hrest : ∀ unread wrote, unread = none ∨ unread = some taskId →
          (row.status = .pending → wrote = some taskId) →
          (do
            let task ← reselectTask taskId
            pure (some (task, row.userId, row.status)) :
            TaskProg (Option (TaskResponse × UserId × TaskStatus))).wp (shownMonitor req)
          (fun r g => Prog.onResult (ReadBack taskId · g) (fun _ => True) r)
          { unread := unread, wrote := wrote } := by
        intro unread wrote hunread hwrote
        refine (Prog.wp_bind _ _ _ _ _).2 (Prog.wp_mono _ (reselectTask_shows rfl hunread) ?_)
        rintro (e | task) g hg
        · trivial
        · obtain ⟨read, rfl, htask⟩ := hg
          exact ⟨read, wrote, rfl, hwrote, htask⟩
      by_cases hpending : row.status = .pending
      · simp only [hpending, if_true]
        refine (Prog.wp_bind _ _ _ _ _).2 (wp_shown_call trivial (fun _ => ?_) (fun _ => trivial))
        have hread := hrest (some taskId) (some taskId) (Or.inr rfl) fun _ => rfl
        rw [hpending] at hread
        exact hread
      · simp only [hpending, if_false]
        exact hrest none none (Or.inl rfl) fun h => absurd h hpending

theorem updateTask_shows {taskId : UUID} {url : String} {method : HttpMethod}
    {headers : Option Headers} {body : Option String} :
    (updateTask taskId url method headers body).wp (shownMonitor req)
      (fun r g => Prog.onResult (ReadBack taskId · g) (fun _ => True) r) {} := by
  refine (Prog.wp_bind _ _ _ _ _).2
    (wp_shown_execute trivial (fun rows _ => ?_) (fun _ => trivial))
  simp only [Prog.onResult_ok]
  cases hrow : fetchone rows with
  | none =>
      trivial
  | some row =>
      refine (Prog.wp_bind _ _ _ _ _).2 (wp_shown_call trivial (fun _ => ?_) (fun _ => trivial))
      refine (Prog.wp_bind _ _ _ _ _).2
        (Prog.wp_mono _ (reselectTask_shows rfl (Or.inr rfl)) ?_)
      rintro (e | task) g hg
      · trivial
      · obtain ⟨read, rfl, htask⟩ := hg
        -- a failing publication to Redis is caught
        have hredis : (if row.status ≠ task.status then
              Prog.effect (.redisPublish task.id task.status)
            else pure () : TaskProg Unit).wp (shownMonitor req)
            (fun _ g => g = { seen := some (taskId, read), wrote := some taskId })
            { seen := some (taskId, read), wrote := some taskId } := by
          split
          · exact wp_shown_call trivial (fun _ => rfl) (fun _ => rfl)
          · rfl
        refine (Prog.wp_bind _ _ _ _ _).2 ((Prog.wp_tryCatch _ _ _ _ _).2
          (Prog.wp_mono _ hredis ?_))
        rintro (e | u) g rfl
        · exact ⟨read, some taskId, rfl, fun _ => rfl, htask⟩
        · exact ⟨read, some taskId, rfl, fun _ => rfl, htask⟩

/-- What `get_db` needs of a handler. -/
def Reported (req : TaskRequest) : Except Exc Response → ShownGhost → Prop
  | .ok response, g => g.handed = none ∧ g.Checked ∧ req.Reports g response
  | .error _, _ => True

theorem checked_of_seen {taskId : UUID} {row : TaskRow} {task : TaskResponse}
    {wrote : Option UUID} (htask : TaskResponse.modelValidate row = some task) :
    ShownGhost.Checked { seen := some (taskId, row), wrote := wrote } where
  unread := rfl
  rows row hrow := by cases hrow
  seen id row' h := by
    cases h
    exact validates_of_eq_some htask

/-- What PUT and DELETE have in common after their repository function. -/
theorem reported_of_readBack {taskId : UUID} {user : UserId} {past : String}
    {rest : TaskResponse → TaskProg TaskResponse}
    {p : TaskProg (Option (TaskResponse × UserId × TaskStatus))}
    (hp : p.wp (shownMonitor req)
      (fun r g => Prog.onResult (ReadBack taskId · g) (fun _ => True) r) {})
    (hreports : ∀ row task, TaskResponse.modelValidate row = some task →
      req.Reports { seen := some (taskId, row), wrote := some taskId } (.task task))
    (hrest : ∀ task g, (rest task).wp (shownMonitor req)
      (fun r g' => Prog.onResult (fun task' => task' = task ∧ g' = g) (fun _ => True) r) g) :
    (answerWritten taskId user past p rest).wp (shownMonitor req) (Reported req) {} := by
  refine (Prog.wp_bind _ _ _ _ _).2 ((Prog.wp_tryCatch _ _ _ _ _).2 ?_)
  refine (Prog.wp_bind _ _ _ _ _).2 (Prog.wp_mono _ hp ?_)
  rintro (e | _ | ⟨task, userId, currentStatus⟩) g hg
  · trivial
  · trivial
  · obtain ⟨row, wrote, rfl, hwrote, htask⟩ := hg
    simp only [Prog.onResult_ok]
    split
    · trivial
    · split
      · trivial
      · rename_i hstatus
        obtain rfl := hwrote (by simpa using hstatus)
        refine Prog.wp_mono _ (hrest task _) ?_
        rintro (e | task') g hg
        · trivial
        · obtain ⟨rfl, rfl⟩ := hg
          exact ⟨rfl, checked_of_seen htask, hreports row task' htask⟩

theorem requestDelete_shows {taskId : UUID} {user : UserId} :
    (requestDelete taskId user).wp (shownMonitor (.delete user taskId))
      (Reported (.delete user taskId)) {} := by
  rw [requestDelete_eq]
  refine reported_of_readBack cancelTask_shows
    (fun row task htask => ⟨row, task, rfl, rfl, htask, rfl⟩) fun task g => ?_
  exact (Prog.wp_bind _ _ _ _ _).2
    (wp_shown_call trivial (fun _ => ⟨rfl, rfl⟩) (fun _ => trivial))

theorem requestUpdate_shows {taskId : UUID} {user : UserId} {taskData : TaskUpdate} :
    (requestUpdate taskId taskData user).wp (shownMonitor (.update user taskId taskData))
      (Reported (.update user taskId taskData)) {} := by
  rw [requestUpdate_eq]
  refine reported_of_readBack updateTask_shows
    (fun row task htask => ⟨row, task, rfl, rfl, htask, rfl⟩) fun task g => ?_
  exact ⟨rfl, rfl⟩

theorem requestInfo_shows {taskId : UUID} {user : UserId} :
    (requestInfo taskId user).wp (shownMonitor (.info user taskId))
      (Reported (.info user taskId)) {} := by
  refine (Prog.wp_bind _ _ _ _ _).2 ((Prog.wp_tryCatch _ _ _ _ _).2 ?_)
  refine (Prog.wp_bind _ _ _ _ _).2 ((Prog.wp_bind _ _ _ _ _).2
    (wp_shown_execute ⟨rfl, Or.inl rfl⟩ (fun rows _ => ?_) (fun _ => trivial)))
  simp only [Prog.onResult_ok]
  cases hrow : fetchone rows with
  | none =>
      trivial
  | some row =>
      rw [ShownGhost.succeed_selectTask hrow]
      refine (Prog.wp_bind _ _ _ _ _).2 (wp_modelValidate (fun task htask => ?_) trivial)
      simp only [Prog.onResult_ok, Prog.wp_pure]
      split
      · trivial
      · exact ⟨rfl, checked_of_seen htask, row, task, rfl, htask, rfl⟩

theorem checked_empty : ShownGhost.Checked {} where
  unread := rfl
  rows row hrow := by cases hrow
  seen id row h := by cases h

theorem requestUserTasks_shows {user : UserId} {skip limit : Nat} :
    (requestUserTasks user skip limit).wp (shownMonitor (.userTasks user skip limit))
      (Reported (.userTasks user skip limit)) {} := by
  refine (Prog.wp_bind _ _ _ _ _).2 ((Prog.wp_bind _ _ _ _ _).2
    (wp_shown_execute trivial (fun rows _ => ?_) (fun _ => trivial)))
  simp only [Prog.onResult_ok]
  exact wp_validateAll (fun tasks _ => ⟨rfl, checked_empty, trivial⟩) fun _ _ => trivial

/-- Publishing shows nothing of the table. -/
theorem publishTask_unseen {payload : TaskPayload} {attempts : Int}
    {g : ShownGhost} :
    (publishTask payload attempts).wp (shownMonitor req) (fun _ g' => g' = g) g := by
  have hclose : ∀ (r : Except Exc Unit), (Prog.effect .closeChannel : TaskProg Unit).wp
      (shownMonitor req) (fun r' g' => Prog.onResult (fun _ => g' = g) (fun _ => g' = g) r') g :=
    fun _ => wp_shown_call trivial (fun _ => rfl) (fun _ => rfl)
  refine (Prog.wp_bind _ _ _ _ _).2 (wp_shown_call trivial (fun _ => ?_) (fun _ => rfl))
  refine (Prog.wp_tryFinally _ _ _ _ _).2 ((Prog.wp_bind _ _ _ _ _).2
    (wp_shown_call trivial (fun _ => ?_) (fun e => hclose (.error e))))
  exact wp_shown_call trivial (fun _ => hclose (.ok ())) (fun e => hclose (.error e))

theorem createTask_returns {userId : UserId} {url : String} {method : HttpMethod}
    {headers : Option Headers} {body : Option String} {maxAttempts : Int} :
    (createTask userId url method headers body maxAttempts .beforeRmq).wp (shownMonitor req)
      (fun r g => Prog.onResult
        (fun task => ∃ row,
          g = { rows := [row] } ∧ row.status = .beforeRmq ∧
          TaskResponse.modelValidate row = some task)
        (fun _ => True) r) {} := by
  refine (Prog.wp_bind _ _ _ _ _).2
    (wp_shown_execute trivial (fun rows hrows => ?_) (fun _ => trivial))
  obtain ⟨news, hnews, hstatuses⟩ := hrows _ _ rows rfl rfl
  simp only [List.mapM_cons, List.mapM_nil, createTaskRow_eval] at hnews
  cases hnews
  obtain ⟨row, rfl, hstatus⟩ := List.map_eq_singleton_iff.1 hstatuses
  exact wp_modelValidate (fun task htask => ⟨row, rfl, hstatus, htask⟩) trivial

theorem checked_of_rows {rows durable : List TaskRow} (h : ∀ row ∈ rows, row.Validates) :
    ShownGhost.Checked { rows := rows, durable := durable } where
  unread := rfl
  rows := h
  seen id row h := by cases h

theorem requestCreate_shows {user : UserId} {taskData : TaskCreate} :
    (requestCreate taskData user).wp (shownMonitor (.create user taskData))
      (Reported (.create user taskData)) {} := by
  have hcommit : ∀ {Q : Except Exc Unit → ShownGhost → Prop} {rows durable : List TaskRow},
      (∀ row ∈ rows, row.Validates) →
      Q (.ok ()) { durable := durable ++ rows } →
      (∀ e, Q (.error e) { durable := durable }) →
      (Prog.effect .commit : TaskProg Unit).wp (shownMonitor (.create user taskData)) Q
        { rows := rows, durable := durable } := by
    intro Q rows durable hrows hok herr
    refine wp_shown_call ⟨checked_of_rows hrows, fun r hr => ?_⟩ (fun _ => hok) herr
    cases hr
  refine (Prog.wp_bind _ _ _ _ _).2 ((Prog.wp_tryCatch _ _ _ _ _).2 ?_)
  refine (Prog.wp_bind _ _ _ _ _).2 (Prog.wp_mono _ createTask_returns ?_)
  rintro (e | task) g hg
  · trivial
  · obtain ⟨row, rfl, hstatus, htask⟩ := hg
    have hrow : ∀ row' ∈ [row], row'.Validates := by
      intro row' hrow'
      rw [List.mem_singleton] at hrow'
      subst hrow'
      exact validates_of_eq_some htask
    have hnone : ∀ row' ∈ ([] : List TaskRow), row'.Validates := by
      intro row' hrow'
      cases hrow'
    -- first commit: the row is durable
    refine (Prog.wp_bind _ _ _ _ _).2 (hcommit hrow ?_ fun _ => trivial)
    refine (Prog.wp_bind _ _ _ _ _).2 (Prog.wp_mono _ publishTask_unseen ?_)
    rintro (e | _) g rfl
    · trivial
    · -- confirm, and commit twice; the response stays the one of the INSERT
      refine (Prog.wp_bind _ _ _ _ _).2 ((Prog.wp_bind _ _ _ _ _).2
        (wp_shown_call trivial (fun _ => ?_) (fun _ => trivial)))
      refine hcommit hnone ?_ (fun _ => trivial)
      refine (Prog.wp_bind _ _ _ _ _).2 (hcommit hnone ?_ fun _ => trivial)
      refine (Prog.wp_bind _ _ _ _ _).2
        (wp_shown_call trivial (fun _ => ?_) (fun _ => trivial))
      exact ⟨rfl, checked_of_rows hnone, row, task, rfl, hstatus, htask, rfl⟩

theorem publishAll_unseen {tasks : List TaskResponse} {g : ShownGhost} :
    (publishAll tasks).wp (shownMonitor req) (fun _ g' => g' = g) g := by
  induction tasks with
  | nil =>
      rfl
  | cons task rest ih =>
      refine (Prog.wp_bind _ _ _ _ _).2 (Prog.wp_mono _ publishTask_unseen ?_)
      rintro (e | _) g' rfl
      · rfl
      · exact ih

theorem createTasksBatch_returns {userId : UserId} {tasksData : List TaskCreate} :
    (createTasksBatch userId tasksData).wp (shownMonitor req)
      (fun r g => Prog.onResult
        (fun tasks => ∃ rows,
          g = { rows := rows } ∧
          List.Forall₂ (fun row task => TaskResponse.modelValidate row = some task) rows tasks)
        (fun _ => True) r) {} := by
  unfold createTasksBatch
  split
  · exact ⟨[], rfl, .nil⟩
  · refine (Prog.wp_bind _ _ _ _ _).2
      (wp_shown_execute trivial (fun rows _ => ?_) (fun _ => trivial))
    exact wp_validateAll (fun tasks htasks => ⟨rows, rfl, htasks⟩) fun _ _ => trivial

theorem validates_of_forall₂ {rows : List TaskRow} {tasks : List TaskResponse}
    (h : List.Forall₂ (fun row task => TaskResponse.modelValidate row = some task) rows tasks) :
    ∀ row ∈ rows, row.Validates := by
  induction h with
  | nil =>
      intro row hrow
      cases hrow
  | cons htask _ ih =>
      intro row hrow
      rcases List.mem_cons.1 hrow with rfl | hrow
      · exact validates_of_eq_some htask
      · exact ih row hrow

theorem requestCreateBatch_shows {user : UserId} {tasksData : List TaskCreate} :
    (requestCreateBatch tasksData user).wp (shownMonitor (.createBatch user tasksData))
      (Reported (.createBatch user tasksData)) {} := by
  have hfailed : ∀ (e : Exc) (g : ShownGhost),
      (if e.isValueError then (.raise (.httpException 400 e.str) : TaskProg (List TaskResponse))
        else .raise (.httpException 500 e.str)).wp (shownMonitor (.createBatch user tasksData))
        (fun r g' => Prog.onResult
          (fun tasks => (pure (.tasks tasks) : TaskProg Response).wp
            (shownMonitor (.createBatch user tasksData))
            (Reported (.createBatch user tasksData)) g')
          (fun e => Reported (.createBatch user tasksData) (.error e) g') r) g := by
    intro e g
    split <;> trivial
  refine (Prog.wp_bind _ _ _ _ _).2 ((Prog.wp_tryCatch _ _ _ _ _).2 ?_)
  unfold createRequestTasksBatch
  split
  · exact hfailed _ _
  · refine (Prog.wp_bind _ _ _ _ _).2 (Prog.wp_mono _ createTasksBatch_returns ?_)
    rintro (e | tasks) g hg
    · exact hfailed e g
    · obtain ⟨rows, rfl, htasks⟩ := hg
      refine (Prog.wp_bind _ _ _ _ _).2 (Prog.wp_mono _ publishAll_unseen ?_)
      rintro (e | _) g rfl
      · exact hfailed e _
      · refine (Prog.wp_bind _ _ _ _ _).2 (wp_shown_call trivial (fun _ => ?_) fun e => hfailed e _)
        exact ⟨rfl, checked_of_rows (validates_of_forall₂ htasks), tasks, htasks, rfl⟩

/-- After the response only the commit is left, and then the end of the session. -/
theorem getDb_shows {handler : TaskProg Response}
    (hhandler : handler.wp (shownMonitor req) (Reported req) {}) :
    (getDb handler).wp (shownMonitor req) (fun _ _ => True) {} := by
  refine wp_getDb (fun _ _ => True) (fun _ _ => True) (fun r g _ => ?_) (fun e g _ => ?_)
    (Prog.wp_mono _ hhandler ?_)
  · exact wp_shown_call trivial (fun _ => trivial) (fun _ => trivial)
  · exact wp_shown_call trivial (fun _ => trivial) (fun _ => trivial)
  · rintro (e | response) g hg
    · trivial
    · obtain ⟨hnone, hchecked, hreports⟩ := hg
      refine wp_shown_call trivial (fun _ => ?_) fun _ => trivial
      refine wp_shown_call ⟨⟨hchecked.unread, hchecked.rows, hchecked.seen⟩, fun r hr => ?_⟩
        (fun _ => trivial) fun _ => trivial
      have hhanded : g.handed.or (some response) = some r := hr
      rw [hnone] at hhanded
      cases hhanded
      cases req <;> exact hreports

variable (req) in
/-- Every request commits only what it has read back, and responds what it commits. -/
theorem TaskRequest.shows : req.program.wp (shownMonitor req) (fun _ _ => True) {} := by
  refine getDb_shows ?_
  cases req with
  | create user taskData => exact requestCreate_shows
  | createBatch user tasksData => exact requestCreateBatch_shows
  | info user taskId => exact requestInfo_shows
  | userTasks user skip limit => exact requestUserTasks_shows
  | delete user taskId => exact requestDelete_shows
  | update user taskId taskData => exact requestUpdate_shows

end Specifications

section Ghost

variable {g : ShownGhost} {o : TaskOp} {r : Reply}

omit [UrlValidator] in
/-- Both monitors remember the same rows. -/
theorem ShownGhost.next_rows {c : CreationGhost} (hrows : g.rows = c.rows)
    (hdurable : g.durable = c.durable) :
    (g.next o r).rows = (c.next o r).rows ∧ (g.next o r).durable = (c.next o r).durable := by
  cases r with
  | ok rows =>
      cases o with
      | execute st =>
          cases st with
          | insertTasks values bindparams => exact ⟨congrArg (· ++ rows) hrows, hdurable⟩
          | _ => exact ⟨hrows, hdurable⟩
      | commit => exact ⟨rfl, congrArg₂ (· ++ ·) hdurable hrows⟩
      | rollback => exact ⟨rfl, hdurable⟩
      | close => exact ⟨rfl, hdurable⟩
      | _ => exact ⟨hrows, hdurable⟩
  | error e =>
      cases o with
      | execute st => cases st <;> exact ⟨hrows, hdurable⟩
      | commit => exact ⟨rfl, hdurable⟩
      | rollback => exact ⟨rfl, hdurable⟩
      | close => exact ⟨rfl, hdurable⟩
      | _ => exact ⟨hrows, hdurable⟩

omit [UrlValidator] in
/-- What a PUT or DELETE has written is the UPDATE that its discipline has on record. -/
theorem ShownGhost.next_wrote {t : TaskGhost}
    (h : ∀ id, g.wrote = some id → ∃ u, t.wrote = some u ∧ t.applied = true ∧
      u.Unconditional ∧ u.taskId = id)
    {id : UUID} (hwrote : (g.next o r).wrote = some id) :
    ∃ u, (t.next o r).wrote = some u ∧ (t.next o r).applied = true ∧
      u.Unconditional ∧ u.taskId = id := by
  cases r with
  | ok rows =>
      cases o with
      | execute st =>
          cases st with
          | cancelTask taskId =>
              cases hwrote
              exact ⟨.cancel id, rfl, rfl, trivial, rfl⟩
          | updateTask taskId url method headers body =>
              cases hwrote
              exact ⟨.data id, rfl, rfl, trivial, rfl⟩
          | confirmTask taskId => cases hwrote
          | _ => exact h id hwrote
      | commit => cases hwrote
      | rollback => cases hwrote
      | close => cases hwrote
      | inc counter amount => cases counter <;> exact h id hwrote
      | _ => exact h id hwrote
  | error e =>
      cases o with
      | execute st =>
          cases st with
          | cancelTask taskId => cases hwrote
          | updateTask taskId url method headers body => cases hwrote
          | confirmTask taskId => cases hwrote
          | _ => exact h id hwrote
      | commit => cases hwrote
      | rollback => cases hwrote
      | close => cases hwrote
      | _ => exact h id hwrote

omit [UrlValidator] in
/-- What is known of the row changes by reading it and by writing it. -/
theorem ShownGhost.next_seen (g : ShownGhost) (o : TaskOp) (r : Reply) :
    (∃ taskId rows, o = .execute (.selectTask taskId) ∧ r = .ok rows) ∨
    (∃ st u, o = .execute st ∧ st.write? = some u ∧ u.Unconditional ∧
      (g.next o r).unread = some u.taskId) ∨
    ((g.next o r).unread = g.unread ∧ (g.next o r).seen = g.seen ∧
      ∀ st u, o = .execute st → st.write? = some u → ¬ u.Unconditional) := by
  cases o with
  | execute st =>
      cases st with
      | cancelTask taskId =>
          exact Or.inr (Or.inl ⟨_, _, rfl, rfl, trivial, by cases r <;> rfl⟩)
      | updateTask taskId url method headers body =>
          exact Or.inr (Or.inl ⟨_, _, rfl, rfl, trivial, by cases r <;> rfl⟩)
      | selectTask taskId =>
          cases r with
          | ok rows => exact Or.inl ⟨taskId, rows, rfl, rfl⟩
          | error e =>
              refine Or.inr (Or.inr ⟨rfl, rfl, fun st u hst hu => ?_⟩)
              cases hst
              cases hu
      | confirmTask taskId =>
          refine Or.inr (Or.inr ⟨by cases r <;> rfl, by cases r <;> rfl, fun st u hst hu => ?_⟩)
          cases hst
          cases hu
          exact id
      | _ =>
          refine Or.inr (Or.inr ⟨by cases r <;> rfl, by cases r <;> rfl, fun st u hst hu => ?_⟩)
          cases hst
          cases hu
  | _ => exact Or.inr (Or.inr ⟨by cases r <;> rfl, by cases r <;> rfl, by simp⟩)

end Ghost

section Running

variable {ι : Type}

/-- What the history of a request has shown it. -/
def shownOf (hist : List (TaskOp × Reply)) : ShownGhost :=
  hist.foldl (fun g e => g.next e.1 e.2) {}

omit [UrlValidator] in
theorem shownOf_snoc (hist : List (TaskOp × Reply)) (o : TaskOp) (r : Reply) :
    shownOf (hist ++ [(o, r)]) = (shownOf hist).next o r := by
  simp [shownOf, List.foldl_append]

omit [UrlValidator] in
theorem shownOf_rows (hist : List (TaskOp × Reply)) :
    (shownOf hist).rows = (creationOf hist).rows ∧
    (shownOf hist).durable = (creationOf hist).durable := by
  induction hist using List.reverseRecOn with
  | nil =>
      exact ⟨rfl, rfl⟩
  | append_singleton hist e ih =>
      rw [shownOf_snoc, creationOf_snoc]
      exact ShownGhost.next_rows ih.1 ih.2

omit [UrlValidator] in
theorem shownOf_wrote {hist : List (TaskOp × Reply)} {id : UUID}
    (h : (shownOf hist).wrote = some id) :
    ∃ u, (ghostOf hist).wrote = some u ∧ (ghostOf hist).applied = true ∧
      u.Unconditional ∧ u.taskId = id := by
  induction hist using List.reverseRecOn generalizing id with
  | nil =>
      cases h
  | append_singleton hist e ih =>
      rw [shownOf_snoc] at h
      rw [ghostOf_snoc]
      exact ShownGhost.next_wrote (fun id hid => ih hid) h

/-- All requests of a configuration read back, and will read back, what they commit. -/
abbrev Showing (reqs : ι → TaskRequest) (s : TaskConfig ι) : Prop :=
  Monitored (fun i => shownMonitor (reqs i)) (fun _ => {}) (fun _ _ _ => True) .cancelledError s

theorem startTasks_showing (w : World ι) (reqs : ι → TaskRequest) :
    Showing reqs (startTasks w reqs) :=
  Monitored.start fun i => TaskRequest.shows (reqs i)

theorem Showing.checks {reqs : ι → TaskRequest} {s : TaskConfig ι} (h : Showing reqs s)
    {i : ι} {o : TaskOp} {k : Reply → TaskProg Response} (hp : s.prog i = .op o k) :
    (reqs i).Checks (shownOf (s.hist i)) o :=
  Monitored.allows h hp

variable [DecidableEq ι] {reqs : ι → TaskRequest} {s s' : TaskConfig ι} {l : TaskLabel ι}

omit [UrlValidator] in
/-- The rows of an INSERT have the statuses bound in its VALUES. -/
theorem statuses_of_toRow {now : Timestamp} {ids : List UUID} {news : List NewTask}
    (hlength : ids.length = news.length) :
    (List.zipWith (NewTask.toRow now) ids news).map TaskRow.status =
      news.map NewTask.status := by
  induction ids generalizing news with
  | nil =>
      rw [List.eq_nil_of_length_eq_zero hlength.symm]
      rfl
  | cons id ids ih =>
      cases news with
      | nil => cases hlength
      | cons t news => exact congrArg (t.status :: ·) (ih (Nat.succ.inj hlength))

omit [UrlValidator] in
theorem callOp_returns {i : ι} {c : Choice} {o : TaskOp} {w w' : World ι} {r : Reply}
    (h : callOp i c o w = some (r, w')) : Returns o r := by
  rintro values bindparams rows rfl rfl
  obtain ⟨news, hnews, hlength, rfl, -⟩ := callOp_ok_values h
  exact ⟨news, hnews, statuses_of_toRow hlength⟩

theorem Showing.step (h : Showing reqs s) (hstep : (taskMachine ι).step s l = some s') :
    Showing reqs s' :=
  Monitored.step (M := taskMachine ι) (fun _ _ _ _ _ _ hexec => callOp_returns hexec) h hstep

/-- A PUT or DELETE that holds a version has still to read it, or has read it back. -/
def HoldsSeen (reqs : ι → TaskRequest) (s : TaskConfig ι) : Prop :=
  ∀ {id i row old},
    (s.world.tasks.slot id).pending = some (i, row) → committedTask s id = some old →
    (reqs i).OnTask →
    (shownOf (s.hist i)).unread = some id ∨ (shownOf (s.hist i)).seen = some (id, row)

theorem HoldsSeen.call (h : HoldsSeen reqs s) (hsound : Sound reqs s) (hshowing : Showing reqs s)
    {i : ι} {c : Choice} {o : TaskOp} {k : Reply → TaskProg Response} {r : Reply} {w : World ι}
    (hp : s.prog i = .op o k) (hexec : callOp i c o s.world = some (r, w)) {id : UUID}
    {row old : TaskRow} (hrow : (s.world.tasks.slot id).pending = some (i, row))
    (hold : committedTask s id = some old) (hon : (reqs i).OnTask) :
    ((shownOf (s.hist i)).next o r).unread = some id ∨
      ((shownOf (s.hist i)).next o r).seen = some (id, row) := by
  have hheld := h hrow hold hon
  rcases ShownGhost.next_seen (shownOf (s.hist i)) o r with ⟨taskId, rows, rfl, rfl⟩ |
      ⟨st, u, rfl, hu, -, -⟩ | ⟨hunread, hseen, -⟩
  · -- the first reading after the write
    obtain ⟨hnone, hunread⟩ := hshowing.checks hp
    rw [hnone] at hheld
    obtain rfl : taskId = id := by
      rcases hheld with hheld | hheld
      · rcases hunread with hunread | hunread
        · rw [hheld] at hunread
          cases hunread
        · rw [hheld] at hunread
          exact (Option.some.inj hunread).symm
      · cases hheld
    have hfetched := callOp_ok_select (Or.inr rfl) hexec
    rw [Slot.visible_eq_of_pending hrow] at hfetched
    right
    show ((shownOf (s.hist i)).succeed rows _).seen = _
    rw [ShownGhost.succeed_selectTask hfetched]
  · -- what holds a version does not write again
    obtain ⟨u', hu'⟩ := hsound.coupled.updated hrow hold
    have hnone := (hsound.coupled.write_target hsound.disciplined hp hu).1
    rw [hu'.wrote] at hnone
    cases hnone
  · rw [hunread, hseen]
    exact hheld

theorem HoldsSeen.step (h : HoldsSeen reqs s) (hsound : Sound reqs s) (hshowing : Showing reqs s)
    (hstep : (taskMachine ι).step s l = some s') :
    HoldsSeen reqs s' := by
  intro id i row old hrow hold hon
  rcases step_pending hstep hrow with hsame | ⟨c, o, k, r, rfl, hp, hexec, hinsert | hupdate⟩
  · have hrow' := (congrArg Slot.pending hsame).symm.trans hrow
    have hold' : committedTask s id = some old := (congrArg Slot.committed hsame).symm.trans hold
    rcases Machine.step_hist hstep i with hhist | ⟨c, o, k, r, rfl, hp, hexec, hsnoc⟩
    · rw [hhist]
      exact h hrow' hold' hon
    · rw [hsnoc, shownOf_snoc]
      exact h.call hsound hshowing hp hexec hrow' hold' hon
  · have hnone : committedTask s' id = none := congrArg Slot.committed hinsert
    rw [hnone] at hold
    cases hold
  · obtain ⟨-, st, u, first, rfl, hu, rfl, -⟩ := hupdate
    obtain ⟨reply, -, -, hsnoc⟩ := Machine.step_call hstep hp
    rw [hsnoc, shownOf_snoc]
    rcases ShownGhost.next_seen (shownOf (s.hist i)) (.execute st) reply with
      ⟨taskId, rows, hst, -⟩ | ⟨st', u', hst, hu', -, hunread⟩ | ⟨-, -, hconfirms⟩
    · cases hst
      cases hu
    · cases hst
      rw [hu] at hu'
      cases hu'
      exact Or.inl hunread
    · -- a confirmation belongs to a creation
      cases u with
      | cancel taskId => exact absurd trivial (hconfirms st _ rfl hu)
      | data taskId => exact absurd trivial (hconfirms st _ rfl hu)
      | confirm taskId =>
          have hpermits := hsound.disciplined.permits hp
          cases st <;> cases hu
          exact absurd hpermits.1 (TaskRequest.not_single_of_onTask hon)

end Running

end ShownRows

end SmartHttpRequester
