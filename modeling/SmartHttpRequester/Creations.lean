import SmartHttpRequester.PhantomWork

/-!
# What a creation does

A second monitor, for the requests that create tasks.  It remembers the rows
such a request inserted, which of them are committed, the messages it published
and whether a call failed.  A single creation confirms its row only after the
message is out; a batch commits its rows only after all their messages are out;
and a single creation that has committed its row does not end before the
confirmation is brought to a commit, unless a call fails.
-/

namespace SmartHttpRequester

open Foundations Function

section Creations

/-- What a creation request has done so far. -/
structure CreationGhost where
  /-- rows inserted and not yet committed -/
  rows : List TaskRow := []
  /-- an INSERT was answered and is not yet committed -/
  inserted : Bool := false
  /-- rows inserted and committed -/
  durable : List TaskRow := []
  /-- messages published -/
  sent : List TaskMessage := []
  /-- a confirmation was executed and not yet committed -/
  confirming : Bool := false
  /-- a confirmation was brought to a commit -/
  confirmed : Bool := false
  /-- a call failed -/
  failed : Bool := false

namespace CreationGhost

/-- The open transaction has ended without a commit. -/
def dropped (g : CreationGhost) : CreationGhost :=
  { g with rows := [], inserted := false, confirming := false }

/-- The open transaction was brought to a commit. -/
def settled (g : CreationGhost) : CreationGhost :=
  { g.dropped with confirmed := g.confirmed || g.confirming }

def succeed (g : CreationGhost) (rows : List TaskRow) : TaskOp → CreationGhost
  | .execute (.insertTasks _ _) => { g with rows := g.rows ++ rows, inserted := true }
  | .execute (.confirmTask _) => { g with confirming := true }
  | .basicPublish _ _ message => { g with sent := g.sent ++ [message] }
  | .commit => { g.settled with durable := g.durable ++ g.rows }
  | .rollback => g.dropped
  | .close => g.dropped
  | _ => g

def falter (g : CreationGhost) : TaskOp → CreationGhost
  | .commit => { g.settled with failed := true }
  | .rollback => { g.dropped with failed := true }
  | .close => { g.dropped with failed := true }
  | _ => { g with failed := true }

def next (g : CreationGhost) (o : TaskOp) : Except Exc (List TaskRow) → CreationGhost
  | .ok rows => g.succeed rows o
  | .error _ => g.falter o

end CreationGhost

/-- Nothing is committed yet. -/
structure CreationGhost.InsertPhase (g : CreationGhost) : Prop where
  durable : g.durable = []
  confirming : g.confirming = false
  confirmed : g.confirmed = false

/-- The inserted rows are committed, and the confirmation has been executed. -/
structure CreationGhost.ConfirmPhase (g : CreationGhost) : Prop where
  rows : g.rows = []
  confirms : g.confirming = true ∨ g.confirmed = true

/-- The message `publish_task` sends for a row. -/
def TaskRow.message (row : TaskRow) : TaskMessage :=
  taskMessage ⟨row.id⟩ row.maxAttempts

/-- The calls of a creation that are in order. -/
def TaskRequest.Prepares (req : TaskRequest) (g : CreationGhost) : TaskOp → Prop
  | .execute (.insertTasks rows bindparams) =>
      g.rows = [] ∧ g.durable = [] ∧ rows ≠ [] ∧
      (req.IsSingle → ∃ t, rows.mapM (InsertRow.eval bindparams) = some [t] ∧
        t.status = .beforeRmq) ∧
      (req.IsBatch → ∀ news, rows.mapM (InsertRow.eval bindparams) = some news →
        ∀ t ∈ news, t.status = .pending)
  | .execute (.confirmTask taskId) =>
      ∃ row ∈ g.durable, row.id = taskId ∧ row.message ∈ g.sent
  | .basicPublish exchange routingKey _ => exchange = TASK_EXCHANGE ∧ routingKey = TASK_QUEUE
  | .commit =>
      g.failed = false ∧ (req.IsBatch → ∀ row ∈ g.rows, row.message ∈ g.sent) ∧
      (req.IsSingle → g.InsertPhase ∨ g.ConfirmPhase)
  | .respond _ => req.IsBatch → g.inserted = true
  | _ => True

def creationMonitor (req : TaskRequest) :
    Prog.Monitor TaskOp (List TaskRow) Exc CreationGhost where
  allows g o := req.Creates → req.Prepares g o
  expects _ _ := True
  next := CreationGhost.next

/-- A single creation ends with its committed row confirmed, unless a call fails. -/
def TaskRequest.Delivers (req : TaskRequest) (_ : Except Exc Response) (g : CreationGhost) : Prop :=
  req.IsSingle → g.durable ≠ [] → g.failed = true ∨ g.confirmed = true

section Specifications

variable {req : TaskRequest}

theorem wp_create_call {o : TaskOp} {Q : Except Exc Unit → CreationGhost → Prop}
    {g : CreationGhost} (hprepares : req.Prepares g o)
    (hok : ∀ rows, Q (.ok ()) (g.succeed rows o))
    (herr : ∀ e, Q (.error e) (g.falter o)) :
    (Prog.effect o : TaskProg Unit).wp (creationMonitor req) Q g :=
  (Prog.wp_effect _ _ _ _).2 ⟨fun _ => hprepares, fun rows _ => hok rows, fun e _ => herr e⟩

theorem wp_create_execute {s : Stmt} {Q : Except Exc (List TaskRow) → CreationGhost → Prop}
    {g : CreationGhost} (hprepares : req.Prepares g (.execute s))
    (hok : ∀ rows, Q (.ok rows) (g.succeed rows (.execute s)))
    (herr : ∀ e, Q (.error e) { g with failed := true }) :
    (execute s).wp (creationMonitor req) Q g :=
  (Prog.wp_perform _ _ _ _).2 ⟨fun _ => hprepares, fun rows _ => hok rows, fun e _ => herr e⟩

/-- `publish_task` returns only if the message is out. -/
theorem publishTask_announces {payload : TaskPayload} {attempts : Int} {g : CreationGhost} :
    (publishTask payload attempts).wp (creationMonitor req)
      (fun r g' => Prog.onResult
        (fun _ => g' = { g with sent := g.sent ++ [taskMessage payload attempts] })
        (fun _ => g'.failed = true) r) g := by
  have hclose : ∀ (e : Exc) (g' : CreationGhost), g'.failed = true →
      (Prog.effect .closeChannel : TaskProg Unit).wp (creationMonitor req)
        (fun r' g'' => Prog.onResult (fun _ => g''.failed = true)
          (fun _ => g''.failed = true) r') g' :=
    fun e g' hg' => wp_create_call trivial (fun _ => hg') (fun _ => rfl)
  refine (Prog.wp_bind _ _ _ _ _).2 (wp_create_call trivial (fun _ => ?_) (fun _ => rfl))
  refine (Prog.wp_tryFinally _ _ _ _ _).2 ((Prog.wp_bind _ _ _ _ _).2
    (wp_create_call trivial (fun _ => ?_) (fun e => hclose e _ rfl)))
  refine wp_create_call ⟨rfl, rfl⟩ (fun _ => ?_) (fun e => hclose e _ rfl)
  exact wp_create_call trivial (fun _ => rfl) (fun _ => rfl)

variable [UrlValidator]

/-- The task shows the row: the message built from it is the row's. -/
def Shows (row : TaskRow) (task : TaskResponse) : Prop :=
  task.id = row.id ∧ task.maxAttempts = row.maxAttempts

omit [UrlValidator] in
theorem Shows.message {row : TaskRow} {task : TaskResponse} (h : Shows row task) :
    taskMessage ⟨task.id⟩ task.maxAttempts = row.message := by
  rw [h.1, h.2]
  rfl

theorem shows_of_modelValidate {row : TaskRow} {task : TaskResponse}
    (h : TaskResponse.modelValidate row = some task) :
    Shows row task := by
  obtain ⟨-, hid, -, hattempts⟩ := TaskResponse.modelValidate_eq_some h
  exact ⟨hid, hattempts⟩

theorem createTask_inserts {userId : UserId} {url : String} {method : HttpMethod}
    {headers : Option Headers} {body : Option String} {maxAttempts : Int}
    (hsingle : ¬ req.IsBatch) :
    (createTask userId url method headers body maxAttempts .beforeRmq).wp (creationMonitor req)
      (fun r g => Prog.onResult
        (fun task => ∃ rows row,
          g = { rows := rows, inserted := true } ∧ row ∈ rows ∧ Shows row task)
        (fun _ => g.durable = []) r)
      {} := by
  have hprepares : req.Prepares {} (.execute (.insertTasks [createTaskRow]
      (createTaskParams userId url method headers body maxAttempts .beforeRmq))) := by
    refine ⟨rfl, rfl, by simp, fun _ =>
      ⟨⟨userId, url, method, headers, body, maxAttempts, .beforeRmq, 0⟩, ?_, rfl⟩,
      fun hbatch => absurd hbatch hsingle⟩
    simp only [List.mapM_cons, List.mapM_nil, createTaskRow_eval]
    rfl
  refine (Prog.wp_bind _ _ _ _ _).2
    (wp_create_execute hprepares (fun rows => ?_) (fun _ => rfl))
  simp only [Prog.onResult_ok]
  cases hrow : fetchone rows with
  | none =>
      rfl
  | some row =>
      refine wp_modelValidate (fun task htask => ?_) rfl
      exact ⟨rows, row, rfl, List.mem_of_mem_head? hrow, shows_of_modelValidate htask⟩

/-- What `get_db` needs of a handler. -/
def Prepared (req : TaskRequest) : Except Exc Response → CreationGhost → Prop
  | .ok _, g =>
      g.failed = false ∧ (req.IsSingle → g.rows = [] ∧ g.confirmed = true) ∧
      (req.IsBatch → g.inserted = true ∧ ∀ row ∈ g.rows, row.message ∈ g.sent)
  | .error _, g => req.IsSingle → g.durable ≠ [] → g.failed = true ∨ g.confirmed = true

theorem requestCreate_prepares {user : UserId} {taskData : TaskCreate}
    (hreq : req = .create user taskData) :
    (requestCreate taskData user).wp (creationMonitor req) (Prepared req) {} := by
  subst hreq
  have hfailed : ∀ (e : Exc) (g : CreationGhost), g.durable = [] ∨ g.failed = true →
      Prepared (.create user taskData) (.error (.httpException 500 e.str)) g := by
    rintro e g (hnone | hfailed) _ hdurable
    · exact absurd hnone hdurable
    · exact Or.inl hfailed
  have hcommit : ∀ {Q : Except Exc Unit → CreationGhost → Prop} {g : CreationGhost},
      g.failed = false → g.InsertPhase ∨ g.ConfirmPhase →
      Q (.ok ()) (g.succeed [] .commit) →
      (∀ e, Q (.error e) (g.falter .commit)) →
      (Prog.effect .commit : TaskProg Unit).wp (creationMonitor (.create user taskData)) Q g :=
    fun hg hphase hok herr => wp_create_call ⟨hg, False.elim, fun _ => hphase⟩ (fun _ => hok) herr
  refine (Prog.wp_bind _ _ _ _ _).2 ((Prog.wp_tryCatch _ _ _ _ _).2 ?_)
  refine (Prog.wp_bind _ _ _ _ _).2 (Prog.wp_mono _ (createTask_inserts id) ?_)
  rintro (e | task) g hg
  · exact hfailed e g (Or.inl hg)
  · obtain ⟨rows, row, rfl, hrow, hshows⟩ := hg
    -- first commit: the row is durable
    refine (Prog.wp_bind _ _ _ _ _).2
      (hcommit rfl (Or.inl ⟨rfl, rfl, rfl⟩) ?_ fun e => hfailed e _ (Or.inl rfl))
    refine (Prog.wp_bind _ _ _ _ _).2 (Prog.wp_mono _ publishTask_announces ?_)
    rintro (e | _) g hg
    · exact hfailed e g (Or.inr hg)
    · -- the message is out: confirm, and commit twice
      subst hg
      have hprepares : ∃ row' ∈ rows, row'.id = task.id ∧
          row'.message ∈ [taskMessage ⟨task.id⟩ task.maxAttempts] := by
        refine ⟨row, hrow, hshows.1.symm, ?_⟩
        rw [hshows.message]
        exact List.mem_singleton_self _
      refine (Prog.wp_bind _ _ _ _ _).2 ((Prog.wp_bind _ _ _ _ _).2 (wp_create_call
        hprepares (fun _ => ?_) (fun e => hfailed e _ (Or.inr rfl))))
      refine hcommit rfl (Or.inr ⟨rfl, Or.inl rfl⟩) ?_ (fun e => hfailed e _ (Or.inr rfl))
      refine (Prog.wp_bind _ _ _ _ _).2
        (hcommit rfl (Or.inr ⟨rfl, Or.inr rfl⟩) ?_ (fun e => hfailed e _ (Or.inr rfl)))
      refine (Prog.wp_bind _ _ _ _ _).2
        (wp_create_call trivial (fun _ => ?_) (fun e => hfailed e _ (Or.inr rfl)))
      exact ⟨rfl, fun _ => ⟨rfl, rfl⟩, False.elim⟩

omit [UrlValidator] in
theorem publishAll_announces {tasks : List TaskResponse} {g : CreationGhost} :
    (publishAll tasks).wp (creationMonitor req)
      (fun r g' => Prog.onResult
        (fun _ => g' = { g with
          sent := g.sent ++ tasks.map fun task => taskMessage ⟨task.id⟩ task.maxAttempts })
        (fun _ => True) r) g := by
  induction tasks generalizing g with
  | nil =>
      exact congrArg (fun sent => { g with sent := sent }) (List.append_nil g.sent).symm
  | cons task rest ih =>
      refine (Prog.wp_bind _ _ _ _ _).2 (Prog.wp_mono _ publishTask_announces ?_)
      rintro (e | _) g' hg'
      · trivial
      · subst hg'
        refine Prog.wp_mono _ ih ?_
        rintro (e | _) g'' hg''
        · trivial
        · simpa using hg''

theorem validateAll_shows (rows : List TaskRow) {g : CreationGhost} :
    (validateAll rows).wp (creationMonitor req)
      (fun r g' => g' = g ∧
        Prog.onResult (fun tasks => List.Forall₂ Shows rows tasks) (fun _ => True) r) g := by
  refine wp_validateAll (fun tasks htasks => ⟨rfl, ?_⟩) fun _ _ => ⟨rfl, trivial⟩
  exact htasks.imp fun row task htask => shows_of_modelValidate htask

theorem createTasksBatch_inserts {userId : UserId} {tasksData : List TaskCreate}
    (hbatch : ¬ req.IsSingle) (hnonempty : tasksData.length ≠ 0) :
    (createTasksBatch userId tasksData).wp (creationMonitor req)
      (fun r g => Prog.onResult
        (fun tasks => ∃ rows,
          g = { rows := rows, inserted := true } ∧ List.Forall₂ Shows rows tasks)
        (fun _ => True) r)
      {} := by
  unfold createTasksBatch
  split
  · rename_i hempty
    exact absurd (by simpa using hempty) hnonempty
  · have hvalues : (batchLoop 0 tasksData ([], [⟨"user_id", .int userId, .Integer⟩])).1 ≠ [] := by
      rw [batchLoop_eq]
      simpa using hnonempty
    have hpending : ∀ news, (batchLoop 0 tasksData
        ([], [⟨"user_id", .int userId, .Integer⟩])).1.mapM (InsertRow.eval (batchLoop 0 tasksData
          ([], [⟨"user_id", .int userId, .Integer⟩])).2) = some news →
        ∀ t ∈ news, t.status = .pending := by
      intro news hnews t ht
      obtain ⟨row, hrow, heval⟩ := mem_of_mapM_eq_some hnews ht
      rw [batchLoop_eq] at hrow heval
      simp only [List.nil_append, List.mem_map] at hrow
      obtain ⟨idx, -, rfl⟩ := hrow
      exact (batchRow_eval heval).2.2
    refine (Prog.wp_bind _ _ _ _ _).2 (wp_create_execute
      ⟨rfl, rfl, hvalues, fun hsingle => absurd hsingle hbatch, fun _ => hpending⟩
      (fun rows => ?_) (fun _ => trivial))
    refine Prog.wp_mono _ (validateAll_shows rows) ?_
    rintro (e | tasks) g ⟨rfl, htasks⟩
    · trivial
    · exact ⟨rows, rfl, htasks⟩

omit [UrlValidator] in
/-- The messages built from the tasks are those of the rows. -/
theorem messages_of_shows {rows : List TaskRow} {tasks : List TaskResponse}
    (h : List.Forall₂ Shows rows tasks) :
    (tasks.map fun task => taskMessage ⟨task.id⟩ task.maxAttempts) =
      rows.map TaskRow.message := by
  induction h with
  | nil =>
      rfl
  | cons hshows _ ih =>
      rw [List.map_cons, List.map_cons, hshows.message, ih]

theorem requestCreateBatch_prepares {user : UserId} {tasksData : List TaskCreate}
    (hreq : req = .createBatch user tasksData) :
    (requestCreateBatch tasksData user).wp (creationMonitor req) (Prepared req) {} := by
  subst hreq
  have hfailed : ∀ (e : Exc) (g : CreationGhost),
      (if e.isValueError then (.raise (.httpException 400 e.str) : TaskProg (List TaskResponse))
        else .raise (.httpException 500 e.str)).wp (creationMonitor (.createBatch user tasksData))
        (fun r g' => Prog.onResult
          (fun tasks => (pure (.tasks tasks) : TaskProg Response).wp
            (creationMonitor (.createBatch user tasksData))
            (Prepared (.createBatch user tasksData)) g')
          (fun e => Prepared (.createBatch user tasksData) (.error e) g') r) g := by
    intro e g
    split <;> exact False.elim
  refine (Prog.wp_bind _ _ _ _ _).2 ((Prog.wp_tryCatch _ _ _ _ _).2 ?_)
  unfold createRequestTasksBatch
  split
  · exact hfailed _ _
  · rename_i hlength
    refine (Prog.wp_bind _ _ _ _ _).2 (Prog.wp_mono _ (createTasksBatch_inserts id hlength) ?_)
    rintro (e | tasks) g hg
    · exact hfailed e g
    · obtain ⟨rows, rfl, hshows⟩ := hg
      refine (Prog.wp_bind _ _ _ _ _).2 (Prog.wp_mono _ publishAll_announces ?_)
      rintro (e | _) g hg
      · exact hfailed e g
      · rw [Prog.onResult_ok] at hg
        subst hg
        refine (Prog.wp_bind _ _ _ _ _).2 (wp_create_call trivial (fun _ => ?_) ?_)
        · refine ⟨rfl, False.elim, fun _ => ⟨rfl, fun row hrow => ?_⟩⟩
          have hsent : row.message ∈ [] ++ tasks.map
              fun task => taskMessage ⟨task.id⟩ task.maxAttempts := by
            rw [List.nil_append, messages_of_shows hshows]
            exact List.mem_map_of_mem hrow
          exact hsent
        · intro e
          exact hfailed e _

omit [UrlValidator] in
theorem getDb_delivers {handler : TaskProg Response} {g : CreationGhost}
    (hhandler : handler.wp (creationMonitor req) (Prepared req) g) :
    (getDb handler).wp (creationMonitor req) req.Delivers g := by
  refine wp_getDb req.Delivers (fun e => req.Delivers (.error e)) (fun r g' hg' => ?_)
    (fun e g' hg' => ?_) (Prog.wp_mono _ hhandler ?_)
  · exact wp_create_call trivial (fun _ => hg') (fun _ _ _ => Or.inl rfl)
  · exact wp_create_call trivial (fun _ => hg') (fun _ _ _ => Or.inl rfl)
  · rintro (e | response) g' hg
    · exact hg
    · obtain ⟨hfailed, hsingle, hbatch⟩ := hg
      refine wp_create_call (fun hreq => (hbatch hreq).1) (fun _ => ?_) (fun _ _ _ => Or.inl rfl)
      refine wp_create_call
        ⟨hfailed, fun hreq => (hbatch hreq).2,
          fun hreq => Or.inr ⟨(hsingle hreq).1, Or.inr (hsingle hreq).2⟩⟩
        (fun _ hreq _ => Or.inr ?_) (fun _ _ _ => Or.inl rfl)
      show (g'.confirmed || g'.confirming) = true
      rw [(hsingle hreq).2]
      rfl

theorem TaskRequest.handler_prepares (hcreates : req.Creates) :
    req.handler.wp (creationMonitor req) (Prepared req) {} := by
  cases hreq : req with
  | create user taskData =>
      exact requestCreate_prepares rfl
  | createBatch user tasksData =>
      exact requestCreateBatch_prepares rfl
  | info user taskId =>
      subst hreq
      exact hcreates.elim
  | userTasks user skip limit =>
      subst hreq
      exact hcreates.elim
  | delete user taskId =>
      subst hreq
      exact hcreates.elim
  | update user taskId taskData =>
      subst hreq
      exact hcreates.elim

omit [UrlValidator] in
theorem TaskRequest.creates_of_single (h : req.IsSingle) : req.Creates := by
  cases req <;> simp_all [IsSingle, Creates]

omit [UrlValidator] in
theorem TaskRequest.creates_of_batch (h : req.IsBatch) : req.Creates := by
  cases req <;> simp_all [IsBatch, Creates]

omit [UrlValidator] in
theorem TaskRequest.single_or_batch (h : req.Creates) : req.IsSingle ∨ req.IsBatch := by
  cases req <;> simp_all [IsSingle, IsBatch, Creates]

variable (req) in
/-- Every creation keeps to the order, whatever its calls answer. -/
theorem TaskRequest.prepares :
    req.program.wp (creationMonitor req) req.Delivers {} := by
  by_cases hcreates : req.Creates
  · exact getDb_delivers (req.handler_prepares hcreates)
  · refine Prog.wp_of_allows _ (fun _ _ h => absurd h hcreates) fun _ _ hsingle => ?_
    exact absurd (TaskRequest.creates_of_single hsingle) hcreates

end Specifications

section Ghost

variable {g : CreationGhost} {o : TaskOp} {r : Reply} {row : TaskRow}

/-- What an answer changes of the transaction that is open. -/
theorem CreationGhost.next_cases (g : CreationGhost) (o : TaskOp)
    (r : Except Exc (List TaskRow)) :
    ((o = .commit ∨ o = .rollback ∨ o = .close) ∧
      (g.next o r).rows = [] ∧ (g.next o r).inserted = false ∧
      (g.next o r).confirming = false) ∨
    ((o ≠ .commit ∧ o ≠ .rollback ∧ o ≠ .close) ∧
      ((∃ values bindparams rows,
          o = .execute (.insertTasks values bindparams) ∧ r = .ok rows ∧
          (g.next o r).rows = g.rows ++ rows ∧ (g.next o r).inserted = true ∧
          (g.next o r).confirming = g.confirming) ∨
        (∃ taskId rows,
          o = .execute (.confirmTask taskId) ∧ r = .ok rows ∧
          (g.next o r).rows = g.rows ∧ (g.next o r).inserted = g.inserted ∧
          (g.next o r).confirming = true) ∨
        ((g.next o r).rows = g.rows ∧ (g.next o r).inserted = g.inserted ∧
          (g.next o r).confirming = g.confirming))) := by
  cases o with
  | commit => cases r <;> exact Or.inl ⟨Or.inl rfl, rfl, rfl, rfl⟩
  | rollback => cases r <;> exact Or.inl ⟨Or.inr (Or.inl rfl), rfl, rfl, rfl⟩
  | close => cases r <;> exact Or.inl ⟨Or.inr (Or.inr rfl), rfl, rfl, rfl⟩
  | execute st =>
      refine Or.inr ⟨by simp, ?_⟩
      cases r with
      | error e => exact Or.inr (Or.inr ⟨rfl, rfl, rfl⟩)
      | ok rows =>
          cases st with
          | insertTasks values bindparams =>
              exact Or.inl ⟨values, bindparams, rows, rfl, rfl, rfl, rfl, rfl⟩
          | confirmTask taskId =>
              exact Or.inr (Or.inl ⟨taskId, rows, rfl, rfl, rfl, rfl, rfl⟩)
          | _ => exact Or.inr (Or.inr ⟨rfl, rfl, rfl⟩)
  | _ =>
      refine Or.inr ⟨by simp, ?_⟩
      cases r <;> exact Or.inr (Or.inr ⟨rfl, rfl, rfl⟩)

theorem CreationGhost.next_rows (h : row ∈ (g.next o r).rows) :
    (row ∈ g.rows ∧ o ≠ .commit ∧ o ≠ .rollback ∧ o ≠ .close) ∨
    (∃ values bindparams rows,
      o = .execute (.insertTasks values bindparams) ∧ r = .ok rows ∧ row ∈ rows) := by
  rcases CreationGhost.next_cases g o r with ⟨-, hrows, -⟩ |
      ⟨hends, ⟨values, bindparams, rows, ho, hr, hrows, -⟩ | ⟨-, -, -, -, hrows, -⟩ | ⟨hrows, -⟩⟩
  · rw [hrows] at h
    cases h
  · rw [hrows] at h
    rcases List.mem_append.1 h with hold | hnew
    · exact Or.inl ⟨hold, hends⟩
    · exact Or.inr ⟨values, bindparams, rows, ho, hr, hnew⟩
  · exact Or.inl ⟨hrows ▸ h, hends⟩
  · exact Or.inl ⟨hrows ▸ h, hends⟩

/-- A row is remembered until the transaction ends. -/
theorem CreationGhost.mem_next_rows (hrow : row ∈ g.rows) (hcommit : o ≠ .commit)
    (hrollback : o ≠ .rollback) (hclose : o ≠ .close) :
    row ∈ (g.next o r).rows := by
  rcases CreationGhost.next_cases g o r with ⟨hends, -⟩ |
      ⟨-, ⟨-, -, rows, -, -, hrows, -⟩ | ⟨-, -, -, -, hrows, -⟩ | ⟨hrows, -⟩⟩
  · rcases hends with ho | ho | ho
    · exact absurd ho hcommit
    · exact absurd ho hrollback
    · exact absurd ho hclose
  · rw [hrows]
    exact List.mem_append_left _ hrow
  · rwa [hrows]
  · rwa [hrows]

theorem CreationGhost.next_inserted (h : (g.next o r).inserted = true) :
    (g.inserted = true ∧ o ≠ .commit ∧ o ≠ .rollback ∧ o ≠ .close) ∨
    (∃ values bindparams rows,
      o = .execute (.insertTasks values bindparams) ∧ r = .ok rows) := by
  rcases CreationGhost.next_cases g o r with ⟨-, -, hinserted, -⟩ |
      ⟨hends, ⟨values, bindparams, rows, ho, hr, -⟩ | ⟨-, -, -, -, -, hinserted, -⟩ |
        ⟨-, hinserted, -⟩⟩
  · rw [hinserted] at h
    cases h
  · exact Or.inr ⟨values, bindparams, rows, ho, hr⟩
  · exact Or.inl ⟨hinserted ▸ h, hends⟩
  · exact Or.inl ⟨hinserted ▸ h, hends⟩

theorem CreationGhost.next_durable (h : row ∈ (g.next o r).durable) :
    row ∈ g.durable ∨ (o = .commit ∧ (∃ rows, r = .ok rows) ∧ row ∈ g.rows) := by
  cases r with
  | ok rows =>
      cases o with
      | execute st => cases st <;> exact Or.inl h
      | commit =>
          rcases List.mem_append.1 h with hold | hnew
          · exact Or.inl hold
          · exact Or.inr ⟨rfl, ⟨rows, rfl⟩, hnew⟩
      | _ => exact Or.inl h
  | error e => cases o <;> exact Or.inl h

theorem CreationGhost.mem_next_durable (h : row ∈ g.durable) : row ∈ (g.next o r).durable := by
  cases r with
  | ok rows =>
      cases o with
      | execute st => cases st <;> exact h
      | commit => exact List.mem_append_left _ h
      | _ => exact h
  | error e => cases o <;> exact h

theorem CreationGhost.next_sent {message : TaskMessage} (h : message ∈ (g.next o r).sent) :
    message ∈ g.sent ∨
    (∃ exchange routingKey rows,
      o = .basicPublish exchange routingKey message ∧ r = .ok rows) := by
  cases r with
  | ok rows =>
      cases o with
      | execute st => cases st <;> exact Or.inl h
      | basicPublish exchange routingKey message' =>
          rcases List.mem_append.1 h with hold | hnew
          · exact Or.inl hold
          · rw [List.mem_singleton] at hnew
            subst hnew
            exact Or.inr ⟨exchange, routingKey, rows, rfl, rfl⟩
      | _ => exact Or.inl h
  | error e => cases o <;> exact Or.inl h

theorem CreationGhost.mem_next_sent {message : TaskMessage} (h : message ∈ g.sent) :
    message ∈ (g.next o r).sent := by
  cases r with
  | ok rows =>
      cases o with
      | execute st => cases st <;> exact h
      | basicPublish exchange routingKey message' => exact List.mem_append_left _ h
      | _ => exact h
  | error e => cases o <;> exact h

theorem CreationGhost.next_failed (h : g.failed = true) : (g.next o r).failed = true := by
  cases r with
  | ok rows =>
      cases o with
      | execute st => cases st <;> exact h
      | _ => exact h
  | error e => cases o <;> rfl

theorem CreationGhost.next_error_failed (e : Exc) : (g.next o (.error e)).failed = true := by
  cases o <;> rfl

end Ghost

section Running

variable {ι : Type}

/-- What the history of a creation amounts to. -/
def creationOf (hist : List (TaskOp × Reply)) : CreationGhost :=
  hist.foldl (fun g e => g.next e.1 e.2) {}

theorem creationOf_snoc (hist : List (TaskOp × Reply)) (o : TaskOp) (r : Reply) :
    creationOf (hist ++ [(o, r)]) = (creationOf hist).next o r := by
  simp [creationOf, List.foldl_append]

/-- All creations of a configuration have kept, and will keep, to the order. -/
abbrev Creating (reqs : ι → TaskRequest) (s : TaskConfig ι) : Prop :=
  Monitored (fun i => creationMonitor (reqs i)) (fun _ => {}) (fun i => (reqs i).Delivers)
    .cancelledError s

theorem startTasks_creating [UrlValidator] (w : World ι) (reqs : ι → TaskRequest) :
    Creating reqs (startTasks w reqs) :=
  Monitored.start fun i => TaskRequest.prepares (reqs i)

theorem Creating.permits {reqs : ι → TaskRequest} {s : TaskConfig ι} (h : Creating reqs s)
    {i : ι} {o : TaskOp} {k : Reply → TaskProg Response} (hp : s.prog i = .op o k)
    (hcreates : (reqs i).Creates) :
    (reqs i).Prepares (creationOf (s.hist i)) o :=
  Monitored.allows h hp hcreates

variable [DecidableEq ι] {reqs : ι → TaskRequest} {s s' : TaskConfig ι} {l : TaskLabel ι}

theorem Creating.step (h : Creating reqs s) (hstep : (taskMachine ι).step s l = some s') :
    Creating reqs s' :=
  Monitored.step (M := taskMachine ι) (fun _ _ _ _ _ _ _ => trivial) h hstep

end Running

section Recording

variable {ι : Type} [DecidableEq ι] {reqs : ι → TaskRequest} {s s' : TaskConfig ι}
variable {l : TaskLabel ι}

/-- A version is there since before the step, or its holder's call wrote it. -/
theorem step_pending (hstep : (taskMachine ι).step s l = some s') {id : UUID} {i : ι}
    {row : TaskRow} (hrow : (s'.world.tasks.slot id).pending = some (i, row)) :
    s'.world.tasks.slot id = s.world.tasks.slot id ∨
    ∃ c o k r,
      l = .op i c ∧
      s.prog i = .op o k ∧
      callOp i c o s.world = some (r, s'.world) ∧
      (s'.world.tasks.slot id = Slot.empty.write i row ∨
        s'.world.tasks.slot id = (s.world.tasks.slot id).write i row ∧
        ∃ st u old,
          o = .execute st ∧ st.write? = some u ∧ u.taskId = id ∧ u.Makes old row ∧
          (s.world.tasks.slot id).visible i = some old ∧
          (s.world.tasks.slot id).lockedFor i = false) := by
  obtain ⟨j, c, o, k, r, w, rfl, hp, hexec, rfl⟩ | ⟨a, w, rfl, henv, rfl⟩ |
      ⟨j, o, k, rfl, hp, rfl⟩ := Machine.step_cases hstep
  · rcases (callOp_slot hexec id).pending hrow with ⟨hsame, -⟩ | ⟨rfl, -, hwrite, -⟩ |
        ⟨rfl, hupdate⟩
    · exact Or.inl hsame
    · exact Or.inr ⟨c, o, k, r, rfl, hp, hexec, Or.inl hwrite⟩
    · exact Or.inr ⟨c, o, k, r, rfl, hp, hexec, Or.inr hupdate⟩
  · have htasks : w.tasks = s.world.tasks := envStep_tasks henv
    simp only [htasks, true_or]
  · left
    obtain ⟨hij, hpending⟩ := Slot.rollback_pending.1 hrow
    refine Slot.rollback_eq_self fun v hv => ?_
    rw [hpending] at hv
    exact hij (congrArg Prod.fst (Option.some.inj hv))

/-- An INSERT that succeeds returns the versions it wrote, one for each row of its VALUES. -/
theorem callOp_ok_insert_rows {i : ι} {c : Choice} {values : List InsertRow}
    {bindparams : List BindParameter} {w w' : World ι} {rows : List TaskRow}
    (h : callOp i c (.execute (.insertTasks values bindparams)) w = some (.ok rows, w')) :
    (∀ row ∈ rows, w'.tasks.slot row.id = Slot.empty.write i row) ∧
    (∀ id, w'.tasks.slot id = w.tasks.slot id ∨ ∃ row ∈ rows, row.id = id) ∧
    ∃ news, values.mapM (InsertRow.eval bindparams) = some news ∧ rows.length = news.length := by
  obtain ⟨news, hnews, hlength, hrows, ht⟩ := callOp_ok_values h
  refine ⟨fun row hrow => ?_, fun id => ?_, news, hnews, by simp [hrows, hlength]⟩
  · exact Table.insertAll_slot_of_mem ht (List.mem_map.2 ⟨row, hrow, rfl⟩)
  · rcases Table.insertAll_slot ht id with ⟨hsame, -⟩ | ⟨-, row, hmem, -⟩
    · exact Or.inl hsame
    · obtain ⟨row', hrow', heq⟩ := List.mem_map.1 hmem
      exact Or.inr ⟨row', hrow', congrArg Prod.fst heq⟩

/-- The table and what the creations remember of it agree. -/
structure Recorded (reqs : ι → TaskRequest) (s : TaskConfig ι) : Prop where
  inserted : ∀ {id i row},
    (s.world.tasks.slot id).pending = some (i, row) → committedTask s id = none →
    (creationOf (s.hist i)).failed = true ∨
      (row ∈ (creationOf (s.hist i)).rows ∧ row.id = id)
  status : ∀ {id i row},
    (s.world.tasks.slot id).pending = some (i, row) → committedTask s id = none →
    ((reqs i).IsSingle → row.status = .beforeRmq) ∧ ((reqs i).IsBatch → row.status = .pending)
  own : ∀ {i o k row},
    s.prog i = .op o k → row ∈ (creationOf (s.hist i)).rows →
    s.world.tasks.slot row.id = Slot.empty.write i row
  durable : ∀ {i row},
    row ∈ (creationOf (s.hist i)).durable →
    ∃ row', committedTask s row.id = some row' ∧ SameTask row row'
  filled : ∀ {i}, (reqs i).Creates → (creationOf (s.hist i)).inserted = true →
    (creationOf (s.hist i)).rows ≠ []

omit [DecidableEq ι] in
theorem startTasks_recorded [UrlValidator] {w : World ι} (hw : w.Quiet) (reqs : ι → TaskRequest) :
    Recorded reqs (startTasks w reqs) where
  inserted h := by simp [startTasks, Machine.start, hw.pending] at h
  status h := by simp [startTasks, Machine.start, hw.pending] at h
  own _ h := by cases h
  durable h := by cases h
  filled _ h := by cases h

section Call

variable {i : ι} {c : Choice} {o : TaskOp} {k : Reply → TaskProg Response} {r : Reply}
variable {w : World ι}

/-- A version of an uncommitted row is as before, or was just inserted. -/
theorem Sound.pending_of_call (hsound : Sound reqs s)
    (hp : s.prog i = .op o k) (hexec : callOp i c o s.world = some (r, w))
    {id : UUID} {j : ι} {row : TaskRow}
    (hrow : (w.tasks.slot id).pending = some (j, row)) (hnone : w.tasks.committed id = none) :
    (w.tasks.slot id = s.world.tasks.slot id ∧ committedTask s id = none ∧
      (j = i → o.ends r = false)) ∨
    (j = i ∧ s.world.tasks.slot id = .empty ∧ w.tasks.slot id = Slot.empty.write i row ∧
      ∃ values bindparams news new createdAt,
        o = .execute (.insertTasks values bindparams) ∧
        values.mapM (InsertRow.eval bindparams) = some news ∧
        new ∈ news ∧ row = NewTask.toRow createdAt id new) := by
  rcases (callOp_slot hexec id).pending hrow with ⟨hsame, hends⟩ | hinserted |
      ⟨rfl, hwrite, st, u, old, rfl, hu, rfl, -, -, -⟩
  · refine Or.inl ⟨hsame, ?_, hends⟩
    rw [← hnone]
    exact (congrArg Slot.committed hsame).symm
  · exact Or.inr hinserted
  · -- an UPDATE is about a committed row
    obtain ⟨-, old', hold', -⟩ := hsound.coupled.write_target hsound.disciplined hp hu
    have hcommitted : w.tasks.committed u.taskId = committedTask s u.taskId :=
      (congrArg Slot.committed hwrite :)
    rw [hnone, hold'] at hcommitted
    cases hcommitted

/-- The same of a whole step. -/
theorem Sound.uncommitted_of_step (hsound : Sound reqs s)
    (hstep : (taskMachine ι).step s l = some s') {id : UUID} {row : TaskRow}
    (hrow : (s'.world.tasks.slot id).pending = some (i, row)) (hnone : committedTask s' id = none) :
    (s'.world.tasks.slot id = s.world.tasks.slot id ∧ committedTask s id = none) ∨
    (∃ c values bindparams news new createdAt k,
      l = .op i c ∧
      s.prog i = .op (.execute (.insertTasks values bindparams)) k ∧
      values.mapM (InsertRow.eval bindparams) = some news ∧
      new ∈ news ∧ row = NewTask.toRow createdAt id new) := by
  have hsame : s'.world.tasks.slot id = s.world.tasks.slot id →
      s'.world.tasks.slot id = s.world.tasks.slot id ∧ committedTask s id = none :=
    fun hslot => ⟨hslot, (congrArg Slot.committed hslot).symm.trans hnone⟩
  obtain ⟨j, c, o, k, r, w, rfl, hp, hexec, rfl⟩ | ⟨a, w, rfl, henv, rfl⟩ |
      ⟨j, o, k, rfl, hp, rfl⟩ := Machine.step_cases hstep
  · rcases hsound.pending_of_call hp hexec hrow hnone with ⟨hslot, -, -⟩ |
        ⟨rfl, -, -, values, bindparams, news, new, createdAt, rfl, hnews, hnew, hnewrow⟩
    · exact Or.inl (hsame hslot)
    · exact Or.inr ⟨c, values, bindparams, news, new, createdAt, k, rfl, hp, hnews, hnew, hnewrow⟩
  · exact Or.inl (hsame (by rw [envStep_tasks henv]))
  · refine Or.inl (hsame (Slot.rollback_eq_self fun v hv => ?_))
    obtain ⟨hij, hpending⟩ := Slot.rollback_pending.1 hrow
    rw [hpending] at hv
    exact hij (congrArg Prod.fst (Option.some.inj hv))

theorem Recorded.inserted_of_call (h : Recorded reqs s) (hsound : Sound reqs s)
    (hp : s.prog i = .op o k) (hexec : callOp i c o s.world = some (r, w))
    {id : UUID} {j : ι} {row : TaskRow}
    (hrow : (w.tasks.slot id).pending = some (j, row)) (hnone : w.tasks.committed id = none) :
    (creationOf (update s.hist i (s.hist i ++ [(o, r)]) j)).failed = true ∨
      (row ∈ (creationOf (update s.hist i (s.hist i ++ [(o, r)]) j)).rows ∧ row.id = id) := by
  rcases hsound.pending_of_call hp hexec hrow hnone with ⟨hsame, hnone', hends⟩ |
      ⟨rfl, hempty, hwrite, values, bindparams, news, new, createdAt, rfl, -, -, rfl⟩
  · have hold := h.inserted (hsame ▸ hrow) hnone'
    by_cases hji : j = i
    · subst hji
      rw [update_self, creationOf_snoc]
      cases r with
      | error e =>
          exact Or.inl (CreationGhost.next_error_failed e)
      | ok rows =>
          refine hold.imp CreationGhost.next_failed fun hmem => ⟨?_, hmem.2⟩
          have hends := hends rfl
          refine CreationGhost.mem_next_rows hmem.1 ?_ ?_ ?_
          · rintro rfl
            cases hends
          · rintro rfl
            cases hends
          · rintro rfl
            cases hends
    · rw [update_of_ne hji]
      exact hold
  · rw [update_self, creationOf_snoc]
    cases r with
    | error e =>
        exact Or.inl (CreationGhost.next_error_failed e)
    | ok rows =>
        right
        obtain ⟨hwritten, hkept, -⟩ := callOp_ok_insert_rows hexec
        rcases hkept id with hsame | ⟨row', hrow', hid⟩
        · rw [hsame, hempty] at hrow
          cases hrow
        · have hslot := hwritten row' hrow'
          rw [hid, hwrite] at hslot
          cases hslot
          exact ⟨List.mem_append_right _ hrow', rfl⟩

theorem Recorded.status_of_call (h : Recorded reqs s) (hsound : Sound reqs s)
    (hc : Creating reqs s) (hp : s.prog i = .op o k)
    (hexec : callOp i c o s.world = some (r, w))
    {id : UUID} {j : ι} {row : TaskRow}
    (hrow : (w.tasks.slot id).pending = some (j, row)) (hnone : w.tasks.committed id = none) :
    ((reqs j).IsSingle → row.status = .beforeRmq) ∧ ((reqs j).IsBatch → row.status = .pending) := by
  rcases hsound.pending_of_call hp hexec hrow hnone with ⟨hsame, hnone', -⟩ |
      ⟨rfl, -, -, values, bindparams, news, new, createdAt, rfl, hnews, hnew, rfl⟩
  · exact h.status (hsame ▸ hrow) hnone'
  · obtain ⟨hcreates, -⟩ := hsound.disciplined.permits hp
    obtain ⟨-, -, -, hsingle, hbatch⟩ := hc.permits hp hcreates
    constructor
    · intro hreq
      obtain ⟨t, ht, hstatus⟩ := hsingle hreq
      rw [hnews] at ht
      cases ht
      rw [List.mem_singleton] at hnew
      subst hnew
      exact hstatus
    · intro hreq
      exact hbatch hreq news hnews new hnew

theorem Recorded.own_of_call (h : Recorded reqs s) (hsound : Sound reqs s)
    (hp : s.prog i = .op o k) (hexec : callOp i c o s.world = some (r, w))
    {row : TaskRow} (hown : row ∈ ((creationOf (s.hist i)).next o r).rows) :
    w.tasks.slot row.id = Slot.empty.write i row := by
  rcases CreationGhost.next_rows hown with ⟨hold, hcommit, hrollback, hclose⟩ |
      ⟨values, bindparams, rows, rfl, rfl, hrow⟩
  · have hslot := h.own hp hold
    have hpending : (s.world.tasks.slot row.id).pending = some (i, row) := by
      rw [hslot]
      rfl
    have hnone : committedTask s row.id = none := committedTask_of_inserted hslot
    rcases (callOp_slot hexec row.id).eq_or_write_of_held hpending hcommit hrollback hclose with
      hsame | ⟨st, u, new, rfl, hw, hid, -, -⟩
    · exact hsame.trans hslot
    · obtain ⟨-, old, hold', -⟩ := hsound.coupled.write_target hsound.disciplined hp hw
      rw [hid, hnone] at hold'
      cases hold'
  · exact (callOp_ok_insert_rows hexec).1 row hrow

theorem Recorded.durable_of_call (h : Recorded reqs s)
    (hp : s.prog i = .op o k) (hexec : callOp i c o s.world = some (r, w))
    {row : TaskRow} (hnew : row ∉ (creationOf (s.hist i)).durable)
    (hdurable : row ∈ ((creationOf (s.hist i)).next o r).durable) :
    w.tasks.committed row.id = some row := by
  rcases CreationGhost.next_durable hdurable with hold | ⟨rfl, ⟨rows, rfl⟩, hown⟩
  · exact absurd hold hnew
  · have hslot := h.own hp hown
    cases callOp_ok hexec
    show ((s.world.tasks.slot row.id).commit i).committed = some row
    rw [hslot, Slot.commit_committed, Slot.visible_write]

theorem Recorded.filled_of_call (h : Recorded reqs s) (hc : Creating reqs s)
    (hp : s.prog i = .op o k) (hexec : callOp i c o s.world = some (r, w))
    (hcreates : (reqs i).Creates)
    (hinserted : ((creationOf (s.hist i)).next o r).inserted = true) :
    ((creationOf (s.hist i)).next o r).rows ≠ [] := by
  rcases CreationGhost.next_inserted hinserted with ⟨hold, hcommit, hrollback, hclose⟩ |
      ⟨values, bindparams, rows, rfl, rfl⟩
  · obtain ⟨row, hrow⟩ := List.exists_mem_of_ne_nil _ (h.filled hcreates hold)
    exact List.ne_nil_of_mem (CreationGhost.mem_next_rows hrow hcommit hrollback hclose)
  · obtain ⟨-, -, hvalues, -⟩ := hc.permits hp hcreates
    obtain ⟨-, -, news, hnews, hlength⟩ := callOp_ok_insert_rows hexec
    have hcount := congrArg List.length (mapM_eq_some_iff.1 hnews)
    rw [List.length_map, List.length_map] at hcount
    have hrows : rows ≠ [] := by
      rw [← List.length_pos_iff] at hvalues ⊢
      omega
    exact List.append_ne_nil_of_right_ne_nil _ hrows

end Call

theorem Recorded.durable_of_step (h : Recorded reqs s) (hsound : Sound reqs s)
    (hstep : (taskMachine ι).step s l = some s') {i : ι} {row : TaskRow}
    (hdurable : row ∈ (creationOf (s.hist i)).durable) :
    ∃ row', committedTask s' row.id = some row' ∧ SameTask row row' := by
  obtain ⟨old, hold, hsame⟩ := h.durable hdurable
  obtain ⟨new, hnew, hadvance⟩ := hsound.coupled.step_advance hstep hold
  exact ⟨new, hnew, hsame.trans hadvance.task⟩

theorem Recorded.call (h : Recorded reqs s) (hsound : Sound reqs s) (hc : Creating reqs s)
    {i : ι} {c : Choice} {o : TaskOp} {k : Reply → TaskProg Response} {r : Reply} {w : World ι}
    (hp : s.prog i = .op o k) (hexec : callOp i c o s.world = some (r, w))
    (hstep : (taskMachine ι).step s (.op i c) = some
      { world := w
        prog := update s.prog i (k r)
        hist := update s.hist i (s.hist i ++ [(o, r)]) }) :
    Recorded reqs
      { world := w
        prog := update s.prog i (k r)
        hist := update s.hist i (s.hist i ++ [(o, r)]) } := by
  refine ⟨h.inserted_of_call hsound hp hexec, h.status_of_call hsound hc hp hexec, ?_, ?_, ?_⟩
  · intro j o' k' row hj hown
    by_cases hji : j = i
    · subst hji
      simp only [update_self, creationOf_snoc] at hown
      exact h.own_of_call hsound hp hexec hown
    · simp only [update_of_ne hji] at hj hown
      have hslot := h.own hj hown
      have hlocked := (callOp_slot hexec row.id).eq_of_locked hji (congrArg Slot.pending hslot)
      exact hlocked.trans hslot
  · intro j row hj
    by_cases hji : j = i
    · subst hji
      simp only [update_self, creationOf_snoc] at hj
      by_cases hold : row ∈ (creationOf (s.hist j)).durable
      · exact h.durable_of_step hsound hstep hold
      · exact ⟨row, h.durable_of_call hp hexec hold hj, SameTask.refl row⟩
    · simp only [update_of_ne hji] at hj
      exact h.durable_of_step hsound hstep hj
  · intro j hcreates hinserted
    by_cases hji : j = i
    · subst hji
      simp only [update_self, creationOf_snoc] at hinserted ⊢
      exact h.filled_of_call hc hp hexec hcreates hinserted
    · simp only [update_of_ne hji] at hinserted ⊢
      exact h.filled hcreates hinserted

omit [DecidableEq ι] in
theorem Recorded.of_tasks_eq (h : Recorded reqs s) {w : World ι}
    (htasks : w.tasks = s.world.tasks) :
    Recorded reqs { s with world := w } := by
  constructor <;> simp only [committedTask, htasks]
  · exact h.inserted
  · exact h.status
  · exact h.own
  · exact h.durable
  · exact h.filled

theorem Recorded.abandon (h : Recorded reqs s) (i : ι) :
    Recorded reqs
      { s with
        world := s.world.rollback i
        prog := update s.prog i (.raise .cancelledError) } := by
  have hcommitted : ∀ id, ((s.world.tasks.slot id).rollback i).committed =
      committedTask s id := fun id => Slot.rollback_committed i _
  refine ⟨?_, ?_, ?_, ?_, h.filled⟩
  · intro id j row hrow hnone
    exact h.inserted (Slot.rollback_pending.1 hrow).2 ((hcommitted id).symm.trans hnone)
  · intro id j row hrow hnone
    exact h.status (Slot.rollback_pending.1 hrow).2 ((hcommitted id).symm.trans hnone)
  · intro j o' k' row hj hown
    have hji : j ≠ i := by
      rintro rfl
      simp at hj
    simp only [update_of_ne hji] at hj hown
    have hslot := h.own hj hown
    have hkept : (s.world.tasks.slot row.id).rollback i = s.world.tasks.slot row.id := by
      refine Slot.rollback_eq_self fun v hv => ?_
      rw [hslot] at hv
      exact hji (congrArg Prod.fst (Option.some.inj hv))
    exact hkept.trans hslot
  · intro j row hj
    obtain ⟨row', hrow', hsame⟩ := h.durable hj
    exact ⟨row', (hcommitted row.id).trans hrow', hsame⟩

theorem Recorded.step (h : Recorded reqs s) (hsound : Sound reqs s) (hc : Creating reqs s)
    (hstep : (taskMachine ι).step s l = some s') :
    Recorded reqs s' := by
  obtain ⟨i, c, o, k, r, w, rfl, hp, hexec, rfl⟩ | ⟨a, w, rfl, henv, rfl⟩ |
      ⟨i, o, k, rfl, hp, rfl⟩ := Machine.step_cases hstep
  · exact h.call hsound hc hp hexec hstep
  · exact h.of_tasks_eq (envStep_tasks henv)
  · exact h.abandon i

/-- What holds of every state that creations can reach. -/
structure Accurate (reqs : ι → TaskRequest) (s : TaskConfig ι) : Prop where
  sound : Sound reqs s
  creating : Creating reqs s
  recorded : Recorded reqs s

theorem Accurate.step (h : Accurate reqs s) (hstep : (taskMachine ι).step s l = some s') :
    Accurate reqs s' :=
  ⟨h.sound.step hstep, h.creating.step hstep, h.recorded.step h.sound h.creating hstep⟩

theorem startTasks_accurate [UrlValidator] {w : World ι} (hw : w.Quiet)
    (reqs : ι → TaskRequest) :
    Accurate reqs (startTasks w reqs) :=
  ⟨sound_of_run hw (Machine.run_nil), startTasks_creating w reqs, startTasks_recorded hw reqs⟩

end Recording

end Creations

end SmartHttpRequester
