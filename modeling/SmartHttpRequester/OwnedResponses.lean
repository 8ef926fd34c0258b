import SmartHttpRequester.StoredResponses

/-!
# Whose tasks a response shows

The domain functions compare the owner that one statement has returned with the
user, and build the response from the row that another statement has returned.
A monitor remembers the rows that the statements of a request have returned and
that its transaction still sees; a response is built from these, and each of its
tasks has an owner that was compared, or that the statement itself named.

`response_owned`: in every interleaved run, every task a response shows is, as
the request sees it when it hands the response over, a task of its user.
-/

namespace SmartHttpRequester

open Foundations Function

section OwnedResponses

/-- The rows returned so far, with the ids by which the statements found them. -/
abbrev Given := List (UUID × TaskRow)

namespace Given

def succeed (g : Given) (rows : List TaskRow) : TaskOp → Given
  | .execute (.insertTasks _ _) => g ++ rows.map fun row => (row.id, row)
  | .execute (.selectUserTasks _ _ _) => g ++ rows.map fun row => (row.id, row)
  | .execute (.selectOwnerStatus taskId) => g ++ (fetchone rows).toList.map (Prod.mk taskId)
  | .execute (.selectTask taskId) => g ++ (fetchone rows).toList.map (Prod.mk taskId)
  | .rollback => []
  | .close => []
  | _ => g

def falter (g : Given) : TaskOp → Given
  | .commit => []
  | .rollback => []
  | .close => []
  | _ => g

def next (g : Given) (o : TaskOp) : Except Exc (List TaskRow) → Given
  | .ok rows => g.succeed rows o
  | .error _ => g.falter o

theorem mem_read {g : Given} {st : Stmt} {taskId : UUID} {rows : List TaskRow} {row : TaskRow}
    (hst : st = .selectOwnerStatus taskId ∨ st = .selectTask taskId)
    (hrow : fetchone rows = some row) : (taskId, row) ∈ g.succeed rows (.execute st) := by
  have hmem : (taskId, row) ∈ (fetchone rows).toList.map (Prod.mk taskId) := by
    simp [hrow]
  rcases hst with rfl | rfl
  · exact List.mem_append_right _ hmem
  · exact List.mem_append_right _ hmem

/-- A statement takes no row away. -/
theorem mem_execute {g : Given} {st : Stmt} {rows : List TaskRow} {e : UUID × TaskRow}
    (he : e ∈ g) : e ∈ g.succeed rows (.execute st) := by
  cases st with
  | insertTasks values bindparams => exact List.mem_append_left _ he
  | selectUserTasks user skip limit => exact List.mem_append_left _ he
  | selectOwnerStatus taskId => exact List.mem_append_left _ he
  | selectTask taskId => exact List.mem_append_left _ he
  | _ => exact he

end Given

/-- The owner of a returned row, where the statement names one. -/
def TaskOp.Names (row : TaskRow) : TaskOp → Prop
  | .execute (.insertTasks values bindparams) =>
      ∃ news new,
        values.mapM (InsertRow.eval bindparams) = some news ∧ new ∈ news ∧
        row.userId = new.userId
  | .execute (.selectUserTasks user _ _) => row.userId = user
  | _ => True

variable [UrlValidator]

/-- The task is a returned row, and a row that was found by the same id has the user as owner. -/
def Given.Owns (g : Given) (user : UserId) (task : TaskResponse) : Prop :=
  ∃ id row owned,
    (id, row) ∈ g ∧ (id, owned) ∈ g ∧
    TaskResponse.modelValidate row = some task ∧ owned.userId = user

/-- Only tasks of the user are shown. -/
def TaskRequest.ShowsOwned (req : TaskRequest) (g : Given) : TaskOp → Prop
  | .respond response => ∀ task ∈ response.shown, g.Owns req.user task
  | _ => True

def givenMonitor (req : TaskRequest) : Prog.Monitor TaskOp (List TaskRow) Exc Given where
  allows := req.ShowsOwned
  expects o r := ∀ rows, r = .ok rows → ∀ row ∈ rows, o.Names row
  next := Given.next

section Specifications

variable {req : TaskRequest} {g : Given}

theorem wp_given_call {o : TaskOp} {Q : Except Exc Unit → Given → Prop}
    (hshows : req.ShowsOwned g o)
    (hok : ∀ rows, Q (.ok ()) (g.succeed rows o))
    (herr : ∀ e, Q (.error e) (g.falter o)) :
    (Prog.effect o : TaskProg Unit).wp (givenMonitor req) Q g :=
  (Prog.wp_effect _ _ _ _).2 ⟨hshows, fun rows _ => hok rows, fun e _ => herr e⟩

theorem wp_given_execute {st : Stmt} {Q : Except Exc (List TaskRow) → Given → Prop}
    (hok : ∀ rows, (∀ row ∈ rows, (TaskOp.execute st).Names row) →
      Q (.ok rows) (g.succeed rows (.execute st)))
    (herr : ∀ e, Q (.error e) (g.falter (.execute st))) :
    (execute st).wp (givenMonitor req) Q g :=
  (Prog.wp_perform _ _ _ _).2
    ⟨trivial, fun rows hrows => hok rows (hrows rows rfl), fun e _ => herr e⟩

/-- What the repository returns with a task is the owner of the task. -/
def OwnerFound : Option (TaskResponse × UserId × TaskStatus) → Given → Prop
  | none, _ => True
  | some (task, userId, _), g => g.Owns userId task

theorem Given.owns_of_mem {id : UUID} {row : TaskRow} {task : TaskResponse} (hrow : (id, row) ∈ g)
    (htask : TaskResponse.modelValidate row = some task) : g.Owns row.userId task :=
  ⟨id, row, row, hrow, hrow, htask, rfl⟩

/-- The row is read a second time; the owner is the one of the first reading. -/
theorem reselectTask_owned {taskId : UUID} {row : TaskRow} (hrow : (taskId, row) ∈ g) :
    (reselectTask taskId).wp (givenMonitor req)
      (fun r g' => Prog.onResult (fun task => g'.Owns row.userId task) (fun _ => True) r) g := by
  refine (Prog.wp_bind _ _ _ _ _).2 (wp_given_execute (fun rows _ => ?_) (fun _ => trivial))
  rw [Prog.onResult_ok]
  cases hread : fetchone rows with
  | none =>
      trivial
  | some read =>
      refine wp_modelValidate (fun task htask => ?_) trivial
      exact ⟨taskId, read, row, Given.mem_read (Or.inr rfl) hread, Given.mem_execute hrow, htask,
        rfl⟩

theorem cancelTask_owned {taskId : UUID} :
    (cancelTask taskId).wp (givenMonitor req)
      (fun r g' => Prog.onResult (OwnerFound · g') (fun _ => True) r) g := by
  refine (Prog.wp_bind _ _ _ _ _).2 (wp_given_execute (fun rows _ => ?_) (fun _ => trivial))
  rw [Prog.onResult_ok]
  cases hrow : fetchone rows with
  | none =>
      trivial
  | some row =>
      have hrest : ∀ g' : Given, (taskId, row) ∈ g' →
          (do
            let task ← reselectTask taskId
            pure (some (task, row.userId, row.status)) :
            TaskProg (Option (TaskResponse × UserId × TaskStatus))).wp (givenMonitor req)
          (fun r g'' => Prog.onResult (OwnerFound · g'') (fun _ => True) r) g' := by
        intro g' hmem
        refine (Prog.wp_bind _ _ _ _ _).2 (Prog.wp_mono _ (reselectTask_owned hmem) ?_)
        rintro (e | task) g'' hg
        · trivial
        · exact hg
      have hmem : (taskId, row) ∈ g.succeed rows (.execute (.selectOwnerStatus taskId)) :=
        Given.mem_read (Or.inl rfl) hrow
      by_cases hpending : row.status = .pending
      · simp only [hpending, if_true]
        refine (Prog.wp_bind _ _ _ _ _).2 (wp_given_call trivial (fun _ => ?_) fun _ => trivial)
        have hread := hrest _ hmem
        rw [hpending] at hread
        exact hread
      · simp only [hpending, if_false]
        exact hrest _ hmem

theorem updateTask_owned {taskId : UUID} {url : String} {method : HttpMethod}
    {headers : Option Headers} {body : Option String} :
    (updateTask taskId url method headers body).wp (givenMonitor req)
      (fun r g' => Prog.onResult (OwnerFound · g') (fun _ => True) r) g := by
  refine (Prog.wp_bind _ _ _ _ _).2 (wp_given_execute (fun rows _ => ?_) (fun _ => trivial))
  rw [Prog.onResult_ok]
  cases hrow : fetchone rows with
  | none =>
      trivial
  | some row =>
      have hmem : (taskId, row) ∈ g.succeed rows (.execute (.selectOwnerStatus taskId)) :=
        Given.mem_read (Or.inl rfl) hrow
      refine (Prog.wp_bind _ _ _ _ _).2 (wp_given_call trivial (fun _ => ?_) fun _ => trivial)
      refine (Prog.wp_bind _ _ _ _ _).2 (Prog.wp_mono _ (reselectTask_owned hmem) ?_)
      rintro (e | task) g' howns
      · trivial
      · -- a failing publication to Redis is caught
        have hredis : (if row.status ≠ task.status then
              Prog.effect (.redisPublish task.id task.status)
            else pure () : TaskProg Unit).wp (givenMonitor req) (fun _ g'' => g'' = g') g' := by
          split
          · exact wp_given_call trivial (fun _ => rfl) fun _ => rfl
          · rfl
        refine (Prog.wp_bind _ _ _ _ _).2 ((Prog.wp_tryCatch _ _ _ _ _).2
          (Prog.wp_mono _ hredis ?_))
        rintro (e | u) g'' rfl
        · exact howns
        · exact howns

/-- What `get_db` needs of a handler. -/
def ShowsOwn (req : TaskRequest) : Except Exc Response → Given → Prop
  | .ok response, g => ∀ task ∈ response.shown, g.Owns req.user task
  | .error _, _ => True

theorem shown_task {task : TaskResponse} (h : g.Owns req.user task) :
    ∀ task' ∈ (Response.task task).shown, g.Owns req.user task' := by
  intro task' htask'
  rw [Response.shown, List.mem_singleton] at htask'
  exact htask' ▸ h

/-- PUT and DELETE respond once the owner they were given is the user. -/
theorem answerWritten_owned {taskId : UUID} {past : String}
    {rest : TaskResponse → TaskProg TaskResponse}
    {p : TaskProg (Option (TaskResponse × UserId × TaskStatus))}
    (hp : p.wp (givenMonitor req)
      (fun r g' => Prog.onResult (OwnerFound · g') (fun _ => True) r) g)
    (hrest : ∀ task g', (rest task).wp (givenMonitor req)
      (fun r g'' => Prog.onResult (fun task' => task' = task ∧ g'' = g') (fun _ => True) r) g') :
    (answerWritten taskId req.user past p rest).wp (givenMonitor req) (ShowsOwn req) g := by
  refine (Prog.wp_bind _ _ _ _ _).2 ((Prog.wp_tryCatch _ _ _ _ _).2 ?_)
  refine (Prog.wp_bind _ _ _ _ _).2 (Prog.wp_mono _ hp ?_)
  rintro (e | _ | ⟨task, userId, currentStatus⟩) g' hg
  · trivial
  · trivial
  · simp only [Prog.onResult_ok]
    split
    · trivial
    · rename_i howner
      obtain rfl := not_not.1 howner
      split
      · trivial
      · refine Prog.wp_mono _ (hrest task g') ?_
        rintro (e | task') g'' hg'
        · trivial
        · obtain ⟨rfl, rfl⟩ := hg'
          exact shown_task hg

theorem requestInfo_owned {taskId : UUID} :
    (requestInfo taskId req.user).wp (givenMonitor req) (ShowsOwn req) g := by
  refine (Prog.wp_bind _ _ _ _ _).2 ((Prog.wp_tryCatch _ _ _ _ _).2 ?_)
  refine (Prog.wp_bind _ _ _ _ _).2 ((Prog.wp_bind _ _ _ _ _).2
    (wp_given_execute (fun rows _ => ?_) fun _ => trivial))
  rw [Prog.onResult_ok]
  cases hrow : fetchone rows with
  | none =>
      trivial
  | some row =>
      refine (Prog.wp_bind _ _ _ _ _).2 (wp_modelValidate (fun task htask => ?_) trivial)
      simp only [Prog.onResult_ok, Prog.wp_pure]
      split
      · trivial
      · rename_i howner
        rw [not_not] at howner
        exact shown_task (howner ▸ Given.owns_of_mem (Given.mem_read (Or.inr rfl) hrow) htask)

/-- The tasks that rows validate to, when the statement has named the user as their owner. -/
theorem owns_of_forall₂ {rows : List TaskRow} {tasks : List TaskResponse} {user : UserId}
    (htasks : List.Forall₂ (fun row task => TaskResponse.modelValidate row = some task) rows tasks)
    (howner : ∀ row ∈ rows, row.userId = user) {task : TaskResponse} (htask : task ∈ tasks) :
    (g ++ rows.map fun row => (row.id, row)).Owns user task := by
  obtain ⟨row, hrow, hvalid⟩ : ∃ row ∈ rows, TaskResponse.modelValidate row = some task :=
    exists_of_forall₂ htasks htask
  rw [← howner row hrow]
  exact Given.owns_of_mem (List.mem_append_right _ (List.mem_map_of_mem hrow)) hvalid

theorem requestUserTasks_owned {skip limit : Nat} :
    (requestUserTasks req.user skip limit).wp (givenMonitor req) (ShowsOwn req) g := by
  refine (Prog.wp_bind _ _ _ _ _).2 ((Prog.wp_bind _ _ _ _ _).2
    (wp_given_execute (fun rows hrows => ?_) fun _ => trivial))
  rw [Prog.onResult_ok]
  exact wp_validateAll (fun tasks htasks task htask => owns_of_forall₂ htasks hrows htask) fun _ _ => trivial

/-- Publishing returns no rows. -/
theorem publishTask_given {payload : TaskPayload} {attempts : Int} :
    (publishTask payload attempts).wp (givenMonitor req) (fun _ g' => g' = g) g := by
  have hclose : ∀ r : Except Exc Unit, (Prog.effect .closeChannel : TaskProg Unit).wp
      (givenMonitor req) (fun r' g' => Prog.onResult (fun _ => g' = g) (fun _ => g' = g) r') g :=
    fun _ => wp_given_call trivial (fun _ => rfl) fun _ => rfl
  refine (Prog.wp_bind _ _ _ _ _).2 (wp_given_call trivial (fun _ => ?_) fun _ => rfl)
  refine (Prog.wp_tryFinally _ _ _ _ _).2 ((Prog.wp_bind _ _ _ _ _).2
    (wp_given_call trivial (fun _ => ?_) fun e => hclose (.error e)))
  exact wp_given_call trivial (fun _ => hclose (.ok ())) fun e => hclose (.error e)

theorem publishAll_given {tasks : List TaskResponse} :
    (publishAll tasks).wp (givenMonitor req) (fun _ g' => g' = g) g := by
  induction tasks with
  | nil =>
      rfl
  | cons task rest ih =>
      refine (Prog.wp_bind _ _ _ _ _).2 (Prog.wp_mono _ publishTask_given ?_)
      rintro (e | _) g' rfl
      · rfl
      · exact ih

theorem createTask_owned {url : String} {method : HttpMethod} {headers : Option Headers}
    {body : Option String} {maxAttempts : Int} {status : TaskStatus} {user : UserId} :
    (createTask user url method headers body maxAttempts status).wp (givenMonitor req)
      (fun r g' => Prog.onResult (fun task => g'.Owns user task) (fun _ => True) r) g := by
  refine (Prog.wp_bind _ _ _ _ _).2 (wp_given_execute (fun rows hrows => ?_) fun _ => trivial)
  rw [Prog.onResult_ok]
  cases hrow : fetchone rows with
  | none =>
      trivial
  | some row =>
      have hmem : row ∈ rows := List.mem_of_mem_head? hrow
      obtain ⟨news, new, hnews, hnew, howner⟩ := hrows row hmem
      simp only [List.mapM_cons, List.mapM_nil, createTaskRow_eval] at hnews
      cases hnews
      obtain rfl := List.mem_singleton.1 hnew
      refine wp_modelValidate (fun task htask => ?_) trivial
      have howns := Given.owns_of_mem (g := g ++ rows.map fun row => (row.id, row))
        (List.mem_append_right _ (List.mem_map_of_mem hmem)) htask
      rwa [howner] at howns

theorem requestCreate_owned {taskData : TaskCreate} :
    (requestCreate taskData req.user).wp (givenMonitor req) (ShowsOwn req) g := by
  refine (Prog.wp_bind _ _ _ _ _).2 ((Prog.wp_tryCatch _ _ _ _ _).2 ?_)
  refine (Prog.wp_bind _ _ _ _ _).2 (Prog.wp_mono _ createTask_owned ?_)
  rintro (e | task) g' howns
  · trivial
  · -- the commits and the message take no row away
    refine (Prog.wp_bind _ _ _ _ _).2 (wp_given_call trivial (fun _ => ?_) fun _ => trivial)
    refine (Prog.wp_bind _ _ _ _ _).2 (Prog.wp_mono _ publishTask_given ?_)
    rintro (e | _) g'' rfl
    · trivial
    · refine (Prog.wp_bind _ _ _ _ _).2 ((Prog.wp_bind _ _ _ _ _).2
        (wp_given_call trivial (fun _ => ?_) fun _ => trivial))
      refine wp_given_call trivial (fun _ => ?_) fun _ => trivial
      refine (Prog.wp_bind _ _ _ _ _).2 (wp_given_call trivial (fun _ => ?_) fun _ => trivial)
      refine (Prog.wp_bind _ _ _ _ _).2 (wp_given_call trivial (fun _ => ?_) fun _ => trivial)
      exact shown_task howns

theorem createTasksBatch_owned {tasksData : List TaskCreate} {user : UserId} :
    (createTasksBatch user tasksData).wp (givenMonitor req)
      (fun r g' => Prog.onResult (fun tasks => ∀ task ∈ tasks, g'.Owns user task)
        (fun _ => True) r) g := by
  unfold createTasksBatch
  split
  · exact fun task htask => by cases htask
  · refine (Prog.wp_bind _ _ _ _ _).2 (wp_given_execute (fun rows hrows => ?_) fun _ => trivial)
    rw [Prog.onResult_ok]
    refine wp_validateAll (fun tasks htasks task htask => ?_) fun _ _ => trivial
    refine owns_of_forall₂ htasks (fun row hrow => ?_) htask
    obtain ⟨news, new, hnews, hnew, howner⟩ := hrows row hrow
    obtain ⟨value, hvalue, heval⟩ := mem_of_mapM_eq_some hnews hnew
    rw [batchLoop_eq] at hvalue heval
    simp only [List.nil_append, List.mem_map] at hvalue
    obtain ⟨idx, -, rfl⟩ := hvalue
    exact howner.trans (batchRow_eval heval).1

theorem requestCreateBatch_owned {tasksData : List TaskCreate} :
    (requestCreateBatch tasksData req.user).wp (givenMonitor req) (ShowsOwn req) g := by
  have hfailed : ∀ (e : Exc) (g' : Given),
      (if e.isValueError then (.raise (.httpException 400 e.str) : TaskProg (List TaskResponse))
        else .raise (.httpException 500 e.str)).wp (givenMonitor req)
        (fun r g'' => Prog.onResult
          (fun tasks => (pure (.tasks tasks) : TaskProg Response).wp (givenMonitor req)
            (ShowsOwn req) g'')
          (fun e => ShowsOwn req (.error e) g'') r) g' := by
    intro e g'
    split <;> trivial
  refine (Prog.wp_bind _ _ _ _ _).2 ((Prog.wp_tryCatch _ _ _ _ _).2 ?_)
  unfold createRequestTasksBatch
  split
  · exact hfailed _ _
  · refine (Prog.wp_bind _ _ _ _ _).2 (Prog.wp_mono _ createTasksBatch_owned ?_)
    rintro (e | tasks) g' howns
    · exact hfailed e g'
    · refine (Prog.wp_bind _ _ _ _ _).2 (Prog.wp_mono _ publishAll_given ?_)
      rintro (e | _) g'' rfl
      · exact hfailed e _
      · exact (Prog.wp_bind _ _ _ _ _).2
          (wp_given_call trivial (fun _ => howns) fun e => hfailed e _)

variable (req) in
/-- Every response is built from rows whose owner was found to be the user. -/
theorem TaskRequest.owned : req.program.wp (givenMonitor req) (fun _ _ => True) [] := by
  have hhandler : req.handler.wp (givenMonitor req) (ShowsOwn req) [] := by
    cases req with
    | create user taskData => exact requestCreate_owned
    | createBatch user tasksData => exact requestCreateBatch_owned
    | info user taskId => exact requestInfo_owned
    | userTasks user skip limit => exact requestUserTasks_owned
    | delete user taskId =>
        rw [TaskRequest.handler, requestDelete_eq]
        refine answerWritten_owned cancelTask_owned fun task g => ?_
        exact (Prog.wp_bind _ _ _ _ _).2
          (wp_given_call trivial (fun _ => ⟨rfl, rfl⟩) fun _ => trivial)
    | update user taskId taskData =>
        rw [TaskRequest.handler, requestUpdate_eq]
        exact answerWritten_owned updateTask_owned
          fun task g => ⟨rfl, rfl⟩
  refine wp_getDb (fun _ _ => True) (fun _ _ => True) (fun r g _ => ?_) (fun e g _ => ?_)
    (Prog.wp_mono _ hhandler ?_)
  · exact wp_given_call trivial (fun _ => trivial) fun _ => trivial
  · exact wp_given_call trivial (fun _ => trivial) fun _ => trivial
  · rintro (e | response) g hg
    · trivial
    · refine wp_given_call hg (fun _ => ?_) fun _ => trivial
      exact wp_given_call trivial (fun _ => trivial) fun _ => trivial

end Specifications

section Ghost

variable {g : Given} {o : TaskOp} {r : Reply} {id : UUID} {row : TaskRow}

omit [UrlValidator] in
/-- Where a remembered row comes from. -/
theorem Given.mem_next (h : (id, row) ∈ g.next o r) :
    ((id, row) ∈ g ∧ o ≠ .rollback ∧ o ≠ .close) ∨
    ∃ st rows,
      o = .execute st ∧ r = .ok rows ∧
      (((st = .selectOwnerStatus id ∨ st = .selectTask id) ∧ fetchone rows = some row) ∨
        (row ∈ rows ∧ row.id = id ∧
          ((∃ values bindparams, st = .insertTasks values bindparams) ∨
            ∃ user skip limit, st = .selectUserTasks user skip limit))) := by
  have hlisted : ∀ {rows : List TaskRow}, (id, row) ∈ rows.map (fun row => (row.id, row)) →
      row ∈ rows ∧ row.id = id := by
    intro rows hmem
    obtain ⟨row', hrow', heq⟩ := List.mem_map.1 hmem
    cases heq
    exact ⟨hrow', rfl⟩
  have hread : ∀ {rows : List TaskRow} {taskId : UUID},
      (id, row) ∈ (fetchone rows).toList.map (Prod.mk taskId) →
      taskId = id ∧ fetchone rows = some row := by
    intro rows taskId hmem
    obtain ⟨row', hrow', heq⟩ := List.mem_map.1 hmem
    cases heq
    exact ⟨rfl, Option.mem_toList.1 hrow'⟩
  cases r with
  | ok rows =>
      cases o with
      | execute st =>
          cases st with
          | insertTasks values bindparams =>
              rcases List.mem_append.1 h with hold | hnew
              · exact Or.inl ⟨hold, by simp, by simp⟩
              · obtain ⟨hmem, hid⟩ := hlisted hnew
                exact Or.inr ⟨_, rows, rfl, rfl, Or.inr ⟨hmem, hid, Or.inl ⟨_, _, rfl⟩⟩⟩
          | selectUserTasks user skip limit =>
              rcases List.mem_append.1 h with hold | hnew
              · exact Or.inl ⟨hold, by simp, by simp⟩
              · obtain ⟨hmem, hid⟩ := hlisted hnew
                exact Or.inr ⟨_, rows, rfl, rfl, Or.inr ⟨hmem, hid, Or.inr ⟨_, _, _, rfl⟩⟩⟩
          | selectOwnerStatus taskId =>
              rcases List.mem_append.1 h with hold | hnew
              · exact Or.inl ⟨hold, by simp, by simp⟩
              · obtain ⟨rfl, hrow⟩ := hread hnew
                exact Or.inr ⟨_, rows, rfl, rfl, Or.inl ⟨Or.inl rfl, hrow⟩⟩
          | selectTask taskId =>
              rcases List.mem_append.1 h with hold | hnew
              · exact Or.inl ⟨hold, by simp, by simp⟩
              · obtain ⟨rfl, hrow⟩ := hread hnew
                exact Or.inr ⟨_, rows, rfl, rfl, Or.inl ⟨Or.inr rfl, hrow⟩⟩
          | _ => exact Or.inl ⟨h, by simp, by simp⟩
      | rollback => cases h
      | close => cases h
      | _ => exact Or.inl ⟨h, by simp, by simp⟩
  | error e =>
      cases o with
      | commit => cases h
      | rollback => cases h
      | close => cases h
      | _ => exact Or.inl ⟨h, by simp, by simp⟩

end Ghost

section Running

variable {ι : Type}

/-- The rows that the history of a request has returned to it. -/
def givenOf (hist : List (TaskOp × Reply)) : Given :=
  hist.foldl (fun g e => g.next e.1 e.2) []

omit [UrlValidator] in
theorem givenOf_snoc (hist : List (TaskOp × Reply)) (o : TaskOp) (r : Reply) :
    givenOf (hist ++ [(o, r)]) = (givenOf hist).next o r := by
  simp [givenOf, List.foldl_append]

/-- All requests of a configuration show, and will show, only what is their user's. -/
abbrev ShowingOwned (reqs : ι → TaskRequest) (s : TaskConfig ι) : Prop :=
  Monitored (fun i => givenMonitor (reqs i)) (fun _ => []) (fun _ _ _ => True) .cancelledError s

variable [DecidableEq ι] {reqs : ι → TaskRequest} {s s' : TaskConfig ι} {l : TaskLabel ι}
variable {ls : List (TaskLabel ι)} {w : World ι} {i j : ι} {c : Choice} {o : TaskOp} {r : Reply}
variable {k : Reply → TaskProg Response} {id : UUID} {row : TaskRow}

omit [UrlValidator] in
theorem mem_of_mem_userPage {user : UserId} {skip limit : Nat} {rows : List TaskRow}
    (h : row ∈ userPage user skip limit rows) : row ∈ rows ∧ row.userId = user := by
  have hsorted := List.mem_of_mem_drop (List.mem_of_mem_take h)
  rw [List.mem_insertionSort, List.mem_filter] at hsorted
  exact ⟨hsorted.1, of_decide_eq_true hsorted.2⟩

omit [UrlValidator] in
/-- A listing returns a page of the rows that the request sees, and changes nothing. -/
theorem callOp_ok_userPage {user : UserId} {skip limit : Nat} {w w' : World ι}
    {rows : List TaskRow}
    (h : callOp i c (.execute (.selectUserTasks user skip limit)) w = some (.ok rows, w')) :
    rows = userPage user skip limit (w.tasks.rows i c.order) ∧ w'.tasks = w.tasks := by
  have hrun := callOp_ok h
  simp only [runOp, runStmt] at hrun
  split at hrun
  · cases hrun
    exact ⟨rfl, rfl⟩
  · cases hrun

omit [UrlValidator] in
theorem callOp_names {w w' : World ι} (h : callOp i c o w = some (r, w')) :
    ∀ rows, r = .ok rows → ∀ row ∈ rows, o.Names row := by
  rintro rows rfl row hrow
  cases o with
  | execute st =>
      cases st with
      | insertTasks values bindparams =>
          obtain ⟨news, hnews, -, rfl, -⟩ := callOp_ok_values h
          obtain ⟨new, hnew, hnewrow⟩ := mem_zipWith_toRow hrow
          exact ⟨news, new, hnews, hnew, congrArg TaskRow.userId hnewrow⟩
      | selectUserTasks user skip limit =>
          obtain ⟨rfl, -⟩ := callOp_ok_userPage h
          exact (mem_of_mem_userPage hrow).2
      | _ => trivial
  | _ => trivial

theorem ShowingOwned.step (h : ShowingOwned reqs s)
    (hstep : (taskMachine ι).step s l = some s') : ShowingOwned reqs s' :=
  Monitored.step (M := taskMachine ι) (fun _ _ _ _ _ _ hexec => callOp_names hexec) h hstep

omit [UrlValidator] in
/-- A row that a request sees stays in its sight, with its owner, until its transaction is undone. -/
theorem Coupled.visible_of_call (h : Coupled reqs s) (hexec : callOp j c o s.world = some (r, w))
    (hstays : i = j → o ≠ .rollback ∧ o ≠ .close)
    (hrow : (s.world.tasks.slot id).visible i = some row) :
    ∃ row', (w.tasks.slot id).visible i = some row' ∧ row'.userId = row.userId := by
  have hslot := callOp_slot hexec id
  generalize w.tasks.slot id = t' at hslot ⊢
  cases hslot with
  | same ho =>
      exact ⟨row, hrow, rfl⟩
  | commit ho =>
      by_cases hij : i = j
      · subst hij
        exact ⟨row, (Slot.visible_commit i _).trans hrow, rfl⟩
      · rcases Slot.visible_cases j (s.world.tasks.slot id) with ⟨new, hnew, -⟩ | ⟨hno, -⟩
        · -- another request commits its version of the row
          have hold : committedTask s id = some row := by
            rw [← hrow]
            refine (Slot.visible_eq_committed fun v hv => ?_).symm
            rw [hnew] at hv
            exact hij (congrArg Prod.fst (Option.some.inj hv)).symm
          obtain ⟨u, hu⟩ := h.updated hnew hold
          rw [Slot.commit_of_pending hnew]
          exact ⟨new, rfl, hu.makes.sameTask.userId⟩
        · rw [Slot.commit_eq_self hno]
          exact ⟨row, hrow, rfl⟩
  | rollback ho =>
      by_cases hij : i = j
      · obtain ⟨hrollback, hclose⟩ := hstays hij
        exact absurd ho (not_or.2 ⟨hrollback, hclose⟩)
      · exact ⟨row, (Slot.visible_rollback_other hij _).trans hrow, rfl⟩
  | insert ho hnews ht hs =>
      rw [hs] at hrow
      cases hrow
  | @update st u old new ho hu hid hmakes hvisible hlock =>
      by_cases hij : i = j
      · subst hij
        obtain rfl : old = row := Option.some.inj (hvisible.symm.trans hrow)
        exact ⟨new, Slot.visible_write i new _, hmakes.sameTask.userId⟩
      · refine ⟨row, ?_, rfl⟩
        have hcommitted : (s.world.tasks.slot id).visible i = (s.world.tasks.slot id).committed := by
          refine Slot.visible_eq_committed fun v hv => ?_
          simp [Slot.lockedFor, hv, hij] at hlock
        rw [← hrow, hcommitted]
        refine (Slot.visible_eq_committed fun v hv => ?_)
        rw [Slot.write_pending] at hv
        exact hij (congrArg Prod.fst (Option.some.inj hv)).symm

/-- A request still sees, under the same owner, what it was given. -/
def HoldsGiven (s : TaskConfig ι) : Prop :=
  ∀ {i o k id row}, s.prog i = .op o k → (id, row) ∈ givenOf (s.hist i) →
    row.id = id ∧
    ∃ v, (s.world.tasks.slot id).visible i = some v ∧ v.userId = row.userId

omit [UrlValidator] in
/-- What a statement has just returned, the request sees. -/
theorem given_of_call (hfits : NoticesFit s.world) {st : Stmt} {rows : List TaskRow}
    (hexec : callOp i c (.execute st) s.world = some (.ok rows, w))
    (hgiven : ((st = .selectOwnerStatus id ∨ st = .selectTask id) ∧ fetchone rows = some row) ∨
      (row ∈ rows ∧ row.id = id ∧
        ((∃ values bindparams, st = .insertTasks values bindparams) ∨
          ∃ user skip limit, st = .selectUserTasks user skip limit))) :
    row.id = id ∧ (w.tasks.slot id).visible i = some row := by
  rcases hgiven with ⟨hst, hrow⟩ | ⟨hrow, rfl, ⟨values, bindparams, rfl⟩ | ⟨user, skip, limit, rfl⟩⟩
  · have hvisible : (s.world.tasks.slot id).visible i = some row :=
      (callOp_ok_select hst hexec).symm.trans hrow
    have htasks : w.tasks = s.world.tasks := by
      rcases hst with rfl | rfl
      · cases callOp_ok hexec
        rfl
      · cases callOp_ok hexec
        rfl
    rw [htasks]
    exact ⟨hfits.keyedFor i id row hvisible, hvisible⟩
  · rw [(callOp_ok_insert_rows hexec).1 row hrow, Slot.visible_write]
    exact ⟨rfl, rfl⟩
  · obtain ⟨rfl, htasks⟩ := callOp_ok_userPage hexec
    obtain ⟨key, -, hvisible⟩ := List.mem_filterMap.1 (mem_of_mem_userPage hrow).1
    obtain rfl := hfits.keyedFor i key row hvisible
    rw [htasks]
    exact ⟨rfl, hvisible⟩

omit [UrlValidator] in
theorem HoldsGiven.step (h : HoldsGiven s) (hcoupled : Coupled reqs s)
    (hfits : NoticesFit s.world) (hstep : (taskMachine ι).step s l = some s') :
    HoldsGiven s' := by
  obtain ⟨j, c, o, k, r, w, rfl, hp, hexec, rfl⟩ | ⟨a, w, rfl, henv, rfl⟩ |
      ⟨j, o, k, rfl, hp, rfl⟩ := Machine.step_cases hstep
  · intro i o' k' id row hleft hmem
    have hkept : (id, row) ∈ givenOf (s.hist i) → (∃ o k, s.prog i = .op o k) →
        (i = j → o ≠ .rollback ∧ o ≠ .close) →
        row.id = id ∧ ∃ v, (w.tasks.slot id).visible i = some v ∧ v.userId = row.userId := by
      rintro hold ⟨o, k, hrunning⟩ hstays
      obtain ⟨hid, v, hv, howner⟩ := h hrunning hold
      obtain ⟨v', hv', hsame⟩ := hcoupled.visible_of_call hexec hstays hv
      exact ⟨hid, v', hv', hsame.trans howner⟩
    by_cases hij : i = j
    · subst hij
      simp only [update_self, givenOf_snoc] at hmem
      rcases Given.mem_next hmem with ⟨hold, hstays⟩ | ⟨st, rows, rfl, rfl, hgiven⟩
      · exact hkept hold ⟨o, k, hp⟩ fun _ => hstays
      · obtain ⟨hid, hvisible⟩ := given_of_call hfits hexec hgiven
        exact ⟨hid, row, hvisible, rfl⟩
    · simp only [update_of_ne hij] at hleft hmem
      exact hkept hmem ⟨o', k', hleft⟩ fun heq => absurd heq hij
  · intro i o k id row hrunning hmem
    have htasks : w.tasks = s.world.tasks := envStep_tasks henv
    rw [htasks]
    exact h hrunning hmem
  · intro i o' k' id row hrunning hmem
    have hij : i ≠ j := by
      rintro rfl
      simp at hrunning
    simp only [update_of_ne hij] at hrunning
    obtain ⟨hid, v, hv, howner⟩ := h hrunning hmem
    exact ⟨hid, v, (Slot.visible_rollback_other hij _).trans hv, howner⟩

/-- What holds of every state that requests can reach, as far as owners are concerned. -/
structure OwnersKept (reqs : ι → TaskRequest) (s : TaskConfig ι) : Prop where
  sound : Sound reqs s
  fits : NoticesFit s.world
  showing : ShowingOwned reqs s
  holds : HoldsGiven s

theorem OwnersKept.step (h : OwnersKept reqs s) (hstep : (taskMachine ι).step s l = some s') :
    OwnersKept reqs s' where
  sound := h.sound.step hstep
  fits := h.fits.step h.sound hstep
  showing := ShowingOwned.step h.showing hstep
  holds := HoldsGiven.step h.holds h.sound.coupled h.fits hstep

theorem ownersKept_of_run (hw : w.Quiet) (hkeyed : w.Keyed)
    (hrun : (taskMachine ι).run (startTasks w reqs) ls = some s) : OwnersKept reqs s := by
  refine Machine.invariant_of_run (OwnersKept reqs) (fun _ _ _ h hstep => h.step hstep) ?_ hrun
  exact ⟨sound_of_run hw Machine.run_nil, hw.noticesFit hkeyed,
    Monitored.start fun i => TaskRequest.owned (reqs i), fun _ hmem => by cases hmem⟩

/--
In every interleaved run, at whatever moment a request hands its response over,
every task of the response is, as this request sees it, a task of its user.
-/
theorem response_owned (hw : w.Quiet) (hkeyed : w.Keyed)
    (hrun : (taskMachine ι).run (startTasks w reqs) ls = some s) {response : Response}
    (hp : s.prog i = .op (.respond response) k) :
    ∀ task ∈ response.shown, ∃ row,
      (s.world.tasks.slot task.id).visible i = some row ∧ row.userId = (reqs i).user := by
  obtain ⟨-, -, hshowing, hholds⟩ := ownersKept_of_run hw hkeyed hrun
  intro task htask
  obtain ⟨id, row, owned, hrow, howned, hvalid, huser⟩ := Monitored.allows hshowing hp task htask
  obtain ⟨rfl, -⟩ := hholds hp hrow
  obtain ⟨-, v, hv, howner⟩ := hholds hp howned
  rw [(TaskResponse.modelValidate_eq_some hvalid).2.1]
  exact ⟨v, hv, howner.trans huser⟩

end Running

end OwnedResponses

end SmartHttpRequester
