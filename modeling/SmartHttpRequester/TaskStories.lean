import SmartHttpRequester.Creations
import SmartHttpRequester.TaskStore

/-!
# The story of a request

A monitor that follows a request through its transactions.  It remembers the
rows inserted, the UPDATE answered and the actions brought to a commit.  A
transaction writes once, a commit comes only if no call has failed, and what is
committed is a beginning of the actions of the request, with exactly its data;
a request that succeeds has committed all of them (`TaskRequest.tells`).

A failing publication to Redis is the one failure that a request survives.
-/

namespace SmartHttpRequester

open Foundations

section TaskStories

/-- What a request has performed, and what its open transaction holds. -/
structure StoryGhost where
  /-- rows inserted and not yet committed -/
  rows : List TaskRow := []
  /-- an UPDATE answered and not yet committed -/
  writing : Option StoreAction := none
  /-- the actions brought to a commit -/
  performed : List StoreAction := []
  /-- a call failed, other than a publication to Redis -/
  failed : Bool := false

/-- The action of an UPDATE. -/
def Stmt.action? : Stmt → Option StoreAction
  | .insertTasks _ _ => none
  | .selectOwnerStatus _ => none
  | .selectTask _ => none
  | .selectUserTasks _ _ _ => none
  | .cancelTask taskId => some (.canceled taskId)
  | .updateTask taskId url method headers body =>
      some (.edited taskId { url := ⟨url⟩, method := method, headers := headers, body := body })
  | .confirmTask taskId => some (.confirmed taskId)

namespace StoryGhost

/-- What a commit performs. -/
def action? (g : StoryGhost) : Option StoreAction :=
  match g.rows with
  | [] => g.writing
  | row :: rest => some (.created (row :: rest))

/-- The open transaction has ended. -/
def ended (g : StoryGhost) : StoryGhost :=
  { g with rows := [], writing := none }

def succeed (g : StoryGhost) (rows : List TaskRow) : TaskOp → StoryGhost
  | .execute (.insertTasks _ _) => { g with rows := g.rows ++ rows }
  | .execute st => { g with writing := st.action?.or g.writing }
  | .commit => { g.ended with performed := g.performed ++ g.action?.toList }
  | .rollback => g.ended
  | .close => g.ended
  | _ => g

def falter (g : StoryGhost) : TaskOp → StoryGhost
  | .redisPublish _ _ => g
  | _ => { g.ended with failed := true }

def next (g : StoryGhost) (o : TaskOp) : Except Exc (List TaskRow) → StoryGhost
  | .ok rows => g.succeed rows o
  | .error _ => g.falter o

/-- Nothing is uncommitted. -/
def Clean (g : StoryGhost) : Prop :=
  g.rows = [] ∧ g.writing = none

end StoryGhost

/-- One write in a transaction, and at the commit an action that belongs to the request. -/
def TaskRequest.Tells (req : TaskRequest) (g : StoryGhost) : TaskOp → Prop
  | .execute (.insertTasks _ _) => g.Clean
  | .execute st => st.action? ≠ none → g.Clean
  | .commit =>
      g.failed = false ∧ (g.rows = [] ∨ g.writing = none) ∧
      req.MayPerform (g.performed ++ g.action?.toList)
  | _ => True

/-- An INSERT that succeeds returns what its VALUES evaluate to, with ids and one time. -/
def ReturnsInserted (o : TaskOp) (r : Except Exc (List TaskRow)) : Prop :=
  ∀ values bindparams rows,
    o = .execute (.insertTasks values bindparams) → r = .ok rows →
    ∃ createdAt ids news,
      values.mapM (InsertRow.eval bindparams) = some news ∧ ids.length = news.length ∧
      rows = List.zipWith (NewTask.toRow createdAt) ids news

def storyMonitor (req : TaskRequest) : Prog.Monitor TaskOp (List TaskRow) Exc StoryGhost where
  allows := req.Tells
  expects := ReturnsInserted
  next := StoryGhost.next

/-- A request that succeeds has performed its actions. -/
def TaskRequest.Told (req : TaskRequest) : Except Exc Response → StoryGhost → Prop
  | .ok _, g => g.failed = false ∧ req.Effects g.performed
  | .error _, _ => True

variable [UrlValidator]

section Specifications

variable {req : TaskRequest} {g : StoryGhost}

omit [UrlValidator] in
theorem wp_story_call {o : TaskOp} {Q : Except Exc Unit → StoryGhost → Prop}
    (htells : req.Tells g o)
    (hok : ∀ rows, Q (.ok ()) (g.succeed rows o))
    (herr : ∀ e, Q (.error e) (g.falter o)) :
    (Prog.effect o : TaskProg Unit).wp (storyMonitor req) Q g :=
  (Prog.wp_effect _ _ _ _).2 ⟨htells, fun rows _ => hok rows, fun e _ => herr e⟩

omit [UrlValidator] in
theorem wp_story_execute {st : Stmt} {Q : Except Exc (List TaskRow) → StoryGhost → Prop}
    (htells : req.Tells g (.execute st))
    (hok : ∀ rows, ReturnsInserted (.execute st) (.ok rows) →
      Q (.ok rows) (g.succeed rows (.execute st)))
    (herr : ∀ e, Q (.error e) (g.falter (.execute st))) :
    (execute st).wp (storyMonitor req) Q g :=
  (Prog.wp_perform _ _ _ _).2 ⟨htells, fun rows hrows => hok rows hrows, fun e _ => herr e⟩

omit [UrlValidator] in
/-- A SELECT changes nothing of the story. -/
theorem wp_story_select {st : Stmt} {Q : Except Exc (List TaskRow) → StoryGhost → Prop}
    (hst : st.action? = none) (hinsert : ∀ values bindparams, st ≠ .insertTasks values bindparams)
    (hok : ∀ rows, Q (.ok rows) g) (herr : ∀ e, Q (.error e) (g.falter (.execute st))) :
    (execute st).wp (storyMonitor req) Q g := by
  cases st with
  | insertTasks values bindparams => exact absurd rfl (hinsert values bindparams)
  | selectOwnerStatus taskId =>
      exact wp_story_execute (fun h => absurd hst h) (fun rows _ => hok rows) herr
  | selectTask taskId =>
      exact wp_story_execute (fun h => absurd hst h) (fun rows _ => hok rows) herr
  | selectUserTasks user skip limit =>
      exact wp_story_execute (fun h => absurd hst h) (fun rows _ => hok rows) herr
  | _ => cases hst

/-- What the repository leaves behind when it returns a pending task: its UPDATE. -/
def HoldsUpdate (a : StoreAction) : Option (TaskResponse × UserId × TaskStatus) → StoryGhost → Prop
  | none, _ => True
  | some (_, _, currentStatus), g => currentStatus = .pending → g = { writing := some a }

theorem reselectTask_tells {taskId : UUID} :
    (reselectTask taskId).wp (storyMonitor req)
      (fun r g' => Prog.onResult (fun _ => g' = g) (fun _ => True) r) g := by
  refine (Prog.wp_bind _ _ _ _ _).2
    (wp_story_select rfl (by simp) (fun rows => ?_) fun _ => trivial)
  rw [Prog.onResult_ok]
  cases fetchone rows with
  | none =>
      trivial
  | some row => exact wp_modelValidate (fun task _ => rfl) trivial

theorem cancelTask_tells {taskId : UUID} :
    (cancelTask taskId).wp (storyMonitor req)
      (fun r g => Prog.onResult (HoldsUpdate (.canceled taskId) · g) (fun _ => True) r) {} := by
  refine (Prog.wp_bind _ _ _ _ _).2
    (wp_story_select rfl (by simp) (fun rows => ?_) fun _ => trivial)
  rw [Prog.onResult_ok]
  cases hrow : fetchone rows with
  | none =>
      trivial
  | some row =>
      have hrest : ∀ g : StoryGhost,
          (row.status = .pending → g = { writing := some (.canceled taskId) }) →
          (do
            let task ← reselectTask taskId
            pure (some (task, row.userId, row.status)) :
            TaskProg (Option (TaskResponse × UserId × TaskStatus))).wp (storyMonitor req)
          (fun r g => Prog.onResult (HoldsUpdate (.canceled taskId) · g) (fun _ => True) r) g := by
        intro g hg
        refine (Prog.wp_bind _ _ _ _ _).2 (Prog.wp_mono _ reselectTask_tells ?_)
        rintro (e | task) g' hg'
        · trivial
        · obtain rfl : g' = g := hg'
          exact hg
      by_cases hpending : row.status = .pending
      · simp only [hpending, if_true]
        refine (Prog.wp_bind _ _ _ _ _).2
          (wp_story_call (fun _ => ⟨rfl, rfl⟩) (fun _ => ?_) fun _ => trivial)
        have hread := hrest { writing := some (.canceled taskId) } fun _ => rfl
        rw [hpending] at hread
        exact hread
      · simp only [hpending, if_false]
        exact hrest {} fun h => absurd h hpending

theorem updateTask_tells {taskId : UUID} {taskData : TaskUpdate} :
    (updateTask taskId taskData.url.str taskData.method taskData.headers taskData.body).wp
      (storyMonitor req)
      (fun r g => Prog.onResult (HoldsUpdate (.edited taskId taskData) · g) (fun _ => True) r) {} := by
  refine (Prog.wp_bind _ _ _ _ _).2
    (wp_story_select rfl (by simp) (fun rows => ?_) fun _ => trivial)
  rw [Prog.onResult_ok]
  cases hrow : fetchone rows with
  | none =>
      trivial
  | some row =>
      refine (Prog.wp_bind _ _ _ _ _).2
        (wp_story_call (fun _ => ⟨rfl, rfl⟩) (fun _ => ?_) fun _ => trivial)
      refine (Prog.wp_bind _ _ _ _ _).2 (Prog.wp_mono _
        (reselectTask_tells (g := { writing := some (.edited taskId taskData) })) ?_)
      rintro (e | task) g hg
      · trivial
      · -- a failing publication to Redis is caught
        have hredis : (if row.status ≠ task.status then
              Prog.effect (.redisPublish task.id task.status)
            else pure () : TaskProg Unit).wp (storyMonitor req) (fun _ g' => g' = g) g := by
          split
          · exact wp_story_call trivial (fun _ => rfl) fun _ => rfl
          · rfl
        refine (Prog.wp_bind _ _ _ _ _).2 ((Prog.wp_tryCatch _ _ _ _ _).2
          (Prog.wp_mono _ hredis ?_))
        rintro (e | u) g' rfl
        · exact fun _ => hg
        · exact fun _ => hg

/-- What `get_db` needs of a handler. -/
def TaskRequest.Ready (req : TaskRequest) : Except Exc Response → StoryGhost → Prop
  | .ok _, g =>
      g.failed = false ∧ (g.rows = [] ∨ g.writing = none) ∧
      req.Effects (g.performed ++ g.action?.toList)
  | .error _, _ => True

omit [UrlValidator] in
/-- PUT and DELETE respond with nothing but their UPDATE to commit. -/
theorem answerWritten_tells {taskId : UUID} {user : UserId} {past : String} {a : StoreAction}
    {rest : TaskResponse → TaskProg TaskResponse}
    {p : TaskProg (Option (TaskResponse × UserId × TaskStatus))}
    (heffects : req.Effects [a])
    (hp : p.wp (storyMonitor req)
      (fun r g => Prog.onResult (HoldsUpdate a · g) (fun _ => True) r) {})
    (hrest : ∀ task g, (rest task).wp (storyMonitor req)
      (fun r g' => Prog.onResult (fun _ => g' = g) (fun _ => True) r) g) :
    (answerWritten taskId user past p rest).wp (storyMonitor req) req.Ready {} := by
  refine (Prog.wp_bind _ _ _ _ _).2 ((Prog.wp_tryCatch _ _ _ _ _).2 ?_)
  refine (Prog.wp_bind _ _ _ _ _).2 (Prog.wp_mono _ hp ?_)
  rintro (e | _ | ⟨task, userId, currentStatus⟩) g hg
  · trivial
  · trivial
  · simp only [Prog.onResult_ok]
    split
    · trivial
    · split
      · trivial
      · rename_i hstatus
        obtain rfl := hg (not_not.1 hstatus)
        refine Prog.wp_mono _ (hrest task _) ?_
        rintro (e | task') g hg
        · trivial
        · obtain rfl : g = _ := hg
          exact ⟨rfl, Or.inl rfl, heffects⟩

theorem requestInfo_tells {taskId : UUID} {user : UserId} (heffects : req.Effects []) :
    (requestInfo taskId user).wp (storyMonitor req) req.Ready {} := by
  refine (Prog.wp_bind _ _ _ _ _).2 ((Prog.wp_tryCatch _ _ _ _ _).2 ?_)
  refine (Prog.wp_bind _ _ _ _ _).2 ((Prog.wp_bind _ _ _ _ _).2
    (wp_story_select rfl (by simp) (fun rows => ?_) fun _ => trivial))
  rw [Prog.onResult_ok]
  cases hrow : fetchone rows with
  | none =>
      trivial
  | some row =>
      refine (Prog.wp_bind _ _ _ _ _).2 (wp_modelValidate (fun task htask => ?_) trivial)
      simp only [Prog.onResult_ok, Prog.wp_pure]
      split
      · trivial
      · exact ⟨rfl, Or.inl rfl, heffects⟩

theorem requestUserTasks_tells {user : UserId} {skip limit : Nat} (heffects : req.Effects []) :
    (requestUserTasks user skip limit).wp (storyMonitor req) req.Ready {} := by
  refine (Prog.wp_bind _ _ _ _ _).2 ((Prog.wp_bind _ _ _ _ _).2
    (wp_story_select rfl (by simp) (fun rows => ?_) fun _ => trivial))
  rw [Prog.onResult_ok]
  exact wp_validateAll (fun tasks _ => ⟨rfl, Or.inl rfl, heffects⟩) fun _ _ => trivial

omit [UrlValidator] in
/-- Publishing is no part of the story. -/
theorem publishTask_tells {payload : TaskPayload} {attempts : Int} :
    (publishTask payload attempts).wp (storyMonitor req)
      (fun r g' => Prog.onResult (fun _ => g' = g) (fun _ => True) r) g := by
  have hclose : ∀ r : Except Exc Unit, (Prog.effect .closeChannel : TaskProg Unit).wp
      (storyMonitor req)
      (fun r' g' => Prog.onResult
        (fun _ => Prog.onResult (fun _ => g' = g) (fun _ => True) r) (fun _ => True) r') g := by
    rintro (e | _)
    · exact wp_story_call trivial (fun _ => trivial) fun _ => trivial
    · exact wp_story_call trivial (fun _ => rfl) fun _ => trivial
  have hfailed : ∀ (e : Exc) (g' : StoryGhost), (Prog.effect .closeChannel : TaskProg Unit).wp
      (storyMonitor req)
      (fun r' g'' => Prog.onResult
        (fun _ => Prog.onResult (fun _ => g'' = g) (fun _ => True) (.error e : Except Exc Unit))
        (fun _ => True) r') g' :=
    fun e g' => wp_story_call trivial (fun _ => trivial) fun _ => trivial
  refine (Prog.wp_bind _ _ _ _ _).2 (wp_story_call trivial (fun _ => ?_) fun _ => trivial)
  refine (Prog.wp_tryFinally _ _ _ _ _).2 ((Prog.wp_bind _ _ _ _ _).2
    (wp_story_call trivial (fun _ => ?_) fun e => hfailed e _))
  exact wp_story_call trivial (fun _ => hclose (.ok ())) fun e => hfailed e _

omit [UrlValidator] in
theorem publishAll_tells {tasks : List TaskResponse} :
    (publishAll tasks).wp (storyMonitor req)
      (fun r g' => Prog.onResult (fun _ => g' = g) (fun _ => True) r) g := by
  induction tasks with
  | nil =>
      rfl
  | cons task rest ih =>
      refine (Prog.wp_bind _ _ _ _ _).2 (Prog.wp_mono _ publishTask_tells ?_)
      rintro (e | _) g' hg
      · trivial
      · obtain rfl : g' = g := hg
        exact ih

theorem createTask_tells {user : UserId} {taskData : TaskCreate} :
    (createTask user taskData.url.str taskData.method taskData.headers taskData.body
      taskData.maxAttempts .beforeRmq).wp (storyMonitor req)
      (fun r g => Prog.onResult
        (fun task => ∃ row,
          g = { rows := [row] } ∧ task.id = row.id ∧
          (TaskRequest.create user taskData).Inserts [row])
        (fun _ => True) r) {} := by
  refine (Prog.wp_bind _ _ _ _ _).2
    (wp_story_execute ⟨rfl, rfl⟩ (fun rows hrows => ?_) fun _ => trivial)
  obtain ⟨createdAt, ids, news, hnews, hlength, hreturned⟩ := hrows _ _ rows rfl rfl
  simp only [List.mapM_cons, List.mapM_nil, createTaskRow_eval] at hnews
  cases hnews
  obtain ⟨id, rfl⟩ := List.length_eq_one_iff.1 hlength
  rw [Prog.onResult_ok, hreturned]
  refine wp_modelValidate (fun task htask => ?_) trivial
  exact ⟨_, rfl, (TaskResponse.modelValidate_eq_some htask).2.1, createdAt, [id], rfl, rfl⟩

theorem requestCreate_tells {user : UserId} {taskData : TaskCreate} :
    (requestCreate taskData user).wp (storyMonitor (.create user taskData))
      (TaskRequest.Ready (.create user taskData)) {} := by
  refine (Prog.wp_bind _ _ _ _ _).2 ((Prog.wp_tryCatch _ _ _ _ _).2 ?_)
  refine (Prog.wp_bind _ _ _ _ _).2 (Prog.wp_mono _ createTask_tells ?_)
  rintro (e | task) g hg
  · trivial
  · obtain ⟨row, rfl, hid, hinserts⟩ := hg
    have heffects : (TaskRequest.create user taskData).Effects
        [.created [row], .confirmed row.id] := ⟨row, hinserts, rfl⟩
    -- first commit: the row
    refine (Prog.wp_bind _ _ _ _ _).2
      (wp_story_call ⟨rfl, Or.inr rfl, [.confirmed row.id], heffects⟩ (fun _ => ?_)
        fun _ => trivial)
    refine (Prog.wp_bind _ _ _ _ _).2 (Prog.wp_mono _
      (publishTask_tells (g := { performed := [.created [row]] })) ?_)
    rintro (e | _) g hg
    · trivial
    · obtain rfl : g = _ := hg
      -- second commit: the confirmation; the third has nothing to commit
      refine (Prog.wp_bind _ _ _ _ _).2 ((Prog.wp_bind _ _ _ _ _).2
        (wp_story_call (fun _ => ⟨rfl, rfl⟩) (fun _ => ?_) fun _ => trivial))
      rw [Prog.onResult_ok, hid]
      refine wp_story_call ⟨rfl, Or.inl rfl, heffects.mayPerform⟩ (fun _ => ?_) fun _ => trivial
      refine (Prog.wp_bind _ _ _ _ _).2
        (wp_story_call ⟨rfl, Or.inl rfl, heffects.mayPerform⟩ (fun _ => ?_) fun _ => trivial)
      refine (Prog.wp_bind _ _ _ _ _).2 (wp_story_call trivial (fun _ => ?_) fun _ => trivial)
      exact ⟨rfl, Or.inl rfl, heffects⟩

theorem createTasksBatch_tells {user : UserId} {tasksData : List TaskCreate}
    (hnonempty : tasksData.length ≠ 0) :
    (createTasksBatch user tasksData).wp (storyMonitor req)
      (fun r g => Prog.onResult
        (fun _ => ∃ row rest,
          g = { rows := row :: rest } ∧
          (TaskRequest.createBatch user tasksData).Inserts (row :: rest))
        (fun _ => True) r) {} := by
  unfold createTasksBatch
  split
  · rename_i hempty
    exact absurd (by simpa using hempty) hnonempty
  · refine (Prog.wp_bind _ _ _ _ _).2 ?_
    rw [batchInsert_eq]
    refine wp_story_execute ⟨rfl, rfl⟩ (fun rows hrows => ?_) fun _ => trivial
    obtain ⟨createdAt, ids, news, hnews, hlength, rfl⟩ := hrows _ _ rows rfl rfl
    rw [batchRows_eval, Option.some.injEq] at hnews
    subst hnews
    have hinserts : (TaskRequest.createBatch user tasksData).Inserts
        (List.zipWith (NewTask.toRow createdAt) ids
          (tasksData.map fun taskData => newTask user taskData .pending)) :=
      ⟨createdAt, ids, hlength, rfl⟩
    have hlength' : (List.zipWith (NewTask.toRow createdAt) ids
        (tasksData.map fun taskData => newTask user taskData .pending)).length ≠ 0 := by
      rw [List.length_zipWith, hlength, Nat.min_self, List.length_map]
      exact hnonempty
    generalize List.zipWith (NewTask.toRow createdAt) ids
      (tasksData.map fun taskData => newTask user taskData .pending) = rows at hinserts hlength' ⊢
    cases rows with
    | nil => exact absurd rfl hlength'
    | cons row rest =>
        rw [Prog.onResult_ok]
        exact wp_validateAll (fun tasks _ => ⟨row, rest, rfl, hinserts⟩) fun _ _ => trivial

theorem requestCreateBatch_tells {user : UserId} {tasksData : List TaskCreate} :
    (requestCreateBatch tasksData user).wp (storyMonitor (.createBatch user tasksData))
      (TaskRequest.Ready (.createBatch user tasksData)) {} := by
  have hfailed : ∀ (e : Exc) (g : StoryGhost),
      (if e.isValueError then (.raise (.httpException 400 e.str) : TaskProg (List TaskResponse))
        else .raise (.httpException 500 e.str)).wp (storyMonitor (.createBatch user tasksData))
        (fun r g' => Prog.onResult
          (fun tasks => (pure (.tasks tasks) : TaskProg Response).wp
            (storyMonitor (.createBatch user tasksData))
            (TaskRequest.Ready (.createBatch user tasksData)) g')
          (fun e => TaskRequest.Ready (.createBatch user tasksData) (.error e) g') r) g := by
    intro e g
    split <;> trivial
  refine (Prog.wp_bind _ _ _ _ _).2 ((Prog.wp_tryCatch _ _ _ _ _).2 ?_)
  unfold createRequestTasksBatch
  split
  · exact hfailed _ _
  · rename_i hlength
    refine (Prog.wp_bind _ _ _ _ _).2 (Prog.wp_mono _ (createTasksBatch_tells hlength) ?_)
    rintro (e | tasks) g hg
    · exact hfailed e g
    · obtain ⟨row, rest, rfl, hinserts⟩ := hg
      refine (Prog.wp_bind _ _ _ _ _).2 (Prog.wp_mono _
        (publishAll_tells (g := { rows := row :: rest })) ?_)
      rintro (e | _) g hg
      · exact hfailed e g
      · obtain rfl : g = _ := hg
        refine (Prog.wp_bind _ _ _ _ _).2
          (wp_story_call trivial (fun _ => ?_) fun e => hfailed e _)
        exact ⟨rfl, Or.inr rfl, row :: rest, hinserts, rfl⟩

omit [UrlValidator] in
/-- After the response only the commit is left, and then the end of the session. -/
theorem getDb_tells {handler : TaskProg Response}
    (hhandler : handler.wp (storyMonitor req) req.Ready {}) :
    (getDb handler).wp (storyMonitor req) req.Told {} := by
  refine wp_getDb req.Told (fun _ _ => True) (fun r g hg => ?_) (fun e g _ => ?_)
    (Prog.wp_mono _ hhandler ?_)
  · refine wp_story_call trivial (fun _ => ?_) fun _ => trivial
    cases r with
    | ok response => exact hg
    | error e => trivial
  · exact wp_story_call trivial (fun _ => trivial) fun _ => trivial
  · rintro (e | response) g hg
    · trivial
    · obtain ⟨hfailed, hone, heffects⟩ := hg
      refine wp_story_call trivial (fun _ => ?_) fun _ => trivial
      exact wp_story_call ⟨hfailed, hone, heffects.mayPerform⟩ (fun _ => ⟨hfailed, heffects⟩)
        fun _ => trivial

variable (req) in
/-- Every request commits what belongs to it, and all of it if it succeeds. -/
theorem TaskRequest.tells : req.program.wp (storyMonitor req) req.Told {} := by
  refine getDb_tells ?_
  cases req with
  | create user taskData => exact requestCreate_tells
  | createBatch user tasksData => exact requestCreateBatch_tells
  | info user taskId => exact requestInfo_tells rfl
  | userTasks user skip limit => exact requestUserTasks_tells rfl
  | delete user taskId =>
      rw [TaskRequest.handler, requestDelete_eq]
      refine answerWritten_tells rfl cancelTask_tells fun task g => ?_
      exact (Prog.wp_bind _ _ _ _ _).2 (wp_story_call trivial (fun _ => rfl) fun _ => trivial)
  | update user taskId taskData =>
      rw [TaskRequest.handler, requestUpdate_eq]
      exact answerWritten_tells rfl updateTask_tells fun task g => rfl

end Specifications

end TaskStories

end SmartHttpRequester
