import SmartHttpRequester.SingleClient

/-!
# Batch creation against repeated single creation

`batchAgrees_iff`: for any driver that takes text as text, the batch request
succeeds and leaves what the single requests leave if and only if the list is
not empty and the driver takes the parameters of the batch INSERT.  A driver that
takes only a `str` as text, as asyncpg does, never takes them: the batch path binds
the URL as the object it is (`batch_never_agrees`).
-/

namespace SmartHttpRequester

open Foundations Function

section BatchAgreement

variable {D : Driver} {gen : Nat → UUID} {h : Host}

theorem lookup_eq_some_of_mem {K V : Type} [DecidableEq K] {l : List (K × V)} {k : K} {v : V}
    (hl : (l.map Prod.fst).Nodup) (h : (k, v) ∈ l) :
    l.lookup k = some v := by
  induction l with
  | nil =>
      cases h
  | cons kv l ih =>
      obtain ⟨k₀, v₀⟩ := kv
      rw [List.map_cons, List.nodup_cons] at hl
      rcases List.mem_cons.1 h with heq | hmem
      · cases heq
        simp
      · have hk : k ≠ k₀ := by
          rintro rfl
          exact hl.1 (List.mem_map.2 ⟨(k, v), hmem, rfl⟩)
        rw [List.lookup_cons, beq_eq_false_iff_ne.2 hk]
        exact ih hl.2 hmem

variable [UrlValidator] {b : Books} {user : UserId} {taskData : TaskCreate}
variable {tasksData : List TaskCreate}

omit [UrlValidator] in
/-- The session of a handler that succeeds is committed. -/
theorem completes_getDb {handler : TaskProg Response} {Q : Except Exc Response → Books → Prop}
    (hhandler : Completes D gen handler
      (fun r b' => ∃ response, r = .ok response ∧
        Q (.ok response) { b' with committed := b'.data }) b) :
    Completes D gen (getDb handler) Q b := by
  refine Prog.Achieves.tryFinally (Prog.Achieves.tryCatch (Prog.Achieves.bind
    (hhandler.mono ?_)))
  rintro r b' ⟨response, rfl, hQ⟩
  refine ⟨response, rfl, Prog.Achieves.bind (completes_respond response ⟨_, rfl, ?_⟩)⟩
  refine Prog.Achieves.bind (completes_commit ⟨_, rfl, ?_⟩)
  exact Prog.achieves_ret ⟨response, rfl, completes_close ⟨rfl, hQ⟩⟩

omit [UrlValidator] in
/-- The exception of a handler that fails reaches the client. -/
theorem completes_getDb_error {handler : TaskProg Response} {e : Exc}
    (hhandler : Completes D gen handler (fun r _ => r = .error e) b) :
    Completes D gen (getDb handler) (fun r _ => r = .error e) b := by
  refine Prog.Achieves.tryFinally (Prog.Achieves.tryCatch_error (Prog.Achieves.bind_error
    (hhandler.mono ?_)))
  rintro r b' rfl
  refine ⟨e, rfl, e, rfl, Prog.Achieves.bind (completes_rollback ⟨_, rfl, ?_⟩)⟩
  exact Prog.achieves_raise (completes_close ⟨rfl, rfl⟩)

/-- The task as the API returns it after its INSERT. -/
def createdTask (now : Timestamp) (status : TaskStatus) (id : UUID) (taskData : TaskCreate) :
    TaskResponse where
  id := id
  url := taskData.url
  method := taskData.method
  headers := taskData.headers
  body := taskData.body
  status := status
  attemptCount := 0
  maxAttempts := taskData.maxAttempts
  result := none
  createdAt := now
  updatedAt := none

theorem modelValidate_toRow {now : Timestamp} {id : UUID} {status : TaskStatus}
    (hurl : UrlValidator.validate taskData.url.str = some taskData.url) :
    TaskResponse.modelValidate ((newTask user taskData status).toRow now id) =
      some (createdTask now status id taskData) :=
  Option.map_eq_some_iff.2 ⟨taskData.url, hurl, rfl⟩

/-- What the client has of a created task. -/
def Books.record (gen : Nat → UUID) (user : UserId) (b : Books) (taskData : TaskCreate) : Books :=
  let data := update b.data (gen b.drawn) (some (newTask user taskData .pending))
  { data := data
    committed := data
    messages := b.messages ++ [taskMessage ⟨gen b.drawn⟩ taskData.maxAttempts]
    created := b.created + 1
    drawn := b.drawn + 1 }

omit [UrlValidator] in
theorem Books.Fresh.record (hgen : Injective gen) (hfresh : b.Fresh gen) :
    (b.record gen user taskData).Fresh gen := by
  intro n hn
  have hlt : b.drawn < n := hn
  have hne : gen n ≠ gen b.drawn := fun h => by
    have := hgen h
    omega
  simpa [Books.record, hne] using hfresh n hlt.le

theorem completes_create (hgen : Injective gen) (hfresh : b.Fresh gen)
    (haccepts : D.accepts (.execute (.insertTasks [createTaskRow]
      (createTaskParams user taskData.url.str taskData.method taskData.headers taskData.body
        taskData.maxAttempts .beforeRmq))) = true)
    (hurl : UrlValidator.validate taskData.url.str = some taskData.url) :
    Completes D gen (TaskRequest.create user taskData).program
      (fun _ b' => b' = b.record gen user taskData) b := by
  have heval : [createTaskRow].mapM (InsertRow.eval (createTaskParams user taskData.url.str
      taskData.method taskData.headers taskData.body taskData.maxAttempts .beforeRmq)) =
      some [newTask user taskData .beforeRmq] :=
    mapM_eq_some_iff.2 (by simp [createTaskRow_eval, newTask])
  refine completes_getDb (Prog.Achieves.bind (Prog.Achieves.tryCatch ?_))
  refine Prog.Achieves.bind (Prog.Achieves.bind ?_)
  refine completes_insert haccepts heval rfl hgen hfresh fun now => ⟨_, rfl, ?_⟩
  refine (show Completes D gen (modelValidate
    ((newTask user taskData .beforeRmq).toRow now (gen b.drawn))) _ _ from ?_)
  rw [modelValidate, modelValidate_toRow hurl]
  refine Prog.achieves_ret ⟨_, rfl, ?_⟩
  refine Prog.Achieves.bind (completes_commit ⟨_, rfl, ?_⟩)
  refine Prog.Achieves.bind (completes_publishTask _ _ ⟨_, rfl, ?_⟩)
  refine Prog.Achieves.bind (Prog.Achieves.bind (completes_confirm
    (t := newTask user taskData .beforeRmq) ?_ rfl ⟨_, rfl, ?_⟩))
  · simp [freshIds, createdTask]
  refine completes_commit ⟨_, rfl, ?_⟩
  refine Prog.Achieves.bind (completes_commit ⟨_, rfl, ?_⟩)
  refine Prog.Achieves.bind (completes_inc 1 ⟨_, rfl, ?_⟩)
  refine Prog.achieves_ret ⟨_, rfl, _, rfl, Prog.achieves_ret ⟨_, rfl, ?_⟩⟩
  have hdata : update (fun id => (((freshIds gen b.drawn 1).zip
      [newTask user taskData .beforeRmq]).lookup id).or (b.data id)) (gen b.drawn)
      (some { newTask user taskData .beforeRmq with status := .pending }) =
      update b.data (gen b.drawn) (some (newTask user taskData .pending)) := by
    funext id
    by_cases hid : id = gen b.drawn
    · simp [hid, newTask]
    · have hne : (id == gen b.drawn) = false := beq_eq_false_iff_ne.2 hid
      simp [hid, freshIds, List.lookup_cons, hne]
  exact Books.ext hdata hdata rfl rfl rfl

theorem completes_validateAll {rows : List TaskRow} {tasks : List TaskResponse}
    {Q : Except Exc (List TaskResponse) → Books → Prop}
    (hvalid : rows.map TaskResponse.modelValidate = tasks.map some) (hQ : Q (.ok tasks) b) :
    Completes D gen (validateAll rows) Q b := by
  induction rows generalizing tasks Q with
  | nil =>
      obtain rfl := List.map_eq_nil_iff.1 hvalid.symm
      exact Prog.achieves_ret hQ
  | cons row rows ih =>
      cases tasks with
      | nil => cases hvalid
      | cons task tasks =>
          rw [List.map_cons, List.map_cons, List.cons.injEq] at hvalid
          refine Prog.Achieves.bind ?_
          rw [modelValidate, hvalid.1]
          refine Prog.achieves_ret ⟨_, rfl, Prog.Achieves.bind (ih hvalid.2 ⟨_, rfl, ?_⟩)⟩
          exact Prog.achieves_ret hQ

omit [UrlValidator] in
theorem completes_publishAll {tasks : List TaskResponse} {Q : Except Exc Unit → Books → Prop}
    (hQ : Q (.ok ()) { b with
      messages := b.messages ++ tasks.map fun task => taskMessage ⟨task.id⟩ task.maxAttempts }) :
    Completes D gen (publishAll tasks) Q b := by
  induction tasks generalizing b with
  | nil =>
      refine Prog.achieves_ret ?_
      simpa using hQ
  | cons task tasks ih =>
      refine Prog.Achieves.bind (completes_publishTask _ _ ⟨_, rfl, ih ?_⟩)
      simpa using hQ

/-- The validated rows of the batch INSERT, one for each element. -/
theorem validate_created {now : Timestamp} (ids : List UUID)
    (hurls : ∀ t ∈ tasksData, UrlValidator.validate t.url.str = some t.url) :
    (List.zipWith (NewTask.toRow now) ids (tasksData.map fun t => newTask user t .pending)).map
        TaskResponse.modelValidate =
      (List.zipWith (createdTask now .pending) ids tasksData).map some := by
  induction tasksData generalizing ids with
  | nil =>
      simp
  | cons t tasksData ih =>
      cases ids with
      | nil => rfl
      | cons id ids =>
          have hrest := ih ids fun t' ht' => hurls t' (by simp [ht'])
          simpa [modelValidate_toRow (hurls t (by simp))] using hrest

omit [UrlValidator] in
theorem foldl_record (hgen : Injective gen) (user : UserId) (b : Books)
    (tasksData : List TaskCreate) :
    let b' := tasksData.foldl (Books.record gen user) b
    let ids := freshIds gen b.drawn tasksData.length
    b'.data = (fun id =>
        ((ids.zip (tasksData.map fun t => newTask user t .pending)).lookup id).or (b.data id)) ∧
      (tasksData ≠ [] → b'.committed = b'.data) ∧
      b'.messages = b.messages ++
        List.zipWith (fun id t => taskMessage ⟨id⟩ t.maxAttempts) ids tasksData ∧
      b'.created = b.created + tasksData.length ∧
      b'.drawn = b.drawn + tasksData.length := by
  induction tasksData generalizing b with
  | nil =>
      simp [freshIds]
  | cons t tasksData ih =>
      obtain ⟨hdata, hcommitted, hmessages, hcreated, hdrawn⟩ := ih (b.record gen user t)
      have hids : freshIds gen b.drawn (tasksData.length + 1) =
          gen b.drawn :: freshIds gen (b.drawn + 1) tasksData.length := by
        simp [freshIds, List.range'_succ]
      have hnew : gen b.drawn ∉ freshIds gen (b.drawn + 1) tasksData.length := by
        intro hmem
        obtain ⟨n, hn, hid⟩ := List.mem_map.1 hmem
        have := hgen hid
        have := (List.mem_range'_1.1 hn).1
        omega
      simp only [List.foldl_cons, List.length_cons, hids]
      refine ⟨?_, ?_, ?_, ?_, ?_⟩
      · rw [hdata]
        funext id
        by_cases hid : id = gen b.drawn
        · subst hid
          have hnone : ((freshIds gen (b.drawn + 1) tasksData.length).zip
              (tasksData.map fun t => newTask user t .pending)).lookup (gen b.drawn) = none := by
            rw [List.lookup_eq_none_iff]
            rintro ⟨id, x⟩ hmem
            rw [bne_iff_ne]
            rintro rfl
            exact hnew (List.of_mem_zip hmem).1
          simp [Books.record, hnone]
        · have hne : (id == gen b.drawn) = false := beq_eq_false_iff_ne.2 hid
          simp [Books.record, List.lookup_cons, hne, hid]
      · intro _
        by_cases hnil : tasksData = []
        · simp [hnil, Books.record]
        · exact hcommitted hnil
      · rw [hmessages]
        simp [Books.record]
      · rw [hcreated]
        simp only [Books.record]
        omega
      · rw [hdrawn]
        simp only [Books.record]
        omega

/-- A returned task is the committed task of its input. -/
structure Corresponds (user : UserId) (b : Books) (taskData : TaskCreate) (task : TaskResponse) :
    Prop where
  row : b.committed task.id = some (newTask user taskData .pending)
  url : task.url = taskData.url
  method : task.method = taskData.method
  headers : task.headers = taskData.headers
  body : task.body = taskData.body
  maxAttempts : task.maxAttempts = taskData.maxAttempts
  status : task.status = .pending
  attemptCount : task.attemptCount = 0

omit [UrlValidator] in
theorem forall₂_corresponds {now : Timestamp} {ids : List UUID} {b : Books}
    (hlength : ids.length = tasksData.length)
    (hrows : ∀ p ∈ ids.zip tasksData, b.committed p.1 = some (newTask user p.2 .pending)) :
    List.Forall₂ (Corresponds user b) tasksData
      (List.zipWith (createdTask now .pending) ids tasksData) := by
  induction tasksData generalizing ids with
  | nil =>
      simp
  | cons t tasksData ih =>
      cases ids with
      | nil => cases hlength
      | cons id ids =>
          refine List.Forall₂.cons ?_ (ih (Nat.succ.inj hlength) fun p hp => ?_)
          · exact ⟨hrows (id, t) (by simp), rfl, rfl, rfl, rfl, rfl, rfl, rfl⟩
          · exact hrows p (by simp [hp])

/-- A batch whose parameters the driver takes records its tasks, in order. -/
theorem completes_createBatch (hgen : Injective gen) (hfresh : b.Fresh gen)
    (hnil : tasksData ≠ [])
    (haccepts : D.accepts (.execute (batchInsert user tasksData)) = true)
    (hurls : ∀ t ∈ tasksData, UrlValidator.validate t.url.str = some t.url) :
    Completes D gen (TaskRequest.createBatch user tasksData).program
      (fun r b' => b' = tasksData.foldl (Books.record gen user) b ∧
        ∃ tasks, r = .ok (.tasks tasks) ∧ List.Forall₂ (Corresponds user b') tasksData tasks) b := by
  obtain ⟨hdata, hcommitted, hmessages, hcreated, hdrawn⟩ := foldl_record hgen user b tasksData
  rw [batchInsert_eq] at haccepts
  have hlength : ((List.range' 0 tasksData.length).map batchRow).length =
      (tasksData.map fun t => newTask user t .pending).length := by
    simp
  have hids : (freshIds gen b.drawn tasksData.length).length = tasksData.length := by
    simp [freshIds]
  refine completes_getDb (Prog.Achieves.bind (Prog.Achieves.tryCatch ?_))
  rw [createRequestTasksBatch, if_neg (by simpa using hnil)]
  refine Prog.Achieves.bind ?_
  rw [createTasksBatch, if_neg (by simpa using hnil), batchInsert_eq]
  refine Prog.Achieves.bind (completes_insert haccepts (batchRows_eval user tasksData) hlength
    hgen hfresh fun now => ⟨_, rfl, ?_⟩)
  rw [List.length_map]
  refine completes_validateAll (validate_created _ hurls) ⟨_, rfl, ?_⟩
  refine Prog.Achieves.bind (completes_publishAll ⟨_, rfl, ?_⟩)
  refine Prog.Achieves.bind (completes_inc _ ⟨_, rfl, ?_⟩)
  refine Prog.achieves_ret ⟨_, rfl, _, rfl, Prog.achieves_ret ⟨_, rfl, ?_⟩⟩
  refine ⟨Books.ext hdata.symm ((hcommitted hnil).trans hdata).symm ?_ ?_ hdrawn.symm, _, rfl,
    forall₂_corresponds hids fun p hp => ?_⟩
  · rw [hmessages, List.map_zipWith]
    rfl
  · rw [hcreated, List.length_zipWith, hids, min_self]
  · have hkeys : (((freshIds gen b.drawn tasksData.length).zip
        (tasksData.map fun t => newTask user t .pending)).map Prod.fst).Nodup := by
      rw [List.map_fst_zip (by simp [hids])]
      exact (List.nodup_range').map hgen
    have hmem : (p.1, newTask user p.2 .pending) ∈ (freshIds gen b.drawn tasksData.length).zip
        (tasksData.map fun t => newTask user t .pending) := by
      rw [List.zip_map_right]
      exact List.mem_map.2 ⟨p, hp, rfl⟩
    show (List.lookup p.1 _).or _ = _
    rw [lookup_eq_some_of_mem hkeys hmem]
    rfl

/-- The only other outcome of a batch: an error, 400 without elements, 500 from the driver. -/
theorem completes_createBatch_error
    (h : ¬ (tasksData ≠ [] ∧ D.accepts (.execute (batchInsert user tasksData)) = true)) :
    ∃ code detail, Completes D gen (TaskRequest.createBatch user tasksData).program
      (fun r _ => r = .error (.httpException code detail)) b := by
  by_cases hnil : tasksData = []
  · refine ⟨400, "At least one task must be provided.", completes_getDb_error
      (Prog.Achieves.bind_error (Prog.Achieves.tryCatch_error ?_))⟩
    rw [createRequestTasksBatch, if_pos (by simp [hnil])]
    exact Prog.achieves_raise ⟨_, rfl, Prog.achieves_raise ⟨_, rfl, rfl⟩⟩
  · have hrefused : D.accepts (.execute (batchInsert user tasksData)) = false := by
      by_contra haccepts
      rw [Bool.not_eq_false] at haccepts
      exact h ⟨hnil, haccepts⟩
    refine ⟨500, "invalid input for query argument", completes_getDb_error
      (Prog.Achieves.bind_error (Prog.Achieves.tryCatch_error ?_))⟩
    rw [createRequestTasksBatch, if_neg (by simpa using hnil)]
    refine Prog.Achieves.bind_error ?_
    rw [createTasksBatch, if_neg (by simpa using hnil)]
    refine Prog.Achieves.bind_error (Prog.achieves_perform fun w _ => ?_)
    refine ⟨.error (.external "invalid input for query argument"), w, ?_, _, rfl, _, rfl, ?_⟩
    · rw [answer, hrefused]
      rfl
    · exact ⟨_, rfl, Prog.achieves_raise ⟨_, rfl, rfl⟩⟩

omit [UrlValidator] in
/-- A driver that takes the parameters of the batch takes those of each single INSERT. -/
theorem accepts_create (hD : D.TakesText)
    (haccepts : D.accepts (.execute (batchInsert user tasksData)) = true)
    (ht : taskData ∈ tasksData) :
    D.accepts (.execute (.insertTasks [createTaskRow]
      (createTaskParams user taskData.url.str taskData.method taskData.headers taskData.body
        taskData.maxAttempts .beforeRmq))) = true := by
  rw [batchInsert_eq] at haccepts
  simp only [Driver.accepts, TaskOp.bindparams, Bool.and_eq_true, List.all_eq_true] at haccepts
  obtain ⟨i, hi⟩ := List.mem_iff_getElem?.1 ht
  have hmem : ∀ p ∈ batchParams i taskData, D.encodes p.type p.value = true := by
    intro p hp
    refine haccepts.2 p ?_
    simp only [batchBindparams, List.mem_cons, List.mem_flatMap, Prod.exists,
      List.mem_zipIdx_iff_getElem?]
    exact Or.inr ⟨taskData, i, hi, hp⟩
  have huser := haccepts.2 ⟨"user_id", .int user, .Integer⟩ (by simp [batchBindparams])
  simp only [batchParams, List.forall_mem_cons] at hmem
  obtain ⟨-, hmethod, hheaders, hbody, hmax, -⟩ := hmem
  simp only [Driver.accepts, TaskOp.bindparams, createTaskParams, Bool.and_eq_true,
    List.all_eq_true, List.forall_mem_cons]
  exact ⟨decide_eq_true hD.parameters, huser, hD.str _, hmethod, hheaders, hbody, hmax, hD.status _,
    by simp⟩

/-- Requests one after the other, whatever they answer. -/
def evalRequests (D : Driver) (gen : Nat → UUID) : List TaskRequest → Host → Option Host
  | [], h => some h
  | req :: reqs, h =>
      (req.program.eval (answer D gen) h).bind fun rh => evalRequests D gen reqs rh.2

theorem evalRequests_create (hgen : Injective gen) (hfresh : h.books.Fresh gen)
    (haccepts : ∀ t ∈ tasksData, D.accepts (.execute (.insertTasks [createTaskRow]
      (createTaskParams user t.url.str t.method t.headers t.body t.maxAttempts .beforeRmq))) = true)
    (hurls : ∀ t ∈ tasksData, UrlValidator.validate t.url.str = some t.url) :
    ∃ h', evalRequests D gen (tasksData.map (.create user)) h = some h' ∧
      h'.books = tasksData.foldl (Books.record gen user) h.books := by
  induction tasksData generalizing h with
  | nil =>
      exact ⟨h, rfl, rfl⟩
  | cons t tasksData ih =>
      obtain ⟨r, h₁, heval, hbooks⟩ := completes_create hgen hfresh
        (haccepts t (by simp)) (hurls t (by simp)) h rfl
      obtain ⟨h', heval', hbooks'⟩ := ih (h := h₁) (by rw [hbooks]; exact hfresh.record hgen)
        (fun t' ht' => haccepts t' (by simp [ht'])) (fun t' ht' => hurls t' (by simp [ht']))
      refine ⟨h', ?_, ?_⟩
      · rw [List.map_cons, evalRequests, heval]
        exact heval'
      · rw [hbooks', hbooks]
        rfl

/-- The same rows, messages and count, up to the ids; `ρ` renames them. -/
structure SameWork (ρ : Equiv.Perm UUID) (b b' : Books) : Prop where
  rows : ∀ id, b.committed id = b'.committed (ρ id)
  messages : (b.messages.map fun m => { m with body := ⟨ρ m.body.taskId⟩ }) = b'.messages
  created : b.created = b'.created

/--
The batch succeeds, answers with one task for each element in order, and leaves
what the single creations leave.
-/
def BatchAgrees (D : Driver) (gen : Nat → UUID) (user : UserId) (tasksData : List TaskCreate)
    (h : Host) : Prop :=
  ∃ tasks hb hs,
    (TaskRequest.createBatch user tasksData).program.eval (answer D gen) h =
      some (.ok (.tasks tasks), hb) ∧
    evalRequests D gen (tasksData.map (.create user)) h = some hs ∧
    List.Forall₂ (Corresponds user hb.books) tasksData tasks ∧
    ∃ ρ, SameWork ρ hb.books hs.books

theorem not_batchAgrees_of_refused
    (hrefused : ¬ (tasksData ≠ [] ∧ D.accepts (.execute (batchInsert user tasksData)) = true)) :
    ¬ BatchAgrees D gen user tasksData h := by
  rintro ⟨tasks, hb, hs, heval, -⟩
  obtain ⟨code, detail, hcompletes⟩ : ∃ code detail,
      Completes D gen (TaskRequest.createBatch user tasksData).program
        (fun r _ => r = .error (.httpException code detail)) h.books :=
    completes_createBatch_error hrefused
  obtain ⟨r, h', heval', rfl⟩ := hcompletes h rfl
  rw [heval] at heval'
  cases heval'

/--
The two paths agree if and only if there is a task and the driver takes the
parameters of the batch INSERT.
-/
theorem batchAgrees_iff (hD : D.TakesText) (hgen : Injective gen) (hfresh : h.books.Fresh gen)
    (hurls : ∀ t ∈ tasksData, UrlValidator.validate t.url.str = some t.url) :
    BatchAgrees D gen user tasksData h ↔
      tasksData ≠ [] ∧ D.accepts (.execute (batchInsert user tasksData)) = true := by
  constructor
  · intro hagrees
    by_contra hrefused
    exact not_batchAgrees_of_refused hrefused hagrees
  · rintro ⟨hnil, haccepts⟩
    obtain ⟨r, hb, heval, hbooks, tasks, rfl, hcorresponds⟩ :=
      completes_createBatch hgen hfresh hnil haccepts hurls h rfl
    obtain ⟨hs, heval', hbooks'⟩ := evalRequests_create hgen hfresh
      (fun t ht => accepts_create hD haccepts ht) hurls
    refine ⟨tasks, hb, hs, heval, heval', hcorresponds, Equiv.refl UUID, ?_⟩
    rw [hbooks, hbooks']
    exact ⟨fun _ => rfl, by simp, rfl⟩

/-- With a driver that takes text only for text, the two paths never agree. -/
theorem batch_never_agrees (hD : D.RefusesUrls) (gen : Nat → UUID) (user : UserId)
    (tasksData : List TaskCreate) (h : Host) :
    ¬ BatchAgrees D gen user tasksData h := by
  refine not_batchAgrees_of_refused ?_
  rintro ⟨hnil, haccepts⟩
  rw [hD.accepts_batch hnil] at haccepts
  cases haccepts

omit [UrlValidator] in
/-- Not for two tasks either. -/
theorem batch_never_agrees_asyncpg :
    letI := sampleUrls
    ¬ BatchAgrees asyncpg (fun n => BitVec.ofNat 128 n) 1 [sampleTask, sampleTask]
      ⟨worldOf Unit [], 0⟩ := by
  let := sampleUrls
  exact batch_never_agrees asyncpg_refusesUrls _ 1 [sampleTask, sampleTask] _

omit [UrlValidator] in
/-- One task: the batch is answered with 500, the single creation makes its row. -/
theorem batch_fails_on_one :
    letI := sampleUrls
    let gen : Nat → UUID := fun n => BitVec.ofNat 128 n
    let start : Host := ⟨worldOf Unit [], 0⟩
    ((TaskRequest.createBatch 1 [sampleTask]).program.eval (answer asyncpg gen) start).map Prod.fst =
      some (.error (.httpException 500 "invalid input for query argument")) ∧
    ((evalRequests asyncpg gen [.create 1 sampleTask] start).bind fun h => h.books.committed 0) =
      some (newTask 1 sampleTask .pending) ∧
    ¬ BatchAgrees asyncpg gen 1 [sampleTask] start := by
  let := sampleUrls
  refine ⟨by decide, by decide, not_batchAgrees_of_refused ?_⟩
  decide

end BatchAgreement

end SmartHttpRequester
