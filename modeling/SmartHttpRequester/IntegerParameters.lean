import SmartHttpRequester.BatchInsert
import SmartHttpRequester.PoisonRows

/-!
# Integers that statements bind

`max_attempts`, `skip` and `limit` are Python integers, which have no bounds;
the validators of the three endpoints bound each from one side or from both.
The task repository binds them, and the user's id, as `Integer`, and the driver
sends those in four bytes or raises.

`bindsInt4_iff`: an accepted request binds four-byte integers only, and its
listing returns a page, exactly if its `max_attempts` is not below the smallest
of them and its `skip` not above the largest.
-/

namespace SmartHttpRequester

open Foundations Function

section IntegerParameters

section Validators

/-- `Annotated[int, Query(ge=..., le=...)] = default`, or the same with `Field`. -/
structure IntField where
  ge : Option Int
  le : Option Int
  default : Int

/-- The bounds of a field. -/
def IntField.Accepts (f : IntField) (n : Int) : Prop :=
  (∀ lo ∈ f.ge, lo ≤ n) ∧ ∀ hi ∈ f.le, n ≤ hi

instance (f : IntField) (n : Int) : Decidable (f.Accepts n) :=
  inferInstanceAs (Decidable (_ ∧ _))

/-- The value of a field that may be absent; defaults are not checked. -/
def IntField.validate (f : IntField) : Option Int → Option Int
  | none => some f.default
  | some n => if f.Accepts n then some n else none

/-- `max_attempts: int = Field(default=5, le=20)`. -/
def maxAttemptsField : IntField where
  ge := none
  le := some 20
  default := 5

/-- `skip: Annotated[int, Query(ge=0)] = 0`. -/
def skipField : IntField where
  ge := some 0
  le := none
  default := 0

/-- `limit: Annotated[int, Query(ge=1, le=100)] = 20`. -/
def limitField : IntField where
  ge := some 1
  le := some 100
  default := 20

/-- Every default passes its own check. -/
theorem accepts_default {f : IntField} (hf : f ∈ [maxAttemptsField, skipField, limitField]) :
    f.Accepts f.default := by
  revert f
  decide

theorem IntField.accepts_of_validate {f : IntField} {given : Option Int} {n : Int}
    (hf : f ∈ [maxAttemptsField, skipField, limitField]) (h : f.validate given = some n) :
    f.Accepts n := by
  cases given with
  | none =>
      obtain rfl : f.default = n := Option.some.inj h
      exact accepts_default hf
  | some m =>
      rw [validate] at h
      split at h
      · rename_i haccepts
        exact Option.some.inj h ▸ haccepts
      · cases h

theorem IntField.eq_of_validate {f : IntField} {given : Option Int} {n : Int}
    (h : f.validate given = some n) : given.getD f.default = n := by
  cases given with
  | none => exact Option.some.inj h
  | some m =>
      rw [validate] at h
      split at h
      · exact Option.some.inj h
      · cases h

variable [UrlValidator]

/-- The fields of `TaskCreate` as a client sent them. -/
structure TaskBody where
  url : String
  method : HttpMethod := .GET
  headers : Option Headers := none
  body : Option String := none
  maxAttempts : Option Int := none

/-- Validation of the body of `POST /requests/`. -/
def TaskBody.validate (task : TaskBody) : Option TaskCreate :=
  match UrlValidator.validate task.url, h : maxAttemptsField.validate task.maxAttempts with
  | some url, some maxAttempts =>
      some
        { url := url
          method := task.method
          headers := task.headers
          body := task.body
          maxAttempts := maxAttempts
          maxAttempts_le := (IntField.accepts_of_validate (by simp) h).2 20 rfl }
  | some _, none | none, _ => none

/-- A request to the endpoints that create and list tasks, as a client sent it. -/
inductive ClientRequest
  | create (user : UserId) (taskData : TaskBody)
  | createBatch (user : UserId) (tasksData : List TaskBody)
  | userTasks (user : UserId) (skip limit : Option Int)

/-- The user who sent it. -/
def ClientRequest.user : ClientRequest → UserId
  | .create user _ => user
  | .createBatch user _ => user
  | .userTasks user _ _ => user

/-- The request the endpoint sees; `none` has been answered with status 422. -/
def ClientRequest.validate : ClientRequest → Option TaskRequest
  | .create user taskData => taskData.validate.map (.create user)
  | .createBatch user tasksData =>
      (tasksData.mapM TaskBody.validate).map (.createBatch user)
  | .userTasks user skip limit => do
      let skip ← skipField.validate skip
      let limit ← limitField.validate limit
      return .userTasks user skip.toNat limit.toNat

end Validators

section Statements

/-- What fits into the four bytes of an `Integer`. -/
def IsInt4 (n : Int) : Prop :=
  -2 ^ 31 ≤ n ∧ n ≤ 2 ^ 31 - 1

instance (n : Int) : Decidable (IsInt4 n) :=
  inferInstanceAs (Decidable (_ ∧ _))

/-- Parameters of a statement; ids of tasks are bound as UUIDs. -/
def Stmt.bindparams : Stmt → List BindParameter
  | .insertTasks _ bindparams => bindparams
  | .selectUserTasks userId skip limit =>
      [⟨"user_id", .int userId, .Integer⟩,
        ⟨"skip", .int skip, .Integer⟩,
        ⟨"limit", .int limit, .Integer⟩]
  | .updateTask _ url method headers body =>
      [⟨"url", .str url, .TEXT⟩,
        ⟨"method", .method method, .TEXT⟩,
        ⟨"headers", pyHeaders headers, .JSONB⟩,
        ⟨"body", pyText body, .TEXT⟩]
  | _ => []

/-- The value of a parameter that is bound as `Integer`. -/
def BindParameter.integer? (p : BindParameter) : Option Int :=
  if p.type = .Integer then p.value.asInt else none

/-- What an operation binds as `Integer`. -/
def TaskOp.integers : TaskOp → List Int
  | .execute s => s.bindparams.filterMap BindParameter.integer?
  | _ => []

def TaskOp.BindsInt4 (o : TaskOp) : Prop :=
  ∀ n ∈ o.integers, IsInt4 n

instance (o : TaskOp) : Decidable o.BindsInt4 :=
  inferInstanceAs (Decidable (∀ n ∈ o.integers, IsInt4 n))

/-- A call through a driver that raises for an `Integer` it cannot send. -/
def int4Call {ι : Type} [DecidableEq ι] (i : ι) (c : Choice) (o : TaskOp) (w : World ι) :
    Option (Reply × World ι) :=
  if o.BindsInt4 then callOp i c o w
  else some (.error (.external "value out of int32 range"), w)

theorem int4Call_of_binds {ι : Type} [DecidableEq ι] {o : TaskOp} (h : o.BindsInt4) (i : ι) (c : Choice) :
    int4Call i c o = callOp i c o :=
  funext fun _ => if_pos h

theorem bindsInt4_of_nil {o : TaskOp} (h : o.integers = []) : o.BindsInt4 := by
  intro n hn
  rw [h] at hn
  cases hn

theorem integers_batchInsert (user : UserId) (tasksData : List TaskCreate) :
    (TaskOp.execute (batchInsert user tasksData)).integers =
      user :: tasksData.map TaskCreate.maxAttempts := by
  have hparams : ∀ (task : TaskCreate) (idx : Nat),
      (batchParams idx task).filterMap BindParameter.integer? = [task.maxAttempts] :=
    fun _ _ => rfl
  calc (TaskOp.execute (batchInsert user tasksData)).integers
      = (batchBindparams user tasksData).filterMap BindParameter.integer? := by
        rw [batchInsert_eq]
        rfl
    _ = user :: tasksData.zipIdx.flatMap fun p => [p.1.maxAttempts] := by
        simp [batchBindparams, List.filterMap_flatMap, hparams, BindParameter.integer?,
          PyValue.asInt]
    _ = user :: (tasksData.zipIdx.map Prod.fst).map TaskCreate.maxAttempts := by
        rw [List.map_map, List.map_eq_flatMap]
        rfl
    _ = user :: tasksData.map TaskCreate.maxAttempts := by
        rw [List.zipIdx_map_fst]

end Statements

section Programs

variable {user : UserId}

/-- A call that binds no integer. -/
theorem every_call {o : TaskOp} (h : o.integers = []) :
    (Prog.effect o : TaskProg Unit).Every TaskOp.BindsInt4 :=
  Prog.every_effect.2 (bindsInt4_of_nil h)

theorem every_publishTask (payload : TaskPayload) (attempts : Int) :
    (publishTask payload attempts).Every TaskOp.BindsInt4 :=
  Prog.Every.bind (every_call rfl) fun _ =>
    Prog.Every.tryFinally (Prog.Every.bind (every_call rfl) fun _ => every_call rfl)
      (every_call rfl)

theorem every_publishAll (tasks : List TaskResponse) :
    (publishAll tasks).Every TaskOp.BindsInt4 := by
  induction tasks with
  | nil =>
      exact Prog.every_ret
  | cons task rest ih =>
      exact Prog.Every.bind (every_publishTask _ _) fun _ => ih

theorem every_confirmRmqTask (id : UUID) : (confirmRmqTask id).Every TaskOp.BindsInt4 :=
  Prog.Every.bind (every_call rfl) fun _ => every_call rfl

/-- The session dependency binds nothing. -/
theorem every_getDb {handler : TaskProg Response} :
    (getDb handler).Every TaskOp.BindsInt4 ↔ handler.Every TaskOp.BindsInt4 := by
  constructor
  · intro h
    exact Prog.Every.of_bind (Prog.Every.of_handle (Prog.Every.of_handle h))
  · intro h
    refine Prog.Every.tryFinally (Prog.Every.tryCatch (Prog.Every.bind h fun response => ?_)
      fun exc => ?_) (every_call rfl)
    · exact Prog.Every.bind (every_call rfl) fun _ =>
        Prog.Every.bind (every_call rfl) fun _ => Prog.every_ret
    · exact Prog.Every.bind (every_call rfl) fun _ => Prog.every_raise

variable [UrlValidator]

theorem every_modelValidate (row : TaskRow) : (modelValidate row).Every TaskOp.BindsInt4 := by
  unfold modelValidate
  split
  · exact Prog.every_ret
  · exact Prog.every_raise

theorem every_validateAll (rows : List TaskRow) : (validateAll rows).Every TaskOp.BindsInt4 := by
  induction rows with
  | nil =>
      exact Prog.every_ret
  | cons rawTask rest ih =>
      exact Prog.Every.bind (every_modelValidate rawTask) fun _ =>
        Prog.Every.bind ih fun _ => Prog.every_ret

theorem every_createTask {url : String} {method : HttpMethod} {headers : Option Headers}
    {body : Option String} {maxAttempts : Int} {status : TaskStatus} :
    (createTask user url method headers body maxAttempts status).Every TaskOp.BindsInt4 ↔
      IsInt4 user ∧ IsInt4 maxAttempts := by
  have hinsert : (TaskOp.execute (.insertTasks [createTaskRow]
      (createTaskParams user url method headers body maxAttempts status))).integers =
      [user, maxAttempts] :=
    rfl
  constructor
  · intro h
    have hop := Prog.every_perform.1 (Prog.Every.of_bind h)
    rw [TaskOp.BindsInt4, hinsert] at hop
    exact ⟨hop user (by simp), hop maxAttempts (by simp)⟩
  · rintro ⟨huser, hattempts⟩
    refine Prog.Every.bind (Prog.every_perform.2 ?_) fun query => ?_
    · rw [TaskOp.BindsInt4, hinsert]
      simp [huser, hattempts]
    · cases fetchone query with
      | none => exact Prog.every_raise
      | some rawTask => exact every_modelValidate rawTask

theorem every_requestCreate {taskData : TaskCreate} :
    (requestCreate taskData user).Every TaskOp.BindsInt4 ↔
      IsInt4 user ∧ IsInt4 taskData.maxAttempts := by
  constructor
  · intro h
    exact every_createTask.1 (Prog.Every.of_bind (Prog.Every.of_handle (Prog.Every.of_bind h)))
  · intro h
    refine Prog.Every.bind (Prog.Every.tryCatch (Prog.Every.bind (every_createTask.2 h)
      fun task => ?_) fun _ => Prog.every_raise) fun _ => Prog.every_ret
    exact Prog.Every.bind (every_call rfl) fun _ => Prog.Every.bind (every_publishTask _ _) fun _ =>
      Prog.Every.bind (every_confirmRmqTask _) fun _ => Prog.Every.bind (every_call rfl) fun _ =>
      Prog.Every.bind (every_call rfl) fun _ => Prog.every_ret

theorem every_createTasksBatch {tasksData : List TaskCreate} (hnil : tasksData ≠ []) :
    (createTasksBatch user tasksData).Every TaskOp.BindsInt4 ↔
      IsInt4 user ∧ ∀ taskData ∈ tasksData, IsInt4 taskData.maxAttempts := by
  rw [createTasksBatch, if_neg (by simpa using hnil)]
  have hinsert : (TaskOp.execute (batchInsert user tasksData)).BindsInt4 ↔
      IsInt4 user ∧ ∀ taskData ∈ tasksData, IsInt4 taskData.maxAttempts := by
    rw [TaskOp.BindsInt4, integers_batchInsert]
    simp
  constructor
  · intro h
    exact hinsert.1 (Prog.every_perform.1 (Prog.Every.of_bind h))
  · intro h
    exact Prog.Every.bind (Prog.every_perform.2 (hinsert.2 h)) every_validateAll

theorem every_createRequestTasksBatch {tasksData : List TaskCreate} (huser : IsInt4 user) :
    (createRequestTasksBatch user tasksData).Every TaskOp.BindsInt4 ↔
      ∀ taskData ∈ tasksData, IsInt4 taskData.maxAttempts := by
  rcases eq_or_ne tasksData [] with rfl | hnil
  · exact ⟨fun _ => by simp, fun _ => Prog.every_raise⟩
  rw [createRequestTasksBatch, if_neg (by simpa using hnil)]
  constructor
  · intro h
    exact ((every_createTasksBatch hnil).1 (Prog.Every.of_bind h)).2
  · intro h
    exact Prog.Every.bind ((every_createTasksBatch hnil).2 ⟨huser, h⟩) fun _ =>
      Prog.Every.bind (every_publishAll _) fun _ =>
      Prog.Every.bind (every_call rfl) fun _ => Prog.every_ret

theorem every_requestCreateBatch {tasksData : List TaskCreate} (huser : IsInt4 user) :
    (requestCreateBatch tasksData user).Every TaskOp.BindsInt4 ↔
      ∀ taskData ∈ tasksData, IsInt4 taskData.maxAttempts := by
  rw [← every_createRequestTasksBatch huser]
  constructor
  · intro h
    exact Prog.Every.of_handle (Prog.Every.of_bind h)
  · intro h
    refine Prog.Every.bind (Prog.Every.tryCatch h fun exc => ?_) fun _ => Prog.every_ret
    split <;> exact Prog.every_raise

theorem every_requestUserTasks {skip limit : Nat} :
    (requestUserTasks user skip limit).Every TaskOp.BindsInt4 ↔
      IsInt4 user ∧ IsInt4 skip ∧ IsInt4 limit := by
  have hselect : (TaskOp.execute (.selectUserTasks user skip limit)).BindsInt4 ↔
      IsInt4 user ∧ IsInt4 skip ∧ IsInt4 limit := by
    have hintegers : (TaskOp.execute (.selectUserTasks user skip limit)).integers =
        [user, (skip : Int), (limit : Int)] :=
      rfl
    simp [TaskOp.BindsInt4, hintegers]
  constructor
  · intro h
    exact hselect.1 (Prog.every_perform.1 (Prog.Every.of_bind (Prog.Every.of_bind h)))
  · intro h
    exact Prog.Every.bind (Prog.Every.bind (Prog.every_perform.2 (hselect.2 h)) every_validateAll)
      fun _ => Prog.every_ret

end Programs

section Accepted

variable [UrlValidator]

/-- No `max_attempts` below the smallest four-byte integer, no `skip` above the largest. -/
def ClientRequest.AsksInt4 : ClientRequest → Prop
  | .create _ taskData => ∀ n ∈ taskData.maxAttempts, -2 ^ 31 ≤ n
  | .createBatch _ tasksData => ∀ taskData ∈ tasksData, ∀ n ∈ taskData.maxAttempts, -2 ^ 31 ≤ n
  | .userTasks _ skip _ => ∀ n ∈ skip, n ≤ 2 ^ 31 - 1

/-- With a database that answers and rows that validate, a listing returns a page. -/
def TaskRequest.ReturnsPage (ι : Type) [DecidableEq ι] : TaskRequest → Prop
  | .userTasks user skip limit =>
      ∀ (j : ι) (w : World ι) (order : List UUID),
        Idle j w → Rows.Validate w.tasks.committed → order.Perm w.tasks.keys →
        ∃ tasks, (requestUserTasks user skip limit).eval (int4Call j { order := order }) w =
          some (.ok (.tasks tasks), w.begin j)
  | _ => True

/-- What is expected of an accepted request, whatever its calls answer. -/
structure TaskRequest.KeepsInt4 (ι : Type) [DecidableEq ι] (req : TaskRequest) : Prop where
  binds : req.program.Every TaskOp.BindsInt4
  sent : ∀ (i : ι) c, req.program.Every fun o => int4Call i c o = callOp i c o
  returnsPage : req.ReturnsPage ι

variable {ι : Type} [DecidableEq ι]

/-- The schema's default and its upper bound are four-byte integers. -/
theorem isInt4_maxAttempts {task : TaskBody} {taskData : TaskCreate}
    (h : task.validate = some taskData) :
    IsInt4 taskData.maxAttempts ↔ ∀ n ∈ task.maxAttempts, -2 ^ 31 ≤ n := by
  have hle := taskData.maxAttempts_le
  have hvalue : task.maxAttempts.getD 5 = taskData.maxAttempts := by
    rw [TaskBody.validate] at h
    split at h
    · rename_i url maxAttempts hurl hvalidate
      rw [← Option.some.inj h]
      exact IntField.eq_of_validate hvalidate
    · cases h
    · cases h
  rw [← hvalue] at hle
  rw [IsInt4, ← hvalue]
  generalize task.maxAttempts = given at hle ⊢
  cases given with
  | none => simp
  | some n =>
      simp only [Option.getD_some, Option.mem_some_iff, forall_eq'] at hle ⊢
      omega

theorem requestUserTasks_returnsPage {user : UserId} {skip limit : Nat}
    (h : (requestUserTasks user skip limit).Every TaskOp.BindsInt4) :
    (TaskRequest.userTasks user skip limit).ReturnsPage ι := by
  intro j w order hidle hvalid horder
  obtain ⟨tasks, htasks⟩ := getUserRequestTasks_eval hidle hvalid user skip limit horder
  refine ⟨tasks, ?_⟩
  rw [Prog.eval_congr (h.mono fun o ho => int4Call_of_binds ho j _), requestUserTasks,
    Prog.eval_bind_of_ok htasks]
  rfl

/-- Of a request that was accepted, only what the client asked for matters. -/
theorem bindsInt4_program_iff {raw : ClientRequest} {req : TaskRequest}
    (haccepted : raw.validate = some req) (huser : IsInt4 raw.user) :
    req.program.Every TaskOp.BindsInt4 ↔ raw.AsksInt4 := by
  refine every_getDb.trans ?_
  cases raw with
  | create user task =>
      obtain ⟨taskData, htask, rfl⟩ := Option.map_eq_some_iff.1 haccepted
      exact every_requestCreate.trans ((and_iff_right huser).trans (isInt4_maxAttempts htask))
  | createBatch user tasks =>
      obtain ⟨tasksData, htasks, rfl⟩ := Option.map_eq_some_iff.1 haccepted
      have hmap := mapM_eq_some_iff.1 htasks
      refine (every_requestCreateBatch huser).trans ⟨fun h task htask => ?_, fun h taskData htask => ?_⟩
      · have hmem : task.validate ∈ tasksData.map some := hmap ▸ List.mem_map_of_mem htask
        obtain ⟨taskData, hdata, hvalidate⟩ := List.mem_map.1 hmem
        exact (isInt4_maxAttempts hvalidate.symm).1 (h taskData hdata)
      · have hmem : some taskData ∈ tasks.map TaskBody.validate := hmap ▸ List.mem_map_of_mem htask
        obtain ⟨task, htask', hvalidate⟩ := List.mem_map.1 hmem
        exact (isInt4_maxAttempts hvalidate).2 (h task htask')
  | userTasks user skip limit =>
      obtain ⟨skip', hskip, haccepted⟩ := Option.bind_eq_some_iff.1 haccepted
      obtain ⟨limit', hlimit, hreq⟩ := Option.bind_eq_some_iff.1 haccepted
      obtain rfl : TaskRequest.userTasks user skip'.toNat limit'.toNat = req := Option.some.inj hreq
      refine every_requestUserTasks.trans ((and_iff_right huser).trans ?_)
      have hlimits := IntField.accepts_of_validate (by simp) hlimit
      have hlo := hlimits.1 1 rfl
      have hhi := hlimits.2 100 rfl
      have hskips := (IntField.accepts_of_validate (by simp) hskip).1 0 rfl
      rw [Int.toNat_of_nonneg hskips, Int.toNat_of_nonneg (by omega)]
      refine (and_iff_left ⟨by omega, by omega⟩).trans ?_
      rw [IsInt4, and_iff_right (by omega), ← IntField.eq_of_validate hskip]
      cases skip with
      | none => simp [ClientRequest.AsksInt4, skipField]
      | some n => simp [ClientRequest.AsksInt4]

/--
An accepted request keeps to four-byte integers if and only if the client asks
for no smaller `max_attempts` and no larger `skip`.
-/
theorem keepsInt4_iff {raw : ClientRequest} {req : TaskRequest}
    (haccepted : raw.validate = some req) (huser : IsInt4 raw.user) :
    req.KeepsInt4 ι ↔ raw.AsksInt4 := by
  rw [← bindsInt4_program_iff haccepted huser]
  constructor
  · intro h
    exact h.binds
  · intro h
    refine ⟨h, fun i c => h.mono fun o ho => int4Call_of_binds ho i c, ?_⟩
    cases req with
    | userTasks user skip limit => exact requestUserTasks_returnsPage (every_getDb.1 h)
    | _ => trivial

end Accepted

section Sample

/-- A listing from `skip` on, with the default limit. -/
def listFrom (skip : Int) : ClientRequest :=
  .userTasks 1 (some skip) none

/-- A task with a limit of the client's choice. -/
def bodyWithAttempts (n : Int) : TaskBody where
  url := "https://example.com/"
  maxAttempts := some n

/-- A listing from 2147483648 on is accepted and raises; so does a task with -2147483649 attempts. -/
theorem accepted_integers_overflow :
    letI := sampleUrls
    (listFrom 2147483648).validate = some (.userTasks 1 2147483648 20) ∧
    (TaskOp.execute (.selectUserTasks 1 2147483648 20)).integers = [1, 2147483648, 20] ∧
    ¬ IsInt4 2147483648 ∧
    ((TaskRequest.userTasks 1 2147483648 20).handler.eval (int4Call () {}) (worldOf Unit [])).map
      Prod.fst = some (.error (.external "value out of int32 range")) ∧
    ¬ (TaskRequest.userTasks 1 2147483648 20).KeepsInt4 Unit ∧
    ((bodyWithAttempts (-2147483649)).validate.map fun taskData =>
      ((TaskRequest.create 1 taskData).handler.eval (int4Call () {}) (worldOf Unit [])).map
        Prod.fst) =
      some (some (.error (.httpException 500 "value out of int32 range"))) := by
  let := sampleUrls
  have hraises : ((TaskRequest.userTasks 1 2147483648 20).handler.eval (int4Call () {})
      (worldOf Unit [])).map Prod.fst =
      some (.error (.external "value out of int32 range")) :=
    rfl
  refine ⟨rfl, rfl, by decide, hraises, fun h => ?_, rfl⟩
  have hskip := (every_requestUserTasks.1 (every_getDb.1 h.binds)).2.1
  exact absurd hskip (by decide)

/-- A listing from 2147483647 on keeps to four-byte integers. -/
theorem keepsInt4_last_page :
    letI := sampleUrls
    (TaskRequest.userTasks 1 2147483647 20).KeepsInt4 Unit := by
  let := sampleUrls
  have haccepted : (listFrom 2147483647).validate = some (.userTasks 1 2147483647 20) := rfl
  refine (keepsInt4_iff haccepted ⟨by decide, by decide⟩).2 ?_
  intro n hn
  obtain rfl := Option.some.inj hn
  decide

end Sample

end IntegerParameters

end SmartHttpRequester
