import SmartHttpRequester.Confidentiality
import SmartHttpRequester.ShownRows

/-!
# Rows that validate

The text of a URL is validated when a request comes in, and what `HttpUrl` made
of it is validated again whenever the row is read.  The two need not agree: a
URL may grow past its limit when it is normalised.  A row that does not validate
would make every listing of its owner fail.

`no_poison_rows`: whatever the validator, every write is validated as a row
before the commit that publishes it, so a row that does not validate can only
have been there from the start.
-/

namespace SmartHttpRequester

open Foundations Function

section PoisonRows

variable [UrlValidator] {ι : Type}

section Committing

/-- A committed row was there from the start, or validates; what a creation committed does. -/
structure Clean (rows : Rows) (s : TaskConfig ι) : Prop where
  stored : ∀ {id row}, committedTask s id = some row → rows id = some row ∨ row.Validates
  durable : ∀ {i id row},
    id ∈ (ghostOf (s.hist i)).durable → committedTask s id = some row → row.Validates

variable [DecidableEq ι] {reqs : ι → TaskRequest} {s s' : TaskConfig ι} {l : TaskLabel ι}
variable {rows : Rows}

/-- Validation looks at the URL only, which a confirmation leaves. -/
theorem validates_of_confirm {taskId : UUID} {old new : TaskRow} (hold : old.Validates)
    (hmakes : (RowWrite.confirm taskId).Makes old new) : new.Validates := by
  obtain ⟨-, rfl⟩ := hmakes
  rw [TaskRow.Validates, modelValidate_isSome] at hold ⊢
  exact hold

omit [DecidableEq ι] in
/-- What is brought to a commit validates. -/
theorem Clean.validates_of_commit (h : Clean rows s) (ha : Accurate reqs s)
    (hshowing : Showing reqs s) (hseen : HoldsSeen reqs s) {i : ι}
    {k : Reply → TaskProg Response} {id : UUID} {row : TaskRow} (hp : s.prog i = .op .commit k)
    (hrow : (s.world.tasks.slot id).pending = some (i, row)) :
    row.Validates := by
  obtain ⟨hchecked, -⟩ := hshowing.checks hp
  cases hcommitted : committedTask s id with
  | none =>
      have hcreates := (ha.sound.coupled.inserted hrow hcommitted).creates
      obtain ⟨hfailed, -⟩ := ha.creating.permits hp hcreates
      rcases ha.recorded.inserted hrow hcommitted with hfailed' | ⟨hmem, -⟩
      · rw [hfailed] at hfailed'
        cases hfailed'
      · rw [← (shownOf_rows (s.hist i)).1] at hmem
        exact hchecked.rows row hmem
  | some old =>
      obtain ⟨u, hu⟩ := ha.sound.coupled.updated hrow hcommitted
      have hsettled := (ha.sound.disciplined.permits hp).1.of_wrote hu.wrote
      have hread : (reqs i).OnTask → row.Validates := by
        intro hon
        rcases hseen hrow hcommitted hon with hunread | hread
        · rw [hchecked.unread] at hunread
          cases hunread
        · exact hchecked.seen id row hread
      cases u with
      | cancel taskId => exact hread (TaskRequest.onTask_of_cancels hsettled.2.1)
      | data taskId => exact hread (TaskRequest.onTask_of_edits hsettled.2.1)
      | confirm taskId =>
          obtain rfl : taskId = id := hu.taskId
          exact validates_of_confirm (h.durable hsettled.2.2 hcommitted) hu.makes

theorem Clean.step (h : Clean rows s) (ha : Accurate reqs s) (hshowing : Showing reqs s)
    (hseen : HoldsSeen reqs s) (hstep : (taskMachine ι).step s l = some s') :
    Clean rows s' := by
  constructor
  · intro id row hrow
    rcases step_committed hstep id with hsame | ⟨i, c, k, new, rfl, hp, hpending, hnew⟩
    · exact h.stored (hsame.symm.trans hrow)
    · rw [hrow] at hnew
      cases hnew
      exact Or.inr (h.validates_of_commit ha hshowing hseen hp hpending)
  · intro i id row hdurable hrow
    rcases step_committed hstep id with hsame | ⟨j, c, k, new, rfl, hp, hpending, hnew⟩
    · have hrow' := hsame.symm.trans hrow
      have hkept : id ∈ (ghostOf (s.hist i)).durable → row.Validates :=
        fun hold => h.durable hold hrow'
      rcases Machine.step_hist hstep i with hhist | ⟨c, o, k, r, rfl, hp, hexec, hsnoc⟩
      · rw [hhist] at hdurable
        exact hkept hdurable
      · rw [hsnoc, ghostOf_snoc] at hdurable
        rcases TaskGhost.next_durable hdurable with hold | ⟨rfl, -, hown⟩
        · exact hkept hold
        · -- a row becomes durable when it is first committed
          obtain ⟨first, hslot⟩ := ha.sound.coupled.own hp hown
          rw [committedTask_of_inserted hslot] at hrow'
          cases hrow'
    · rw [hrow] at hnew
      cases hnew
      exact h.validates_of_commit ha hshowing hseen hp hpending

/-- What holds of every state that requests can reach, as far as their rows are concerned. -/
structure Reviewed (reqs : ι → TaskRequest) (rows : Rows) (s : TaskConfig ι) : Prop where
  accurate : Accurate reqs s
  showing : Showing reqs s
  holdsSeen : HoldsSeen reqs s
  clean : Clean rows s

theorem Reviewed.step (h : Reviewed reqs rows s) (hstep : (taskMachine ι).step s l = some s') :
    Reviewed reqs rows s' where
  accurate := h.accurate.step hstep
  showing := h.showing.step hstep
  holdsSeen := HoldsSeen.step h.holdsSeen h.accurate.sound h.showing hstep
  clean := h.clean.step h.accurate h.showing h.holdsSeen hstep

theorem reviewed_of_run {w : World ι} {ls : List (TaskLabel ι)} (hw : w.Quiet)
    (hrun : (taskMachine ι).run (startTasks w reqs) ls = some s) :
    Reviewed reqs w.tasks.committed s := by
  refine Machine.invariant_of_run (Reviewed reqs w.tasks.committed)
    (fun _ _ _ h hstep => h.step hstep) ⟨startTasks_accurate hw reqs, startTasks_showing w reqs,
      fun hrow => ?_, fun hrow => Or.inl hrow, fun hdurable => ?_⟩ hrun
  · simp [startTasks, Machine.start, hw.pending] at hrow
  · cases hdurable

end Committing

section Reading

variable [DecidableEq ι] {j : ι} {w : World ι} {id : UUID} {row : TaskRow}

/-- The session has written nothing that is not committed. -/
def Idle (j : ι) (w : World ι) : Prop :=
  ∀ id row, (w.tasks.slot id).pending ≠ some (j, row)

omit [UrlValidator] in
theorem Idle.visible (h : Idle j w) (id : UUID) :
    (w.tasks.slot id).visible j = w.tasks.committed id :=
  Slot.visible_eq_committed (h id)

/-- What `get_request_task` makes of the row it finds. -/
def fetched (id : UUID) (user : UserId) (row : TaskRow) : Except Exc TaskResponse :=
  (TaskResponse.modelValidate row).elim (.error (.validationError row.errorText)) fun task =>
    if row.userId ≠ user then .error (.accessDeniedError id) else .ok task

/-- `get_request_task` on a row that exists. -/
theorem getRequestTask_eval (hidle : Idle j w) (hrow : w.tasks.committed id = some row)
    (user : UserId) :
    (getRequestTask id user).eval (callOp j {}) w = some (fetched id user row, w.begin j) := by
  have hcall : callOp j {} (.execute (.selectTask id)) w = some (.ok [row], w.begin j) := by
    have hvisible := (hidle.visible id).trans hrow
    show some (Except.ok ((w.tasks.slot id).visible j).toList, w.begin j) = _
    rw [hvisible]
    rfl
  have hvalidate := eval_modelValidate (callOp j {}) (w.begin j) row
  unfold fetched
  cases htask : TaskResponse.modelValidate row with
  | none =>
      rw [htask] at hvalidate
      have hget : (getTaskById id).eval (callOp j {}) w =
          some (.error (.validationError row.errorText), w.begin j) := by
        rw [getTaskById, execute, Prog.eval_bind_of_ok (Prog.eval_perform hcall)]
        exact Prog.eval_bind_of_error hvalidate
      rw [getRequestTask, Prog.eval_bind_of_error hget]
      rfl
  | some task =>
      rw [htask] at hvalidate
      have hget : (getTaskById id).eval (callOp j {}) w =
          some (.ok (some (task, row.userId)), w.begin j) := by
        rw [getTaskById, execute, Prog.eval_bind_of_ok (Prog.eval_perform hcall)]
        exact Prog.eval_bind_of_ok hvalidate
      rw [getRequestTask, Prog.eval_bind_of_ok hget]
      show (if row.userId ≠ user then .raise (.accessDeniedError id)
        else pure task : TaskProg TaskResponse).eval (callOp j {}) (w.begin j) =
        some (if row.userId ≠ user then .error (.accessDeniedError id) else .ok task, w.begin j)
      split <;> rfl

/-- `get_user_request_tasks` on rows that all validate. -/
theorem getUserRequestTasks_eval (hidle : Idle j w) (hvalid : Rows.Validate w.tasks.committed)
    (user : UserId) (skip limit : Nat) {order : List UUID} (horder : order.Perm w.tasks.keys) :
    ∃ tasks, (getUserRequestTasks user skip limit).eval (callOp j { order := order }) w =
      some (.ok tasks, w.begin j) := by
  have hcall : callOp j { order := order } (.execute (.selectUserTasks user skip limit)) w =
      some (.ok (userPage user skip limit (w.tasks.rows j order)), w.begin j) :=
    if_pos horder
  have hrows : ∀ row ∈ userPage user skip limit (w.tasks.rows j order),
      (TaskResponse.modelValidate row).isSome = true := by
    intro row hrow
    have hsorted := List.mem_of_mem_drop (List.mem_of_mem_take hrow)
    have hmem := (List.mem_filter.1 ((List.mem_insertionSort _).1 hsorted)).1
    obtain ⟨id, -, hvisible⟩ := List.mem_filterMap.1 hmem
    exact hvalid id row ((hidle.visible id).symm.trans hvisible)
  obtain ⟨tasks, htasks⟩ := exists_map_eq_some hrows
  refine ⟨tasks, ?_⟩
  rw [getUserRequestTasks, getUserTasks, execute, Prog.eval_bind_of_ok (Prog.eval_perform hcall),
    eval_validateAll, validated_eq_ok.2 htasks]

end Reading

variable [DecidableEq ι] {reqs : ι → TaskRequest} {s : TaskConfig ι} {w : World ι}
variable {ls : List (TaskLabel ι)}

/--
In every state that requests can reach, a committed row that was not there from
the start validates.  So if the rows at the start do, no read ever fails on a
stored row: a task is shown to its owner and denied to others, and every page of
every user's tasks is returned.
-/
theorem no_poison_rows (hw : w.Quiet)
    (hrun : (taskMachine ι).run (startTasks w reqs) ls = some s) :
    (∀ id row, committedTask s id = some row →
      w.tasks.committed id = some row ∨ row.Validates) ∧
    (Rows.Validate w.tasks.committed →
      Rows.Validate s.world.tasks.committed ∧
      ∀ j, Idle j s.world →
        (∀ id row, committedTask s id = some row → ∃ task v, ∀ user,
          (getRequestTask id user).eval (callOp j {}) s.world =
            some (if row.userId ≠ user then .error (.accessDeniedError id) else .ok task, v)) ∧
        (∀ user skip limit order, order.Perm s.world.tasks.keys → ∃ tasks v,
          (getUserRequestTasks user skip limit).eval (callOp j { order := order }) s.world =
            some (.ok tasks, v))) := by
  have hreviewed := reviewed_of_run hw hrun
  have hstored : ∀ id row, committedTask s id = some row →
      w.tasks.committed id = some row ∨ row.Validates :=
    fun id row hrow => hreviewed.clean.stored hrow
  refine ⟨hstored, fun hstart => ?_⟩
  have hvalid : Rows.Validate s.world.tasks.committed :=
    fun id row hrow => (hstored id row hrow).elim (hstart id row) fun hrow => hrow
  refine ⟨hvalid, fun j hidle => ⟨fun id row hrow => ?_, fun user skip limit order horder => ?_⟩⟩
  · obtain ⟨task, htask⟩ := Option.isSome_iff_exists.1 (hvalid id row hrow)
    refine ⟨task, s.world.begin j, fun user => ?_⟩
    rw [getRequestTask_eval hidle hrow user, fetched, htask]
    rfl
  · obtain ⟨tasks, htasks⟩ := getUserRequestTasks_eval hidle hvalid user skip limit horder
    exact ⟨tasks, _, htasks⟩

section Sample

/-- A validator that percent-encodes a URL to a text it does not accept. -/
abbrev growingUrls : UrlValidator where
  validate text :=
    if text = "https://example.com/" then some ⟨text⟩
    else if text = "https://example.com/ü" then some ⟨"https://example.com/%C3%BC"⟩
    else none
  errorText _ := "1 validation error for TaskResponse"

def grownTask : TaskCreate :=
  { sampleTask with url := ⟨"https://example.com/%C3%BC"⟩ }

omit [UrlValidator] in
/--
The URL is accepted and the row is not: the creation is rolled back, and the
user still reads.
-/
theorem no_poison_rows_grown :
    letI := growingUrls
    UrlValidator.validate "https://example.com/ü" = some grownTask.url ∧
    ∃ s : TaskConfig (Fin 1),
      (taskMachine (Fin 1)).run (startTasks (worldOf (Fin 1) [samplePending])
        fun _ => .create 1 grownTask) [insertOf 0 [3], callOf 0, callOf 0] = some s ∧
      ((s.prog 0).outcome?.isSome = true ∧ committedTask s 3 = none) ∧
      (∀ id row, committedTask s id = some row →
        (worldOf (Fin 1) [samplePending]).tasks.committed id = some row ∨ row.Validates) ∧
      Rows.Validate s.world.tasks.committed ∧
      ∀ j, Idle j s.world →
        (∀ id row, committedTask s id = some row → ∃ task v, ∀ user,
          (getRequestTask id user).eval (callOp j {}) s.world =
            some (if row.userId ≠ user then .error (.accessDeniedError id) else .ok task, v)) ∧
        (∀ user skip limit order, order.Perm s.world.tasks.keys → ∃ tasks v,
          (getUserRequestTasks user skip limit).eval (callOp j { order := order }) s.world =
            some (.ok tasks, v)) := by
  let := growingUrls
  obtain ⟨s, hs⟩ := Option.isSome_iff_exists.1
    (show ((taskMachine (Fin 1)).run (startTasks (worldOf (Fin 1) [samplePending])
      fun _ => .create 1 grownTask) [insertOf 0 [3], callOf 0, callOf 0]).isSome = true by decide)
  have hfinal : ((taskMachine (Fin 1)).run (startTasks (worldOf (Fin 1) [samplePending])
      fun _ => .create 1 grownTask) [insertOf 0 [3], callOf 0, callOf 0]).map
        (fun s => ((s.prog 0).outcome?.isSome, committedTask s 3)) = some (true, none) := by
    decide
  rw [hs, Option.map_some, Option.some.injEq, Prod.mk.injEq] at hfinal
  obtain ⟨hstored, hreads⟩ := no_poison_rows (worldOf_quiet [samplePending]) hs
  have hstart : Rows.Validate (worldOf (Fin 1) [samplePending]).tasks.committed := by
    intro id row hrow
    have hfind : [samplePending].find? (fun row => row.id = id) = some row := hrow
    have hmem := List.mem_of_find?_eq_some hfind
    rw [List.mem_singleton] at hmem
    subst hmem
    decide
  exact ⟨rfl, s, hs, hfinal, hstored, hreads hstart⟩

end Sample

end PoisonRows

end SmartHttpRequester
