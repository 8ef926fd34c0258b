import SmartHttpRequester.BatchInsert
import SmartHttpRequester.NoLostTask

/-!
# The range of the attempts

`TaskCreate` bounds `max_attempts` by 20 from above; the documented range is
1-20, and nothing bounds it from below.  The value goes into the row, and from
the row's response into the header `x-attempts`; neither the table nor
`publish_task` checks it again.

`attemptsInRange_iff`: the limits of committed rows and of published messages
stay in range exactly as long as no creation commits or publishes that asked for
less than one attempt.
-/

namespace SmartHttpRequester

open Foundations Function

section AttemptLimits

/-- The range of the row: 1-20 attempts, of which no more are used than there are. -/
def TaskRow.AttemptsInRange (row : TaskRow) : Prop :=
  1 ≤ row.maxAttempts ∧
  row.maxAttempts ≤ MAX_ATTEMPTS_LIMIT ∧
  0 ≤ row.attemptCount ∧
  row.attemptCount ≤ row.maxAttempts

/-- The same of the headers of a message. -/
def TaskMessage.AttemptsInRange (message : TaskMessage) : Prop :=
  1 ≤ message.xAttempts ∧
  message.xAttempts ≤ MAX_ATTEMPTS_LIMIT ∧
  0 ≤ message.xAttemptsDone ∧
  message.xAttemptsDone ≤ message.xAttempts

/-- All committed rows and all published messages are in range. -/
structure World.AttemptsInRange {ι : Type} (w : World ι) : Prop where
  rows : ∀ {id row}, w.tasks.committed id = some row → row.AttemptsInRange
  messages : ∀ {m}, m ∈ w.broker.published → m.body.AttemptsInRange

/-- The values of `max_attempts` that a request asks for. -/
def TaskRequest.attemptLimits : TaskRequest → List Int
  | .create _ taskData => [taskData.maxAttempts]
  | .createBatch _ tasksData => tasksData.map TaskCreate.maxAttempts
  | _ => []

/-- The schema bounds them from above. -/
theorem TaskRequest.attemptLimits_le {req : TaskRequest} {n : Int} (hn : n ∈ req.attemptLimits) :
    n ≤ MAX_ATTEMPTS_LIMIT := by
  cases req with
  | create user taskData =>
      rw [attemptLimits, List.mem_singleton] at hn
      rw [hn]
      exact taskData.maxAttempts_le
  | createBatch user tasksData =>
      obtain ⟨taskData, -, rfl⟩ := List.mem_map.1 hn
      exact taskData.maxAttempts_le
  | _ => cases hn

section Specifications

/-- Every limit asked for is that of a row the request has inserted. -/
def TaskRequest.HasInserted (req : TaskRequest) (g : CreationGhost) : Prop :=
  ∀ n ∈ req.attemptLimits, ∃ row ∈ g.rows ++ g.durable, row.maxAttempts = n

/-- A creation writes and publishes the limits it was asked for. -/
def TaskRequest.KeepsLimits (req : TaskRequest) (g : CreationGhost) : TaskOp → Prop
  | .execute (.insertTasks rows bindparams) =>
      ∀ news, rows.mapM (InsertRow.eval bindparams) = some news →
        news.map NewTask.maxAttempts = req.attemptLimits
  | .basicPublish _ _ message =>
      message.xAttempts ∈ req.attemptLimits ∧ message.xAttemptsDone = 0
  | .commit => req.HasInserted g
  | _ => True

/-- An INSERT that succeeds returns rows with the limits of its VALUES. -/
def ReturnsLimits : TaskOp → Except Exc (List TaskRow) → Prop
  | .execute (.insertTasks rows bindparams), .ok inserted =>
      ∃ news, rows.mapM (InsertRow.eval bindparams) = some news ∧
        inserted.map TaskRow.maxAttempts = news.map NewTask.maxAttempts
  | _, _ => True

def limitMonitor (req : TaskRequest) :
    Prog.Monitor TaskOp (List TaskRow) Exc CreationGhost where
  allows g o := req.Creates → req.KeepsLimits g o
  expects := ReturnsLimits
  next := CreationGhost.next

/-- A part of a creation that returns has inserted its rows. -/
def TaskRequest.Kept {α : Type} (req : TaskRequest) : Except Exc α → CreationGhost → Prop
  | .ok _, g => req.HasInserted g
  | .error _, _ => True

variable {req : TaskRequest}

theorem TaskRequest.HasInserted.succeed {g : CreationGhost} (h : req.HasInserted g) {o : TaskOp}
    (hrollback : o ≠ .rollback) (hclose : o ≠ .close) (rows : List TaskRow) :
    req.HasInserted (g.succeed rows o) := by
  intro n hn
  obtain ⟨row, hrow, hlimit⟩ := h n hn
  refine ⟨row, ?_, hlimit⟩
  rw [List.mem_append] at hrow ⊢
  cases o with
  | execute st =>
      cases st with
      | insertTasks values bindparams => exact hrow.imp_left (List.mem_append_left _)
      | _ => exact hrow
  | commit =>
      rcases hrow with hnew | hold
      · exact Or.inr (List.mem_append_right _ hnew)
      · exact Or.inr (List.mem_append_left _ hold)
  | rollback => exact absurd rfl hrollback
  | close => exact absurd rfl hclose
  | _ => exact hrow

theorem wp_limits_call {o : TaskOp} {g : CreationGhost} (hkeeps : req.KeepsLimits g o)
    (hrollback : o ≠ .rollback) (hclose : o ≠ .close) (hg : req.HasInserted g) :
    (Prog.effect o : TaskProg Unit).wp (limitMonitor req) req.Kept g :=
  (Prog.wp_effect _ _ _ _).2
    ⟨fun _ => hkeeps, fun rows _ => hg.succeed hrollback hclose rows, fun _ _ => trivial⟩

theorem wp_limits_bind {α β : Type} {p : TaskProg α} {f : α → TaskProg β} {g : CreationGhost}
    (hp : p.wp (limitMonitor req) req.Kept g)
    (hf : ∀ a g', req.HasInserted g' → (f a).wp (limitMonitor req) req.Kept g') :
    (p >>= f).wp (limitMonitor req) req.Kept g := by
  refine (Prog.wp_bind _ _ _ _ _).2 (Prog.wp_mono _ hp ?_)
  rintro (e | a) g' hg'
  · trivial
  · exact hf a g' hg'

theorem publishTask_keeps {payload : TaskPayload} {attempts : Int} {g : CreationGhost}
    (hattempts : attempts ∈ req.attemptLimits) (hg : req.HasInserted g) :
    (publishTask payload attempts).wp (limitMonitor req) req.Kept g := by
  have hclose : ∀ (r : Except Exc Unit) (g' : CreationGhost), req.Kept r g' →
      (Prog.effect .closeChannel : TaskProg Unit).wp (limitMonitor req)
        (fun r' g'' => Prog.onResult (fun _ => req.Kept r g'')
          (fun e => req.Kept (α := Unit) (.error e) g'') r') g' := by
    intro r g' hg'
    refine (Prog.wp_effect _ _ _ _).2 ⟨fun _ => trivial, fun rows _ => ?_, fun _ _ => trivial⟩
    cases r with
    | error e => trivial
    | ok _ => exact TaskRequest.HasInserted.succeed hg' (by simp) (by simp) rows
  refine wp_limits_bind (wp_limits_call trivial (by simp) (by simp) hg) fun _ g' hg' => ?_
  refine (Prog.wp_tryFinally _ _ _ _ _).2 (Prog.wp_mono _ ?_ hclose)
  refine wp_limits_bind (wp_limits_call trivial (by simp) (by simp) hg') fun _ g' hg' => ?_
  exact wp_limits_call ⟨hattempts, rfl⟩ (by simp) (by simp) hg'

theorem publishAll_keeps {tasks : List TaskResponse} {g : CreationGhost}
    (htasks : ∀ task ∈ tasks, task.maxAttempts ∈ req.attemptLimits) (hg : req.HasInserted g) :
    (publishAll tasks).wp (limitMonitor req) req.Kept g := by
  induction tasks generalizing g with
  | nil =>
      exact hg
  | cons task rest ih =>
      refine wp_limits_bind (publishTask_keeps (htasks task (by simp)) hg) fun _ g' hg' => ?_
      exact ih (fun task' hmem => htasks task' (by simp [hmem])) hg'

/-- What has been inserted and is shown has the limits the request asked for. -/
theorem hasInserted_of_insert {rows : List TaskRow}
    (hrows : rows.map TaskRow.maxAttempts = req.attemptLimits) :
    req.HasInserted { rows := [] ++ rows, inserted := true } := by
  intro n hn
  rw [← hrows] at hn
  obtain ⟨row, hrow, hlimit⟩ := List.mem_map.1 hn
  exact ⟨row, by simpa using hrow, hlimit⟩

/-- The INSERT of a creation, from an empty ghost. -/
theorem wp_limits_insert {rows : List InsertRow} {bindparams : List BindParameter}
    {news : List NewTask} {Q : Except Exc (List TaskRow) → CreationGhost → Prop}
    (hnews : rows.mapM (InsertRow.eval bindparams) = some news)
    (hlimits : news.map NewTask.maxAttempts = req.attemptLimits)
    (hok : ∀ inserted, inserted.map TaskRow.maxAttempts = req.attemptLimits →
      req.HasInserted { rows := [] ++ inserted, inserted := true } →
      Q (.ok inserted) { rows := [] ++ inserted, inserted := true })
    (herr : ∀ e g, Q (.error e) g) :
    (execute (.insertTasks rows bindparams)).wp (limitMonitor req) Q {} := by
  refine (Prog.wp_perform _ _ _ _).2 ⟨fun _ news' hnews' => ?_, ?_, fun e _ => herr e _⟩
  · rw [hnews] at hnews'
    cases hnews'
    exact hlimits
  · rintro inserted ⟨news', hnews', hinserted⟩
    rw [hnews] at hnews'
    cases hnews'
    have hrows := hinserted.trans hlimits
    exact hok inserted hrows (hasInserted_of_insert hrows)

variable [UrlValidator]

theorem mem_attemptLimits_of_validated {rows : List TaskRow} {row : TaskRow} {task : TaskResponse}
    (hrows : rows.map TaskRow.maxAttempts = req.attemptLimits) (hrow : row ∈ rows)
    (htask : TaskResponse.modelValidate row = some task) :
    task.maxAttempts ∈ req.attemptLimits := by
  obtain ⟨-, -, -, hlimit⟩ := TaskResponse.modelValidate_eq_some htask
  rw [hlimit, ← hrows]
  exact List.mem_map_of_mem hrow

theorem createTask_keeps {userId : UserId} {url : String} {method : HttpMethod}
    {headers : Option Headers} {body : Option String} {maxAttempts : Int} {status : TaskStatus}
    (hreq : req.attemptLimits = [maxAttempts]) :
    (createTask userId url method headers body maxAttempts status).wp (limitMonitor req)
      (fun r g => Prog.onResult
        (fun task => task.maxAttempts ∈ req.attemptLimits ∧ req.HasInserted g) (fun _ => True) r)
      {} := by
  have hnews : [createTaskRow].mapM (InsertRow.eval
      (createTaskParams userId url method headers body maxAttempts status)) =
      some [⟨userId, url, method, headers, body, maxAttempts, status, 0⟩] := by
    simp only [List.mapM_cons, List.mapM_nil, createTaskRow_eval]
    rfl
  refine (Prog.wp_bind _ _ _ _ _).2
    (wp_limits_insert hnews hreq.symm (fun rows hrows hinserted => ?_) fun _ _ => trivial)
  rw [Prog.onResult_ok]
  cases hrow : fetchone rows with
  | none => trivial
  | some rawTask =>
      refine wp_modelValidate (fun task htask => ⟨?_, hinserted⟩) trivial
      exact mem_attemptLimits_of_validated hrows (List.mem_of_mem_head? hrow) htask

theorem requestCreate_keeps {user : UserId} {taskData : TaskCreate}
    (hreq : req = .create user taskData) :
    (requestCreate taskData user).wp (limitMonitor req) req.Kept {} := by
  subst hreq
  have hcall : ∀ {o : TaskOp} {g : CreationGhost},
      (TaskRequest.create user taskData).HasInserted g →
      (TaskRequest.create user taskData).KeepsLimits g o → o ≠ .rollback → o ≠ .close →
      (Prog.effect o : TaskProg Unit).wp (limitMonitor (.create user taskData))
        (TaskRequest.create user taskData).Kept g :=
    fun hg hkeeps hrollback hclose => wp_limits_call hkeeps hrollback hclose hg
  have htask : (createRequestTask user taskData).wp (limitMonitor (.create user taskData))
      (TaskRequest.create user taskData).Kept {} := by
    refine (Prog.wp_bind _ _ _ _ _).2 (Prog.wp_mono _ (createTask_keeps rfl) ?_)
    rintro (e | task) g hg
    · trivial
    · obtain ⟨htask, hg⟩ := hg
      refine wp_limits_bind (hcall hg hg (by simp) (by simp)) fun _ g hg => ?_
      refine wp_limits_bind (publishTask_keeps htask hg) fun _ g hg => ?_
      refine wp_limits_bind (wp_limits_bind (hcall hg trivial (by simp) (by simp))
        fun _ g hg => hcall hg hg (by simp) (by simp)) fun _ g hg => ?_
      refine wp_limits_bind (hcall hg hg (by simp) (by simp)) fun _ g hg => ?_
      exact wp_limits_bind (hcall hg trivial (by simp) (by simp)) fun _ g hg => hg
  refine wp_limits_bind ((Prog.wp_tryCatch _ _ _ _ _).2 (Prog.wp_mono _ htask ?_))
    fun _ g hg => hg
  rintro (e | task) g hg
  · trivial
  · exact hg

theorem createTasksBatch_keeps {user : UserId} {tasksData : List TaskCreate}
    (hreq : req = .createBatch user tasksData) (hlength : tasksData.length ≠ 0) :
    (createTasksBatch user tasksData).wp (limitMonitor req)
      (fun r g => Prog.onResult
        (fun tasks => (∀ task ∈ tasks, task.maxAttempts ∈ req.attemptLimits) ∧
          req.HasInserted g)
        (fun _ => True) r) {} := by
  have hlimits : (tasksData.map fun t => newTask user t .pending).map NewTask.maxAttempts =
      req.attemptLimits := by
    rw [hreq, List.map_map]
    rfl
  unfold createTasksBatch
  split
  · rename_i hempty
    exact absurd (by simpa using hempty) hlength
  · rw [batchInsert_eq]
    refine (Prog.wp_bind _ _ _ _ _).2 (wp_limits_insert (batchRows_eval user tasksData) hlimits
      (fun rows hrows hinserted => ?_) fun _ _ => trivial)
    refine wp_validateAll (fun tasks htasks => ⟨fun task htask => ?_, hinserted⟩) fun _ _ => trivial
    obtain ⟨row, hrow, hvalid⟩ := exists_of_forall₂ htasks htask
    exact mem_attemptLimits_of_validated hrows hrow hvalid

theorem requestCreateBatch_keeps {user : UserId} {tasksData : List TaskCreate}
    (hreq : req = .createBatch user tasksData) :
    (requestCreateBatch tasksData user).wp (limitMonitor req) req.Kept {} := by
  have htasks : (createRequestTasksBatch user tasksData).wp (limitMonitor req) req.Kept {} := by
    unfold createRequestTasksBatch
    split
    · trivial
    · rename_i hlength
      refine (Prog.wp_bind _ _ _ _ _).2 (Prog.wp_mono _ (createTasksBatch_keeps hreq hlength) ?_)
      rintro (e | tasks) g hg
      · trivial
      · obtain ⟨htasks, hg⟩ := hg
        refine wp_limits_bind (publishAll_keeps htasks hg) fun _ g hg => ?_
        exact wp_limits_bind (wp_limits_call trivial (by simp) (by simp) hg) fun _ g hg => hg
  refine wp_limits_bind ((Prog.wp_tryCatch _ _ _ _ _).2 (Prog.wp_mono _ htasks ?_))
    fun _ g hg => hg
  rintro (e | tasks) g hg
  · show (if e.isValueError then _ else _ : TaskProg (List TaskResponse)).wp _ _ _
    split <;> trivial
  · exact hg

omit [UrlValidator] in
theorem getDb_keeps {handler : TaskProg Response}
    (hhandler : handler.wp (limitMonitor req) req.Kept {}) :
    (getDb handler).wp (limitMonitor req) (fun _ _ => True) {} := by
  have hends : ∀ {o : TaskOp} {g : CreationGhost}, req.KeepsLimits g o →
      (Prog.effect o : TaskProg Unit).wp (limitMonitor req)
        (fun r _ => Prog.onResult (fun _ => True) (fun _ => True) r) g :=
    fun hkeeps => (Prog.wp_effect _ _ _ _).2
      ⟨fun _ => hkeeps, fun _ _ => trivial, fun _ _ => trivial⟩
  refine wp_getDb (fun _ _ => True) (fun _ _ => True) (fun r g _ => hends trivial)
    (fun e g _ => hends trivial) (Prog.wp_mono _ hhandler ?_)
  rintro (e | response) g hg
  · trivial
  · refine Prog.wp_mono _ (wp_limits_call trivial (by simp) (by simp) hg) ?_
    rintro (e | _) g' hg'
    · trivial
    · exact hends hg'

variable (req) in
/-- Every creation keeps to the limits it was asked for, whatever its calls answer. -/
theorem TaskRequest.keepsLimits :
    req.program.wp (limitMonitor req) (fun _ _ => True) {} := by
  by_cases hcreates : req.Creates
  · refine getDb_keeps ?_
    cases hreq : req with
    | create user taskData => exact requestCreate_keeps rfl
    | createBatch user tasksData => exact requestCreateBatch_keeps rfl
    | _ =>
        subst hreq
        exact hcreates.elim
  · exact Prog.wp_of_allows _ (fun _ _ h => absurd h hcreates) fun _ _ => trivial

end Specifications

section Runs

variable {ι : Type} [DecidableEq ι] {reqs : ι → TaskRequest} {s s' : TaskConfig ι}
variable {l : TaskLabel ι} {ls : List (TaskLabel ι)} {w : World ι}

theorem callOp_returnsLimits {i : ι} {c : Choice} {o : TaskOp} {r : Reply} {w' : World ι}
    (h : callOp i c o w = some (r, w')) : ReturnsLimits o r := by
  cases r with
  | error e => cases o <;> first | trivial | (rename_i st; cases st <;> trivial)
  | ok rows =>
      cases o with
      | execute st =>
          cases st with
          | insertTasks values bindparams =>
              obtain ⟨news, hnews, hlength, rfl, -⟩ := callOp_ok_values h
              refine ⟨news, hnews, ?_⟩
              rw [← List.map_uncurry_zip_eq_zipWith, List.map_map]
              have hlimits : TaskRow.maxAttempts ∘
                  Function.uncurry (NewTask.toRow ((w.begin i).now i)) =
                  NewTask.maxAttempts ∘ Prod.snd := rfl
              rw [hlimits, ← List.map_map, List.map_snd_zip hlength.ge]
          | _ => trivial
      | _ => trivial

/-- What the programs, the table and the broker have of the limits. -/
structure LimitsKept (reqs : ι → TaskRequest) (s : TaskConfig ι) : Prop where
  accurate : Accurate reqs s
  monitored : Monitored (fun i => limitMonitor (reqs i)) (fun _ => {}) (fun _ _ _ => True)
    .cancelledError s
  inserted : ∀ {id i row},
    (s.world.tasks.slot id).pending = some (i, row) → committedTask s id = none →
    row.maxAttempts ∈ (reqs i).attemptLimits

omit [DecidableEq ι] in
theorem LimitsKept.keeps (h : LimitsKept reqs s) {i : ι} {o : TaskOp}
    {k : Reply → TaskProg Response} (hp : s.prog i = .op o k) (hcreates : (reqs i).Creates) :
    (reqs i).KeepsLimits (creationOf (s.hist i)) o :=
  Monitored.allows h.monitored hp hcreates

omit [DecidableEq ι] in
/-- What a request publishes is a limit it was asked for, with no attempt used. -/
theorem LimitsKept.published (h : LimitsKept reqs s) {i : ι} {exchange routingKey : String}
    {message : TaskMessage} {k : Reply → TaskProg Response}
    (hp : s.prog i = .op (.basicPublish exchange routingKey message) k) :
    message.xAttempts ∈ (reqs i).attemptLimits ∧ message.xAttemptsDone = 0 := by
  obtain ⟨-, -, hreq⟩ := h.accurate.sound.disciplined.permits hp
  have hcreates : (reqs i).Creates :=
    hreq.elim (fun hsingle => TaskRequest.creates_of_single hsingle.1)
      fun hbatch => TaskRequest.creates_of_batch hbatch.1
  exact h.keeps hp hcreates

theorem LimitsKept.inserted_step (h : LimitsKept reqs s)
    (hstep : (taskMachine ι).step s l = some s') {id : UUID} {i : ι} {row : TaskRow}
    (hrow : (s'.world.tasks.slot id).pending = some (i, row)) (hnone : committedTask s' id = none) :
    row.maxAttempts ∈ (reqs i).attemptLimits := by
  rcases h.accurate.sound.uncommitted_of_step hstep hrow hnone with ⟨hslot, hnone'⟩ |
      ⟨c, values, bindparams, news, new, createdAt, k, rfl, hp, hnews, hnew, rfl⟩
  · exact h.inserted (hslot ▸ hrow) hnone'
  · obtain ⟨hcreates, -⟩ := h.accurate.sound.disciplined.permits hp
    have hlimits : news.map NewTask.maxAttempts = (reqs i).attemptLimits :=
      h.keeps hp hcreates news hnews
    rw [← hlimits]
    exact List.mem_map_of_mem hnew

theorem LimitsKept.step (h : LimitsKept reqs s) (hstep : (taskMachine ι).step s l = some s') :
    LimitsKept reqs s' where
  accurate := h.accurate.step hstep
  monitored := Monitored.step (M := taskMachine ι)
    (fun _ _ _ _ _ _ hexec => callOp_returnsLimits hexec) h.monitored hstep
  inserted := h.inserted_step hstep

theorem limitsKept_start [UrlValidator] (hw : w.Quiet) (reqs : ι → TaskRequest) :
    LimitsKept reqs (startTasks w reqs) where
  accurate := startTasks_accurate hw reqs
  monitored := Monitored.start fun i => TaskRequest.keepsLimits (reqs i)
  inserted hrow _ := by simp [startTasks, Machine.start, hw.pending] at hrow

theorem limitsKept_of_run [UrlValidator] (hw : w.Quiet)
    (hrun : (taskMachine ι).run (startTasks w reqs) ls = some s) :
    LimitsKept reqs s :=
  Machine.invariant_of_run (LimitsKept reqs) (fun _ _ _ h hstep => h.step hstep)
    (limitsKept_start hw reqs) hrun

/--
The step's commit, if it takes effect, is of a request that asks for at least
one attempt for each of its tasks; and so is what it publishes.
-/
def AsksAttempts (reqs : ι → TaskRequest) (s : TaskConfig ι) (l : TaskLabel ι) : Prop :=
  ∀ i c o k,
    l = .op i c →
    s.prog i = .op o k →
    c.fault.Reaches →
    (o = .commit → ∀ n ∈ (reqs i).attemptLimits, 1 ≤ n) ∧
    (∀ exchange routingKey message,
      o = .basicPublish exchange routingKey message → 1 ≤ message.xAttempts)

theorem TaskRequest.creates_of_mem_limits {req : TaskRequest} {n : Int}
    (hn : n ∈ req.attemptLimits) : req.Creates := by
  cases req with
  | create user taskData => trivial
  | createBatch user tasksData => trivial
  | _ => cases hn

omit [DecidableEq ι] in
/-- A row that is first committed has a limit its creation asked for, and no attempt used. -/
theorem LimitsKept.row_inRange (h : LimitsKept reqs s) {i : ι} {id : UUID} {row : TaskRow}
    (hrow : (s.world.tasks.slot id).pending = some (i, row)) (hnone : committedTask s id = none)
    (hasks : ∀ n ∈ (reqs i).attemptLimits, 1 ≤ n) :
    row.AttemptsInRange := by
  have hlimit := h.inserted hrow hnone
  have hcount := (h.accurate.sound.coupled.inserted hrow hnone).attemptCount
  have hpos := hasks _ hlimit
  exact ⟨hpos, TaskRequest.attemptLimits_le hlimit, hcount.ge, by omega⟩

theorem TaskRow.AttemptsInRange.of_sameTask {old new : TaskRow} (h : old.AttemptsInRange)
    (hsame : SameTask old new) : new.AttemptsInRange := by
  rw [TaskRow.AttemptsInRange, hsame.maxAttempts, hsame.attemptCount]
  exact h

theorem LimitsKept.rows_inRange (h : LimitsKept reqs s) (hrange : s.world.AttemptsInRange)
    (hasks : AsksAttempts reqs s l) (hstep : (taskMachine ι).step s l = some s')
    {id : UUID} {row : TaskRow} (hrow : committedTask s' id = some row) :
    row.AttemptsInRange := by
  rcases step_committed hstep id with hsame | ⟨i, c, k, new, rfl, hp, hpending, hnew⟩
  · exact hrange.rows (hsame.symm.trans hrow)
  · obtain rfl : new = row := Option.some.inj (hnew.symm.trans hrow)
    cases hold : committedTask s id with
    | some old =>
        obtain ⟨u, hu⟩ := h.accurate.sound.coupled.updated hpending hold
        exact (hrange.rows hold).of_sameTask hu.makes.sameTask
    | none =>
        by_cases hreaches : c.fault.Reaches
        · exact h.row_inRange hpending hold ((hasks i c _ k rfl hp hreaches).1 rfl)
        · -- a commit that fails before it takes effect commits nothing
          obtain ⟨r, hexec, -, -⟩ := Machine.step_call hstep hp
          rcases callOp_cases hexec with ⟨-, -, hfault, -⟩ | ⟨-, -, -, -, hworld⟩
          · exact absurd (Fault.reaches_of_not_before hfault) hreaches
          · rw [committedTask, hworld] at hrow
            exact absurd (hold.symm.trans hrow) (by simp)

theorem LimitsKept.messages_inRange (h : LimitsKept reqs s) (hrange : s.world.AttemptsInRange)
    (hasks : AsksAttempts reqs s l) (hstep : (taskMachine ι).step s l = some s')
    {m : Envelope TaskMessage} (hm : m ∈ s'.world.broker.published) :
    m.body.AttemptsInRange := by
  rcases published_of_step hstep hm with hold | ⟨i, c, exchange, routingKey, k, rfl, hp, hreaches⟩
  · exact hrange.messages hold
  · obtain ⟨hlimit, hdone⟩ := h.published hp
    have hpos := (hasks i c _ k rfl hp hreaches).2 _ _ _ rfl
    exact ⟨hpos, TaskRequest.attemptLimits_le hlimit, hdone.ge, by omega⟩

theorem LimitsKept.inRange_step (h : LimitsKept reqs s) (hrange : s.world.AttemptsInRange)
    (hasks : AsksAttempts reqs s l) (hstep : (taskMachine ι).step s l = some s') :
    s'.world.AttemptsInRange :=
  ⟨h.rows_inRange hrange hasks hstep, h.messages_inRange hrange hasks hstep⟩

/-- A creation that asked for less than one attempt puts it into the table when it commits. -/
theorem LimitsKept.asks_of_commit (h : LimitsKept reqs s) (hrange : s.world.AttemptsInRange)
    {i : ι} {c : Choice} {k : Reply → TaskProg Response} (hp : s.prog i = .op .commit k)
    (hreaches : c.fault.Reaches) (hstep : (taskMachine ι).step s (.op i c) = some s')
    (hrange' : s'.world.AttemptsInRange) {n : Int} (hn : n ∈ (reqs i).attemptLimits) :
    1 ≤ n := by
  have hcreates := TaskRequest.creates_of_mem_limits hn
  obtain ⟨row, hrow, rfl⟩ := h.keeps hp hcreates n hn
  rcases List.mem_append.1 hrow with hnew | hold
  · obtain ⟨r, hexec, -, -⟩ := Machine.step_call hstep hp
    have hslot := h.accurate.recorded.own hp hnew
    have hcommitted : s'.world.tasks.committed row.id = some row := by
      rw [callOp_commit_of_reaches hreaches hexec]
      show ((s.world.tasks.slot row.id).commit i).committed = some row
      rw [hslot, Slot.commit_committed, Slot.visible_write]
    exact (hrange'.rows hcommitted).1
  · obtain ⟨row', hrow', hsame⟩ := h.accurate.recorded.durable hold
    have hpos := (hrange.rows hrow').1
    rwa [hsame.maxAttempts] at hpos

theorem LimitsKept.asks_of_inRange (h : LimitsKept reqs s) (hrange : s.world.AttemptsInRange)
    (hstep : (taskMachine ι).step s l = some s') (hrange' : s'.world.AttemptsInRange) :
    AsksAttempts reqs s l := by
  rintro i c o k rfl hp hreaches
  refine ⟨?_, ?_⟩
  · rintro rfl n hn
    exact h.asks_of_commit hrange hp hreaches hstep hrange' hn
  · rintro exchange routingKey message rfl
    obtain ⟨r, hexec, -, -⟩ := Machine.step_call hstep hp
    obtain ⟨-, hpub⟩ := callOp_publish_of_reaches hreaches hexec
    have hm : (⟨s.world.broker.published.length, message⟩ : Envelope TaskMessage) ∈
        s'.world.broker.published := by
      simp [hpub]
    exact (hrange'.messages hm).1

/--
The limits of all committed rows and all published messages stay in range if and
only if every creation whose commit takes effect asked for at least one attempt
for each task, and every message is published with at least one.
-/
theorem attemptsInRange_iff [UrlValidator] (hw : w.Quiet) (hrange : w.AttemptsInRange)
    (hrun : (taskMachine ι).run (startTasks w reqs) ls = some s) :
    (taskMachine ι).Always (fun t => t.world.AttemptsInRange) (startTasks w reqs) ls ↔
      (taskMachine ι).StepsMeet (AsksAttempts reqs) (startTasks w reqs) ls := by
  refine Machine.always_iff_stepsMeet (LimitsKept reqs)
    (fun _ _ _ h hstep => h.step hstep) (fun s l s' h hP hstep => ?_)
    (limitsKept_start hw reqs) hrange hrun
  constructor
  · intro hrange'
    exact h.asks_of_inRange hP hstep hrange'
  · intro hasks
    exact h.inRange_step hP hasks hstep

omit [DecidableEq ι] in
/-- Creations that ask for at least one attempt each never leave the range. -/
theorem LimitsKept.asks_of_limits (h : LimitsKept reqs s)
    (hlimits : ∀ i, ∀ n ∈ (reqs i).attemptLimits, 1 ≤ n) (l : TaskLabel ι) :
    AsksAttempts reqs s l := by
  rintro i c o k rfl hp -
  refine ⟨fun _ => hlimits i, ?_⟩
  rintro exchange routingKey message rfl
  exact hlimits i _ (h.published hp).1

end Runs

section Sample

/-- The sample task with a limit of the client's choice. -/
def taskWithAttempts (n : Int) (hn : n ≤ 20) : TaskCreate :=
  { sampleTask with maxAttempts := n, maxAttempts_le := hn }

theorem worldOf_empty_inRange {ι : Type} : (worldOf ι []).AttemptsInRange where
  rows hrow := by cases hrow
  messages hm := by cases hm

/-- A task is created with `max_attempts` 0: the row and the message have it. -/
theorem creates_without_attempts :
    letI := sampleUrls
    (worldOf (Fin 1) []).AttemptsInRange ∧
    ∃ s : TaskConfig (Fin 1),
      (taskMachine (Fin 1)).run (startTasks (worldOf (Fin 1) [])
        fun _ => .create 1 (taskWithAttempts 0 (by decide))) singleSchedule = some s ∧
      (committedTask s 3).map (fun row => (row.status, row.maxAttempts)) = some (.pending, 0) ∧
      s.world.broker.published.map Envelope.body = [⟨⟨3⟩, 0, 0⟩] ∧
      ¬ s.world.AttemptsInRange := by
  let := sampleUrls
  have hfinal : ((taskMachine (Fin 1)).run (startTasks (worldOf (Fin 1) [])
      fun _ => .create 1 (taskWithAttempts 0 (by decide))) singleSchedule).map
        (fun s => ((committedTask s 3).map fun row => (row.status, row.maxAttempts),
          s.world.broker.published.map Envelope.body)) =
      some (some (.pending, 0), [⟨⟨3⟩, 0, 0⟩]) := by
    decide
  obtain ⟨s, hs, heq⟩ := Option.map_eq_some_iff.1 hfinal
  obtain ⟨htask, hmessages⟩ := Prod.mk.inj heq
  refine ⟨worldOf_empty_inRange, s, hs, htask, hmessages, fun hrange => ?_⟩
  obtain ⟨row, hrow, hattempts⟩ := Option.map_eq_some_iff.1 htask
  have hpos := (hrange.rows hrow).1
  rw [(Prod.mk.inj hattempts).2] at hpos
  exact absurd hpos (by decide)

/-- With the default of five attempts a creation stays in range. -/
theorem attemptsInRange_default :
    letI := sampleUrls
    (taskMachine (Fin 1)).Always (fun t => t.world.AttemptsInRange)
      (startTasks (worldOf (Fin 1) []) fun _ => .create 1 sampleTask) singleSchedule := by
  let := sampleUrls
  obtain ⟨s, hs⟩ := Option.isSome_iff_exists.1
    (show ((taskMachine (Fin 1)).run (startTasks (worldOf (Fin 1) [])
      fun _ => .create 1 sampleTask) singleSchedule).isSome = true by decide)
  refine (attemptsInRange_iff (worldOf_quiet []) worldOf_empty_inRange hs).2 ?_
  refine Machine.stepsMeet_of_run hs fun pre l post t t' _ ht _ => ?_
  exact (limitsKept_of_run (worldOf_quiet []) ht).asks_of_limits (fun _ => by decide) l

end Sample

end AttemptLimits

end SmartHttpRequester
