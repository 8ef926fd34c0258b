import SmartHttpRequester.PhantomWork
import SmartHttpRequester.SingleClient

/-!
# Published work, with the driver

`create_tasks_batch` binds `task.url` as text, and `task.url` is no `str`.  A driver
that takes nothing else refuses the INSERT before it sends anything, so the batch
path fails before its first publish, and what it would publish too early is never
published.

`noPhantom_of_refusesUrls`: with such a driver every message names a committed row,
in every state of every run.  For a driver that takes the INSERT, `noPhantom_iff` says
what then happens.
-/

namespace SmartHttpRequester

open Foundations

section RefusedBatches

section Machine

variable {ι : Type} [DecidableEq ι]

/-- What a fault becomes if the driver does not take the parameters: nothing is sent. -/
def Fault.refused : Fault → Fault
  | .before f => .before f
  | _ => .before { text := "invalid input for query argument", valueError := false }

/-- One call of a request, through the driver. -/
def driverCall (D : Driver) (i : ι) (c : Choice) (o : TaskOp) (w : World ι) :
    Option (Reply × World ι) :=
  if D.accepts o then callOp i c o w else callOp i { c with fault := c.fault.refused } o w

/-- The task system with its database driver. -/
def driverMachine (D : Driver) (ι : Type) [DecidableEq ι] :
    Machine ι Choice EnvAction TaskOp (List TaskRow) Exc (World ι) where
  exec := driverCall D
  env := envStep
  kill := World.rollback
  killed := .cancelledError

variable {D : Driver} {i : ι} {c : Choice} {o : TaskOp} {r : Reply} {w w' : World ι}
variable {s s' : TaskConfig ι} {l : TaskLabel ι}

/-- A refusal is one of the ways in which a call fails. -/
theorem callOp_of_driverCall (h : driverCall D i c o w = some (r, w')) :
    ∃ c', callOp i c' o w = some (r, w') := by
  unfold driverCall at h
  split at h
  · exact ⟨c, h⟩
  · exact ⟨_, h⟩

theorem driverCall_refused (haccepts : D.accepts o = false)
    (h : driverCall D i c o w = some (r, w')) :
    ∃ e, r = .error e := by
  rw [driverCall, haccepts] at h
  rcases callOp_cases h with ⟨-, -, hnot, -⟩ | ⟨f, -, -, rfl, -⟩
  · have hfault : ∃ f, c.fault.refused = .before f := by
      cases c.fault <;> exact ⟨_, rfl⟩
    obtain ⟨f, hf⟩ := hfault
    exact absurd hf (hnot f)
  · exact ⟨_, rfl⟩

/-- Each step through the driver is a step of the task system, of the same request. -/
theorem step_of_driverMachine (h : (driverMachine D ι).step s l = some s') :
    ∃ l', (taskMachine ι).step s l' = some s' := by
  obtain ⟨i, c, o, k, r, w, rfl, hp, hexec, rfl⟩ | ⟨a, w, rfl, henv, rfl⟩ |
      ⟨i, o, k, rfl, hp, rfl⟩ := Machine.step_cases h
  · obtain ⟨c', hcall⟩ := callOp_of_driverCall hexec
    exact ⟨.op i c', by simp [Machine.step, hp, taskMachine, hcall]⟩
  · exact ⟨.env a, h⟩
  · exact ⟨.kill i, h⟩

end Machine

section Programs

variable {D : Driver}

/-- A batch request publishes nothing if the calls that the driver refuses fail. -/
def refusalMonitor (D : Driver) (req : TaskRequest) :
    Prog.Monitor TaskOp (List TaskRow) Exc Unit where
  allows _ o :=
    req.IsBatch → ∀ exchange routingKey message, o ≠ .basicPublish exchange routingKey message
  expects o r := D.accepts o = false → ∃ e, r = .error e
  next _ _ _ := ()

variable [UrlValidator]

theorem createRequestTasksBatch_refused (hD : D.RefusesUrls) {req : TaskRequest} {user : UserId}
    {tasksData : List TaskCreate} :
    (createRequestTasksBatch user tasksData).wp (refusalMonitor D req)
      (fun r _ => ∃ e, r = .error e) () := by
  unfold createRequestTasksBatch
  split
  · exact ⟨_, rfl⟩
  · rename_i hlength
    have hnil : tasksData ≠ [] := fun h => hlength (by rw [h]; rfl)
    rw [createTasksBatch, if_neg (by simpa using hnil)]
    refine (Prog.wp_bind _ _ _ _ _).2 ((Prog.wp_bind _ _ _ _ _).2 ((Prog.wp_perform _ _ _ _).2
      ⟨fun _ _ _ _ => by simp, fun rows hrows => ?_, fun e _ => ⟨e, rfl⟩⟩))
    obtain ⟨e, he⟩ := hrows (hD.accepts_batch hnil)
    cases he

variable (D) in
/-- With a driver that refuses URLs, a batch request ends before its first publish. -/
theorem TaskRequest.refused (hD : D.RefusesUrls) (req : TaskRequest) :
    req.program.wp (refusalMonitor D req) (fun _ _ => True) () := by
  cases req with
  | createBatch user tasksData =>
      have hcall : ∀ {o : TaskOp} {Q : Except Exc Unit → Unit → Prop},
          (∀ exchange routingKey message, o ≠ .basicPublish exchange routingKey message) →
          (∀ r, Q r ()) →
          (Prog.effect o : TaskProg Unit).wp (refusalMonitor D (.createBatch user tasksData)) Q
            () :=
        fun ho hQ => (Prog.wp_effect _ _ _ _).2
          ⟨fun _ => ho, fun _ _ => hQ _, fun e _ => hQ (.error e)⟩
      refine wp_getDb (fun _ _ => True) (fun _ _ => True) (fun r g _ => hcall (by simp) ?_)
        (fun e g _ => hcall (by simp) ?_) ?_
      · rintro (e | _) <;> trivial
      · rintro (e | _) <;> trivial
      · refine (Prog.wp_bind _ _ _ _ _).2 ((Prog.wp_tryCatch _ _ _ _ _).2
          (Prog.wp_mono _ (createRequestTasksBatch_refused hD) ?_))
        rintro r g ⟨e, rfl⟩
        rw [Prog.onResult_error]
        split <;> trivial
  | _ => exact Prog.wp_of_allows _ (fun _ _ h => h.elim) fun _ _ => trivial

end Programs

section Runs

variable {ι : Type} [DecidableEq ι] {D : Driver} {reqs : ι → TaskRequest}
variable {s s' : TaskConfig ι} {l l' : TaskLabel ι} {ls : List (TaskLabel ι)} {w : World ι}

theorem driverMachine_meets (D : Driver) (reqs : ι → TaskRequest) :
    (driverMachine D ι).Meets fun i => refusalMonitor D (reqs i) :=
  fun _ _ _ _ _ _ hexec haccepts => driverCall_refused haccepts hexec

/-- What keeps the published messages from running ahead of the table. -/
structure Refusing (D : Driver) (reqs : ι → TaskRequest) (s : TaskConfig ι) : Prop where
  sound : Sound reqs s
  monitored : Monitored (fun i => refusalMonitor D (reqs i)) (fun _ => ()) (fun _ _ _ => True)
    .cancelledError s
  noPhantom : NoPhantom s

omit [DecidableEq ι] in
theorem Refusing.not_publishesBatch (h : Refusing D reqs s) :
    ¬ PublishesBatch reqs s l := by
  rintro ⟨i, c, exchange, routingKey, message, k, -, hp, hbatch, -⟩
  have hallows := Monitored.allows h.monitored hp hbatch
  exact hallows exchange routingKey message rfl

theorem Refusing.step (h : Refusing D reqs s) (hstep : (driverMachine D ι).step s l = some s') :
    Refusing D reqs s' := by
  -- the table and the broker are those of the task system without its driver
  obtain ⟨l', hstep'⟩ := step_of_driverMachine hstep
  exact
    { sound := h.sound.step hstep'
      monitored := Monitored.step (driverMachine_meets D reqs) h.monitored hstep
      noPhantom := h.noPhantom.step h.sound h.not_publishesBatch hstep' }

/--
With a driver that takes no URL as text, every message published so far names a
committed task, in every state of every run.
-/
theorem noPhantom_of_refusesUrls [UrlValidator] (hD : D.RefusesUrls) (hw : w.Quiet)
    (hclean : NoPhantom (startTasks w reqs)) :
    (driverMachine D ι).Always NoPhantom (startTasks w reqs) ls := by
  intro pre post t _ hpre
  have hstart : Refusing D reqs (startTasks w reqs) :=
    { sound := sound_of_run hw Machine.run_nil
      monitored := Monitored.start fun i => TaskRequest.refused D hD (reqs i)
      noPhantom := hclean }
  have hrefusing : Refusing D reqs t :=
    Machine.invariant_of_run (Refusing D reqs) (fun _ _ _ h hstep => h.step hstep) hstart hpre
  exact hrefusing.noPhantom

/-- A batch is refused while a single creation, whose request then dies, publishes. -/
def refusedSchedule (batch single : ι) : List (TaskLabel ι) :=
  [insertOf single [3], insertOf batch [4], callOf batch, callOf batch] ++
    List.replicate 4 (callOf single) ++ [.kill single]

theorem noPhantom_of_refusesUrls_asyncpg :
    letI := sampleUrls
    let start := startTasks (worldOf (Fin 2) [])
      ![.createBatch 1 [sampleTask], .create 1 sampleTask]
    (((driverMachine asyncpg (Fin 2)).run start (refusedSchedule 0 1)).map fun s =>
        ((s.prog 0).outcome?, s.world.broker.published, (committedTask s 3).isSome)) =
      some (some (.error (.httpException 500 "invalid input for query argument")),
        [⟨0, taskMessage ⟨3⟩ 5⟩], true) ∧
    (driverMachine asyncpg (Fin 2)).Always NoPhantom start (refusedSchedule 0 1) := by
  let := sampleUrls
  refine ⟨by decide, noPhantom_of_refusesUrls asyncpg_refusesUrls (worldOf_quiet []) ?_⟩
  intro m hm
  cases hm

end Runs

end RefusedBatches

end SmartHttpRequester
