import SmartHttpRequester.TaskLifecycle

/-!
# Published work and committed rows

A message of `tasks.queue` names a task.  `create_request_task` commits the row
before it publishes; `create_request_tasks_batch` publishes inside the
transaction that `get_db` commits at the very end.  If the database takes the
batch INSERT, a consumer can receive a task that no one can read yet, and that a
failure or a crash then makes disappear.

`noPhantom_iff`: publishing from a batch is the only way this happens, and then it
happens every time.  Here any call may succeed; a driver that refuses the INSERT
keeps the batch from its publishes (`noPhantom_of_refusesUrls`).
-/

namespace SmartHttpRequester

open Foundations Function

section PhantomWork

variable {ι : Type}

/-- Every message published so far names a committed task. -/
def NoPhantom (s : TaskConfig ι) : Prop :=
  ∀ m ∈ s.world.broker.published, ∃ row, committedTask s m.body.body.taskId = some row

/-- The call takes effect, whether or not it then seems to fail. -/
def Fault.Reaches : Fault → Prop
  | .before _ => False
  | _ => True

theorem Fault.reaches_of_not_before {fault : Fault} (h : ∀ f, fault ≠ .before f) :
    fault.Reaches := by
  cases fault with
  | before f => exact (h f rfl).elim
  | _ => trivial

/-- The step is a publish of a batch request, and it reaches the broker. -/
def PublishesBatch (reqs : ι → TaskRequest) (s : TaskConfig ι) (l : TaskLabel ι) : Prop :=
  ∃ i c exchange routingKey message k,
    l = .op i c ∧
    s.prog i = .op (.basicPublish exchange routingKey message) k ∧
    (reqs i).IsBatch ∧
    c.fault.Reaches

variable [DecidableEq ι] {reqs : ι → TaskRequest} {s s' : TaskConfig ι} {l : TaskLabel ι}
variable {ls : List (TaskLabel ι)} {w w' : World ι}

/-- The call publishes a message and leaves the table alone. -/
structure Publishes (o : TaskOp) (w w' : World ι) (message : TaskMessage) : Prop where
  call : ∃ exchange routingKey, o = .basicPublish exchange routingKey message
  tasks : w'.tasks = w.tasks
  published : w'.broker.published =
    w.broker.published ++ [⟨w.broker.published.length, message⟩]

/-- Only a publish adds to what was published. -/
theorem runOp_published {i : ι} {c : Choice} {o : TaskOp} {r : Reply}
    (h : runOp i c o w = some (r, w')) :
    (∃ message, Publishes o w w' message) ∨
    ((∀ exchange routingKey message, o ≠ .basicPublish exchange routingKey message) ∧
      w'.broker.published = w.broker.published) := by
  cases o with
  | execute st =>
      obtain ⟨tasks, notices, rfl⟩ := runStmt_frame (w := w.begin i) h
      exact Or.inr ⟨by simp, rfl⟩
  | basicPublish exchange routingKey message =>
      cases h
      exact Or.inl ⟨message, ⟨exchange, routingKey, rfl⟩, rfl, Topology.publish_published ..⟩
  | inc counter amount =>
      cases h
      cases counter <;> exact Or.inr ⟨by simp, rfl⟩
  | _ =>
      cases h
      exact Or.inr ⟨by simp, rfl⟩

theorem callOp_published {i : ι} {c : Choice} {o : TaskOp} {r : Reply}
    (h : callOp i c o w = some (r, w')) :
    (c.fault.Reaches ∧ ∃ message, Publishes o w w' message) ∨
    ((∀ exchange routingKey message,
        o = .basicPublish exchange routingKey message → ¬ c.fault.Reaches) ∧
      w'.broker.published = w.broker.published) := by
  rcases callOp_cases h with ⟨r', hrun, hfault, -⟩ | ⟨f, hfault, -, -, rfl⟩
  · rcases runOp_published hrun with hpublishes | ⟨hno, hsame⟩
    · exact Or.inl ⟨Fault.reaches_of_not_before hfault, hpublishes⟩
    · exact Or.inr ⟨fun x key m ho => absurd ho (hno x key m), hsame⟩
  · refine Or.inr ⟨fun _ _ _ _ hreaches => ?_, ?_⟩
    · rw [hfault] at hreaches
      exact hreaches
    · cases o <;> rfl

/-- Of all operations only a publish reaches the broker. -/
theorem runOp_broker {i : ι} {c : Choice} {o : TaskOp} {r : Reply}
    (h : runOp i c o w = some (r, w')) :
    w'.broker = w.broker ∨
    ∃ exchange routingKey message,
      o = .basicPublish exchange routingKey message ∧
      w'.broker = setupRabbitmqWithRetries.publish exchange routingKey message w.broker := by
  cases o with
  | execute st =>
      obtain ⟨tasks, notices, rfl⟩ := runStmt_frame (w := w.begin i) h
      exact Or.inl rfl
  | basicPublish exchange routingKey message =>
      cases h
      exact Or.inr ⟨exchange, routingKey, message, rfl, rfl⟩
  | inc counter amount =>
      cases h
      exact Or.inl (by cases counter <;> rfl)
  | _ =>
      cases h
      exact Or.inl rfl

theorem callOp_broker {i : ι} {c : Choice} {o : TaskOp} {r : Reply}
    (h : callOp i c o w = some (r, w')) :
    w'.broker = w.broker ∨
    ∃ exchange routingKey message,
      o = .basicPublish exchange routingKey message ∧
      w'.broker = setupRabbitmqWithRetries.publish exchange routingKey message w.broker := by
  rcases callOp_cases h with ⟨r', hrun, -, -⟩ | ⟨f, -, -, -, rfl⟩
  · exact runOp_broker hrun
  · exact Or.inl (by cases o <;> rfl)

theorem callOp_of_reaches {i : ι} {c : Choice} {o : TaskOp} {r : Reply}
    (hreaches : c.fault.Reaches) (h : callOp i c o w = some (r, w')) :
    ∃ r', runOp i c o w = some (r', w') := by
  rcases callOp_cases h with ⟨r', hrun, -, -⟩ | ⟨f, hfault, -, -, -⟩
  · exact ⟨r', hrun⟩
  · rw [hfault] at hreaches
    exact hreaches.elim

theorem callOp_commit_of_reaches {i : ι} {c : Choice} {r : Reply}
    (hreaches : c.fault.Reaches) (h : callOp i c .commit w = some (r, w')) :
    w' = w.commit i := by
  obtain ⟨r', hrun⟩ := callOp_of_reaches hreaches h
  exact (congrArg Prod.snd (Option.some.inj hrun)).symm

theorem callOp_publish_of_reaches {i : ι} {c : Choice} {exchange routingKey : String}
    {message : TaskMessage} {r : Reply} (hreaches : c.fault.Reaches)
    (h : callOp i c (.basicPublish exchange routingKey message) w = some (r, w')) :
    w'.tasks = w.tasks ∧
    w'.broker.published = w.broker.published ++ [⟨w.broker.published.length, message⟩] := by
  rcases callOp_published h with ⟨-, _, ⟨_, _, heq⟩, htasks, hpub⟩ | ⟨hno, -⟩
  · cases heq
    exact ⟨htasks, hpub⟩
  · exact absurd hreaches (hno _ _ _ rfl)

/-- A message was published before the step, or the step publishes it. -/
theorem published_of_step (hstep : (taskMachine ι).step s l = some s') {m : Envelope TaskMessage}
    (hm : m ∈ s'.world.broker.published) :
    m ∈ s.world.broker.published ∨
    ∃ i c exchange routingKey k,
      l = .op i c ∧
      s.prog i = .op (.basicPublish exchange routingKey m.body) k ∧
      c.fault.Reaches := by
  obtain ⟨i, c, o, k, r, w, rfl, hp, hexec, rfl⟩ | ⟨a, w, rfl, henv, rfl⟩ |
      ⟨i, o, k, rfl, hp, rfl⟩ := Machine.step_cases hstep
  · rcases callOp_published hexec with
      ⟨hreaches, message, ⟨exchange, routingKey, rfl⟩, -, hpub⟩ | ⟨-, hpub⟩
    · simp only [hpub, List.mem_append, List.mem_singleton] at hm
      rcases hm with hm | rfl
      · exact Or.inl hm
      · exact Or.inr ⟨i, c, exchange, routingKey, k, rfl, hp, hreaches⟩
    · simp only [hpub] at hm
      exact Or.inl hm
  · left
    cases a with
    | tick d =>
        cases henv
        exact hm
    | broker a =>
        obtain ⟨b, hb, rfl⟩ := Option.map_eq_some_iff.1 henv
        rwa [← Topology.act_published hb]
  · exact Or.inl hm

/-- A single creation publishes a committed task only. -/
theorem NoPhantom.step (h : NoPhantom s) (hsound : Sound reqs s)
    (hsingle : ¬ PublishesBatch reqs s l) (hstep : (taskMachine ι).step s l = some s') :
    NoPhantom s' := by
  intro m hm
  rcases published_of_step hstep hm with hold | ⟨i, c, exchange, routingKey, k, rfl, hp, hreaches⟩
  · obtain ⟨old, hrow⟩ := h m hold
    obtain ⟨new, hnew, -⟩ := hsound.coupled.step_advance hstep hrow
    exact ⟨new, hnew⟩
  · -- the new message is a single creation's, and its task is durable
    obtain ⟨-, -, ⟨-, hdurable⟩ | ⟨hbatch, -⟩⟩ := hsound.disciplined.permits hp
    · obtain ⟨row, hrow, -⟩ := hsound.coupled.durable_of_step hstep hdurable
      exact ⟨row, hrow⟩
    · exact absurd ⟨i, c, exchange, routingKey, m.body, k, rfl, hp, hbatch, hreaches⟩ hsingle

theorem TaskRequest.not_single_of_batch {req : TaskRequest} (h : req.IsBatch) :
    ¬ req.IsSingle := by
  cases req <;> simp_all [IsBatch, IsSingle]

/-- A batch publishes a task that nobody else can see. -/
theorem phantom_of_publishesBatch (hsound : Sound reqs s) (hbatch : PublishesBatch reqs s l)
    (hstep : (taskMachine ι).step s l = some s') :
    ¬ NoPhantom s' := by
  obtain ⟨i, c, exchange, routingKey, message, k, rfl, hp, hreq, hreaches⟩ := hbatch
  intro hno
  obtain ⟨-, -, ⟨hsingle, -⟩ | ⟨-, hown⟩⟩ := hsound.disciplined.permits hp
  · exact TaskRequest.not_single_of_batch hreq hsingle
  · obtain ⟨row, hslot⟩ := hsound.coupled.own hp hown
    obtain ⟨r, hexec, -, -⟩ := Machine.step_call hstep hp
    obtain ⟨htasks, hpub⟩ := callOp_publish_of_reaches hreaches hexec
    obtain ⟨row', hrow'⟩ := hno ⟨s.world.broker.published.length, message⟩ (by simp [hpub])
    rw [committedTask, htasks, Table.committed, hslot] at hrow'
    cases hrow'

/--
Exactly when no message ever names an uncommitted task: no batch request
publishes.
-/
theorem noPhantom_iff [UrlValidator] (hw : w.Quiet) (hclean : NoPhantom (startTasks w reqs))
    (hrun : (taskMachine ι).run (startTasks w reqs) ls = some s) :
    (taskMachine ι).Always NoPhantom (startTasks w reqs) ls ↔
      (taskMachine ι).StepsMeet (fun s l => ¬ PublishesBatch reqs s l) (startTasks w reqs) ls := by
  refine Machine.always_iff_stepsMeet (Sound reqs) (fun _ _ _ h hstep => h.step hstep)
    (fun s l s' hsound hno hstep => ?_) (sound_of_run hw Machine.run_nil) hclean hrun
  constructor
  · intro hno' hbatch
    exact phantom_of_publishesBatch hsound hbatch hstep hno'
  · intro hl
    exact hno.step hsound hl hstep

-- A batch of one task publishes, and the process dies: the message waits in the main
-- queue, and no one will ever see the task it names.
example :
    letI := sampleUrls
    ((taskMachine (Fin 1)).run
      (startTasks (worldOf (Fin 1) []) fun _ => .createBatch 1 [sampleTask])
      (insertOf 0 [3] :: List.replicate 3 (callOf 0) ++ [.kill 0])).map (fun s =>
        (s.world.broker.ready, s.world.tasks.keys, committedTask s 3)) =
      some ([(TASK_QUEUE, ⟨0, taskMessage ⟨3⟩ 5⟩)], [3], none) := by
  decide

end PhantomWork

end SmartHttpRequester
