import SmartHttpRequester.Foundations.DurableQueues
import SmartHttpRequester.NoLostTask

/-!
# Restarts of the broker

`setup_rabbitmq_with_retries` declares its exchanges and queues durable, so a
restart keeps them.  `publish_task` builds its message without a
`delivery_mode`, so a restart does not keep the message.

The requests run as before.  Around them messages are delivered and
acknowledged, time passes, and the broker restarts at any point.
-/

namespace SmartHttpRequester

open Foundations Function

section BrokerRestarts

/-- `aio_pika.DeliveryMode`. -/
inductive DeliveryMode
  | NOT_PERSISTENT
  | PERSISTENT
deriving DecidableEq

/-- `Message(..., delivery_mode=None)`: not persistent unless a mode is given. -/
def DeliveryMode.ofArgument (deliveryMode : Option DeliveryMode) : DeliveryMode :=
  deliveryMode.getD .NOT_PERSISTENT

/-- The mode of a message of `publish_task`, which gives none. -/
def TaskMessage.deliveryMode (_message : TaskMessage) : DeliveryMode :=
  DeliveryMode.ofArgument none

def TaskMessage.persistent (message : TaskMessage) : Bool :=
  message.deliveryMode = .PERSISTENT

/-- What happens around the requests. -/
inductive RestartAction
  | tick (d : Nat)
  | deliver (q : String)
  | ack (n : Nat)
  | restart

/-- The action as one of the system without restarts. -/
def RestartAction.env? : RestartAction → Option EnvAction
  | .tick d => some (.tick d)
  | .deliver q => some (.broker (.deliver q))
  | .ack n => some (.broker (.ack n))
  | .restart => none

def World.restartBroker {ι : Type} (w : World ι) : World ι :=
  { w with broker := setupRabbitmqWithRetries.restart TaskMessage.persistent w.broker }

variable {ι : Type} [DecidableEq ι]

def restartStep (a : RestartAction) (w : World ι) : Option (World ι) :=
  match a.env? with
  | some e => envStep e w
  | none => some w.restartBroker

/-- The task system with a broker that restarts. -/
def restartMachine (ι : Type) [DecidableEq ι] :
    Machine ι Choice RestartAction TaskOp (List TaskRow) Exc (World ι) where
  exec := callOp
  env := restartStep
  kill := World.rollback
  killed := .cancelledError

abbrev RestartLabel (ι : Type) := Label ι Choice RestartAction

theorem retryTopology_durable : setupRabbitmqWithRetries.Durable := by
  show ∀ q ∈ setupRabbitmqWithRetries.names,
    (setupRabbitmqWithRetries.decl q).any QueueDecl.durable = true
  decide

/-- No worker has acknowledged a message that names the task. -/
def Unacknowledged (s : TaskConfig ι) (id : UUID) : Prop :=
  ∀ m ∈ s.world.broker.acked, m.body.body.taskId ≠ id

/--
What durable queues are for: each message that is not acknowledged is in one
declared queue, waiting or delivered from it, and so is the message of each
pending task that no worker has acknowledged.
-/
structure QueuesKeep (s : TaskConfig ι) : Prop where
  messages : setupRabbitmqWithRetries.NoneLost s.world.broker
  pending : ∀ id row, committedTask s id = some row → row.status = .pending →
    Unacknowledged s id →
    ∃ m ∈ s.world.broker.published,
      m.body = taskMessage ⟨id⟩ row.maxAttempts ∧
      ∃ p ∈ Topology.places s.world.broker m, p.queue ∈ setupRabbitmqWithRetries.names

/-- The broker restarts only when nothing it was sent is unacknowledged. -/
def RestartsIdle (s : TaskConfig ι) : RestartLabel ι → Prop
  | .env .restart => ∀ m ∈ s.world.broker.published, m ∈ s.world.broker.acked
  | _ => True

instance RestartsIdle.decidable (s : TaskConfig ι) :
    ∀ l : RestartLabel ι, Decidable (RestartsIdle s l)
  | .env .restart =>
      inferInstanceAs (Decidable (∀ m ∈ s.world.broker.published, m ∈ s.world.broker.acked))
  | .env (.tick _) => isTrue trivial
  | .env (.deliver _) => isTrue trivial
  | .env (.ack _) => isTrue trivial
  | .op _ _ => isTrue trivial
  | .kill _ => isTrue trivial

omit [DecidableEq ι] in
theorem restartsIdle_of_ne {s : TaskConfig ι} {l : RestartLabel ι} (h : l ≠ .env .restart) :
    RestartsIdle s l := by
  cases l with
  | env a =>
      cases a with
      | restart => exact absurd rfl h
      | _ => trivial
  | _ => trivial

variable {reqs : ι → TaskRequest} {s s' : TaskConfig ι} {l : RestartLabel ι}
variable {ls : List (RestartLabel ι)} {w w' : World ι} {past : List (Envelope TaskMessage)}

section Steps

/-- A step is one of the system without restarts, or it is a restart. -/
theorem restartMachine_step (hstep : (restartMachine ι).step s l = some s') :
    (∃ l', (taskMachine ι).step s l' = some s') ∨
    (l = .env .restart ∧ s' = { s with world := s.world.restartBroker }) := by
  cases l with
  | op i c =>
      exact Or.inl ⟨.op i c, hstep⟩
  | kill i =>
      exact Or.inl ⟨.kill i, hstep⟩
  | env a =>
      cases a with
      | tick d =>
          exact Or.inl ⟨.env (.tick d), hstep⟩
      | deliver q =>
          exact Or.inl ⟨.env (.broker (.deliver q)), hstep⟩
      | ack n =>
          exact Or.inl ⟨.env (.broker (.ack n)), hstep⟩
      | restart =>
          exact Or.inr ⟨rfl, (Option.some.inj hstep).symm⟩

/-- What a step does to the messages: nothing, an event that drops none, or a restart. -/
theorem restartMachine_broker (hs : Disciplined reqs s)
    (hstep : (restartMachine ι).step s l = some s') :
    s'.world.broker = s.world.broker ∨
    (∃ e, setupRabbitmqWithRetries.step s.world.broker e = some s'.world.broker ∧
      ¬ setupRabbitmqWithRetries.Drops s.world.broker e) ∨
    (l = .env .restart ∧ s' = { s with world := s.world.restartBroker }) := by
  obtain ⟨i, c, o, k, r, w, rfl, hp, hexec, rfl⟩ | ⟨a, w, rfl, henv, rfl⟩ |
      ⟨i, o, k, rfl, hp, rfl⟩ := Machine.step_cases hstep
  · rcases callOp_broker hexec with hsame | ⟨exchange, routingKey, message, rfl, hpublish⟩
    · exact Or.inl hsame
    · obtain ⟨rfl, rfl, -⟩ := hs.permits hp
      refine Or.inr (Or.inl ⟨.publish TASK_EXCHANGE TASK_QUEUE message, ?_, ?_⟩)
      · exact congrArg some hpublish.symm
      · simp [Topology.Drops, route_publish]
  · cases a with
    | tick d =>
        cases henv
        exact Or.inl rfl
    | deliver q =>
        obtain ⟨b, hb, rfl⟩ := Option.map_eq_some_iff.1 henv
        exact Or.inr (Or.inl ⟨.act (.deliver q), hb, not_false⟩)
    | ack n =>
        obtain ⟨b, hb, rfl⟩ := Option.map_eq_some_iff.1 henv
        exact Or.inr (Or.inl ⟨.act (.ack n), hb, not_false⟩)
    | restart =>
        cases henv
        exact Or.inr (Or.inr ⟨rfl, rfl⟩)
  · exact Or.inl rfl

end Steps

section Invariants

/-- What every run keeps, whenever the broker restarts. -/
structure Restarted (reqs : ι → TaskRequest) (past : List (Envelope TaskMessage))
    (s : TaskConfig ι) : Prop where
  accurate : Accurate reqs s
  announcing : Announcing (fun _ => True) past s
  consistent : setupRabbitmqWithRetries.Consistent s.world.broker

theorem Restarted.start [UrlValidator] (hw : w.Quiet)
    (hconsistent : setupRabbitmqWithRetries.Consistent w.broker)
    (hclean : NoLostTask w.broker.published (startTasks w reqs)) :
    Restarted reqs w.broker.published (startTasks w reqs) where
  accurate := startTasks_accurate hw reqs
  announcing := Announcing.start hw fun id row _ => hclean id row
  consistent := hconsistent

omit [DecidableEq ι] in
/-- A restart touches neither the table nor what was published. -/
theorem Restarted.restart (h : Restarted reqs past s) :
    Restarted reqs past { s with world := s.world.restartBroker } where
  accurate :=
    { sound := ⟨h.accurate.sound.disciplined, h.accurate.sound.coupled.of_tasks_eq rfl⟩
      creating := h.accurate.creating
      recorded := h.accurate.recorded.of_tasks_eq rfl }
  announcing :=
    { sent := h.announcing.sent
      confirmed := h.announcing.confirmed
      announced := h.announcing.announced }
  consistent := h.consistent.restart

theorem Restarted.step (h : Restarted reqs past s)
    (hstep : (restartMachine ι).step s l = some s') :
    Restarted reqs past s' := by
  rcases restartMachine_step hstep with ⟨l', hl'⟩ | ⟨rfl, rfl⟩
  · refine ⟨h.accurate.step hl', h.announcing.step h.accurate hl', ?_⟩
    rcases restartMachine_broker h.accurate.sound.disciplined hstep with
      hsame | ⟨e, he, -⟩ | ⟨-, rfl⟩
    · rw [hsame]
      exact h.consistent
    · exact h.consistent.step retryTopology_noFanOut retryTopology_bindsDeclared he
    · exact h.consistent.restart
  · exact h.restart

omit [DecidableEq ι] in
/-- A restart loses every message that is owed, so it loses none when none is owed. -/
theorem Restarted.noneLost_restart_iff (h : Restarted reqs past s)
    (hdis : s.world.broker.discarded = []) :
    setupRabbitmqWithRetries.NoneLost s.world.restartBroker.broker ↔
      RestartsIdle s (.env .restart) := by
  refine (h.consistent.noneLost_restart_iff retryTopology_durable hdis).trans ?_
  constructor
  · intro hall m hm
    by_contra hack
    exact Bool.false_ne_true (hall m hm hack)
  · intro hidle m hm hack
    exact absurd (hidle m hm) hack

/-- As long as restarts are idle, nothing is discarded. -/
theorem Restarted.discarded_step (h : Restarted reqs past s)
    (hdis : s.world.broker.discarded = []) (hidle : RestartsIdle s l)
    (hstep : (restartMachine ι).step s l = some s') :
    s'.world.broker.discarded = [] := by
  rcases restartMachine_broker h.accurate.sound.disciplined hstep with
    hsame | ⟨e, he, hdrops⟩ | ⟨rfl, rfl⟩
  · rw [hsame, hdis]
  · rw [(Topology.discarded_of_step he).1 hdrops, hdis]
  · exact h.consistent.restart.noneLost_iff.1 ((h.noneLost_restart_iff hdis).2 hidle)

omit [DecidableEq ι] in
/-- A pending task that nobody has acknowledged has its message where no message is lost. -/
theorem Restarted.queuesKeep (h : Restarted reqs past s)
    (hnone : setupRabbitmqWithRetries.NoneLost s.world.broker) :
    QueuesKeep s where
  messages := hnone
  pending id row hrow hstatus hunacked := by
    obtain ⟨m, hm, hbody, -⟩ := h.announcing.announced id row trivial hrow (Or.inl hstatus)
    have hack : m ∉ s.world.broker.acked := by
      intro hack
      refine hunacked m hack ?_
      rw [hbody]
      rfl
    obtain ⟨p, hp, hdeclared⟩ := hnone m hm hack
    refine ⟨m, hm, hbody, p, ?_, hdeclared⟩
    rw [hp]
    exact List.mem_singleton_self p

/-- A step keeps what the queues keep exactly if it is no restart that finds messages owed. -/
theorem Restarted.queuesKeep_step_iff (h : Restarted reqs past s) (hkeep : QueuesKeep s)
    (hstep : (restartMachine ι).step s l = some s') :
    QueuesKeep s' ↔ RestartsIdle s l := by
  have hdis := h.consistent.noneLost_iff.1 hkeep.messages
  constructor
  · intro hkeep'
    by_cases hl : l = .env .restart
    · subst hl
      obtain rfl : { s with world := s.world.restartBroker } = s' := Option.some.inj hstep
      exact (h.noneLost_restart_iff hdis).1 hkeep'.messages
    · exact restartsIdle_of_ne hl
  · intro hidle
    have hnext := h.step hstep
    exact hnext.queuesKeep (hnext.consistent.noneLost_iff.2 (h.discarded_step hdis hidle hstep))

end Invariants

/--
The exact condition under which the queues keep every message through all
restarts of a run: whenever the broker restarts, everything that was published
has been acknowledged.
-/
theorem queuesKeep_iff [UrlValidator] (hw : w.Quiet)
    (hconsistent : setupRabbitmqWithRetries.Consistent w.broker)
    (hdis : w.broker.discarded = [])
    (hclean : NoLostTask w.broker.published (startTasks w reqs))
    (hrun : (restartMachine ι).run (startTasks w reqs) ls = some s') :
    (restartMachine ι).Always QueuesKeep (startTasks w reqs) ls ↔
      (restartMachine ι).StepsMeet RestartsIdle (startTasks w reqs) ls := by
  have hstart : Restarted reqs w.broker.published (startTasks w reqs) :=
    Restarted.start hw hconsistent hclean
  exact Machine.always_iff_stepsMeet (Restarted reqs w.broker.published)
    (fun _ _ _ h hstep => h.step hstep) (fun _ _ _ h hkeep hstep => h.queuesKeep_step_iff hkeep hstep)
    hstart (hstart.queuesKeep (hstart.consistent.noneLost_iff.2 hdis)) hrun

/-- The single creation in full, its message delivered and acknowledged or not, a restart. -/
def restartAfter (i : ι) (delivered : List RestartAction) : List (RestartLabel ι) :=
  .op i { ids := [3] } :: List.replicate 12 (.op i {}) ++ delivered.map .env ++ [.env .restart]

def createAndRestart (i : ι) (delivered : List RestartAction) : Option (TaskConfig ι) :=
  (restartMachine ι).run
    (@startTasks _ sampleUrls (worldOf ι []) fun _ => .create 1 sampleTask)
    (restartAfter i delivered)

/-- What the broker keeps of the messages, and what the database says of task 3. -/
def messagesAndStatus (s : TaskConfig ι) :
    BrokerState String TaskMessage × Option TaskStatus :=
  (s.world.broker, (committedTask s 3).map TaskRow.status)

/--
A task is created in an empty system, its message waits in `tasks.queue`, and
the broker restarts.  The message is gone and the task is still pending.
-/
theorem restart_loses_message :
    ∃ (s : TaskConfig (Fin 1)) (m : Envelope TaskMessage) (row : TaskRow),
      createAndRestart 0 [] = some s ∧
      s.world.broker.published = [m] ∧
      m ∉ s.world.broker.acked ∧
      s.world.broker.ready = [] ∧
      s.world.broker.held = [] ∧
      committedTask s 3 = some row ∧
      row.status = .pending ∧
      m.body.body.taskId = 3 ∧
      ¬ QueuesKeep s := by
  have hfinal : (createAndRestart (0 : Fin 1) []).map messagesAndStatus =
      some (⟨[], [], [], [⟨0, taskMessage ⟨3⟩ 5⟩], [⟨0, taskMessage ⟨3⟩ 5⟩]⟩, some .pending) := by
    rfl
  obtain ⟨s, hs, heq⟩ := Option.map_eq_some_iff.1 hfinal
  obtain ⟨hbroker, htask⟩ := Prod.mk.inj heq
  obtain ⟨row, hrow, hstatus⟩ := Option.map_eq_some_iff.1 htask
  refine ⟨s, ⟨0, taskMessage ⟨3⟩ 5⟩, row, hs, by rw [hbroker], by simp [hbroker],
    by rw [hbroker], by rw [hbroker], hrow, hstatus, rfl, fun hkeep => ?_⟩
  obtain ⟨p, hp, -⟩ := hkeep.messages ⟨0, taskMessage ⟨3⟩ 5⟩ (by simp [hbroker]) (by simp [hbroker])
  rw [hbroker] at hp
  cases hp

/-- A restart after the worker has acknowledged the message loses nothing. -/
theorem queuesKeep_acked :
    letI := sampleUrls
    (createAndRestart (0 : Fin 1) [.deliver TASK_QUEUE, .ack 0]).isSome ∧
    (restartMachine (Fin 1)).Always QueuesKeep
      (startTasks (worldOf (Fin 1) []) fun _ => .create 1 sampleTask)
      (restartAfter 0 [.deliver TASK_QUEUE, .ack 0]) := by
  let := sampleUrls
  have hsome : (createAndRestart (0 : Fin 1) [.deliver TASK_QUEUE, .ack 0]).isSome = true := by
    decide
  obtain ⟨s, hs⟩ := Option.isSome_iff_exists.1 hsome
  exact ⟨hsome, (queuesKeep_iff (worldOf_quiet []) Topology.consistent_empty rfl
    (worldOf_empty_noLostTask _) hs).2 (by decide)⟩

end BrokerRestarts

end SmartHttpRequester
