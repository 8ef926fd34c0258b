import SmartHttpRequester.Foundations.DirectExchange
import SmartHttpRequester.Schemas

/-!
# The RabbitMQ retry topology

`services/rabbitmq.py`: the names and constants at the top of the file, the
exchanges, queues and bindings that `setup_rabbitmq_with_retries` declares, and
the message that `publish_task` sends.

The main queue dead-letters under the routing key `retry.1s`, while every retry
queue is bound under its own name, `tasks.retry.1s` and so on.  So a message
rejected from `tasks.queue` matches no binding.  `drops_iff_rejects_main` says
that this is the only way the topology loses a message.
-/

namespace SmartHttpRequester

open Foundations

section RabbitTopology

def TASK_EXCHANGE : String := "tasks.exchange"

def TASK_QUEUE : String := "tasks.queue"

def DLX_EXCHANGE : String := "tasks.dlx"

def MAX_ATTEMPTS_LIMIT : Int := 20

/-- `RETRY_QUEUES.values()`: name and TTL in milliseconds. -/
def RETRY_QUEUES : List (String × Nat) :=
  [("tasks.retry.1s", 1000),
    ("tasks.retry.2s", 2000),
    ("tasks.retry.4s", 4000),
    ("tasks.retry.8s", 8000),
    ("tasks.retry.16s", 16000),
    ("tasks.retry.32s", 32000),
    ("tasks.retry.64s", 64000)]

abbrev RabbitTopology := Topology String String String

/-- `declare_exchange`. -/
def declareExchange (name : String) (durable : Bool) (T : RabbitTopology) : RabbitTopology :=
  { T with exchanges := T.exchanges ++ [(name, durable)] }

/-- `declare_queue`. -/
def declareQueue (d : QueueDecl String String String) (T : RabbitTopology) : RabbitTopology :=
  { T with queues := T.queues ++ [d] }

/-- `queue.bind(exchange, routing_key=...)`. -/
def bindQueue (queue exchange routingKey : String) (T : RabbitTopology) : RabbitTopology :=
  { T with bindings := T.bindings ++ [(exchange, routingKey, queue)] }

/-- One turn of the loop over `RETRY_QUEUES`. -/
def declareRetryQueue (T : RabbitTopology) (config : String × Nat) : RabbitTopology :=
  bindQueue config.1 DLX_EXCHANGE config.1
    (declareQueue
      { name := config.1
        durable := true
        ttl := some config.2
        deadLetter := some (DLX_EXCHANGE, TASK_QUEUE) } T)

/-- `setup_rabbitmq_with_retries`, from a broker without declarations. -/
def setupRabbitmqWithRetries : RabbitTopology :=
  let T : RabbitTopology := { exchanges := [], queues := [], bindings := [] }
  let T := declareExchange TASK_EXCHANGE true T
  let T := declareExchange DLX_EXCHANGE true T
  let T :=
    declareQueue
      { name := TASK_QUEUE
        durable := true
        ttl := none
        deadLetter := some (DLX_EXCHANGE, "retry.1s") } T
  let T := bindQueue TASK_QUEUE TASK_EXCHANGE TASK_QUEUE T
  let T := bindQueue TASK_QUEUE DLX_EXCHANGE TASK_QUEUE T
  RETRY_QUEUES.foldl declareRetryQueue T

/-- `{"task_id": str(task.id)}`. -/
structure TaskPayload where
  taskId : UUID
deriving DecidableEq, Repr

/-- A message of `publish_task`: its body and its two headers. -/
structure TaskMessage where
  body : TaskPayload
  xAttempts : Int
  xAttemptsDone : Int
deriving DecidableEq, Repr

/-- The message `publish_task(payload, attempts)` builds. -/
def taskMessage (payload : TaskPayload) (attempts : Int) : TaskMessage where
  body := payload
  xAttempts := attempts
  xAttemptsDone := 0

theorem retryTopology_noFanOut : setupRabbitmqWithRetries.NoFanOut :=
  Topology.noFanOut_of_nodup (by decide)

theorem retryTopology_bindsDeclared : setupRabbitmqWithRetries.BindsDeclared := by
  show ∀ b ∈ setupRabbitmqWithRetries.bindings, b.2.2 ∈ setupRabbitmqWithRetries.names
  decide

theorem route_publish :
    setupRabbitmqWithRetries.route TASK_EXCHANGE TASK_QUEUE = [TASK_QUEUE] := by
  decide

/-- Of the declared queues, the main queue alone loses what it dead-letters. -/
theorem reroutes_iff_ne_main {q : String} (hq : q ∈ setupRabbitmqWithRetries.names) :
    setupRabbitmqWithRetries.reroutes q = true ↔ q ≠ TASK_QUEUE := by
  revert q
  decide

/-- A step of the message flow: a task is published, or the broker acts. -/
inductive QueueEvent
  | publishTask (payload : TaskPayload) (attempts : Int)
  | act (a : BrokerAction String)

/-- `publish_task` publishes to the task exchange under the queue's name. -/
def QueueEvent.broker : QueueEvent → BrokerEvent String String String TaskMessage
  | .publishTask payload attempts =>
      .publish TASK_EXCHANGE TASK_QUEUE (taskMessage payload attempts)
  | .act a => .act a

/-- Run of the declared topology from a broker without messages. -/
def queueRun (es : List QueueEvent) : Option (BrokerState String TaskMessage) :=
  setupRabbitmqWithRetries.run BrokerState.empty (es.map QueueEvent.broker)

/-- The message waits in a retry queue whose expiry leads back to the main queue. -/
def AwaitsRetry (s : BrokerState String TaskMessage) (m : Envelope TaskMessage) : Prop :=
  ∃ q ∈ RETRY_QUEUES.map Prod.fst,
    (q, m) ∈ s.ready ∧
    ((setupRabbitmqWithRetries.decl q).bind QueueDecl.ttl).isSome ∧
    (setupRabbitmqWithRetries.decl q).bind QueueDecl.deadLetter = some (DLX_EXCHANGE, TASK_QUEUE)

/--
What the retry topology is for: in every state of the run each published message
that is not acknowledged is in exactly one declared queue or held from one, and a
message rejected from the main queue awaits its retry.
-/
structure KeepsMessages (es : List QueueEvent) : Prop where
  onePlace : ∀ pre post s, es = pre ++ post → queueRun pre = some s →
    setupRabbitmqWithRetries.NoneLost s
  retried : ∀ pre n post s s' m, es = pre ++ .act (.reject n) :: post →
    queueRun pre = some s → s.held[n]? = some (TASK_QUEUE, m) →
    queueRun (pre ++ [.act (.reject n)]) = some s' → AwaitsRetry s' m

/-- No step of the run rejects a message held from the main queue. -/
def NeverRejectsFromMain (es : List QueueEvent) : Prop :=
  ∀ pre n post s e, es = pre ++ .act (.reject n) :: post →
    queueRun pre = some s → s.held[n]? = some e → e.1 ≠ TASK_QUEUE

theorem queueRun_consistent {es : List QueueEvent} {s : BrokerState String TaskMessage}
    (h : queueRun es = some s) :
    setupRabbitmqWithRetries.Consistent s :=
  Topology.consistent_empty.run retryTopology_noFanOut retryTopology_bindsDeclared h

/-- Of the steps of a run, only rejecting from the main queue drops a message. -/
theorem drops_iff_rejects_main {es : List QueueEvent} {e : QueueEvent}
    {s : BrokerState String TaskMessage} (h : queueRun es = some s) :
    setupRabbitmqWithRetries.Drops s e.broker ↔
      ∃ n m, e = .act (.reject n) ∧ s.held[n]? = some (TASK_QUEUE, m) := by
  have hcons := queueRun_consistent h
  cases e with
  | publishTask payload attempts =>
      simp [QueueEvent.broker, Topology.Drops, route_publish]
  | act a =>
      cases a with
      | deliver q =>
          simp [QueueEvent.broker, Topology.Drops]
      | ack n =>
          simp [QueueEvent.broker, Topology.Drops]
      | reject n =>
          constructor
          · rintro ⟨⟨q, m⟩, hget, hre⟩
            have hq := hcons.held _ (List.mem_of_getElem? hget)
            have hmain : q = TASK_QUEUE := by
              by_contra hne
              exact hre ((reroutes_iff_ne_main hq).2 hne)
            exact ⟨n, m, rfl, by rw [hget, hmain]⟩
          · rintro ⟨n', m, heq, hget⟩
            cases heq
            exact ⟨(TASK_QUEUE, m), hget, by
              show ¬ setupRabbitmqWithRetries.reroutes TASK_QUEUE = true
              decide⟩
      | expire q =>
          constructor
          · rintro ⟨httl, hre⟩
            obtain ⟨d, hd, -⟩ := Option.bind_eq_some_iff.1 (Option.eq_some_of_isSome httl)
            have hmain : q = TASK_QUEUE := by
              by_contra hne
              exact hre ((reroutes_iff_ne_main (Topology.mem_names_of_decl hd)).2 hne)
            subst hmain
            exact absurd httl (by decide)
          · rintro ⟨n, m, heq, -⟩
            cases heq

/--
The exact condition under which the retry topology keeps every message: no
message is rejected from the main queue.
-/
theorem retryTopology_keepsMessages_iff {es : List QueueEvent}
    {s : BrokerState String TaskMessage} (hrun : queueRun es = some s) :
    KeepsMessages es ↔ NeverRejectsFromMain es := by
  have hnever : setupRabbitmqWithRetries.NeverDrops BrokerState.empty
      (es.map QueueEvent.broker) ↔ NeverRejectsFromMain es := by
    constructor
    · intro h pre n post t e hes ht hget hmain
      refine h (pre.map QueueEvent.broker) (QueueEvent.act (.reject n)).broker
        (post.map QueueEvent.broker) t (by simp [hes, QueueEvent.broker]) ht ?_
      refine (drops_iff_rejects_main ht).2 ⟨n, e.2, rfl, ?_⟩
      rw [hget, ← hmain]
    · intro h pre e post t hes ht hdrop
      obtain ⟨pre', rest, rfl, rfl, hrest⟩ := List.map_eq_append_iff.1 hes
      obtain ⟨e', post', rfl, rfl, rfl⟩ := List.map_eq_cons_iff.1 hrest
      obtain ⟨n, m, rfl, hget⟩ := (drops_iff_rejects_main ht).1 hdrop
      exact h pre' n post' t _ rfl ht hget rfl
  rw [← hnever, ← Topology.noneLost_always_iff retryTopology_noFanOut
    retryTopology_bindsDeclared Topology.consistent_empty rfl hrun]
  constructor
  · intro h pre post t hes ht
    obtain ⟨pre', post', rfl, rfl, rfl⟩ := List.map_eq_append_iff.1 hes
    exact h.onePlace pre' post' t rfl ht
  · intro h
    have hone : ∀ pre post t, es = pre ++ post → queueRun pre = some t →
        setupRabbitmqWithRetries.NoneLost t := by
      intro pre post t hes ht
      exact h (pre.map QueueEvent.broker) (post.map QueueEvent.broker) t (by simp [hes]) ht
    refine ⟨hone, fun pre n post t t' m hes ht hget ht' => ?_⟩
    exfalso
    have hno := (Topology.noneLost_always_iff retryTopology_noFanOut
      retryTopology_bindsDeclared Topology.consistent_empty rfl hrun).1 h
    exact hnever.1 hno pre n post t _ hes ht hget rfl

def rejectedOnce : List QueueEvent :=
  [.publishTask ⟨1⟩ 5, .act (.deliver TASK_QUEUE), .act (.reject 0)]

/-- The rejected task is in no queue, held by nobody and not acknowledged. -/
theorem retryTopology_loses_rejected :
    (queueRun rejectedOnce).isSome ∧ ¬ KeepsMessages rejectedOnce := by
  refine ⟨by decide, fun h => ?_⟩
  obtain ⟨s, hs⟩ := Option.isSome_iff_exists.1
    (show (queueRun rejectedOnce).isSome = true by decide)
  have hnone := h.onePlace rejectedOnce [] s rfl hs
  have hwhere : (queueRun rejectedOnce).map (fun s =>
      (s.published, s.acked, Topology.places s ⟨0, taskMessage ⟨1⟩ 5⟩)) =
      some ([⟨0, taskMessage ⟨1⟩ 5⟩], [], []) := by
    decide
  rw [hs] at hwhere
  simp only [Option.map_some, Option.some.injEq, Prod.mk.injEq] at hwhere
  obtain ⟨hpub, hack, hplaces⟩ := hwhere
  obtain ⟨p, hp, -⟩ := hnone ⟨0, taskMessage ⟨1⟩ 5⟩ (by simp [hpub]) (by simp [hack])
  rw [hplaces] at hp
  cases hp

/-- A run that never rejects from the main queue keeps its messages. -/
theorem retryTopology_keepsMessages_acked :
    KeepsMessages [.publishTask ⟨1⟩ 5, .act (.deliver TASK_QUEUE), .act (.ack 0)] := by
  obtain ⟨s, hs⟩ := Option.isSome_iff_exists.1
    (show (queueRun
      [.publishTask ⟨1⟩ 5, .act (.deliver TASK_QUEUE), .act (.ack 0)]).isSome = true by decide)
  refine (retryTopology_keepsMessages_iff hs).2 ?_
  intro pre n post t e hes
  have hmem : QueueEvent.act (.reject n) ∈
      ([.publishTask ⟨1⟩ 5, .act (.deliver TASK_QUEUE), .act (.ack 0)] : List QueueEvent) := by
    rw [hes]
    simp
  simp at hmem

end RabbitTopology

end SmartHttpRequester
