import SmartHttpRequester.Foundations.Interleaving
import SmartHttpRequester.Foundations.Registry
import SmartHttpRequester.RabbitTopology

/-!
# Setting up the topology

`setup_rabbitmq_with_retries` as a program, and `lifespan` of `application.py`,
which runs it before the server is online.  Any number of replicas start, serve
and end interleaved against one broker; every call may fail before or after it
took effect, a replica may die anywhere, and the broker may restart.

The broker takes a declaration that is new or the same as before.  It refuses
one that differs from what is there, and a binding of what is not there.

`serving_on_topology`: on a broker that held nothing before, a replica serves on
`setupRabbitmqWithRetries` and on nothing else.  `setup_unrefused`: where nothing
conflicted before, no declaration is refused.  `setup_never_established`: what is
durable and conflicts is in the way for ever.
-/

namespace SmartHttpRequester

open Foundations Function

section TopologySetup

/-- `aio_pika.ExchangeType`. -/
inductive ExchangeType
  | DIRECT
  | FANOUT
  | TOPIC
  | HEADERS
deriving DecidableEq

structure ExchangeProperties where
  kind : ExchangeType
  durable : Bool
deriving DecidableEq

/-- The arguments `x-message-ttl` and `x-dead-letter-...`, and durability. -/
structure QueueProperties where
  durable : Bool
  ttl : Option Nat
  deadLetter : Option (String × String)
deriving DecidableEq

inductive StructureKey
  | exchange (name : String)
  | queue (name : String)
  | binding (exchange routingKey queue : String)
deriving DecidableEq

/-- What has to be the same if it is declared again. -/
def StructureKey.Properties : StructureKey → Type
  | .exchange _ => ExchangeProperties
  | .queue _ => QueueProperties
  | .binding _ _ _ => Unit

instance : ∀ k : StructureKey, DecidableEq k.Properties
  | .exchange _ => inferInstanceAs (DecidableEq ExchangeProperties)
  | .queue _ => inferInstanceAs (DecidableEq QueueProperties)
  | .binding _ _ _ => inferInstanceAs (DecidableEq Unit)

/-- A binding is between an exchange and a queue that exist. -/
def StructureKey.needs : StructureKey → List StructureKey
  | .exchange _ => []
  | .queue _ => []
  | .binding x _ q => [.exchange x, .queue q]

/-- What a restart keeps, if it keeps what it needs. -/
def StructureKey.lasting : ∀ k : StructureKey, k.Properties → Bool
  | .exchange _, p => ExchangeProperties.durable p
  | .queue _, p => QueueProperties.durable p
  | .binding _ _ _, _ => true

abbrev StructureEntry := Sigma StructureKey.Properties

/-- What is declared on a broker. -/
abbrev BrokerStructure := Registry StructureKey.Properties

/-- The structure that a topology says; its exchanges are direct ones. -/
def structureOf (T : RabbitTopology) : BrokerStructure
  | .exchange name => (T.exchanges.lookup name).map fun durable => ⟨.DIRECT, durable⟩
  | .queue name => (T.decl name).map fun d => ⟨d.durable, d.ttl, d.deadLetter⟩
  | .binding exchange routingKey queue =>
      if (exchange, routingKey, queue) ∈ T.bindings then some () else none

inductive SetupOp
  | getRedis
  | ping
  | databasePing
  | getRabbitmq
  | channel
  | setQos (prefetchCount : Nat)
  | declareExchange (name : String) (kind : ExchangeType) (durable : Bool)
  | declareQueue (name : String) (p : QueueProperties)
  | bind (queue exchange routingKey : String)
  | closeChannel
  /-- the server is online, until it is told to shut down -/
  | serve
  | closeRabbitmq
  | closeRedis
deriving DecidableEq

def SetupOp.entry? : SetupOp → Option StructureEntry
  | .declareExchange name kind durable => some ⟨.exchange name, ⟨kind, durable⟩⟩
  | .declareQueue name p => some ⟨.queue name, p⟩
  | .bind queue exchange routingKey => some ⟨.binding exchange routingKey queue, ()⟩
  | _ => none

inductive SetupExc
  | channelPreconditionFailed
  | channelNotFoundEntity
  | external
  | cancelledError
deriving DecidableEq

abbrev SetupProg := Prog SetupOp Unit SetupExc Unit

namespace SetupProg

/-- The loop over `RETRY_QUEUES.values()`. -/
def declareRetryQueues : List (String × Nat) → SetupProg
  | [] => pure ()
  | config :: rest => do
      Prog.effect (.declareQueue config.1
        { durable := true
          ttl := some config.2
          deadLetter := some (DLX_EXCHANGE, TASK_QUEUE) })
      Prog.effect (.bind config.1 DLX_EXCHANGE config.1)
      declareRetryQueues rest

/-- `setup_rabbitmq_with_retries`. -/
def setupRabbitmqWithRetries : SetupProg := do
  Prog.effect .getRabbitmq
  Prog.effect .channel
  Prog.tryFinally
    (do
      Prog.effect (.setQos 10)
      Prog.effect (.declareExchange TASK_EXCHANGE .DIRECT true)
      Prog.effect (.declareExchange DLX_EXCHANGE .DIRECT true)
      Prog.effect (.declareQueue TASK_QUEUE
        { durable := true
          ttl := none
          deadLetter := some (DLX_EXCHANGE, "retry.1s") })
      Prog.effect (.bind TASK_QUEUE TASK_EXCHANGE TASK_QUEUE)
      Prog.effect (.bind TASK_QUEUE DLX_EXCHANGE TASK_QUEUE)
      declareRetryQueues RETRY_QUEUES)
    (Prog.effect .closeChannel)

/-- `ensure_structure`; the number of attempts goes into a log line. -/
def ensureStructure (_maxAttempts : Int) : SetupProg :=
  setupRabbitmqWithRetries

/-- `pre_check`; its `except` clause logs and raises again. -/
def preCheck : SetupProg := do
  Prog.effect .getRedis
  Prog.effect .ping
  Prog.effect .databasePing
  Prog.effect .getRabbitmq
  setupRabbitmqWithRetries

/-- `pre_shutdown`; a cancellation is no `Exception`. -/
def preShutdown : SetupProg :=
  Prog.tryCatch
    (do
      Prog.effect .closeRabbitmq
      Prog.effect .closeRedis)
    fun e => if e = .cancelledError then .raise e else pure ()

/-- `lifespan`. -/
def lifespan : SetupProg := do
  preCheck
  Prog.effect .serve
  preShutdown

end SetupProg

inductive SetupCall
  | lifespan
  | ensureStructure (maxAttempts : Int)

def SetupCall.program : SetupCall → SetupProg
  | .lifespan => SetupProg.lifespan
  | .ensureStructure maxAttempts => SetupProg.ensureStructure maxAttempts

section Plan

/-- What one turn of the loop over `RETRY_QUEUES` declares. -/
def retryEntries (config : String × Nat) : List StructureEntry :=
  [⟨.queue config.1, ⟨true, some config.2, some (DLX_EXCHANGE, TASK_QUEUE)⟩⟩,
    ⟨.binding DLX_EXCHANGE config.1 config.1, ()⟩]

/-- What a setup declares, in this order. -/
def taskStructure : List StructureEntry :=
  [⟨.exchange TASK_EXCHANGE, ⟨.DIRECT, true⟩⟩,
    ⟨.exchange DLX_EXCHANGE, ⟨.DIRECT, true⟩⟩,
    ⟨.queue TASK_QUEUE, ⟨true, none, some (DLX_EXCHANGE, "retry.1s")⟩⟩,
    ⟨.binding TASK_EXCHANGE TASK_QUEUE TASK_QUEUE, ()⟩,
    ⟨.binding DLX_EXCHANGE TASK_QUEUE TASK_QUEUE, ()⟩] ++
  RETRY_QUEUES.flatMap retryEntries

theorem taskStructure_plan :
    Registry.Plan StructureKey.needs StructureKey.lasting taskStructure :=
  Registry.Plan.of_orderedAfter (by decide) (by decide) (by decide)

/-- The topology of the model is the structure that a setup declares. -/
theorem structureOf_contains :
    (structureOf setupRabbitmqWithRetries).Contains taskStructure := by
  show ∀ e ∈ taskStructure, structureOf setupRabbitmqWithRetries e.1 = some e.2
  decide

/-- It has nothing else. -/
theorem structureOf_within :
    Registry.Within (fun _ => none) taskStructure (structureOf setupRabbitmqWithRetries) := by
  have hexchanges : ∀ p ∈ setupRabbitmqWithRetries.exchanges,
      (⟨.exchange p.1, ⟨.DIRECT, p.2⟩⟩ : StructureEntry) ∈ taskStructure := by decide
  have hqueues : ∀ d ∈ setupRabbitmqWithRetries.queues,
      (⟨.queue d.name, ⟨d.durable, d.ttl, d.deadLetter⟩⟩ : StructureEntry) ∈ taskStructure := by
    decide
  have hbindings : ∀ b ∈ setupRabbitmqWithRetries.bindings,
      (⟨.binding b.1 b.2.1 b.2.2, ()⟩ : StructureEntry) ∈ taskStructure := by decide
  rintro ⟨k, v⟩ h
  right
  cases k with
  | exchange name =>
      obtain ⟨durable, hlookup, rfl⟩ := Option.map_eq_some_iff.1 h
      obtain ⟨before, after, heq, -⟩ := List.lookup_eq_some_iff.1 hlookup
      have hmem : (name, durable) ∈ setupRabbitmqWithRetries.exchanges := by
        rw [heq]
        simp
      exact hexchanges _ hmem
  | queue name =>
      obtain ⟨d, hd, rfl⟩ := Option.map_eq_some_iff.1 h
      have hname : d.name = name := by simpa using List.find?_some hd
      subst hname
      exact hqueues d (List.mem_of_find?_eq_some hd)
  | binding exchange routingKey queue =>
      by_cases hmem : (exchange, routingKey, queue) ∈ setupRabbitmqWithRetries.bindings
      · exact hbindings _ hmem
      · have hnone : structureOf setupRabbitmqWithRetries (.binding exchange routingKey queue) =
            none := if_neg hmem
        rw [Registry.Has, hnone] at h
        cases h

end Plan

section System

abbrev SetupReply := Except SetupExc Unit

/-- Whether a call fails, and if so before or after it took effect. -/
inductive Disruption
  | none
  | before
  | after

/-- The channel error that refuses a declaration. -/
def refusal : StructureKey → SetupExc
  | .exchange _ => .channelPreconditionFailed
  | .queue _ => .channelPreconditionFailed
  | .binding _ _ _ => .channelNotFoundEntity

/-- What the broker does with a call; only declarations concern it. -/
def brokerAnswer (o : SetupOp) (d : BrokerStructure) : SetupReply × BrokerStructure :=
  match o.entry? with
  | .none => (.ok (), d)
  | .some e =>
      match d.declare StructureKey.needs e with
      | .none => (.error (refusal e.1), d)
      | .some d' => (.ok (), d')

def setupCall (c : Disruption) (o : SetupOp) (d : BrokerStructure) :
    Option (SetupReply × BrokerStructure) :=
  match c with
  | .none => some (brokerAnswer o d)
  | .before => some (.error .external, d)
  | .after => some (.error .external, (brokerAnswer o d).2)

/-- The replicas and the broker; what happens around them is that the broker restarts. -/
def setupMachine (ι : Type) [DecidableEq ι] :
    Machine ι Disruption Unit SetupOp Unit SetupExc BrokerStructure where
  exec _ := setupCall
  env _ d := some (d.survive StructureKey.needs StructureKey.lasting)
  kill _ d := d
  killed := .cancelledError

abbrev SetupConfig (ι : Type) := Config ι SetupOp Unit SetupExc Unit BrokerStructure

abbrev SetupLabel (ι : Type) := Label ι Disruption Unit

def startSetups {ι : Type} (d₀ : BrokerStructure) (calls : ι → SetupCall) : SetupConfig ι :=
  Machine.start d₀ fun i => (calls i).program

theorem brokerAnswer_cases {o : SetupOp} {d : BrokerStructure} :
    (o.entry? = none ∧ brokerAnswer o d = (.ok (), d)) ∨
    (∃ e, o.entry? = some e ∧ d.declare StructureKey.needs e = none ∧
      brokerAnswer o d = (.error (refusal e.1), d)) ∨
    (∃ e d', o.entry? = some e ∧ d.declare StructureKey.needs e = some d' ∧
      brokerAnswer o d = (.ok (), d')) := by
  unfold brokerAnswer
  cases he : o.entry? with
  | none => exact Or.inl ⟨rfl, rfl⟩
  | some e =>
      cases hd : d.declare StructureKey.needs e with
      | none => exact Or.inr (Or.inl ⟨e, rfl, hd, by simp [hd]⟩)
      | some d' => exact Or.inr (Or.inr ⟨e, d', rfl, hd, by simp [hd]⟩)

/-- What a call does to the broker; a declaration that succeeds has been taken. -/
theorem setupCall_cases {c : Disruption} {o : SetupOp} {r : SetupReply} {d d' : BrokerStructure}
    (h : setupCall c o d = some (r, d')) :
    (∃ e, o.entry? = some e ∧ d.declare StructureKey.needs e = some d') ∨
    (d' = d ∧ (o.entry? ≠ none → r ≠ .ok ())) := by
  have hanswer : ∀ {r : SetupReply}, brokerAnswer o d = (r, d') →
      (∃ e, o.entry? = some e ∧ d.declare StructureKey.needs e = some d') ∨
      (d' = d ∧ (o.entry? ≠ none → r ≠ .ok ())) := by
    intro r hr
    rcases brokerAnswer_cases (o := o) (d := d) with ⟨hnone, heq⟩ | ⟨e, he, -, heq⟩ |
        ⟨e, d₁, he, hdeclare, heq⟩
    · rw [heq] at hr
      cases hr
      exact Or.inr ⟨rfl, fun hsome => absurd hnone hsome⟩
    · rw [heq] at hr
      cases hr
      exact Or.inr ⟨rfl, fun _ => by simp⟩
    · rw [heq] at hr
      cases hr
      exact Or.inl ⟨e, he, hdeclare⟩
  cases c with
  | none => exact hanswer (Option.some.inj h)
  | before =>
      cases h
      exact Or.inr ⟨rfl, fun _ => by simp⟩
  | after =>
      obtain ⟨hr, hd⟩ := Prod.mk.inj (Option.some.inj h)
      rcases hanswer (Prod.ext rfl hd) with hdeclare | ⟨hsame, -⟩
      · exact Or.inl hdeclare
      · refine Or.inr ⟨hsame, fun _ => ?_⟩
        rw [← hr]
        simp

end System

section Order

/-- What a replica has declared, and whether its channel is open. -/
structure SetupGhost where
  declared : List StructureEntry := []
  channelOpen : Bool := false

namespace SetupGhost

def succeed (g : SetupGhost) : SetupOp → SetupGhost
  | .channel => { g with channelOpen := true }
  | .closeChannel => { g with channelOpen := false }
  | o =>
      match o.entry? with
      | some e => { g with declared := g.declared ++ [e] }
      | none => g

/-- A `closeChannel` that fails counts as closed, even if it failed before it took effect. -/
def next (g : SetupGhost) (o : SetupOp) : SetupReply → SetupGhost
  | .ok _ => g.succeed o
  | .error _ =>
      match o with
      | .closeChannel => { g with channelOpen := false }
      | _ => g

/-- Declarations follow the plan, on an open channel; the server is online after all of them. -/
def Allows (g : SetupGhost) : SetupOp → Prop
  | .serve => g.declared = taskStructure ∧ g.channelOpen = false
  | o => ∀ e, o.entry? = some e → g.channelOpen = true ∧ g.declared ++ [e] <+: taskStructure

end SetupGhost

def setupMonitor : Prog.Monitor SetupOp Unit SetupExc SetupGhost where
  allows := SetupGhost.Allows
  expects _ _ := True
  next := SetupGhost.next

/-- A setup that returns has declared everything; however it ends, its channel is closed. -/
def SetupEnds : SetupReply → SetupGhost → Prop
  | .ok _, g => g.declared = taskStructure ∧ g.channelOpen = false
  | .error _, g => g.channelOpen = false

theorem wp_setup_call {o : SetupOp} {Q : SetupReply → SetupGhost → Prop} {g : SetupGhost}
    (hallows : g.Allows o) (hok : Q (.ok ()) (g.succeed o))
    (herr : ∀ e, Q (.error e) (g.next o (.error e))) :
    (Prog.effect o : SetupProg).wp setupMonitor Q g :=
  (Prog.wp_effect _ _ _ _).2 ⟨hallows, fun _ _ => hok, fun e _ => herr e⟩

/-- A declaration in the order of the plan. -/
theorem wp_declaration {o : SetupOp} {e : StructureEntry} {rest : List StructureEntry}
    {Q : SetupReply → SetupGhost → Prop} {g : SetupGhost} (ho : o.entry? = some e)
    (hopen : g.channelOpen = true) (hplan : taskStructure = g.declared ++ e :: rest)
    (hok : Q (.ok ()) { g with declared := g.declared ++ [e] }) (herr : ∀ e, Q (.error e) g) :
    (Prog.effect o : SetupProg).wp setupMonitor Q g := by
  have hprefix : g.declared ++ [e] <+: taskStructure := ⟨rest, by rw [hplan]; simp⟩
  cases o with
  | declareExchange name kind durable =>
      cases ho
      exact wp_setup_call (fun e' he' => by cases he'; exact ⟨hopen, hprefix⟩) hok herr
  | declareQueue name p =>
      cases ho
      exact wp_setup_call (fun e' he' => by cases he'; exact ⟨hopen, hprefix⟩) hok herr
  | bind queue exchange routingKey =>
      cases ho
      exact wp_setup_call (fun e' he' => by cases he'; exact ⟨hopen, hprefix⟩) hok herr
  | _ => cases ho

/-- The loop declares what it has left of the plan. -/
theorem declareRetryQueues_ordered {configs : List (String × Nat)} {g : SetupGhost}
    (hopen : g.channelOpen = true)
    (hplan : taskStructure = g.declared ++ configs.flatMap retryEntries) :
    (SetupProg.declareRetryQueues configs).wp setupMonitor
      (fun r g' => g'.channelOpen = true ∧
        Prog.onResult (fun _ => g'.declared = taskStructure) (fun _ => True) r) g := by
  induction configs generalizing g with
  | nil =>
      exact ⟨hopen, by simpa using hplan.symm⟩
  | cons config rest ih =>
      have hnext : taskStructure =
          g.declared ++ ⟨.queue config.1, ⟨true, some config.2, some (DLX_EXCHANGE, TASK_QUEUE)⟩⟩ ::
            ⟨.binding DLX_EXCHANGE config.1 config.1, ()⟩ :: rest.flatMap retryEntries := hplan
      refine (Prog.wp_bind _ _ _ _ _).2
        (wp_declaration rfl hopen hnext ?_ fun _ => ⟨hopen, trivial⟩)
      have hthen : taskStructure =
          (g.declared ++
            [⟨.queue config.1, ⟨true, some config.2, some (DLX_EXCHANGE, TASK_QUEUE)⟩⟩]) ++
            ⟨.binding DLX_EXCHANGE config.1 config.1, ()⟩ :: rest.flatMap retryEntries := by
        rw [hnext, List.append_assoc]
        rfl
      refine (Prog.wp_bind _ _ _ _ _).2
        (wp_declaration rfl hopen hthen ?_ fun _ => ⟨hopen, trivial⟩)
      refine ih hopen ?_
      rw [hthen]
      simp only [List.append_assoc, List.cons_append, List.nil_append]

/-- A setup keeps to the plan, whatever its calls answer. -/
theorem setupRabbitmqWithRetries_ordered :
    SetupProg.setupRabbitmqWithRetries.wp setupMonitor SetupEnds {} := by
  have hclose : ∀ (r : SetupReply) (g : SetupGhost),
      Prog.onResult (fun _ => g.declared = taskStructure) (fun _ => True) r →
      (Prog.effect .closeChannel : SetupProg).wp setupMonitor
        (fun r' g' => Prog.onResult (fun _ => SetupEnds r g') (fun e => SetupEnds (.error e) g') r')
        g := by
    intro r g hr
    refine wp_setup_call (fun e he => by cases he) ?_ fun e => rfl
    cases r with
    | ok u => exact ⟨hr, rfl⟩
    | error e => exact (rfl : false = false)
  refine (Prog.wp_bind _ _ _ _ _).2
    (wp_setup_call (fun e he => by cases he) ?_ fun _ => rfl)
  refine (Prog.wp_bind _ _ _ _ _).2
    (wp_setup_call (fun e he => by cases he) ?_ fun _ => rfl)
  refine (Prog.wp_tryFinally _ _ _ _ _).2 ?_
  refine (Prog.wp_bind _ _ _ _ _).2
    (wp_setup_call (fun e he => by cases he) ?_ fun _ => hclose _ _ trivial)
  refine (Prog.wp_bind _ _ _ _ _).2 (wp_declaration rfl rfl rfl ?_ fun _ => hclose _ _ trivial)
  refine (Prog.wp_bind _ _ _ _ _).2 (wp_declaration rfl rfl rfl ?_ fun _ => hclose _ _ trivial)
  refine (Prog.wp_bind _ _ _ _ _).2 (wp_declaration rfl rfl rfl ?_ fun _ => hclose _ _ trivial)
  refine (Prog.wp_bind _ _ _ _ _).2 (wp_declaration rfl rfl rfl ?_ fun _ => hclose _ _ trivial)
  refine (Prog.wp_bind _ _ _ _ _).2 (wp_declaration rfl rfl rfl ?_ fun _ => hclose _ _ trivial)
  refine Prog.wp_mono _ (declareRetryQueues_ordered rfl rfl) ?_
  rintro r g ⟨-, hr⟩
  exact hclose r g hr

theorem lifespan_ordered : SetupProg.lifespan.wp setupMonitor SetupEnds {} := by
  have hcall : ∀ {o : SetupOp} {Q : SetupReply → SetupGhost → Prop} {g : SetupGhost},
      o.entry? = none → o ≠ .serve → o ≠ .channel → o ≠ .closeChannel →
      Q (.ok ()) g → (∀ e, Q (.error e) g) →
      (Prog.effect o : SetupProg).wp setupMonitor Q g := by
    intro o Q g ho hserve hchannel hclose hok herr
    cases o with
    | serve => exact absurd rfl hserve
    | channel => exact absurd rfl hchannel
    | closeChannel => exact absurd rfl hclose
    | declareExchange name kind durable => cases ho
    | declareQueue name p => cases ho
    | bind queue exchange routingKey => cases ho
    | _ => exact wp_setup_call (fun e he => by cases he) hok herr
  have hshutdown : ∀ g : SetupGhost, g.declared = taskStructure → g.channelOpen = false →
      SetupProg.preShutdown.wp setupMonitor SetupEnds g := by
    intro g hdeclared hclosed
    have hfailed : ∀ e : SetupExc,
        (if e = .cancelledError then .raise e else pure () : SetupProg).wp setupMonitor SetupEnds
          g := by
      intro e
      split
      · exact hclosed
      · exact ⟨hdeclared, hclosed⟩
    refine (Prog.wp_tryCatch _ _ _ _ _).2 ((Prog.wp_bind _ _ _ _ _).2 ?_)
    refine hcall rfl (by simp) (by simp) (by simp) ?_ hfailed
    exact hcall rfl (by simp) (by simp) (by simp) ⟨hdeclared, hclosed⟩ hfailed
  refine (Prog.wp_bind _ _ _ _ _).2 ?_
  refine (Prog.wp_bind _ _ _ _ _).2 (hcall rfl (by simp) (by simp) (by simp) ?_ fun _ => rfl)
  refine (Prog.wp_bind _ _ _ _ _).2 (hcall rfl (by simp) (by simp) (by simp) ?_ fun _ => rfl)
  refine (Prog.wp_bind _ _ _ _ _).2 (hcall rfl (by simp) (by simp) (by simp) ?_ fun _ => rfl)
  refine (Prog.wp_bind _ _ _ _ _).2 (hcall rfl (by simp) (by simp) (by simp) ?_ fun _ => rfl)
  refine Prog.wp_mono _ setupRabbitmqWithRetries_ordered ?_
  rintro (e | u) g hg
  · exact hg
  · obtain ⟨hdeclared, hclosed⟩ := hg
    refine (Prog.wp_bind _ _ _ _ _).2 (wp_setup_call ⟨hdeclared, hclosed⟩ ?_ fun _ => hclosed)
    exact hshutdown _ hdeclared hclosed

theorem SetupCall.ordered (call : SetupCall) : call.program.wp setupMonitor SetupEnds {} := by
  cases call with
  | lifespan => exact lifespan_ordered
  | ensureStructure maxAttempts => exact setupRabbitmqWithRetries_ordered

end Order

section Runs

variable {ι : Type} [DecidableEq ι] {calls : ι → SetupCall} {s s' : SetupConfig ι}
variable {l : SetupLabel ι} {ls : List (SetupLabel ι)} {d₀ : BrokerStructure} {i : ι}
variable {e : StructureEntry}

/-- What a replica has done so far. -/
def setupOf (hist : List (SetupOp × SetupReply)) : SetupGhost :=
  hist.foldl (fun g e => g.next e.1 e.2) {}

theorem setupOf_snoc (hist : List (SetupOp × SetupReply)) (o : SetupOp) (r : SetupReply) :
    setupOf (hist ++ [(o, r)]) = (setupOf hist).next o r := by
  simp [setupOf, List.foldl_append]

/-- All replicas of a configuration have kept, and will keep, to the plan. -/
abbrev Planned (s : SetupConfig ι) : Prop :=
  Monitored (fun _ => setupMonitor) (fun _ => {}) (fun _ => SetupEnds) .cancelledError s

theorem Planned.step (h : Planned s) (hstep : (setupMachine ι).step s l = some s') : Planned s' :=
  Monitored.step (M := setupMachine ι) (fun _ _ _ _ _ _ _ => trivial) h hstep

omit [DecidableEq ι] in
/-- The next declaration is the next entry of the plan. -/
theorem Planned.next_entry (h : Planned s) {o : SetupOp} {k : SetupReply → SetupProg}
    (hp : s.prog i = .op o k) (he : o.entry? = some e) :
    (setupOf (s.hist i)).declared ++ [e] <+: taskStructure := by
  have hallows : (setupOf (s.hist i)).Allows o := Monitored.allows h hp
  cases o with
  | declareExchange name kind durable => exact (hallows e he).2
  | declareQueue name p => exact (hallows e he).2
  | bind queue exchange routingKey => exact (hallows e he).2
  | _ => cases he

theorem SetupGhost.next_declared (g : SetupGhost) (o : SetupOp) (r : SetupReply) :
    (g.next o r).declared = g.declared ∨
    ∃ e, o.entry? = some e ∧ r = .ok () ∧ (g.next o r).declared = g.declared ++ [e] := by
  cases r with
  | error x => cases o <;> exact Or.inl rfl
  | ok u =>
      cases o with
      | declareExchange name kind durable => exact Or.inr ⟨_, rfl, rfl, rfl⟩
      | declareQueue name p => exact Or.inr ⟨_, rfl, rfl, rfl⟩
      | bind queue exchange routingKey => exact Or.inr ⟨_, rfl, rfl, rfl⟩
      | _ => exact Or.inl rfl

/-- The broker and the replicas agree on what has been declared. -/
structure Building (d₀ : BrokerStructure) (s : SetupConfig ι) : Prop where
  within : Registry.Within d₀ taskStructure s.world
  ordered : ∀ i, (setupOf (s.hist i)).declared <+: taskStructure
  contains : ∀ i, s.world.Contains (setupOf (s.hist i)).declared
  served : ∀ i r, (SetupOp.serve, r) ∈ s.hist i → (setupOf (s.hist i)).declared = taskStructure

omit [DecidableEq ι] in
theorem startSetups_building (d₀ : BrokerStructure) (calls : ι → SetupCall) :
    Building d₀ (startSetups d₀ calls) where
  within := Registry.within_refl
  ordered _ := List.nil_prefix
  contains _ _ he := by cases he
  served _ _ hserve := by cases hserve

/-- Nothing that has been declared goes away. -/
theorem contains_of_step {pre : List StructureEntry} (hpre : pre <+: taskStructure)
    (hcontains : s.world.Contains pre)
    (hstep : (setupMachine ι).step s l = some s') : s'.world.Contains pre := by
  obtain ⟨j, c, o, k, r, d, rfl, hp, hexec, rfl⟩ | ⟨a, d, rfl, henv, rfl⟩ |
      ⟨j, o, k, rfl, hp, rfl⟩ := Machine.step_cases hstep
  · rcases setupCall_cases hexec with ⟨e, -, hdeclare⟩ | ⟨rfl, -⟩
    · exact hcontains.declare hdeclare
    · exact hcontains
  · cases henv
    exact hcontains.survive taskStructure_plan hpre
  · exact hcontains

theorem Building.within_of_step (h : Building d₀ s) (hplanned : Planned s)
    (hstep : (setupMachine ι).step s l = some s') :
    Registry.Within d₀ taskStructure s'.world := by
  obtain ⟨j, c, o, k, r, d, rfl, hp, hexec, rfl⟩ | ⟨a, d, rfl, henv, rfl⟩ |
      ⟨j, o, k, rfl, hp, rfl⟩ := Machine.step_cases hstep
  · rcases setupCall_cases hexec with ⟨e, he, hdeclare⟩ | ⟨rfl, -⟩
    · exact h.within.declare ((hplanned.next_entry hp he).subset (by simp)) hdeclare
    · exact h.within
  · cases henv
    exact h.within.survive
  · exact h.within

theorem Building.step (h : Building d₀ s) (hplanned : Planned s)
    (hstep : (setupMachine ι).step s l = some s') : Building d₀ s' where
  within := h.within_of_step hplanned hstep
  ordered j := by
    rcases Machine.step_hist hstep j with hsame | ⟨c, o, k, r, rfl, hp, hexec, hsnoc⟩
    · rw [hsame]
      exact h.ordered j
    · rw [hsnoc, setupOf_snoc]
      rcases (setupOf (s.hist j)).next_declared o r with hkept | ⟨e, he, -, hnext⟩
      · rw [hkept]
        exact h.ordered j
      · rw [hnext]
        exact hplanned.next_entry hp he
  contains j := by
    rcases Machine.step_hist hstep j with hsame | ⟨c, o, k, r, rfl, hp, hexec, hsnoc⟩
    · rw [hsame]
      exact contains_of_step (h.ordered j) (h.contains j) hstep
    · rw [hsnoc, setupOf_snoc]
      have hold := contains_of_step (h.ordered j) (h.contains j) hstep
      rcases (setupOf (s.hist j)).next_declared o r with hkept | ⟨e, he, rfl, hnext⟩
      · rwa [hkept]
      · rw [hnext]
        intro e' he'
        rcases List.mem_append.1 he' with he' | he'
        · exact hold e' he'
        · rw [List.mem_singleton.1 he']
          rcases setupCall_cases hexec with ⟨e₁, he₁, hdeclare⟩ | ⟨-, hfails⟩
          · obtain rfl : e = e₁ := Option.some.inj (he.symm.trans he₁)
            exact Registry.has_of_declare hdeclare
          · exact absurd rfl (hfails (by simp [he]))
  served j r' hserve := by
    rcases Machine.step_hist hstep j with hsame | ⟨c, o, k, r, rfl, hp, hexec, hsnoc⟩
    · rw [hsame] at hserve ⊢
      exact h.served j r' hserve
    · rw [hsnoc] at hserve
      rw [hsnoc, setupOf_snoc]
      have hcomplete : (setupOf (s.hist j)).declared = taskStructure := by
        rcases List.mem_append.1 hserve with hold | hnew
        · exact h.served j r' hold
        · obtain ⟨rfl, -⟩ := Prod.mk.inj (List.mem_singleton.1 hnew)
          exact (Monitored.allows hplanned hp :).1
      rcases (setupOf (s.hist j)).next_declared o r with hkept | ⟨e, he, -, -⟩
      · rw [hkept]
        exact hcomplete
      · -- the plan has no entry left
        have hnext := hplanned.next_entry hp he
        rw [hcomplete] at hnext
        simpa using hnext.length_le

theorem building_of_run (hrun : (setupMachine ι).run (startSetups d₀ calls) ls = some s) :
    Building d₀ s ∧ Planned s :=
  Machine.invariant_of_run (fun s => Building d₀ s ∧ Planned s)
    (fun _ _ _ h hstep => ⟨h.1.step h.2 hstep, h.2.step hstep⟩)
    ⟨startSetups_building d₀ calls, Monitored.start fun i => (calls i).ordered⟩ hrun

/-- The server of a replica is or has been online, or its setup has returned. -/
def Established (s : SetupConfig ι) (i : ι) : Prop :=
  (s.prog i).next? = some .serve ∨ (∃ r, (SetupOp.serve, r) ∈ s.hist i) ∨
    (s.prog i).outcome? = some (.ok ())

omit [DecidableEq ι] in
theorem Building.contains_of_established (h : Building d₀ s) (hplanned : Planned s)
    (hi : Established s i) : s.world.Contains taskStructure := by
  have hcomplete : (setupOf (s.hist i)).declared = taskStructure := by
    rcases hi with hnext | ⟨r, hserve⟩ | houtcome
    · obtain ⟨k, hp⟩ := Prog.exists_op_of_next? hnext
      exact (Monitored.allows hplanned hp :).1
    · exact h.served i r hserve
    · rcases Monitored.outcome hplanned houtcome with hkilled | ⟨hdeclared, -⟩
      · cases hkilled
      · exact hdeclared
  rw [← hcomplete]
  exact h.contains i

/--
On a broker that held nothing before, and whatever fails, whoever dies and whenever
the broker restarts: nothing but the topology is ever declared; where a server is
online the topology is complete, and the declaration that `publish_task` makes
again changes nothing; and a setup that has ended has called `close` on its channel,
if it had one.
-/
theorem serving_on_topology
    (hrun : (setupMachine ι).run (startSetups (fun _ => none) calls) ls = some s) :
    (∀ e, s.world.Has e → e ∈ taskStructure) ∧
    (∀ i, Established s i →
      s.world = structureOf setupRabbitmqWithRetries ∧
      s.world.declare StructureKey.needs ⟨.exchange TASK_EXCHANGE, ⟨.DIRECT, true⟩⟩ =
        some s.world) ∧
    ∀ i r, (s.prog i).outcome? = some r →
      r = .error .cancelledError ∨ (setupOf (s.hist i)).channelOpen = false := by
  obtain ⟨hbuilding, hplanned⟩ := building_of_run hrun
  refine ⟨fun e he => ?_, fun i hi => ?_, fun i r hr => ?_⟩
  · rcases hbuilding.within e he with hnone | hmem
    · cases hnone
    · exact hmem
  · have hcontains := hbuilding.contains_of_established hplanned hi
    refine ⟨Registry.eq_of_contains hbuilding.within hcontains structureOf_within
      structureOf_contains, ?_⟩
    exact Registry.declare_of_has (hcontains _ (by simp [taskStructure]))
      (by simp [StructureKey.needs])
  · rcases Monitored.outcome hplanned hr with hkilled | hends
    · exact Or.inl hkilled
    · cases r with
      | ok u => exact Or.inr hends.2
      | error x => exact Or.inr hends

/-- A replica is killed within its setup and the broker restarts; another one comes online. -/
def brokenOffSchedule {ι : Type} (first second : ι) : List (SetupLabel ι) :=
  List.replicate 9 (.op first .none) ++ [.op first .after, .env (), .kill first] ++
    List.replicate 27 (.op second .none)

theorem serving_on_topology_broken_off :
    ∃ s : SetupConfig (Fin 2),
      (setupMachine (Fin 2)).run (startSetups (fun _ => none) fun _ => .lifespan)
        (brokenOffSchedule 0 1) = some s ∧
      (s.prog 1).next? = some .serve ∧ s.world = structureOf setupRabbitmqWithRetries := by
  have hnext : ((setupMachine (Fin 2)).run (startSetups (fun _ => none) fun _ => .lifespan)
      (brokenOffSchedule 0 1)).bind (fun s => (s.prog 1).next?) = some .serve := by
    decide
  obtain ⟨s, hrun, hserve⟩ := Option.bind_eq_some_iff.1 hnext
  obtain ⟨-, hserving, -⟩ := serving_on_topology hrun
  exact ⟨s, hrun, hserve, (hserving 1 (Or.inl hserve)).1⟩

section Refusals

/-- No call has been refused. -/
def Unrefused (s : SetupConfig ι) : Prop :=
  ∀ i o x, (o, .error x) ∈ s.hist i → x = .external

theorem setupCall_error {c : Disruption} {o : SetupOp} {x : SetupExc} {d d' : BrokerStructure}
    (hsome : ∀ e, o.entry? = some e → d.declare StructureKey.needs e ≠ none)
    (h : setupCall c o d = some (.error x, d')) : x = .external := by
  cases c with
  | none =>
      rcases brokerAnswer_cases (o := o) (d := d) with ⟨-, heq⟩ | ⟨e, he, hdeclare, -⟩ |
          ⟨e, d₁, -, -, heq⟩
      · cases heq.symm.trans (Option.some.inj h)
      · exact absurd hdeclare (hsome e he)
      · cases heq.symm.trans (Option.some.inj h)
  | before =>
      cases h
      rfl
  | after =>
      cases (Prod.mk.inj (Option.some.inj h)).1
      rfl

theorem Unrefused.step (h : Unrefused s) (hcompatible : d₀.Compatible taskStructure)
    (hbuilding : Building d₀ s) (hplanned : Planned s)
    (hstep : (setupMachine ι).step s l = some s') : Unrefused s' := by
  intro j o' x hx
  rcases Machine.step_hist hstep j with hsame | ⟨c, o, k, r, rfl, hp, hexec, hsnoc⟩
  · rw [hsame] at hx
    exact h j o' x hx
  · rw [hsnoc] at hx
    rcases List.mem_append.1 hx with hold | hnew
    · exact h j o' x hold
    · obtain ⟨rfl, rfl⟩ := Prod.mk.inj (List.mem_singleton.1 hnew)
      refine setupCall_error (fun e he hrefused => ?_) hexec
      -- the next declaration of the plan is one that the broker takes
      have haccepts : s.world.Accepts StructureKey.needs e :=
        taskStructure_plan.accepts hcompatible hbuilding.within (hplanned.next_entry hp he)
          (hbuilding.contains j)
      have htaken := Registry.declare_eq_some.2 ⟨haccepts, rfl⟩
      rw [hrefused] at htaken
      cases htaken

/--
On a broker that conflicts with no entry of the topology no call of a setup is ever
refused, so replicas, restarts and setups that were broken off get in nobody's way;
what was there and is not of the topology is not touched by a setup, and where a
server is online all of the topology is there.
-/
theorem setup_unrefused (hcompatible : d₀.Compatible taskStructure)
    (hrun : (setupMachine ι).run (startSetups d₀ calls) ls = some s) :
    (∀ i o x, (o, .error x) ∈ s.hist i → x = .external) ∧
    Registry.Within d₀ taskStructure s.world ∧
    ∀ i, Established s i → s.world.Contains taskStructure := by
  obtain ⟨⟨hbuilding, hplanned⟩, hunrefused⟩ : (Building d₀ s ∧ Planned s) ∧ Unrefused s :=
    Machine.invariant_of_run (fun s => (Building d₀ s ∧ Planned s) ∧ Unrefused s)
      (fun _ _ _ h hstep => ⟨⟨h.1.1.step h.1.2 hstep, h.1.2.step hstep⟩,
        h.2.step hcompatible h.1.1 h.1.2 hstep⟩)
      ⟨⟨startSetups_building d₀ calls, Monitored.start fun i => (calls i).ordered⟩,
        fun _ _ _ hx => by cases hx⟩ hrun
  exact ⟨hunrefused, hbuilding.within,
    fun i hi => hbuilding.contains_of_established hplanned hi⟩

/-- A broker with one durable queue, which `setup_rabbitmq_with_retries` has not declared. -/
def brokerWithQueue (name : String) (deadLetter : Option (String × String)) : BrokerStructure :=
  update (fun _ => none) (.queue name)
    (some { durable := true, ttl := none, deadLetter := deadLetter })

/-- Beside a queue of others, a setup is broken off by a kill and a restart; the next serves. -/
theorem setup_unrefused_beside_queue :
    ∃ s : SetupConfig (Fin 2),
      (setupMachine (Fin 2)).run
        (startSetups (brokerWithQueue "tasks.dlq" none) fun _ => .lifespan)
        (brokenOffSchedule 0 1) = some s ∧
      (s.prog 1).next? = some .serve ∧
      s.world (.queue "tasks.dlq") = some { durable := true, ttl := none, deadLetter := none } ∧
      (∀ i o x, (o, .error x) ∈ s.hist i → x = .external) ∧
      s.world.Contains taskStructure := by
  have hcompatible : (brokerWithQueue "tasks.dlq" none).Compatible taskStructure := by
    show ∀ e ∈ taskStructure, (brokerWithQueue "tasks.dlq" none).Admits e
    decide
  have hends : ((setupMachine (Fin 2)).run
      (startSetups (brokerWithQueue "tasks.dlq" none) fun _ => .lifespan)
      (brokenOffSchedule 0 1)).map (fun s => ((s.prog 1).next?, s.world (.queue "tasks.dlq"))) =
        some (some .serve, some { durable := true, ttl := none, deadLetter := none }) := by
    decide
  obtain ⟨s, hrun, heq⟩ := Option.map_eq_some_iff.1 hends
  obtain ⟨hserve, hqueue⟩ := Prod.mk.inj heq
  obtain ⟨hunrefused, -, hserving⟩ := setup_unrefused hcompatible hrun
  exact ⟨s, hrun, hserve, hqueue, hunrefused, hserving 1 (Or.inl hserve)⟩

/-- A lasting entry that needs no other stays, whatever is declared. -/
theorem has_of_setup_step {e : StructureEntry} (hneeds : e.1.needs = [])
    (hlasting : e.1.lasting e.2 = true) (he : s.world.Has e)
    (hstep : (setupMachine ι).step s l = some s') : s'.world.Has e := by
  obtain ⟨j, c, o, k, r, d, rfl, hp, hexec, rfl⟩ | ⟨a, d, rfl, henv, rfl⟩ |
      ⟨j, o, k, rfl, hp, rfl⟩ := Machine.step_cases hstep
  · rcases setupCall_cases hexec with ⟨e', -, hdeclare⟩ | ⟨rfl, -⟩
    · exact he.declare hdeclare
    · exact he
  · cases henv
    refine he.survive hlasting fun k hk => ?_
    rw [hneeds] at hk
    cases hk
  · exact he

theorem needs_of_ne {e : StructureEntry} {v : e.1.Properties} (hne : v ≠ e.2) :
    e.1.needs = [] := by
  obtain ⟨k, p⟩ := e
  cases k with
  | exchange name => rfl
  | queue name => rfl
  | binding exchange routingKey queue => exact absurd rfl hne

/--
Where the broker has a durable exchange or queue under a name of the topology, but
with other properties, no replica ever comes online, however often and in whatever
order they try: nothing in a setup, and no restart, removes what is in the way.
-/
theorem setup_never_established {v : e.1.Properties} (he : e ∈ taskStructure)
    (hother : d₀ e.1 = some v) (hne : v ≠ e.2) (hlasting : e.1.lasting v = true)
    (hrun : (setupMachine ι).run (startSetups d₀ calls) ls = some s) :
    s.world e.1 = some v ∧
    ∀ i, ¬ Established s i ∧ e ∉ (setupOf (s.hist i)).declared := by
  have hneeds : e.1.needs = [] := needs_of_ne hne
  have hkept : s.world.Has ⟨e.1, v⟩ :=
    Machine.invariant_of_run (fun s => s.world.Has ⟨e.1, v⟩)
      (fun _ _ _ h hstep => has_of_setup_step (e := ⟨e.1, v⟩) hneeds hlasting h hstep) hother hrun
  have hnot : ¬ s.world.Has e := fun hhas =>
    hne (Option.some.inj (hkept.symm.trans hhas))
  obtain ⟨hbuilding, hplanned⟩ := building_of_run hrun
  exact ⟨hkept, fun i =>
    ⟨fun hi => hnot (hbuilding.contains_of_established hplanned hi e he),
      fun hmem => hnot (hbuilding.contains i e hmem)⟩⟩

/-- A queue without a dead letter exchange is in the way of one that has it. -/
theorem setup_never_established_old_queue :
    ∃ s : SetupConfig (Fin 1),
      (setupMachine (Fin 1)).run
        (startSetups (brokerWithQueue TASK_QUEUE none) fun _ => .lifespan)
        (List.replicate 11 (.op 0 .none)) = some s ∧
      (s.prog 0).outcome? = some (.error .channelPreconditionFailed) ∧
      s.world (.queue TASK_QUEUE) = some { durable := true, ttl := none, deadLetter := none } ∧
      ¬ Established s 0 := by
  have hends : ((setupMachine (Fin 1)).run
      (startSetups (brokerWithQueue TASK_QUEUE none) fun _ => .lifespan)
      (List.replicate 11 (.op 0 .none))).bind (fun s => (s.prog 0).outcome?) =
        some (.error .channelPreconditionFailed) := by
    decide
  obtain ⟨s, hrun, hfailed⟩ := Option.bind_eq_some_iff.1 hends
  have he : (⟨.queue TASK_QUEUE, ⟨true, none, some (DLX_EXCHANGE, "retry.1s")⟩⟩ : StructureEntry) ∈
      taskStructure := by
    simp [taskStructure]
  have hother : brokerWithQueue TASK_QUEUE none (.queue TASK_QUEUE) =
      some { durable := true, ttl := none, deadLetter := none } := update_self ..
  have hne : (QueueProperties.mk true none none) ≠
      ⟨true, none, some (DLX_EXCHANGE, "retry.1s")⟩ := by
    simp
  obtain ⟨hkept, hnot⟩ := setup_never_established he hother hne rfl hrun
  exact ⟨s, hrun, hfailed, hkept, (hnot 0).1⟩

end Refusals

end Runs

end TopologySetup

end SmartHttpRequester
