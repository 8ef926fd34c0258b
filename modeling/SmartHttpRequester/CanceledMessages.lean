import SmartHttpRequester.StoredResponses

/-!
# Messages of canceled tasks

`cancel_request_task` sets the status of the row.  It does not look for the
task's message: the message that `publish_task` left in `tasks.queue` stays
there, or in the retry queue it has come to, and a worker receives it.

A DELETE succeeds only for a task that was `pending`, so the task's message is
out by then, and no request publishes another one afterwards.  What the broker
owes to its consumers after the DELETE, it owed before.
-/

namespace SmartHttpRequester

open Foundations Function

section CanceledMessages

def TaskOp.publishes : TaskOp → Bool
  | .basicPublish _ _ _ => true
  | _ => false

def TaskOp.confirms : TaskOp → Bool
  | .execute (.confirmTask _) => true
  | _ => false

/-- A single creation publishes before it asks for its confirmation, and not after. -/
def publishMonitor (req : TaskRequest) : Prog.Monitor TaskOp (List TaskRow) Exc Bool where
  allows asked o := req.IsSingle → asked = true → o.publishes = false
  expects _ _ := True
  next asked o _ := asked || o.confirms

/-- The request has asked for a confirmation. -/
def asked (hist : List (TaskOp × Reply)) : Bool :=
  hist.any fun e => e.1.confirms

section Specifications

variable {req : TaskRequest}

/-- A call that publishes nothing is in order anywhere. -/
theorem wp_quiet_call {o : TaskOp} {Q : Except Exc Unit → Bool → Prop} {g : Bool}
    (ho : o.publishes = false) (hQ : ∀ r, Q r (g || o.confirms)) :
    (Prog.effect o : TaskProg Unit).wp (publishMonitor req) Q g :=
  (Prog.wp_effect _ _ _ _).2 ⟨fun _ _ => ho, fun _ _ => hQ _, fun _ _ => hQ _⟩

/-- While no confirmation was asked for, any call is in order. -/
theorem wp_early_call {o : TaskOp} {Q : Except Exc Unit → Bool → Prop}
    (ho : o.confirms = false) (hQ : ∀ r, Q r false) :
    (Prog.effect o : TaskProg Unit).wp (publishMonitor req) Q false := by
  have hnext : ∀ r, Q r (false || o.confirms) := by
    intro r
    rw [ho]
    exact hQ r
  exact (Prog.wp_effect _ _ _ _).2
    ⟨fun _ hasked => (Bool.false_ne_true hasked).elim, fun _ _ => hnext _, fun _ _ => hnext _⟩

theorem publishTask_quiet {payload : TaskPayload} {attempts : Int} :
    (publishTask payload attempts).wp (publishMonitor req) (fun _ g => g = false) false := by
  have hclose : ∀ r : Except Exc Unit, (Prog.effect .closeChannel : TaskProg Unit).wp
      (publishMonitor req) (fun r' g => Prog.onResult (fun _ => g = false) (fun _ => g = false) r')
      false := by
    intro r
    refine wp_early_call rfl fun r' => ?_
    cases r' <;> rfl
  refine (Prog.wp_bind _ _ _ _ _).2 (wp_early_call rfl fun r => ?_)
  cases r with
  | error e => rfl
  | ok _ =>
      refine (Prog.wp_tryFinally _ _ _ _ _).2 ((Prog.wp_bind _ _ _ _ _).2 (wp_early_call rfl ?_))
      rintro (e | _)
      · exact hclose (.error e)
      · exact wp_early_call rfl hclose

variable [UrlValidator]

theorem createTask_quiet {userId : UserId} {url : String} {method : HttpMethod}
    {headers : Option Headers} {body : Option String} {maxAttempts : Int} {status : TaskStatus} :
    (createTask userId url method headers body maxAttempts status).wp (publishMonitor req)
      (fun _ g => g = false) false := by
  refine (Prog.wp_bind _ _ _ _ _).2 ((Prog.wp_perform _ _ _ _).2
    ⟨fun _ hasked => (Bool.false_ne_true hasked).elim, fun rows _ => ?_, fun _ _ => rfl⟩)
  rw [Prog.onResult_ok]
  cases fetchone rows with
  | none => rfl
  | some rawTask =>
      exact wp_modelValidate (fun _ _ => rfl) rfl

theorem requestCreate_quiet {taskData : TaskCreate} {user : UserId} :
    (requestCreate taskData user).wp (publishMonitor req) (fun _ _ => True) false := by
  refine (Prog.wp_bind _ _ _ _ _).2 ((Prog.wp_tryCatch _ _ _ _ _).2 ?_)
  refine (Prog.wp_bind _ _ _ _ _).2 (Prog.wp_mono _ createTask_quiet ?_)
  rintro (e | task) g rfl
  · trivial
  · refine (Prog.wp_bind _ _ _ _ _).2 (wp_early_call rfl ?_)
    rintro (e | _)
    · trivial
    · refine (Prog.wp_bind _ _ _ _ _).2 (Prog.wp_mono _ publishTask_quiet ?_)
      rintro (e | _) g rfl
      · trivial
      · -- from here on nothing is published
        refine (Prog.wp_bind _ _ _ _ _).2 ((Prog.wp_bind _ _ _ _ _).2 (wp_quiet_call rfl ?_))
        rintro (e | _)
        · trivial
        · refine wp_quiet_call rfl ?_
          rintro (e | _)
          · trivial
          · refine (Prog.wp_bind _ _ _ _ _).2 (wp_quiet_call rfl ?_)
            rintro (e | _)
            · trivial
            · refine (Prog.wp_bind _ _ _ _ _).2 (wp_quiet_call rfl ?_)
              rintro (e | _) <;> trivial

omit [UrlValidator] in
theorem getDb_quiet {handler : TaskProg Response}
    (hhandler : handler.wp (publishMonitor req) (fun _ _ => True) false) :
    (getDb handler).wp (publishMonitor req) (fun _ _ => True) false := by
  have hends : ∀ {o : TaskOp} {g : Bool}, o.publishes = false →
      (Prog.effect o : TaskProg Unit).wp (publishMonitor req)
        (fun r _ => Prog.onResult (fun _ => True) (fun _ => True) r) g := by
    intro o g ho
    refine wp_quiet_call ho fun r => ?_
    cases r <;> trivial
  refine wp_getDb (fun _ _ => True) (fun _ _ => True) (fun r g _ => hends rfl)
    (fun e g _ => hends rfl) (Prog.wp_mono _ hhandler ?_)
  rintro (e | response) g -
  · trivial
  · refine wp_quiet_call rfl ?_
    rintro (e | _)
    · trivial
    · exact hends rfl

variable (req) in
/-- Every request keeps to the order; it concerns the single creation only. -/
theorem TaskRequest.publishesFirst :
    req.program.wp (publishMonitor req) (fun _ _ => True) false := by
  by_cases hsingle : req.IsSingle
  · cases req with
    | create user taskData => exact getDb_quiet requestCreate_quiet
    | _ => exact hsingle.elim
  · exact Prog.wp_of_allows _ (fun _ _ h => absurd h hsingle) fun _ _ => trivial

end Specifications

variable {ι : Type}

section Order

theorem asked_snoc (hist : List (TaskOp × Reply)) (o : TaskOp) (r : Reply) :
    asked (hist ++ [(o, r)]) = (asked hist || o.confirms) := by
  simp [asked]

theorem asked_eq_after (req : TaskRequest) (hist : List (TaskOp × Reply)) :
    (publishMonitor req).after false hist = asked hist := by
  induction hist using List.reverseRecOn with
  | nil =>
      rfl
  | append_singleton hist e ih =>
      obtain ⟨o, r⟩ := e
      rw [Prog.Monitor.after_snoc, ih, asked_snoc]
      rfl

theorem TaskGhost.confirm_of_next {g : TaskGhost} {o : TaskOp} {r : Reply} {taskId : UUID}
    (h : (g.next o r).wrote = some (.confirm taskId)) :
    g.wrote = some (.confirm taskId) ∨ o.confirms = true := by
  cases r with
  | ok rows =>
      cases o with
      | execute st =>
          cases st with
          | confirmTask taskId' => exact Or.inr rfl
          | cancelTask taskId' => cases h
          | updateTask taskId' url method headers body => cases h
          | _ => exact Or.inl h
      | inc counter amount => cases counter <;> exact Or.inl h
      | commit => cases h
      | rollback => cases h
      | close => cases h
      | _ => exact Or.inl h
  | error e =>
      cases o with
      | execute st =>
          cases st with
          | confirmTask taskId' => exact Or.inr rfl
          | cancelTask taskId' => cases h
          | updateTask taskId' url method headers body => cases h
          | _ => exact Or.inl h
      | rollback => cases h
      | close => cases h
      | _ => exact Or.inl h

/-- A confirmation on record was asked for. -/
theorem asked_of_wrote {hist : List (TaskOp × Reply)} {taskId : UUID}
    (h : (ghostOf hist).wrote = some (.confirm taskId)) :
    asked hist = true := by
  induction hist using List.reverseRecOn with
  | nil =>
      cases h
  | append_singleton hist e ih =>
      obtain ⟨o, r⟩ := e
      rw [asked_snoc, Bool.or_eq_true]
      rw [ghostOf_snoc] at h
      exact (TaskGhost.confirm_of_next h).imp_left ih

abbrev Publishing (reqs : ι → TaskRequest) (s : TaskConfig ι) : Prop :=
  Monitored (fun i => publishMonitor (reqs i)) (fun _ => false) (fun _ _ _ => True)
    .cancelledError s

theorem Publishing.quiet {reqs : ι → TaskRequest} {s : TaskConfig ι} (h : Publishing reqs s)
    {i : ι} {exchange routingKey : String} {message : TaskMessage} {k : Reply → TaskProg Response}
    (hp : s.prog i = .op (.basicPublish exchange routingKey message) k)
    (hsingle : (reqs i).IsSingle) :
    asked (s.hist i) = false := by
  have hallows := Monitored.allows h hp hsingle
  rw [asked_eq_after] at hallows
  by_contra hasked
  rw [Bool.not_eq_false] at hasked
  cases hallows hasked

/--
What ties a publish to the table: an inserted task belongs to one request, and
as long as a single creation may publish, its task is `BEFORE RMQ`.
-/
structure PublishOrder (reqs : ι → TaskRequest) (s : TaskConfig ι) : Prop where
  accurate : Accurate reqs s
  publishing : Publishing reqs s
  alone : ∀ {i j id},
    id ∈ (ghostOf (s.hist i)).durable → id ∈ (ghostOf (s.hist j)).durable → i = j
  early : ∀ {i id row},
    (reqs i).IsSingle → asked (s.hist i) = false → id ∈ (ghostOf (s.hist i)).durable →
    committedTask s id = some row → row.status = .beforeRmq

variable [DecidableEq ι] {reqs : ι → TaskRequest} {s s' t t' : TaskConfig ι} {l : TaskLabel ι}
variable {ls pre post : List (TaskLabel ι)} {w : World ι} {id : UUID} {m : Envelope TaskMessage}

/-- A task becomes durable in a commit of its own, before which nobody else sees it. -/
theorem Sound.durable_of_step (h : Sound reqs s) (hstep : (taskMachine ι).step s l = some s')
    {i : ι} (hdurable : id ∈ (ghostOf (s'.hist i)).durable) :
    id ∈ (ghostOf (s.hist i)).durable ∨
    (l.actor = some i ∧ committedTask s id = none ∧
      ∃ row, s.world.tasks.slot id = Slot.empty.write i row) := by
  rcases Machine.step_hist hstep i with hsame | ⟨c, o, k, r, rfl, hp, hexec, hsnoc⟩
  · exact Or.inl (hsame ▸ hdurable)
  · rw [hsnoc, ghostOf_snoc] at hdurable
    rcases TaskGhost.next_durable hdurable with hold | ⟨rfl, -, hown⟩
    · exact Or.inl hold
    · obtain ⟨row, hslot⟩ := h.coupled.own hp hown
      exact Or.inr ⟨rfl, committedTask_of_inserted hslot, row, hslot⟩

theorem PublishOrder.alone_step (h : PublishOrder reqs s)
    (hstep : (taskMachine ι).step s l = some s') {i j : ι} (hi : id ∈ (ghostOf (s'.hist i)).durable)
    (hj : id ∈ (ghostOf (s'.hist j)).durable) :
    i = j := by
  have hexists : ∀ {k : ι}, id ∈ (ghostOf (s.hist k)).durable → committedTask s id ≠ none := by
    intro k hk hnone
    obtain ⟨row, hrow, -⟩ := h.accurate.sound.coupled.durable hk
    rw [hnone] at hrow
    cases hrow
  rcases h.accurate.sound.durable_of_step hstep hi with hi' | ⟨hactor, hnone, -⟩
  · rcases h.accurate.sound.durable_of_step hstep hj with hj' | ⟨-, hnone, -⟩
    · exact h.alone hi' hj'
    · exact absurd hnone (hexists hi')
  · rcases h.accurate.sound.durable_of_step hstep hj with hj' | ⟨hactor', -, -⟩
    · exact absurd hnone (hexists hj')
    · exact Option.some.inj (hactor.symm.trans hactor')

theorem asked_of_step (hstep : (taskMachine ι).step s l = some s') {i : ι}
    (h : asked (s'.hist i) = false) :
    asked (s.hist i) = false := by
  rcases Machine.step_hist hstep i with hsame | ⟨c, o, k, r, -, -, -, hsnoc⟩
  · rwa [hsame] at h
  · rw [hsnoc, asked_snoc, Bool.or_eq_false_iff] at h
    exact h.1

theorem PublishOrder.early_step (h : PublishOrder reqs s)
    (hstep : (taskMachine ι).step s l = some s') {i : ι} {row : TaskRow}
    (hsingle : (reqs i).IsSingle) (hasked : asked (s'.hist i) = false)
    (hdurable : id ∈ (ghostOf (s'.hist i)).durable) (hrow : committedTask s' id = some row) :
    row.status = .beforeRmq := by
  have hbefore := asked_of_step hstep hasked
  rcases h.accurate.sound.durable_of_step hstep hdurable with hold | ⟨-, hnone, first, hslot⟩
  · rcases step_committed hstep id with hsame | ⟨j, c, k, new, rfl, hp, hpending, hnew⟩
    · exact h.early hsingle hbefore hold (hsame ▸ hrow)
    · obtain rfl : row = new := Option.some.inj (hrow.symm.trans hnew)
      obtain ⟨old, hcommitted, -⟩ := h.accurate.sound.coupled.durable hold
      have hstatus := h.early hsingle hbefore hold hcommitted
      obtain ⟨u, hu⟩ := h.accurate.sound.coupled.updated hpending hcommitted
      have hsettled := (h.accurate.sound.disciplined.permits hp).1.of_wrote hu.wrote
      have hmakes := hu.makes.status
      have hpath := hu.status
      rw [hstatus, hmakes] at hpath
      cases u with
      | cancel taskId =>
          cases hpath with
          | single hmove => cases hmove
      | data taskId =>
          exact hmakes.trans hstatus
      | confirm taskId =>
          -- only the creation itself confirms its task
          obtain rfl : taskId = id := hu.taskId
          obtain rfl : j = i := h.alone hsettled.2.2 hold
          rw [asked_of_wrote hu.wrote] at hbefore
          cases hbefore
  · rcases step_committed hstep id with hsame | ⟨j, c, k, new, rfl, hp, hpending, hnew⟩
    · rw [hsame, hnone] at hrow
      cases hrow
    · obtain rfl : row = new := Option.some.inj (hrow.symm.trans hnew)
      rw [hslot] at hpending
      cases hpending
      exact (h.accurate.recorded.status (congrArg Slot.pending hslot) hnone).1 hsingle

theorem PublishOrder.step (h : PublishOrder reqs s) (hstep : (taskMachine ι).step s l = some s') :
    PublishOrder reqs s' where
  accurate := h.accurate.step hstep
  publishing :=
    Monitored.step (M := taskMachine ι) (fun _ _ _ _ _ _ _ => trivial) h.publishing hstep
  alone := h.alone_step hstep
  early := h.early_step hstep

theorem publishOrder_of_run [UrlValidator] (hw : w.Quiet)
    (hrun : (taskMachine ι).run (startTasks w reqs) ls = some s) :
    PublishOrder reqs s := by
  refine Machine.invariant_of_run (PublishOrder reqs) (fun _ _ _ h hstep => h.step hstep)
    ⟨startTasks_accurate hw reqs, Monitored.start fun i => (reqs i).publishesFirst,
      fun hdurable => ?_, fun _ _ hdurable => ?_⟩ hrun
  · cases hdurable
  · cases hdurable

omit [DecidableEq ι] in
/-- A request publishes a task only while nobody can have canceled it. -/
theorem PublishOrder.not_published (h : PublishOrder reqs s) {row : TaskRow}
    (hrow : committedTask s id = some row) (hstatus : row.status ≠ .beforeRmq) {i : ι}
    {exchange routingKey : String} {message : TaskMessage} {k : Reply → TaskProg Response}
    (hp : s.prog i = .op (.basicPublish exchange routingKey message) k) :
    message.body.taskId ≠ id := by
  rintro rfl
  obtain ⟨-, -, ⟨hsingle, hdurable⟩ | ⟨-, hown⟩⟩ := h.accurate.sound.disciplined.permits hp
  · exact hstatus (h.early hsingle (h.publishing.quiet hp hsingle) hdurable hrow)
  · obtain ⟨first, hslot⟩ := h.accurate.sound.coupled.own hp hown
    rw [committedTask_of_inserted hslot] at hrow
    cases hrow

end Order

section Removal

/-- The message a step hands to a consumer. -/
def handedOver (s : TaskConfig ι) : TaskLabel ι → Option (Envelope TaskMessage)
  | .env (.broker (.deliver q)) => (Topology.takeReady q s.world.broker).map Prod.fst
  | _ => none

variable [DecidableEq ι] {reqs : ι → TaskRequest} {s s' t t' : TaskConfig ι} {l : TaskLabel ι}
variable {ls pre post : List (TaskLabel ι)} {w : World ι} {id : UUID} {m : Envelope TaskMessage}

/-- The messages that the steps of a schedule hand to consumers. -/
def deliveries : TaskConfig ι → List (TaskLabel ι) → List (Envelope TaskMessage)
  | _, [] => []
  | s, l :: ls =>
      (handedOver s l).toList ++ ((taskMachine ι).step s l).elim [] fun s' => deliveries s' ls

/-- A consumer had the message at the start, or received it in the run. -/
def Delivered (s : TaskConfig ι) (ls : List (TaskLabel ι)) (m : Envelope TaskMessage) : Prop :=
  s.world.broker.Holds m ∨ m ∈ deliveries s ls

/-- The step commits a DELETE of the task that has succeeded: its response has been handed over. -/
def CommitsDelete (reqs : ι → TaskRequest) (s : TaskConfig ι) (l : TaskLabel ι) (id : UUID) :
    Prop :=
  ∃ i c k r,
    l = .op i c ∧
    s.prog i = .op .commit k ∧
    (reqs i).Cancels id ∧
    handed s i = some r ∧
    c.fault.Reaches

/-- The message names the task, and no consumer has received it in the run up to here. -/
def Undelivered (s : TaskConfig ι) (ls : List (TaskLabel ι)) (id : UUID)
    (m : Envelope TaskMessage) : Prop :=
  m.body.body.taskId = id ∧ ¬ Delivered s ls m

/--
What removing a task from the queue means after a run `pre` from `s`: of the
messages that name the task and were not delivered in `pre`, none waits in a
queue in any state that `post` reaches from `t`, and none is delivered in `post`.
-/
structure RemovedFromQueue (s : TaskConfig ι) (pre : List (TaskLabel ι)) (t : TaskConfig ι)
    (post : List (TaskLabel ι)) (id : UUID) : Prop where
  gone : (taskMachine ι).Always (fun u => ∀ m, Undelivered s pre id m → ¬ u.world.broker.Waits m)
    t post
  never : ∀ m ∈ deliveries t post, ¬ Undelivered s pre id m

/-- The task has been committed as pending or canceled. -/
structure Withdrawn (reqs : ι → TaskRequest) (id : UUID) (s : TaskConfig ι) : Prop where
  order : PublishOrder reqs s
  past : ∃ row, committedTask s id = some row ∧ row.status ≠ .beforeRmq

theorem Withdrawn.step (h : Withdrawn reqs id s) (hstep : (taskMachine ι).step s l = some s') :
    Withdrawn reqs id s' := by
  refine ⟨h.order.step hstep, ?_⟩
  obtain ⟨old, hold, hstatus⟩ := h.past
  obtain ⟨new, hnew, -⟩ := h.order.accurate.sound.coupled.step_advance hstep hold
  refine ⟨new, hnew, fun hbefore => hstatus ?_⟩
  exact h.order.accurate.sound.before_of_step hstep hold hnew hbefore

/-- What the broker owes of the task's messages after a step, it owed before. -/
theorem Withdrawn.owes_of_step (h : Withdrawn reqs id s)
    (hstep : (taskMachine ι).step s l = some s') (hm : m.body.body.taskId = id)
    (howes : s'.world.broker.Owes m) :
    s.world.broker.Owes m := by
  obtain ⟨i, c, o, k, r, w, rfl, hp, hexec, rfl⟩ | ⟨a, w, rfl, henv, rfl⟩ |
      ⟨i, o, k, rfl, hp, rfl⟩ := Machine.step_cases hstep
  · rcases callOp_broker hexec with hsame | ⟨exchange, routingKey, message, rfl, hpublish⟩
    · exact hsame ▸ howes
    · obtain ⟨row, hrow, hstatus⟩ := h.past
      have hother := h.order.not_published hrow hstatus hp
      have howes' := hpublish ▸ howes
      rcases Topology.owes_of_publish howes' with hbody | hold
      · rw [hbody] at hm
        exact absurd hm hother
      · exact hold
  · cases a with
    | tick d =>
        cases henv
        exact howes
    | broker a =>
        obtain ⟨b, hb, rfl⟩ := Option.map_eq_some_iff.1 henv
        exact Topology.owes_of_act hb howes
  · exact howes

theorem Withdrawn.owes_of_run (h : Withdrawn reqs id s)
    (hrun : (taskMachine ι).run s ls = some s') (hm : m.body.body.taskId = id)
    (howes : s'.world.broker.Owes m) :
    s.world.broker.Owes m := by
  induction ls generalizing s with
  | nil =>
      cases hrun
      exact howes
  | cons l ls ih =>
      obtain ⟨s₁, hstep, hrest⟩ := Machine.run_cons_eq_some.1 hrun
      exact h.owes_of_step hstep hm (ih (h.step hstep) hrest)

omit [DecidableEq ι] in
theorem owes_of_handedOver (h : handedOver s l = some m) : s.world.broker.Owes m := by
  cases l with
  | op i c => cases h
  | kill i => cases h
  | env a =>
      cases a with
      | tick d => cases h
      | broker a =>
          cases a with
          | deliver q =>
              obtain ⟨⟨m', b⟩, htake, rfl⟩ := Option.map_eq_some_iff.1 h
              exact BrokerState.owes_iff.2 (Or.inr ⟨q, (Topology.takeReady_owed htake).1⟩)
          | _ => cases h

/-- A consumer holds a message since before the step, or receives it there. -/
theorem holds_of_step (hstep : (taskMachine ι).step s l = some s')
    (hholds : s'.world.broker.Holds m) :
    s.world.broker.Holds m ∨ handedOver s l = some m := by
  obtain ⟨i, c, o, k, r, w, rfl, hp, hexec, rfl⟩ | ⟨a, w, rfl, henv, rfl⟩ |
      ⟨i, o, k, rfl, hp, rfl⟩ := Machine.step_cases hstep
  · left
    rcases callOp_broker hexec with hsame | ⟨exchange, routingKey, message, rfl, hpublish⟩
    · exact hsame ▸ hholds
    · obtain ⟨q, hq⟩ := hholds
      refine ⟨q, ?_⟩
      simpa [hpublish, Topology.publish] using hq
  · cases a with
    | tick d =>
        cases henv
        exact Or.inl hholds
    | broker a =>
        obtain ⟨b, hb, rfl⟩ := Option.map_eq_some_iff.1 henv
        refine (Topology.holds_of_act hb hholds).imp_right ?_
        rintro ⟨q, s₁, rfl, htake⟩
        simp [handedOver, htake]
  · exact Or.inl hholds

/-- A message that is delivered after the cancellation was owed at that time. -/
theorem Withdrawn.owes_of_deliveries (h : Withdrawn reqs id s) (hm : m.body.body.taskId = id)
    (hdelivered : m ∈ deliveries s ls) :
    s.world.broker.Owes m := by
  induction ls generalizing s with
  | nil =>
      cases hdelivered
  | cons l ls ih =>
      rcases List.mem_append.1 hdelivered with hfirst | hrest
      · exact owes_of_handedOver (Option.mem_toList.1 hfirst)
      · cases hstep : (taskMachine ι).step s l with
        | none =>
            rw [hstep] at hrest
            cases hrest
        | some s' =>
            rw [hstep] at hrest
            exact h.owes_of_step hstep hm (ih (h.step hstep) hrest)

/-- Whatever a consumer holds at the end of a run was delivered in it or before it. -/
theorem delivered_of_holds (hrun : (taskMachine ι).run s ls = some t)
    (hholds : t.world.broker.Holds m) :
    Delivered s ls m := by
  induction ls generalizing s with
  | nil =>
      cases hrun
      exact Or.inl hholds
  | cons l ls ih =>
      obtain ⟨s₁, hstep, hrest⟩ := Machine.run_cons_eq_some.1 hrun
      have hlater : m ∈ deliveries s₁ ls → m ∈ deliveries s (l :: ls) := by
        intro hmem
        rw [deliveries, hstep]
        exact List.mem_append_right _ hmem
      rcases ih hrest with hheld | hmem
      · rcases holds_of_step hstep hheld with hbefore | hnow
        · exact Or.inl hbefore
        · exact Or.inr (List.mem_append_left _ (Option.mem_toList.2 hnow))
      · exact Or.inr (hlater hmem)

section Commits

variable [UrlValidator]

omit [DecidableEq ι] in
/-- A task that a DELETE succeeds for has been committed as pending. -/
theorem CommitsDelete.withdrawn {rows : Rows} (h : CommitsDelete reqs s l id)
    (horder : PublishOrder reqs s) (hreviewed : Reviewed reqs rows s) :
    Withdrawn reqs id s := by
  obtain ⟨i, c, k, r, rfl, hp, hreq, hhanded, -⟩ := h
  rw [handed_eq] at hhanded
  have hreport := (hreviewed.showing.checks hp).2 r hhanded
  obtain ⟨-, -, hwrote, -⟩ := TaskRequest.reports_written hreport (Or.inl hreq)
  obtain ⟨u, hu, -, hforced, rfl⟩ := shownOf_wrote hwrote
  have hsettled := (horder.accurate.sound.disciplined.permits hp).1.of_wrote hu
  refine ⟨horder, ?_⟩
  cases u with
  | cancel taskId =>
      obtain ⟨-, -, -, found, hfound, -, hstatus⟩ := hsettled
      obtain ⟨row, hrow, hmoved⟩ := horder.accurate.sound.coupled.found hfound
      refine ⟨row, hrow, ?_⟩
      rcases statusPath_pending (hstatus ▸ hmoved.status) with hpending | hcanceled
      · simp [hpending]
      · simp [hcanceled]
  | data taskId =>
      exact absurd hreq (TaskRequest.not_cancels_of_edits hsettled.2.1)
  | confirm taskId =>
      exact hforced.elim

omit [UrlValidator] in
/-- A DELETE leaves the broker as it is. -/
theorem CommitsDelete.broker_eq (h : CommitsDelete reqs s l id)
    (hstep : (taskMachine ι).step s l = some s') :
    s'.world.broker = s.world.broker := by
  obtain ⟨i, c, k, r, rfl, hp, -, -, hreaches⟩ := h
  obtain ⟨reply, hexec, -, -⟩ := Machine.step_call hstep hp
  rw [callOp_commit_of_reaches hreaches hexec]
  rfl

/--
The exact condition under which a DELETE removes the task from the queue: when it
commits, every message that names the task and waits in a queue has been
delivered before.
-/
theorem removedFromQueue_iff (hw : w.Quiet)
    (hpre : (taskMachine ι).run (startTasks w reqs) pre = some t)
    (hdelete : CommitsDelete reqs t l id)
    (hstep : (taskMachine ι).step t l = some t') :
    RemovedFromQueue (startTasks w reqs) pre t' post id ↔
      ∀ m, Undelivered (startTasks w reqs) pre id m → ¬ t.world.broker.Waits m := by
  have hbroker := hdelete.broker_eq hstep
  constructor
  · intro hremoved m hm
    rw [← hbroker]
    exact hremoved.gone [] post t' rfl rfl m hm
  · intro hnone
    have hwithdrawn := (hdelete.withdrawn (publishOrder_of_run hw hpre)
      (reviewed_of_run hw hpre)).step hstep
    have howes : ∀ m, Undelivered (startTasks w reqs) pre id m → ¬ t'.world.broker.Owes m := by
      intro m hm howes
      rw [hbroker] at howes
      rcases BrokerState.owes_iff.1 howes with hholds | hwaits
      · exact hm.2 (delivered_of_holds hpre hholds)
      · exact hnone m hm hwaits
    constructor
    · rintro pre' post' u - hu m hm hwaits
      exact howes m hm (hwithdrawn.owes_of_run hu hm.1 (BrokerState.owes_iff.2 (Or.inr hwaits)))
    · intro m hmem hm
      exact howes m hm (hwithdrawn.owes_of_deliveries hm.1 hmem)

end Commits

section Sample

/-- User 1 creates a task, and then cancels it. -/
def createAndDelete : Fin 2 → TaskRequest :=
  ![.create 1 sampleTask, .delete 1 3]

/-- One request creates, the broker acts, and another request deletes, up to its commit. -/
def untilDeleted (broker : List (BrokerAction String)) (i j : ι) : List (TaskLabel ι) :=
  insertOf i [3] :: List.replicate 12 (callOf i) ++
    broker.map (fun a => .env (.broker a)) ++ List.replicate 5 (callOf j)

/-- What there is to say of the queue and a request at some point of the run. -/
def queueAndReply (s : TaskConfig ι) (i : ι) :
    List (String × Envelope TaskMessage) × Option TaskOp × Option (List TaskStatus) :=
  (s.world.broker.ready, (s.prog i).next?, (handed s i).map Response.statuses)

theorem commitsDelete_of_reply {s : TaskConfig (Fin 2)} {statuses : List TaskStatus}
    (hnext : (s.prog 1).next? = some .commit)
    (hreply : (handed s 1).map Response.statuses = some statuses) :
    CommitsDelete createAndDelete s (callOf 1) 3 := by
  obtain ⟨k, hk⟩ := Prog.exists_op_of_next? hnext
  obtain ⟨r, hhanded, -⟩ := Option.map_eq_some_iff.1 hreply
  exact ⟨1, {}, k, r, rfl, hk, rfl, hhanded, trivial⟩

/-- The task is canceled while its message waits; afterwards a worker receives the message. -/
theorem delete_leaves_message :
    letI := sampleUrls
    ∃ (t t' u : TaskConfig (Fin 2)) (m : Envelope TaskMessage),
      (taskMachine (Fin 2)).run (startTasks (worldOf (Fin 2) []) createAndDelete)
        (untilDeleted [] 0 1) = some t ∧
      CommitsDelete createAndDelete t (callOf 1) 3 ∧
      (taskMachine (Fin 2)).step t (callOf 1) = some t' ∧
      (committedTask t' 3).map TaskRow.status = some .canceled ∧
      m.body.body.taskId = 3 ∧
      t'.world.broker.ready = [(TASK_QUEUE, m)] ∧
      (taskMachine (Fin 2)).step t' (.env (.broker (.deliver TASK_QUEUE))) = some u ∧
      u.world.broker.held = [(TASK_QUEUE, m)] ∧
      ¬ RemovedFromQueue (startTasks (worldOf (Fin 2) []) createAndDelete) (untilDeleted [] 0 1)
        t' [.env (.broker (.deliver TASK_QUEUE))] 3 := by
  let := sampleUrls
  obtain ⟨t, t', u, hpre, hstep, hpost⟩ := Machine.exists_of_run_isSome
    (show ((taskMachine (Fin 2)).run (startTasks (worldOf (Fin 2) []) createAndDelete)
      (untilDeleted [] 0 1 ++ callOf 1 :: [.env (.broker (.deliver TASK_QUEUE))])).isSome = true by
        decide)
  have hbefore : ((taskMachine (Fin 2)).run (startTasks (worldOf (Fin 2) []) createAndDelete)
      (untilDeleted [] 0 1)).map (queueAndReply · 1) =
      some ([(TASK_QUEUE, ⟨0, taskMessage ⟨3⟩ 5⟩)], some .commit, some [.canceled]) := by
    decide
  have hafter : (((taskMachine (Fin 2)).run (startTasks (worldOf (Fin 2) []) createAndDelete)
      (untilDeleted [] 0 1)).bind fun s => (taskMachine (Fin 2)).step s (callOf 1)).map
        (fun s => (s.world.broker.ready, (committedTask s 3).map TaskRow.status)) =
      some ([(TASK_QUEUE, ⟨0, taskMessage ⟨3⟩ 5⟩)], some .canceled) := by
    decide
  have hheld : ((taskMachine (Fin 2)).run (startTasks (worldOf (Fin 2) []) createAndDelete)
      (untilDeleted [] 0 1 ++ callOf 1 :: [.env (.broker (.deliver TASK_QUEUE))])).map
        (fun s => s.world.broker.held) = some [(TASK_QUEUE, ⟨0, taskMessage ⟨3⟩ 5⟩)] := by
    decide
  have hnever : deliveries (startTasks (worldOf (Fin 2) []) createAndDelete)
      (untilDeleted [] 0 1) = [] := by
    decide
  have hrun := Machine.run_append_eq_some.2
    ⟨t, hpre, Machine.run_cons_eq_some.2 ⟨t', hstep, hpost⟩⟩
  rw [hpre] at hbefore hafter
  rw [hrun] at hheld
  simp only [Option.map_some, Option.some.injEq, queueAndReply, Prod.mk.injEq] at hbefore
  simp only [Option.bind_some, hstep, Option.map_some, Option.some.injEq, Prod.mk.injEq] at hafter
  obtain ⟨-, hnext, hreply⟩ := hbefore
  obtain ⟨hready, hstatus⟩ := hafter
  obtain ⟨u', hdeliver, hend⟩ := Machine.run_cons_eq_some.1 hpost
  cases hend
  refine ⟨t, t', u, ⟨0, taskMessage ⟨3⟩ 5⟩, hpre, commitsDelete_of_reply hnext hreply, hstep,
    hstatus, rfl, hready, hdeliver, Option.some.inj hheld, fun hremoved => ?_⟩
  refine hremoved.gone [] _ t' rfl rfl ⟨0, taskMessage ⟨3⟩ 5⟩ ⟨rfl, ?_⟩ ⟨TASK_QUEUE, ?_⟩
  · rintro (⟨q, hq⟩ | hmem)
    · cases hq
    · rw [hnever] at hmem
      cases hmem
  · rw [hready]
    exact List.mem_singleton_self _

/-- A DELETE after a worker has taken the message leaves nothing to deliver. -/
theorem removedFromQueue_taken :
    letI := sampleUrls
    ∃ t t' : TaskConfig (Fin 2),
      (taskMachine (Fin 2)).run (startTasks (worldOf (Fin 2) []) createAndDelete)
        (untilDeleted [.deliver TASK_QUEUE] 0 1) = some t ∧
      CommitsDelete createAndDelete t (callOf 1) 3 ∧
      (taskMachine (Fin 2)).step t (callOf 1) = some t' ∧
      RemovedFromQueue (startTasks (worldOf (Fin 2) []) createAndDelete)
        (untilDeleted [.deliver TASK_QUEUE] 0 1) t' [.env (.broker (.ack 0))] 3 := by
  let := sampleUrls
  obtain ⟨t, t', u, hpre, hstep, -⟩ := Machine.exists_of_run_isSome
    (show ((taskMachine (Fin 2)).run (startTasks (worldOf (Fin 2) []) createAndDelete)
      (untilDeleted [.deliver TASK_QUEUE] 0 1 ++ callOf 1 :: [])).isSome = true by
        decide)
  have hbefore : ((taskMachine (Fin 2)).run (startTasks (worldOf (Fin 2) []) createAndDelete)
      (untilDeleted [.deliver TASK_QUEUE] 0 1)).map (queueAndReply · 1) =
      some ([], some .commit, some [.canceled]) := by
    decide
  rw [hpre] at hbefore
  simp only [Option.map_some, Option.some.injEq, queueAndReply, Prod.mk.injEq] at hbefore
  obtain ⟨hready, hnext, hreply⟩ := hbefore
  have hdelete := commitsDelete_of_reply hnext hreply
  refine ⟨t, t', hpre, hdelete, hstep,
    (removedFromQueue_iff (worldOf_quiet []) hpre hdelete hstep).2 ?_⟩
  rintro m - ⟨q, hq⟩
  rw [hready] at hq
  cases hq

end Sample

end Removal

end CanceledMessages

end SmartHttpRequester
