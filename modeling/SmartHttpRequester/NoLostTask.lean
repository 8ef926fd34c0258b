import SmartHttpRequester.Creations

/-!
# No task is lost before the queue

A task becomes `pending` in one of two ways: a single creation commits it as
`BEFORE RMQ`, publishes it and then confirms it; a batch publishes all its
tasks and then commits them.  In both the message comes first, at every point
at which a call can fail or the process can die.

`noLostTask`: whatever is committed as `pending` or `canceled` has its message
in the broker's log.
-/

namespace SmartHttpRequester

open Foundations Function

section NoLostTask

variable {ι : Type}

/--
The message is in the broker's log: it was there before the run, or a request
has published it to `tasks.exchange` under `tasks.queue`.
-/
def Announced (past : List (Envelope TaskMessage)) (s : TaskConfig ι) (message : TaskMessage) :
    Prop :=
  ∃ m ∈ s.world.broker.published,
    m.body = message ∧
    (m ∈ past ∨
      ∃ i rows, (TaskOp.basicPublish TASK_EXCHANGE TASK_QUEUE message, Except.ok rows) ∈ s.hist i)

/-- Every committed task that is pending or canceled was announced under its id. -/
def NoLostTask (past : List (Envelope TaskMessage)) (s : TaskConfig ι) : Prop :=
  ∀ id row,
    committedTask s id = some row →
    row.status = .pending ∨ row.status = .canceled →
    Announced past s (taskMessage ⟨id⟩ row.maxAttempts)

variable [DecidableEq ι] {reqs : ι → TaskRequest} {s s' : TaskConfig ι} {l : TaskLabel ι}
variable {ls : List (TaskLabel ι)} {w : World ι} {past : List (Envelope TaskMessage)}
variable {about : UUID → Prop}

/-- The broker's log only grows. -/
theorem step_published (hstep : (taskMachine ι).step s l = some s') {m : Envelope TaskMessage}
    (hm : m ∈ s.world.broker.published) :
    m ∈ s'.world.broker.published := by
  obtain ⟨i, c, o, k, r, w, rfl, hp, hexec, rfl⟩ | ⟨a, w, rfl, henv, rfl⟩ |
      ⟨i, o, k, rfl, hp, rfl⟩ := Machine.step_cases hstep
  · rcases callOp_published hexec with ⟨-, message, -, -, hpub⟩ | ⟨-, hpub⟩
    · simp [hpub, hm]
    · rwa [hpub]
  · cases a with
    | tick d =>
        cases henv
        exact hm
    | broker a =>
        obtain ⟨b, hb, rfl⟩ := Option.map_eq_some_iff.1 henv
        rwa [Topology.act_published hb]
  · exact hm

theorem Announced.step {message : TaskMessage} (h : Announced past s message)
    (hstep : (taskMachine ι).step s l = some s') :
    Announced past s' message := by
  obtain ⟨m, hm, hbody, horigin⟩ := h
  refine ⟨m, step_published hstep hm, hbody, horigin.imp_right ?_⟩
  rintro ⟨i, rows, hcall⟩
  exact ⟨i, rows, (Machine.hist_prefix_of_step hstep i).subset hcall⟩

/-- What the creations have published, and what they are about to make visible. -/
structure Announcing (about : UUID → Prop) (past : List (Envelope TaskMessage))
    (s : TaskConfig ι) : Prop where
  sent : ∀ {i message}, message ∈ (creationOf (s.hist i)).sent → Announced past s message
  confirmed : ∀ {id i row old},
    (s.world.tasks.slot id).pending = some (i, row) → committedTask s id = some old →
    old.status = .beforeRmq → row.status ≠ .beforeRmq →
    taskMessage ⟨id⟩ old.maxAttempts ∈ (creationOf (s.hist i)).sent
  announced : ∀ id row,
    about id → committedTask s id = some row →
    row.status = .pending ∨ row.status = .canceled →
    Announced past s (taskMessage ⟨id⟩ row.maxAttempts)

theorem sent_of_step (hstep : (taskMachine ι).step s l = some s') {i : ι}
    {message : TaskMessage} (h : message ∈ (creationOf (s.hist i)).sent) :
    message ∈ (creationOf (s'.hist i)).sent := by
  rcases Machine.step_hist hstep i with hsame | ⟨c, o, k, r, -, -, -, hsnoc⟩
  · rwa [hsame]
  · rw [hsnoc, creationOf_snoc]
    exact CreationGhost.mem_next_sent h

theorem Announcing.sent_step (h : Announcing about past s) (hsound : Sound reqs s)
    (hstep : (taskMachine ι).step s l = some s') {i : ι} {message : TaskMessage}
    (hsent : message ∈ (creationOf (s'.hist i)).sent) :
    Announced past s' message := by
  rcases Machine.step_hist hstep i with hsame | ⟨c, o, k, r, rfl, hp, hexec, hsnoc⟩
  · rw [hsame] at hsent
    exact (h.sent hsent).step hstep
  · rw [hsnoc, creationOf_snoc] at hsent
    rcases CreationGhost.next_sent hsent with hold | ⟨exchange, routingKey, rows, rfl, rfl⟩
    · exact (h.sent hold).step hstep
    · obtain ⟨rfl, rfl, -⟩ := hsound.disciplined.permits hp
      rcases runOp_published (callOp_ok hexec) with ⟨_, ⟨_, _, heq⟩, -, hpub⟩ | ⟨hno, -⟩
      · cases heq
        refine ⟨⟨s.world.broker.published.length, message⟩, ?_, rfl, Or.inr ⟨i, rows, ?_⟩⟩
        · rw [hpub]
          exact List.mem_append_right _ (List.mem_singleton_self _)
        · rw [hsnoc]
          exact List.mem_append_right _ (List.mem_singleton_self _)
      · exact absurd rfl (hno _ _ _)

/-- A version that takes a row out of `BEFORE RMQ` is a confirmation, and follows its publish. -/
theorem Accurate.sent_of_update (h : Accurate reqs s) {i : ι} {st : Stmt}
    {k : Reply → TaskProg Response} {u : RowWrite} {old visible row : TaskRow}
    (hp : s.prog i = .op (.execute st) k) (hu : st.write? = some u)
    (hmakes : u.Makes visible row)
    (hvisible : (s.world.tasks.slot u.taskId).visible i = some visible)
    (hold : committedTask s u.taskId = some old) (hbefore : old.status = .beforeRmq)
    (hafter : row.status ≠ .beforeRmq) :
    taskMessage ⟨u.taskId⟩ old.maxAttempts ∈ (creationOf (s.hist i)).sent := by
  obtain ⟨hnone, row', hrow', hcancel⟩ := h.sound.coupled.write_target h.sound.disciplined hp hu
  have hexists : committedTask s u.taskId ≠ none := by simp [hold]
  have hseen := h.sound.coupled.visible_eq_committed hnone (Or.inl hexists)
  obtain rfl : visible = old := by
    rw [hvisible, hold] at hseen
    exact Option.some.inj hseen
  obtain rfl : visible = row' := Option.some.inj (hold.symm.trans hrow')
  cases u with
  | cancel taskId =>
      rcases hcancel rfl with hstatus | hstatus
      · rw [hbefore] at hstatus
        cases hstatus
      · rw [hbefore] at hstatus
        cases hstatus
  | data taskId =>
      exact absurd (hmakes.status.trans hbefore) hafter
  | confirm taskId =>
      cases st with
      | confirmTask taskId' =>
          cases hu
          have hsingle : (reqs i).IsSingle := (h.sound.disciplined.permits hp).1
          obtain ⟨row', hdurable, rfl, hsent⟩ :=
            h.creating.permits hp (TaskRequest.creates_of_single hsingle)
          obtain ⟨row'', hrow'', hsame⟩ := h.recorded.durable hdurable
          obtain rfl : visible = row'' := Option.some.inj (hold.symm.trans hrow'')
          have hmessage : taskMessage ⟨row'.id⟩ visible.maxAttempts = row'.message := by
            rw [hsame.maxAttempts]
            rfl
          exact hmessage ▸ hsent
      | _ => cases hu

theorem Announcing.confirmed_step (h : Announcing about past s) (ha : Accurate reqs s)
    (hstep : (taskMachine ι).step s l = some s') {id : UUID} {i : ι} {row old : TaskRow}
    (hrow : (s'.world.tasks.slot id).pending = some (i, row))
    (hold : committedTask s' id = some old) (hbefore : old.status = .beforeRmq)
    (hafter : row.status ≠ .beforeRmq) :
    taskMessage ⟨id⟩ old.maxAttempts ∈ (creationOf (s'.hist i)).sent := by
  refine sent_of_step hstep ?_
  rcases step_pending hstep hrow with hsame | ⟨c, o, k, r, rfl, hp, hexec, hinsert | hupdate⟩
  · have hold' : committedTask s id = some old := by
      rw [← hold]
      exact (congrArg Slot.committed hsame).symm
    exact h.confirmed (hsame ▸ hrow) hold' hbefore hafter
  · have hnone : committedTask s' id = none := congrArg Slot.committed hinsert
    rw [hnone] at hold
    cases hold
  · obtain ⟨hwrite, st, u, visible, rfl, hu, rfl, hmakes, hvisible, -⟩ := hupdate
    have hold' : committedTask s u.taskId = some old := by
      rw [← hold]
      exact (congrArg Slot.committed hwrite).symm
    exact ha.sent_of_update hp hu hmakes hvisible hold' hbefore hafter

omit [DecidableEq ι] in
/-- A version that becomes visible as pending or canceled was announced before. -/
theorem Announcing.commit_step (h : Announcing about past s) (ha : Accurate reqs s) {i : ι}
    {k : Reply → TaskProg Response} {id : UUID} {row : TaskRow}
    (hid : about id) (hp : s.prog i = .op .commit k)
    (hrow : (s.world.tasks.slot id).pending = some (i, row))
    (hstatus : row.status = .pending ∨ row.status = .canceled) :
    Announced past s (taskMessage ⟨id⟩ row.maxAttempts) := by
  cases hold : committedTask s id with
  | none =>
      have hcreates : (reqs i).Creates := (ha.sound.coupled.inserted hrow hold).creates
      obtain ⟨hfailed, hsent, -⟩ := ha.creating.permits hp hcreates
      have hbatch : (reqs i).IsBatch := by
        rcases TaskRequest.single_or_batch hcreates with hsingle | hbatch
        · have hbefore := (ha.recorded.status hrow hold).1 hsingle
          rw [hbefore] at hstatus
          simp at hstatus
        · exact hbatch
      rcases ha.recorded.inserted hrow hold with hyes | ⟨hmem, rfl⟩
      · rw [hfailed] at hyes
        cases hyes
      · exact h.sent (hsent hbatch row hmem)
  | some old =>
      obtain ⟨u, hu⟩ := ha.sound.coupled.updated hrow hold
      have hattempts := hu.makes.sameTask.maxAttempts
      rw [hattempts]
      generalize hnew : row.status = status at hstatus
      have hpath := hu.status
      rw [hnew] at hpath
      generalize hfirst : old.status = first at hpath
      cases hpath with
      | refl =>
          exact h.announced id old hid hold (hfirst ▸ hstatus)
      | single hmove =>
          cases hmove with
          | confirm =>
              exact h.sent (h.confirmed hrow hold hfirst (by simp [hnew]))
          | cancel =>
              exact h.announced id old hid hold (Or.inl hfirst)

theorem Announcing.step (h : Announcing about past s) (ha : Accurate reqs s)
    (hstep : (taskMachine ι).step s l = some s') :
    Announcing about past s' where
  sent := h.sent_step ha.sound hstep
  confirmed := h.confirmed_step ha hstep
  announced id row hid hrow hstatus := by
    rcases step_committed hstep id with hsame | ⟨i, c, k, row', rfl, hp, hpending, hrow'⟩
    · exact (h.announced id row hid (hsame ▸ hrow) hstatus).step hstep
    · obtain rfl : row = row' := Option.some.inj (hrow.symm.trans hrow')
      exact (h.commit_step ha hid hp hpending hstatus).step hstep

omit [DecidableEq ι] in
theorem Announcing.start [UrlValidator] (hw : w.Quiet)
    (hclean : ∀ id row,
      about id → committedTask (startTasks w reqs) id = some row →
      row.status = .pending ∨ row.status = .canceled →
      Announced w.broker.published (startTasks w reqs) (taskMessage ⟨id⟩ row.maxAttempts)) :
    Announcing about w.broker.published (startTasks w reqs) where
  sent hsent := by cases hsent
  confirmed hrow := by simp [startTasks, Machine.start, hw.pending] at hrow
  announced := hclean

omit [DecidableEq ι] in
theorem worldOf_empty_noLostTask [UrlValidator] (reqs : ι → TaskRequest) :
    NoLostTask (worldOf ι []).broker.published (startTasks (worldOf ι []) reqs) := by
  intro id row hnone
  cases hnone

end NoLostTask

end SmartHttpRequester
