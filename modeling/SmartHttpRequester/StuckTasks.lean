import SmartHttpRequester.Creations
import SmartHttpRequester.SequentialRequests

/-!
# Tasks stuck before the queue

A single creation commits its row as `BEFORE RMQ`, publishes, and confirms the
row with a second commit.  If it is interrupted in between, nothing undoes or
finishes the row: it stays `BEFORE RMQ`, and its owner can neither cancel nor
update it.

`noneStuck_of_unstranded`: a row is left behind only in this way.
-/

namespace SmartHttpRequester

open Foundations Function

section StuckTasks

variable {ι : Type}

/-- No creation is in progress: each has returned or raised, or has not begun. -/
def CreationsRest (reqs : ι → TaskRequest) (s : TaskConfig ι) : Prop :=
  ∀ i, (reqs i).Creates → s.hist i = [] ∨ ∃ r, (s.prog i).outcome? = some r

/-- A cancellation or update by the task's owner, run alone on the committed rows, succeeds. -/
def OwnerCanAct [UrlValidator] [DecidableEq ι] (rows : Rows) (id : UUID) (row : TaskRow) : Prop :=
  ∃ req : TaskRequest,
    req.user = row.userId ∧
    (req.Cancels id ∨ req.Edits id) ∧
    ∀ (i : ι) (w : World ι), w.Quiet → w.tasks.committed = rows →
      ∃ task w', req.program.eval (callOp i { order := w.tasks.keys }) w =
        some (.ok (.task task), w')

/-- No committed task is `BEFORE RMQ`, and every task that is not canceled can be acted on. -/
structure NoneStuck [UrlValidator] [DecidableEq ι] (s : TaskConfig ι) : Prop where
  confirmed : ∀ id row, committedTask s id = some row → row.status ≠ .beforeRmq
  actionable : ∀ id row, committedTask s id = some row → row.status ≠ .canceled →
    OwnerCanAct (ι := ι) s.world.tasks.committed id row

/-- The request is a single creation with a committed row that is `BEFORE RMQ`. -/
def Unconfirmed (reqs : ι → TaskRequest) (s : TaskConfig ι) (i : ι) : Prop :=
  (reqs i).IsSingle ∧
  ∃ row ∈ (creationOf (s.hist i)).durable, ∃ row',
    committedTask s row.id = some row' ∧ row'.status = .beforeRmq

/-- The step makes the next call of the request, and the call fails. -/
def CallFails (s : TaskConfig ι) (l : TaskLabel ι) (i : ι) : Prop :=
  ∃ c o k,
    l = .op i c ∧
    s.prog i = .op o k ∧
    c.fault ≠ .none ∧
    (o = .commit → ¬ c.fault.Reaches)

/-- The step commits the row of a single creation, and the creation takes it for a failure. -/
def MissesCommit (reqs : ι → TaskRequest) (s : TaskConfig ι) (l : TaskLabel ι) (i : ι) : Prop :=
  (reqs i).IsSingle ∧
  (creationOf (s.hist i)).rows ≠ [] ∧
  ∃ c k f,
    l = .op i c ∧
    s.prog i = .op .commit k ∧
    c.fault = .after f

/-- The step leaves the row of a single creation committed, and nobody to confirm it. -/
def Strands (reqs : ι → TaskRequest) (s : TaskConfig ι) (l : TaskLabel ι) : Prop :=
  ∃ i, (Unconfirmed reqs s i ∧ (l = .kill i ∨ CallFails s l i)) ∨ MissesCommit reqs s l i

section Ghost

variable {g : CreationGhost} {o : TaskOp} {r : Reply}

/-- How many rows the creation has inserted, committed or not. -/
def CreationGhost.count (g : CreationGhost) : Nat :=
  g.rows.length + g.durable.length

theorem CreationGhost.next_count (g : CreationGhost) (o : TaskOp) (r : Reply) :
    (g.next o r).count ≤ g.count ∨
    (∃ values bindparams rows,
      o = .execute (.insertTasks values bindparams) ∧ r = .ok rows ∧
      (g.next o r).count = g.count + rows.length) := by
  cases r with
  | ok rows =>
      cases o with
      | execute st =>
          cases st with
          | insertTasks values bindparams =>
              refine Or.inr ⟨values, bindparams, rows, rfl, rfl, ?_⟩
              show (g.rows ++ rows).length + g.durable.length = _
              simp only [List.length_append, count]
              omega
          | _ => exact Or.inl le_rfl
      | commit =>
          left
          show 0 + (g.durable ++ g.rows).length ≤ _
          simp only [List.length_append, count]
          omega
      | rollback => exact Or.inl (Nat.add_le_add_right (Nat.zero_le _) _)
      | close => exact Or.inl (Nat.add_le_add_right (Nat.zero_le _) _)
      | _ => exact Or.inl le_rfl
  | error e =>
      cases o with
      | commit => exact Or.inl (Nat.add_le_add_right (Nat.zero_le _) _)
      | rollback => exact Or.inl (Nat.add_le_add_right (Nat.zero_le _) _)
      | close => exact Or.inl (Nat.add_le_add_right (Nat.zero_le _) _)
      | _ => exact Or.inl le_rfl

/-- A confirmation is on record from its UPDATE until the transaction ends. -/
theorem CreationGhost.next_confirming (h : (g.next o r).confirming = true) :
    (g.confirming = true ∧ o ≠ .commit ∧ o ≠ .rollback ∧ o ≠ .close) ∨
    (∃ taskId rows, o = .execute (.confirmTask taskId) ∧ r = .ok rows) := by
  rcases CreationGhost.next_cases g o r with ⟨-, -, -, hconfirming⟩ |
      ⟨hends, ⟨-, -, -, -, -, -, -, hconfirming⟩ | ⟨taskId, rows, ho, hr, -⟩ |
        ⟨-, -, hconfirming⟩⟩
  · rw [hconfirming] at h
    cases h
  · exact Or.inl ⟨hconfirming ▸ h, hends⟩
  · exact Or.inr ⟨taskId, rows, ho, hr⟩
  · exact Or.inl ⟨hconfirming ▸ h, hends⟩

/-- Only a commit brings a confirmation to a commit. -/
theorem CreationGhost.next_confirmed (ho : o ≠ .commit) :
    (g.next o r).confirmed = g.confirmed := by
  cases r with
  | ok rows =>
      cases o with
      | execute st => cases st <;> rfl
      | commit => exact absurd rfl ho
      | _ => rfl
  | error e =>
      cases o with
      | commit => exact absurd rfl ho
      | _ => rfl

theorem CreationGhost.next_ok_failed (rows : List TaskRow) :
    (g.next o (.ok rows)).failed = g.failed := by
  cases o with
  | execute st => cases st <;> rfl
  | _ => rfl

end Ghost

variable [DecidableEq ι] {reqs : ι → TaskRequest} {s s' : TaskConfig ι} {l : TaskLabel ι}
variable {ls : List (TaskLabel ι)} {w : World ι}

section Lone

/-- A single creation inserts one row. -/
def LoneRows (reqs : ι → TaskRequest) (s : TaskConfig ι) : Prop :=
  ∀ i, (reqs i).IsSingle → (creationOf (s.hist i)).count ≤ 1

theorem LoneRows.step (h : LoneRows reqs s) (ha : Accurate reqs s)
    (hstep : (taskMachine ι).step s l = some s') :
    LoneRows reqs s' := by
  intro i hsingle
  rcases Machine.step_hist hstep i with hsame | ⟨c, o, k, r, rfl, hp, hexec, hsnoc⟩
  · rw [hsame]
    exact h i hsingle
  · rw [hsnoc, creationOf_snoc]
    rcases CreationGhost.next_count (creationOf (s.hist i)) o r with hle |
        ⟨values, bindparams, rows, rfl, rfl, hcount⟩
    · exact hle.trans (h i hsingle)
    · obtain ⟨hrows, hdurable, -, hone, -⟩ :=
        ha.creating.permits hp (TaskRequest.creates_of_single hsingle)
      obtain ⟨t, ht, -⟩ := hone hsingle
      obtain ⟨-, -, news, hnews, hlength⟩ := callOp_ok_insert_rows hexec
      obtain rfl : news = [t] := Option.some.inj (hnews.symm.trans ht)
      rw [hcount, hlength, CreationGhost.count, hrows, hdurable]
      rfl

omit [DecidableEq ι] in
theorem LoneRows.eq_of_durable (h : LoneRows reqs s) {i : ι} (hsingle : (reqs i).IsSingle)
    {row row' : TaskRow} (hrow : row ∈ (creationOf (s.hist i)).durable)
    (hrow' : row' ∈ (creationOf (s.hist i)).durable) :
    row = row' := by
  have hcount := h i hsingle
  rw [CreationGhost.count] at hcount
  generalize (creationOf (s.hist i)).durable = durable at *
  rcases durable with _ | ⟨first, _ | ⟨second, rest⟩⟩
  · cases hrow
  · rw [List.mem_singleton] at hrow hrow'
    rw [hrow, hrow']
  · simp only [List.length_cons] at hcount
    omega

end Lone

section Confirming

/-- A confirmation that finds its row unconfirmed has written it. -/
theorem callOp_ok_confirm {i : ι} {c : Choice} {taskId : UUID} {w w' : World ι}
    {rows : List TaskRow} {old : TaskRow}
    (h : callOp i c (.execute (.confirmTask taskId)) w = some (.ok rows, w'))
    (hvisible : (w.tasks.slot taskId).visible i = some old) (hold : old.status = .beforeRmq) :
    (w'.tasks.slot taskId).pending = some (i, { old with status := .pending }) := by
  obtain ⟨t, ht, heq⟩ := Option.map_eq_some_iff.1 (callOp_ok h)
  cases heq
  have hvisible' : (((w.begin i).tasks).slot taskId).visible i = some old := hvisible
  simp only [Table.modify, hvisible', setPending, if_pos hold] at ht
  split at ht
  · cases ht
  · cases ht
    simp

/-- A creation that has executed its confirmation holds the confirmed version. -/
def HoldsConfirmed (reqs : ι → TaskRequest) (s : TaskConfig ι) : Prop :=
  ∀ {i o k row old},
    (reqs i).IsSingle → s.prog i = .op o k →
    (creationOf (s.hist i)).confirming = true → row ∈ (creationOf (s.hist i)).durable →
    committedTask s row.id = some old → old.status = .beforeRmq →
    ∃ new, (s.world.tasks.slot row.id).pending = some (i, new) ∧ new.status ≠ .beforeRmq

/-- A row that is `BEFORE RMQ` after a step was so before it, if it was committed at all. -/
theorem Sound.before_of_step (h : Sound reqs s) (hstep : (taskMachine ι).step s l = some s')
    {id : UUID} {first old : TaskRow} (hfirst : committedTask s id = some first)
    (hold : committedTask s' id = some old) (hbefore : old.status = .beforeRmq) :
    first.status = .beforeRmq := by
  obtain ⟨new, hnew, hadvance⟩ := h.coupled.step_advance hstep hfirst
  obtain rfl : old = new := Option.some.inj (hold.symm.trans hnew)
  have hpath := hadvance.status
  rw [hbefore] at hpath
  generalize first.status = status at hpath
  cases hpath with
  | refl => rfl
  | single hmove => cases hmove

/-- Other participants leave a locked row alone. -/
theorem step_slot_of_locked (hstep : (taskMachine ι).step s l = some s') {id : UUID} {j : ι}
    {row : TaskRow} (hrow : (s.world.tasks.slot id).pending = some (j, row))
    (hactor : l.actor ≠ some j) :
    s'.world.tasks.slot id = s.world.tasks.slot id := by
  obtain ⟨i, c, o, k, r, w, rfl, hp, hexec, rfl⟩ | ⟨a, w, rfl, henv, rfl⟩ |
      ⟨i, o, k, rfl, hp, rfl⟩ := Machine.step_cases hstep
  · have hji : j ≠ i := fun hji => hactor (congrArg some hji.symm)
    exact (callOp_slot hexec id).eq_of_locked hji hrow
  · have htasks : w.tasks = s.world.tasks := envStep_tasks henv
    simp only [htasks]
  · refine Slot.rollback_eq_self fun v hv => ?_
    rw [hrow] at hv
    exact hactor (congrArg some (congrArg Prod.fst (Option.some.inj hv)).symm)

theorem Accurate.confirm_call (ha : Accurate reqs s)
    (hlone : LoneRows reqs s) {i : ι} {c : Choice} {taskId : UUID}
    {k : Reply → TaskProg Response} {rows : List TaskRow} {row first : TaskRow}
    (hsingle : (reqs i).IsSingle) (hp : s.prog i = .op (.execute (.confirmTask taskId)) k)
    (hexec : callOp i c (.execute (.confirmTask taskId)) s.world = some (.ok rows, w))
    (hrow : row ∈ (creationOf (s.hist i)).durable)
    (hfirst : committedTask s row.id = some first) (hbefore : first.status = .beforeRmq) :
    ∃ new, (w.tasks.slot row.id).pending = some (i, new) ∧ new.status ≠ .beforeRmq := by
  obtain ⟨row', hrow', hid, -⟩ := ha.creating.permits hp (TaskRequest.creates_of_single hsingle)
  obtain rfl : row = row' := hlone.eq_of_durable hsingle hrow hrow'
  obtain ⟨-, hnone, -⟩ := ha.sound.disciplined.permits hp
  have hexists : committedTask s row.id ≠ none := by simp [hfirst]
  have hvisible := ha.sound.coupled.visible_eq_committed hnone (Or.inl hexists)
  rw [hfirst, hid] at hvisible
  rw [hid]
  exact ⟨_, callOp_ok_confirm hexec hvisible hbefore, by simp⟩

theorem HoldsConfirmed.step (h : HoldsConfirmed reqs s) (ha : Accurate reqs s)
    (hlone : LoneRows reqs s) (hstep : (taskMachine ι).step s l = some s') :
    HoldsConfirmed reqs s' := by
  intro i o' k' row old hsingle hp' hconfirming hrow hold hbefore
  rcases Machine.step_participant hstep i with ⟨hactor, hprog, hhist⟩ |
      ⟨c, o, k, r, rfl, hp, hexec, -, hsnoc⟩ | ⟨rfl, hprog, -⟩
  · rw [hhist] at hconfirming hrow
    rw [hprog] at hp'
    obtain ⟨first, hfirst, -⟩ := ha.recorded.durable hrow
    obtain ⟨new, hnew, hstatus⟩ := h hsingle hp' hconfirming hrow hfirst
      (ha.sound.before_of_step hstep hfirst hold hbefore)
    exact ⟨new, (congrArg Slot.pending (step_slot_of_locked hstep hnew hactor)).trans hnew,
      hstatus⟩
  · rw [hsnoc, creationOf_snoc] at hconfirming hrow
    rcases CreationGhost.next_confirming hconfirming with
      ⟨hbegun, hcommit, hrollback, hclose⟩ | ⟨taskId, rows, rfl, rfl⟩
    · have hdurable : row ∈ (creationOf (s.hist i)).durable := by
        rcases CreationGhost.next_durable hrow with hkept | ⟨ho, -, -⟩
        · exact hkept
        · exact absurd ho hcommit
      obtain ⟨first, hfirst, -⟩ := ha.recorded.durable hdurable
      obtain ⟨new, hnew, hstatus⟩ := h hsingle hp hbegun hdurable hfirst
        (ha.sound.before_of_step hstep hfirst hold hbefore)
      rcases (callOp_slot hexec row.id).eq_or_write_of_held hnew hcommit hrollback hclose with
        hsame | ⟨st, u, new', -, -, -, hmakes, hwrite⟩
      · exact ⟨new, (congrArg Slot.pending hsame).trans hnew, hstatus⟩
      · refine ⟨new', congrArg Slot.pending hwrite, ?_⟩
        rw [hmakes.status]
        cases u with
        | cancel taskId => simp [RowWrite.statusAfter]
        | data taskId => exact hstatus
        | confirm taskId => simp [RowWrite.statusAfter]
    · have hdurable : row ∈ (creationOf (s.hist i)).durable := hrow
      obtain ⟨first, hfirst, -⟩ := ha.recorded.durable hdurable
      exact ha.confirm_call hlone hsingle hp hexec hdurable hfirst
        (ha.sound.before_of_step hstep hfirst hold hbefore)
  · rw [hprog] at hp'
    cases hp'

end Confirming

section Pursuit

/-- The creation is on its way to confirm the row. -/
structure Pursues (reqs : ι → TaskRequest) (s : TaskConfig ι) (i : ι) (id : UUID) : Prop where
  single : (reqs i).IsSingle
  running : ∃ o k, s.prog i = .op o k
  failed : (creationOf (s.hist i)).failed = false
  confirmed : (creationOf (s.hist i)).confirmed = false
  durable : ∃ row ∈ (creationOf (s.hist i)).durable, row.id = id

/-- A single creation with an unconfirmed committed row goes on, unless a call failed. -/
theorem Creating.running_of_call (hc : Creating reqs s) {i : ι} {c : Choice} {o : TaskOp}
    {k : Reply → TaskProg Response} {r : Reply} (hp : s.prog i = .op o k)
    (hexec : callOp i c o s.world = some (r, w)) (hsingle : (reqs i).IsSingle)
    (hdurable : ((creationOf (s.hist i)).next o r).durable ≠ [])
    (hfailed : ((creationOf (s.hist i)).next o r).failed = false)
    (hconfirmed : ((creationOf (s.hist i)).next o r).confirmed = false) :
    ∃ o' k', k r = .op o' k' := by
  have hrest := Monitored.after_call (M := taskMachine ι) (fun _ _ _ _ _ _ _ => trivial)
    hc hp hexec
  refine Prog.exists_op_of_wp _ hrest fun _ hdelivers => ?_
  rcases hdelivers hsingle hdurable with hyes | hyes
  · exact absurd (hyes.symm.trans hfailed) (by simp)
  · exact absurd (hyes.symm.trans hconfirmed) (by simp)

/-- While its row is `BEFORE RMQ`, a creation that nothing goes wrong with pursues it. -/
theorem Pursues.step {i : ι} {id : UUID} (h : Pursues reqs s i id) (ha : Accurate reqs s)
    (hholds : HoldsConfirmed reqs s) (hno : ¬ Strands reqs s l)
    (hstep : (taskMachine ι).step s l = some s') {first old : TaskRow}
    (hfirst : committedTask s id = some first) (hold : committedTask s' id = some old)
    (hbefore : old.status = .beforeRmq) :
    Pursues reqs s' i id := by
  obtain ⟨hsingle, ⟨o, k, hp⟩, hfailed, hconfirmed, row, hrow, rfl⟩ := h
  have hfirst_before := ha.sound.before_of_step hstep hfirst hold hbefore
  have hunconfirmed : Unconfirmed reqs s i := ⟨hsingle, row, hrow, first, hfirst, hfirst_before⟩
  rcases Machine.step_participant hstep i with ⟨hactor, hprog, hhist⟩ |
      ⟨c, o', k', r, rfl, hp', hexec, hprog, hsnoc⟩ | ⟨rfl, -, -⟩
  · refine ⟨hsingle, ⟨o, k, hprog.trans hp⟩, ?_, ?_, row, ?_, rfl⟩
    · rwa [hhist]
    · rwa [hhist]
    · rwa [hhist]
  · have hfine : c.fault ≠ .none → o' = .commit ∧ c.fault.Reaches := by
      intro hfault
      by_contra hfails
      refine hno ⟨i, Or.inl ⟨hunconfirmed, Or.inr ⟨c, o', k', rfl, hp', hfault, ?_⟩⟩⟩
      exact fun ho hreaches => hfails ⟨ho, hreaches⟩
    have hprepares := ha.creating.permits hp' (TaskRequest.creates_of_single hsingle)
    by_cases ho : o' = .commit
    · subst ho
      have hreaches : c.fault.Reaches := by
        by_cases hfault : c.fault = .none
        · rw [hfault]
          trivial
        · exact (hfine hfault).2
      -- the commit takes effect, and what it commits is confirmed
      rcases hprepares.2.2 hsingle with hinsert | ⟨-, hconfirming | hyes⟩
      · rw [hinsert.durable] at hrow
        cases hrow
      · obtain ⟨new, hnew, hstatus⟩ := hholds hsingle hp' hconfirming hrow hfirst hfirst_before
        have hworld := callOp_commit_of_reaches hreaches hexec
        have hcommitted : committedTask s' row.id = some new := by
          rw [committedTask, hworld]
          exact (Slot.commit_committed i _).trans (Slot.visible_eq_of_pending hnew)
        obtain rfl : old = new := Option.some.inj (hold.symm.trans hcommitted)
        exact absurd hbefore hstatus
      · rw [hconfirmed] at hyes
        cases hyes
    · have hnofault : c.fault = .none := by
        by_contra hfault
        exact ho (hfine hfault).1
      have hnoinsert : ∀ rows bindparams, o' ≠ .execute (.insertTasks rows bindparams) := by
        rintro rows bindparams rfl
        rw [hprepares.2.1] at hrow
        cases hrow
      obtain ⟨rows, rfl⟩ := callOp_succeeds hnofault hnoinsert hexec
      have hfailed' := (CreationGhost.next_ok_failed (o := o') rows).trans hfailed
      have hconfirmed' := (CreationGhost.next_confirmed (r := .ok rows) ho).trans hconfirmed
      have hrow' := CreationGhost.mem_next_durable (o := o') (r := .ok rows) hrow
      obtain ⟨o₂, k₂, hgoes⟩ := ha.creating.running_of_call hp' hexec hsingle
        (List.ne_nil_of_mem hrow') hfailed' hconfirmed'
      refine ⟨hsingle, ⟨o₂, k₂, hprog.trans hgoes⟩, ?_, ?_, row, ?_, rfl⟩
      · rwa [hsnoc, creationOf_snoc]
      · rwa [hsnoc, creationOf_snoc]
      · rwa [hsnoc, creationOf_snoc]
  · exact absurd ⟨i, Or.inl ⟨hunconfirmed, Or.inl rfl⟩⟩ hno

/-- The commit that makes a `BEFORE RMQ` row visible is a single creation's, which goes on. -/
theorem pursues_of_commit (ha : Accurate reqs s) (hno : ¬ Strands reqs s l)
    (hstep : (taskMachine ι).step s l = some s') {id : UUID} {row : TaskRow}
    (hnone : committedTask s id = none) (hrow : committedTask s' id = some row)
    (hbefore : row.status = .beforeRmq) :
    ∃ i, Pursues reqs s' i id := by
  rcases step_committed hstep id with hsame | ⟨i, c, k, row', rfl, hp, hpending, hrow'⟩
  · rw [hnone, hrow] at hsame
    cases hsame
  · obtain rfl : row = row' := Option.some.inj (hrow.symm.trans hrow')
    have hcreates : (reqs i).Creates := (ha.sound.coupled.inserted hpending hnone).creates
    obtain ⟨hfailed, -, hphase⟩ := ha.creating.permits hp hcreates
    have hsingle : (reqs i).IsSingle := by
      rcases TaskRequest.single_or_batch hcreates with hsingle | hbatch
      · exact hsingle
      · have hstatus := (ha.recorded.status hpending hnone).2 hbatch
        rw [hbefore] at hstatus
        cases hstatus
    have hmem : row ∈ (creationOf (s.hist i)).rows ∧ row.id = id := by
      rcases ha.recorded.inserted hpending hnone with hyes | hmem
      · rw [hfailed] at hyes
        cases hyes
      · exact hmem
    have hinsert : (creationOf (s.hist i)).InsertPhase := by
      rcases hphase hsingle with hinsert | hconfirm
      · exact hinsert
      · rw [hconfirm.rows] at hmem
        cases hmem.1
    obtain ⟨r, hexec, hprog, hsnoc⟩ := Machine.step_call hstep hp
    have hok : ∃ rows, r = .ok rows := by
      cases hfault : c.fault with
      | none => exact callOp_succeeds hfault (by simp) hexec
      | before f =>
          have hcall : callOp i c .commit s.world = some (r, s'.world) := hexec
          simp only [callOp, hfault, TaskOp.isLocal, Bool.false_eq_true, if_false, lostOp,
            Option.some.injEq, Prod.mk.injEq] at hcall
          rw [committedTask, ← hcall.2] at hrow
          rw [committedTask, hrow] at hnone
          cases hnone
      | after f =>
          exact absurd ⟨i, Or.inr ⟨hsingle, List.ne_nil_of_mem hmem.1, c, k, f, rfl, hp, hfault⟩⟩
            hno
    obtain ⟨rows, rfl⟩ := hok
    have hfailed' := (CreationGhost.next_ok_failed (o := .commit) rows).trans hfailed
    have hconfirmed' : ((creationOf (s.hist i)).next .commit (.ok rows)).confirmed = false := by
      show ((creationOf (s.hist i)).confirmed || (creationOf (s.hist i)).confirming) = false
      rw [hinsert.confirmed, hinsert.confirming]
      rfl
    have hrow' : row ∈ ((creationOf (s.hist i)).next .commit (.ok rows)).durable :=
      List.mem_append_right _ hmem.1
    obtain ⟨o₂, k₂, hgoes⟩ := ha.creating.running_of_call hp hexec hsingle
      (List.ne_nil_of_mem hrow') hfailed' hconfirmed'
    refine ⟨i, hsingle, ⟨o₂, k₂, hprog.trans hgoes⟩, ?_, ?_, row, ?_, hmem.2⟩
    · rwa [hsnoc, creationOf_snoc]
    · rwa [hsnoc, creationOf_snoc]
    · rwa [hsnoc, creationOf_snoc]

end Pursuit

section Result

/-- Every committed task has one of the statuses the API writes. -/
def ApiStatuses (s : TaskConfig ι) : Prop :=
  ∀ id row, committedTask s id = some row →
    row.status = .beforeRmq ∨ row.status = .pending ∨ row.status = .canceled

theorem ApiStatuses.step (h : ApiStatuses s) (hsound : Sound reqs s)
    (hstep : (taskMachine ι).step s l = some s') :
    ApiStatuses s' := by
  intro id row hrow
  cases hold : committedTask s id with
  | none =>
      rcases step_committed hstep id with hsame | ⟨i, c, k, row', rfl, -, hpending, hrow'⟩
      · rw [hold, hrow] at hsame
        cases hsame
      · obtain rfl : row = row' := Option.some.inj (hrow.symm.trans hrow')
        exact (hsound.coupled.inserted hpending hold).status.imp_right Or.inl
  | some old =>
      obtain ⟨new, hnew, hadvance⟩ := hsound.coupled.step_advance hstep hold
      obtain rfl : row = new := Option.some.inj (hrow.symm.trans hnew)
      have hstatus := hadvance.status
      rcases h id old hold with hfirst | hfirst | hfirst
      · rw [hfirst] at hstatus
        generalize row.status = status at hstatus ⊢
        cases hstatus with
        | refl => exact Or.inl rfl
        | single hmove =>
            cases hmove
            exact Or.inr (Or.inl rfl)
      · rw [hfirst] at hstatus
        exact Or.inr (statusPath_pending hstatus.to_reflTransGen)
      · rw [hfirst] at hstatus
        exact Or.inr (Or.inr (statusPath_canceled hstatus.to_reflTransGen))

/-- What holds of every state of a run in which no creation is stranded. -/
structure Steady (reqs : ι → TaskRequest) (s : TaskConfig ι) : Prop where
  accurate : Accurate reqs s
  lone : LoneRows reqs s
  holds : HoldsConfirmed reqs s
  statuses : ApiStatuses s
  pursued : ∀ id row, committedTask s id = some row → row.status = .beforeRmq →
    ∃ i, Pursues reqs s i id

theorem Steady.step (h : Steady reqs s) (hno : ¬ Strands reqs s l)
    (hstep : (taskMachine ι).step s l = some s') :
    Steady reqs s' where
  accurate := h.accurate.step hstep
  lone := h.lone.step h.accurate hstep
  holds := HoldsConfirmed.step h.holds h.accurate h.lone hstep
  statuses := h.statuses.step h.accurate.sound hstep
  pursued id row hrow hbefore := by
    cases hold : committedTask s id with
    | none =>
        exact pursues_of_commit h.accurate hno hstep hold hrow hbefore
    | some first =>
        have hfirst := h.accurate.sound.before_of_step hstep hold hrow hbefore
        obtain ⟨i, hi⟩ := h.pursued id first hold hfirst
        exact ⟨i, hi.step h.accurate h.holds hno hstep hold hrow hbefore⟩

variable [UrlValidator]

/-- The owner of a pending task can update it, to a URL that validates. -/
theorem ownerCanAct_of_pending {rows : Rows} {id : UUID} {row : TaskRow} {url : HttpUrl}
    (hurl : (UrlValidator.validate url.str).isSome) (hrow : rows id = some row)
    (hpending : row.status = .pending) :
    OwnerCanAct (ι := ι) rows id row := by
  refine ⟨.update row.userId id { url := url }, rfl, Or.inr rfl, fun i w hw hrows => ?_⟩
  have hvalid : (TaskResponse.modelValidate (editedRow { url := url } w.clock row)).isSome := by
    simpa [TaskResponse.modelValidate, editedRow] using hurl
  obtain ⟨task, htask⟩ := Option.isSome_iff_exists.1 hvalid
  have hout : writeOutcome row.userId id "updated" (editedRow { url := url } w.clock)
      w.tasks.committed = (.ok (.task task), update w.tasks.committed id
        (some (editedRow { url := url } w.clock row))) := by
    simp [writeOutcome, hrows, hrow, htask, hpending]
  have hrequest : (TaskRequest.update row.userId id { url := url }).outcome w.clock w.tasks.keys
      w.tasks.committed = some (.ok (.task task), update w.tasks.committed id
        (some (editedRow { url := url } w.clock row))) := congrArg some hout
  obtain ⟨w', heval, -⟩ := request_outcome (i := i) hw (List.Perm.refl _) hrequest
  exact ⟨task, w', heval⟩

/--
No task is stuck: as long as no step strands a single creation, whenever no
creation is in progress no committed task is `BEFORE RMQ`, and the owner of
every task that is not canceled can act on it.
-/
theorem noneStuck_of_unstranded (hurl : ∃ url : HttpUrl, (UrlValidator.validate url.str).isSome)
    (hw : w.Quiet)
    (hclean : ∀ id row, w.tasks.committed id = some row →
      row.status = .pending ∨ row.status = .canceled)
    (hmeet : (taskMachine ι).StepsMeet (fun s l => ¬ Strands reqs s l) (startTasks w reqs) ls) :
    (taskMachine ι).Always (fun t => CreationsRest reqs t → NoneStuck t)
      (startTasks w reqs) ls := by
  have hstart : Steady reqs (startTasks w reqs) := by
    refine ⟨startTasks_accurate hw reqs, fun i _ => Nat.zero_le _, ?_, ?_, ?_⟩
    · intro i o k row old _ _ hconfirming
      cases hconfirming
    · intro id row hrow
      exact Or.inr (hclean id row hrow)
    · intro id row hrow hbefore
      rcases hclean id row hrow with hstatus | hstatus
      · rw [hbefore] at hstatus
        cases hstatus
      · rw [hbefore] at hstatus
        cases hstatus
  have hsteady := Machine.always_of_stepsMeet (Steady reqs)
    (fun _ _ _ h hno hstep => h.step hno hstep) hstart hmeet
  refine hsteady.mono fun t ht hrest => ?_
  have hconfirmed : ∀ id row, committedTask t id = some row → row.status ≠ .beforeRmq := by
    intro id row hrow hbefore
    obtain ⟨i, hsingle, ⟨o, k, hp⟩, -, -, d, hd, -⟩ := ht.pursued id row hrow hbefore
    rcases hrest i (TaskRequest.creates_of_single hsingle) with hhist | ⟨r, hr⟩
    · rw [hhist] at hd
      cases hd
    · rw [hp] at hr
      cases hr
  refine ⟨hconfirmed, fun id row hrow hcanceled => ?_⟩
  obtain ⟨url, hvalid⟩ := hurl
  rcases ht.statuses id row hrow with hstatus | hstatus | hstatus
  · exact absurd hstatus (hconfirmed id row hrow)
  · exact ownerCanAct_of_pending hvalid hrow hstatus
  · exact absurd hstatus hcanceled

omit [UrlValidator] [DecidableEq ι] in
/-- A step that fails no call and abandons no request strands nothing. -/
theorem not_strands_of_faultless (hkill : ∀ i, l ≠ .kill i)
    (hfault : ∀ i c, l = .op i c → c.fault = .none) :
    ¬ Strands reqs s l := by
  rintro ⟨i, ⟨-, hl | ⟨c, o, k, hl, -, hfails, -⟩⟩ | ⟨-, -, c, k, f, hl, -, hfails⟩⟩
  · exact hkill i hl
  · exact hfails (hfault i c hl)
  · rw [hfault i c hl] at hfails
    cases hfails

end Result

section Sample

/-- A creation without failures leaves no task stuck. -/
theorem noneStuck_single :
    letI := sampleUrls
    (taskMachine (Fin 1)).Always
      (fun t => CreationsRest (fun _ => .create 1 sampleTask) t → NoneStuck t)
      (startTasks (worldOf (Fin 1) []) fun _ => .create 1 sampleTask) singleSchedule := by
  let := sampleUrls
  obtain ⟨s, hs⟩ := Option.isSome_iff_exists.1
    (show ((taskMachine (Fin 1)).run (startTasks (worldOf (Fin 1) [])
      fun _ => .create 1 sampleTask) singleSchedule).isSome = true by decide)
  refine noneStuck_of_unstranded ⟨⟨"https://example.com/"⟩, rfl⟩ (worldOf_quiet []) ?_ ?_
  · intro id row hrow
    cases hrow
  · refine Machine.stepsMeet_of_run hs fun pre l post t t' hls _ _ => ?_
    have hl : l ∈ singleSchedule := by
      rw [hls]
      exact List.mem_append_right _ (List.mem_cons_self ..)
    have hturn : l = insertOf 0 [3] ∨ l = callOf 0 := by
      rcases List.mem_cons.1 hl with rfl | hl
      · exact Or.inl rfl
      · exact Or.inr (List.eq_of_mem_replicate hl)
    rcases hturn with rfl | rfl
    · exact not_strands_of_faultless (by simp [insertOf]) fun i c h => by cases h; rfl
    · exact not_strands_of_faultless (by simp [callOf]) fun i c h => by cases h; rfl

/-- User 1 creates a task, and then tries to cancel it and to update it. -/
def createAndAct : Fin 3 → TaskRequest :=
  ![.create 1 sampleTask, .delete 1 3, .update 1 3 { url := ⟨"https://example.com/"⟩ }]

/-- The publish fails; then the two others run. -/
def strandedSchedule : List (TaskLabel (Fin 3)) :=
  [insertOf 0 [3], callOf 0, callOf 0, callOf 0,
    .op 0 { fault := .before ⟨"connection lost", false⟩ }, callOf 0, callOf 0, callOf 0] ++
    List.replicate 4 (callOf 1) ++ List.replicate 5 (callOf 2)

/-- The exception a request has ended with. -/
def raised (s : TaskConfig ι) (i : ι) : Option Exc :=
  match (s.prog i).outcome? with
  | some (.error e) => some e
  | _ => none

omit [DecidableEq ι] in
theorem outcome_of_raised {i : ι} {e : Exc} (h : raised s i = some e) :
    (s.prog i).outcome? = some (.error e) := by
  unfold raised at h
  split at h
  · rename_i e' he'
    rw [he', Option.some.inj h]
  · cases h

/-- The row stays `BEFORE RMQ` when all is over; its owner gets 400 both times. -/
theorem create_strands_task :
    letI := sampleUrls
    ∃ (s : TaskConfig (Fin 3)) (row : TaskRow),
      (taskMachine (Fin 3)).run (startTasks (worldOf (Fin 3) []) createAndAct)
        strandedSchedule = some s ∧
      CreationsRest createAndAct s ∧
      committedTask s 3 = some row ∧ row.userId = 1 ∧ row.status = .beforeRmq ∧
      (s.prog 0).outcome? = some (.error (.httpException 500 "connection lost")) ∧
      (s.prog 1).outcome? = some (.error (.httpException 400
        (invalidStatusText "canceled" .beforeRmq))) ∧
      (s.prog 2).outcome? = some (.error (.httpException 400
        (invalidStatusText "updated" .beforeRmq))) ∧
      ¬ (CreationsRest createAndAct s → NoneStuck s) := by
  let := sampleUrls
  obtain ⟨s, hs⟩ := Option.isSome_iff_exists.1
    (show ((taskMachine (Fin 3)).run (startTasks (worldOf (Fin 3) []) createAndAct)
      strandedSchedule).isSome = true by decide)
  have hfinal : ((taskMachine (Fin 3)).run (startTasks (worldOf (Fin 3) []) createAndAct)
      strandedSchedule).map (fun s => ((committedTask s 3).map fun row => (row.userId, row.status),
        raised s 0, raised s 1, raised s 2)) =
      some (some (1, .beforeRmq), some (.httpException 500 "connection lost"),
        some (.httpException 400 (invalidStatusText "canceled" .beforeRmq)),
        some (.httpException 400 (invalidStatusText "updated" .beforeRmq))) := by
    decide
  rw [hs] at hfinal
  simp only [Option.map_some, Option.some.injEq, Prod.mk.injEq] at hfinal
  obtain ⟨hcommitted, hcreate, hdelete, hupdate⟩ := hfinal
  have hcreate := outcome_of_raised hcreate
  have hdelete := outcome_of_raised hdelete
  have hupdate := outcome_of_raised hupdate
  obtain ⟨row, hrow, heq⟩ := Option.map_eq_some_iff.1 hcommitted
  simp only [Prod.mk.injEq] at heq
  have hrest : CreationsRest createAndAct s := by
    intro i hi
    match i with
    | 0 => exact Or.inr ⟨_, hcreate⟩
    | 1 => exact Or.inr ⟨_, hdelete⟩
    | 2 => exact Or.inr ⟨_, hupdate⟩
  exact ⟨s, row, hs, hrest, hrow, heq.1, heq.2, hcreate, hdelete, hupdate,
    fun h => (h hrest).confirmed 3 row hrow heq.2⟩

end Sample

end StuckTasks

end SmartHttpRequester
