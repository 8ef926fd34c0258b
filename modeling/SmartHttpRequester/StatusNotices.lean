import SmartHttpRequester.TaskLifecycle
import Mathlib.Data.List.Destutter

/-!
# The notifications replay the table

The trigger `notify_task_status_change` raises a notification in the transaction
that writes a row; PostgreSQL delivers it when that transaction commits, and
drops it when it rolls back.

`NoticesFit`: what a transaction has raised about a task is what the trigger
makes of the committed version and the version the transaction holds; each
request writes a row at most once.  `statusNotices`: along every run the
statuses delivered for a task are its committed statuses without repetition.
-/

namespace SmartHttpRequester

open Foundations Function

section StatusNotices

variable {ι : Type} [DecidableEq ι]

section Raising

/-- The notifications about a task. -/
def noticesFor (id : UUID) (notices : List Notice) : List Notice :=
  notices.filter fun n => n.taskId = id

theorem noticesFor_append (id : UUID) (notices notices' : List Notice) :
    noticesFor id (notices ++ notices') = noticesFor id notices ++ noticesFor id notices' := by
  simp [noticesFor]

theorem taskId_of_mem_notify {old : Option TaskRow} {new : TaskRow} {n : Notice}
    (h : n ∈ notifyTaskStatusChange old new) : n.taskId = new.id := by
  unfold notifyTaskStatusChange at h
  split at h
  · rw [List.mem_singleton.1 h]
  · split at h
    · rw [List.mem_singleton.1 h]
    · cases h

theorem noticesFor_notify {id : UUID} {old : Option TaskRow} {new : TaskRow} (hid : new.id = id) :
    noticesFor id (notifyTaskStatusChange old new) = notifyTaskStatusChange old new :=
  List.filter_eq_self.2 fun _ hn => by simpa using (taskId_of_mem_notify hn).trans hid

theorem noticesFor_notify_other {id : UUID} {old : Option TaskRow} {new : TaskRow}
    (hid : new.id ≠ id) :
    noticesFor id (notifyTaskStatusChange old new) = [] :=
  List.filter_eq_nil_iff.2 fun _ hn => by simpa [taskId_of_mem_notify hn] using hid

/-- Every version a transaction sees stands under its own id. -/
def World.KeyedFor (i : ι) (w : World ι) : Prop :=
  ∀ id row, (w.tasks.slot id).visible i = some row → row.id = id

/-- What the trigger makes of the version that a transaction holds. -/
def raisedFor (i : ι) (t : Slot ι TaskRow) : List Notice :=
  match t.pending with
  | some (j, row) => if j = i then notifyTaskStatusChange t.committed row else []
  | none => []

theorem raisedFor_of_pending {i : ι} {t : Slot ι TaskRow} {row : TaskRow}
    (h : t.pending = some (i, row)) :
    raisedFor i t = notifyTaskStatusChange t.committed row := by
  simp [raisedFor, h]

theorem raisedFor_of_not_pending {i : ι} {t : Slot ι TaskRow}
    (h : ∀ row, t.pending ≠ some (i, row)) :
    raisedFor i t = [] := by
  unfold raisedFor
  split
  · rename_i j row hrow
    rw [if_neg]
    rintro rfl
    exact h row hrow
  · rfl

@[simp] theorem raisedFor_write_self (i : ι) (row : TaskRow) (t : Slot ι TaskRow) :
    raisedFor i (t.write i row) = notifyTaskStatusChange t.committed row :=
  raisedFor_of_pending rfl

@[simp] theorem raisedFor_write_other {i j : ι} (hji : j ≠ i) (row : TaskRow)
    (t : Slot ι TaskRow) : raisedFor j (t.write i row) = [] := by
  simp [raisedFor, Ne.symm hji]

@[simp] theorem raisedFor_commit_self (i : ι) (t : Slot ι TaskRow) :
    raisedFor i (t.commit i) = [] :=
  raisedFor_of_not_pending fun _ hrow => (Slot.commit_pending.1 hrow).1 rfl

@[simp] theorem raisedFor_rollback_self (i : ι) (t : Slot ι TaskRow) :
    raisedFor i (t.rollback i) = [] :=
  raisedFor_of_not_pending fun _ hrow => (Slot.rollback_pending.1 hrow).1 rfl

/-- Another transaction's end changes nothing that this one has to say. -/
theorem raisedFor_commit_other {i j : ι} (hji : j ≠ i) (t : Slot ι TaskRow) :
    raisedFor j (t.commit i) = raisedFor j t := by
  by_cases hheld : ∃ row, t.pending = some (i, row)
  · obtain ⟨row, hrow⟩ := hheld
    rw [Slot.commit_of_pending hrow]
    simp [raisedFor, hrow, Ne.symm hji]
  · rw [Slot.commit_eq_self fun row hrow => hheld ⟨row, hrow⟩]

theorem raisedFor_rollback_other {i j : ι} (hji : j ≠ i) (t : Slot ι TaskRow) :
    raisedFor j (t.rollback i) = raisedFor j t := by
  by_cases hheld : ∃ row, t.pending = some (i, row)
  · obtain ⟨row, hrow⟩ := hheld
    rw [Slot.rollback_of_pending hrow]
    simp [raisedFor, hrow, Ne.symm hji]
  · rw [Slot.rollback_eq_self fun row hrow => hheld ⟨row, hrow⟩]

/-- What one call of request `i` does to the notifications about one task. -/
inductive NoticeStep (i : ι) (id : UUID) (o : TaskOp) (w w' : World ι) : Prop
  | same
      (hslot : w'.tasks.slot id = w.tasks.slot id)
      (hraised : noticesFor id (w'.notices i) = noticesFor id (w.notices i))
      (hnotified : w'.notified = w.notified)
  | commit
      (ho : o = .commit)
      (hslot : w'.tasks.slot id = (w.tasks.slot id).commit i)
      (hraised : w'.notices i = [])
      (hnotified : w'.notified = w.notified ++ w.notices i)
  | rollback
      (hslot : w'.tasks.slot id = (w.tasks.slot id).rollback i)
      (hraised : w'.notices i = [])
      (hnotified : w'.notified = w.notified)
  | insert
      {row : TaskRow}
      (hnew : w.tasks.slot id = .empty)
      (hid : row.id = id)
      (hslot : w'.tasks.slot id = (w.tasks.slot id).write i row)
      (hraised : noticesFor id (w'.notices i) =
        noticesFor id (w.notices i) ++ notifyTaskStatusChange none row)
      (hnotified : w'.notified = w.notified)
  | update
      {st : Stmt} {u : RowWrite} {old new : TaskRow}
      (ho : o = .execute st)
      (hu : st.write? = some u) (hid : u.taskId = id) (hmakes : u.Makes old new)
      (hvisible : (w.tasks.slot id).visible i = some old)
      (hlock : (w.tasks.slot id).lockedFor i = false)
      (hslot : w'.tasks.slot id = (w.tasks.slot id).write i new)
      (hraised : noticesFor id (w'.notices i) =
        noticesFor id (w.notices i) ++ notifyTaskStatusChange (some old) new)
      (hnotified : w'.notified = w.notified)

theorem updateRow_notices {i : ι} {st : Stmt} {u : RowWrite} {f : TaskRow → Option TaskRow}
    {w w' : World ι} {r : Reply} (hkeyed : w.KeyedFor i)
    (hu : st.write? = some u) (hf : ∀ old new, f old = some new → u.Makes old new)
    (h : updateRow i u.taskId f w = some (r, w')) (id : UUID) :
    NoticeStep i id (.execute st) w w' := by
  obtain ⟨t, ht, heq⟩ := Option.map_eq_some_iff.1 h
  cases heq
  cases hnew : ((w.tasks.slot u.taskId).visible i).bind f with
  | none =>
      -- no row matches
      have hsame : t = w.tasks := by
        rcases Table.modify_cases ht with rfl | ⟨old, new, hvisible, hf', -, -⟩
        · rfl
        · rw [hvisible, Option.bind_some, hf'] at hnew
          cases hnew
      refine .same (by rw [hsame]) ?_ rfl
      simp
  | some new =>
      obtain ⟨old, hvisible, hold⟩ := Option.bind_eq_some_iff.1 hnew
      have hmakes := hf old new hold
      have hid : new.id = u.taskId := hmakes.sameTask.id.trans (hkeyed _ _ hvisible)
      obtain ⟨hlock, rfl⟩ : (w.tasks.slot u.taskId).lockedFor i = false ∧
          t = w.tasks.set u.taskId ((w.tasks.slot u.taskId).write i new) := by
        simp only [Table.modify, hvisible, hold] at ht
        split at ht
        · cases ht
        · rename_i hlock
          exact ⟨by simpa using hlock, (Option.some.inj ht).symm⟩
      by_cases hk : id = u.taskId
      · subst hk
        refine .update rfl hu rfl hmakes hvisible hlock (by simp) ?_ rfl
        simp [noticesFor_append, hvisible, noticesFor_notify hid]
      · refine .same (by simp [hk]) ?_ rfl
        simp [noticesFor_append, hvisible, noticesFor_notify_other fun h => hk (h.symm.trans hid)]

omit [DecidableEq ι] in
/-- The trigger runs once for each inserted row. -/
theorem noticesFor_insert (id : UUID) (rows : List TaskRow) :
    noticesFor id (rows.flatMap (notifyTaskStatusChange none)) =
      (rows.filter fun row => row.id = id).flatMap (notifyTaskStatusChange none) := by
  induction rows with
  | nil =>
      rfl
  | cons row rows ih =>
      rw [List.flatMap_cons, noticesFor_append, ih]
      by_cases hid : row.id = id
      · rw [noticesFor_notify hid, List.filter_cons_of_pos (by simpa using hid), List.flatMap_cons]
      · rw [noticesFor_notify_other hid, List.filter_cons_of_neg (by simpa using hid),
          List.nil_append]

theorem insertRows_notices {i : ι} {o : TaskOp} {rows : List TaskRow} {w w' : World ι} {r : Reply}
    (h : insertRows i rows w = some (r, w')) (id : UUID) :
    NoticeStep i id o w w' := by
  obtain ⟨t, ht, heq⟩ := Option.map_eq_some_iff.1 h
  cases heq
  have hfilter : (rows.map fun row => (row.id, row)).filter (fun kv => kv.1 = id) =
      (rows.filter fun row => row.id = id).map fun row => (row.id, row) := by
    rw [List.filter_map]
    rfl
  rcases Table.insertAll_filter ht id with ⟨hnone, hsame⟩ | ⟨row, hone, hempty, hslot⟩
  · rw [hfilter, List.map_eq_nil_iff] at hnone
    refine .same hsame ?_ rfl
    simp [noticesFor_append, noticesFor_insert, hnone]
  · rw [hfilter, List.map_eq_singleton_iff] at hone
    obtain ⟨row', hrows, heq⟩ := hone
    cases heq
    refine .insert hempty rfl (by simpa [hempty] using hslot) ?_ rfl
    simp [noticesFor_append, noticesFor_insert, hrows]

theorem runStmt_notices {i : ι} {c : Choice} {st : Stmt} {w w' : World ι} {r : Reply}
    (hkeyed : w.KeyedFor i) (h : runStmt i c st w = some (r, w')) (id : UUID) :
    NoticeStep i id (.execute st) w w' := by
  cases st with
  | insertTasks rows bindparams =>
      simp only [runStmt] at h
      split at h
      · cases h
        exact .same rfl rfl rfl
      · split at h
        · exact insertRows_notices h id
        · cases h
  | selectOwnerStatus taskId =>
      cases h
      exact .same rfl rfl rfl
  | selectTask taskId =>
      cases h
      exact .same rfl rfl rfl
  | selectUserTasks userId skip limit =>
      simp only [runStmt] at h
      split at h
      · cases h
        exact .same rfl rfl rfl
      · cases h
  | cancelTask taskId =>
      refine updateRow_notices (u := .cancel taskId) hkeyed rfl (fun old new hnew => ?_) h id
      cases hnew
      rfl
  | updateTask taskId url method headers body =>
      refine updateRow_notices (u := .data taskId) hkeyed rfl (fun old new hnew => ?_) h id
      cases hnew
      rfl
  | confirmTask taskId =>
      refine updateRow_notices (u := .confirm taskId) hkeyed rfl (fun old new hnew => ?_) h id
      unfold setPending at hnew
      split at hnew
      · rename_i hstatus
        cases hnew
        exact ⟨hstatus, rfl⟩
      · cases hnew

theorem runOp_notices {i : ι} {c : Choice} {o : TaskOp} {w w' : World ι} {r : Reply}
    (hkeyed : w.KeyedFor i) (h : runOp i c o w = some (r, w')) (id : UUID) :
    NoticeStep i id o w w' := by
  cases o with
  | execute st =>
      have hstmt : NoticeStep i id (.execute st) (w.begin i) w' :=
        runStmt_notices (w := w.begin i) hkeyed h id
      cases hstmt with
      | same hslot hraised hnotified => exact .same hslot hraised hnotified
      | commit ho hslot hraised hnotified => exact .commit ho hslot hraised hnotified
      | rollback hslot hraised hnotified => exact .rollback hslot hraised hnotified
      | insert hnew hid hslot hraised hnotified => exact .insert hnew hid hslot hraised hnotified
      | update ho hu hid hmakes hvisible hlock hslot hraised hnotified =>
          exact .update ho hu hid hmakes hvisible hlock hslot hraised hnotified
  | commit =>
      cases h
      exact .commit rfl rfl (by simp [World.commit]) rfl
  | rollback =>
      cases h
      exact .rollback rfl (by simp [World.rollback]) rfl
  | close =>
      cases h
      exact .rollback rfl (by simp [World.rollback]) rfl
  | inc counter amount =>
      cases h
      cases counter <;> exact .same rfl rfl rfl
  | _ =>
      cases h
      exact .same rfl rfl rfl

/-- Whether it fails or not, a call does one of the listed things to the notifications. -/
theorem callOp_notices {i : ι} {c : Choice} {o : TaskOp} {w w' : World ι} {r : Reply}
    (hkeyed : w.KeyedFor i) (h : callOp i c o w = some (r, w')) (id : UUID) :
    NoticeStep i id o w w' := by
  rcases callOp_cases h with ⟨r', hrun, -, -⟩ | ⟨f, -, -, -, rfl⟩
  · exact runOp_notices hkeyed hrun id
  · cases o with
    | rollback => exact .rollback rfl (by simp [lostOp, World.rollback]) rfl
    | close => exact .rollback rfl (by simp [lostOp, World.rollback]) rfl
    | _ => exact .same rfl rfl rfl

/-- A statement raises notifications in its own transaction only. -/
theorem runStmt_notices_other {i j : ι} (hji : j ≠ i) {c : Choice} {st : Stmt} {w w' : World ι}
    {r : Reply} (h : runStmt i c st w = some (r, w')) :
    w'.notices j = w.notices j := by
  have hrow : ∀ {taskId f}, updateRow i taskId f w = some (r, w') →
      w'.notices j = w.notices j := by
    intro taskId f hupdate
    obtain ⟨t, -, heq⟩ := Option.map_eq_some_iff.1 hupdate
    cases heq
    exact update_of_ne hji _ _
  cases st with
  | insertTasks rows bindparams =>
      simp only [runStmt] at h
      split at h
      · cases h
        rfl
      · split at h
        · obtain ⟨t, -, heq⟩ := Option.map_eq_some_iff.1 h
          cases heq
          exact update_of_ne hji _ _
        · cases h
  | selectUserTasks userId skip limit =>
      simp only [runStmt] at h
      split at h
      · cases h
        rfl
      · cases h
  | selectOwnerStatus taskId =>
      cases h
      rfl
  | selectTask taskId =>
      cases h
      rfl
  | cancelTask taskId => exact hrow h
  | updateTask taskId url method headers body => exact hrow h
  | confirmTask taskId => exact hrow h

theorem runOp_notices_other {i j : ι} (hji : j ≠ i) {c : Choice} {o : TaskOp} {w w' : World ι}
    {r : Reply} (h : runOp i c o w = some (r, w')) :
    w'.notices j = w.notices j := by
  cases o with
  | execute st => exact runStmt_notices_other (w := w.begin i) hji h
  | commit =>
      cases h
      exact update_of_ne hji _ _
  | rollback =>
      cases h
      exact update_of_ne hji _ _
  | close =>
      cases h
      exact update_of_ne hji _ _
  | inc counter amount =>
      cases h
      cases counter <;> rfl
  | _ =>
      cases h
      rfl

theorem callOp_notices_other {i j : ι} (hji : j ≠ i) {c : Choice} {o : TaskOp} {w w' : World ι}
    {r : Reply} (h : callOp i c o w = some (r, w')) :
    w'.notices j = w.notices j := by
  rcases callOp_cases h with ⟨r', hrun, -, -⟩ | ⟨f, -, -, -, rfl⟩
  · exact runOp_notices_other hji hrun
  · cases o with
    | rollback => exact update_of_ne hji _ _
    | close => exact update_of_ne hji _ _
    | _ => rfl

end Raising

section Fitting

variable {reqs : ι → TaskRequest} {s s' : TaskConfig ι} {l : TaskLabel ι}

/-- Every row stands under its own id. -/
def World.Keyed (w : World ι) : Prop :=
  ∀ id row, w.tasks.committed id = some row → row.id = id

/-- The notifications raised so far and the versions held agree. -/
structure NoticesFit (w : World ι) : Prop where
  committed : ∀ id row, w.tasks.committed id = some row → row.id = id
  pending : ∀ id i row, (w.tasks.slot id).pending = some (i, row) → row.id = id
  raised : ∀ i id, noticesFor id (w.notices i) = raisedFor i (w.tasks.slot id)

theorem World.Quiet.noticesFit {w : World ι} (hw : w.Quiet) (hkeyed : w.Keyed) :
    NoticesFit w where
  committed := hkeyed
  pending id i row h := by simp [hw.pending] at h
  raised i id := by
    rw [raisedFor_of_not_pending fun row => by simp [hw.pending], hw.notices]
    rfl

theorem NoticesFit.keyedFor {w : World ι} (h : NoticesFit w) (i : ι) : w.KeyedFor i := by
  intro id row hrow
  rcases Slot.visible_cases i (w.tasks.slot id) with ⟨row', hpending, hvisible⟩ | ⟨-, hvisible⟩
  · rw [hvisible] at hrow
    cases hrow
    exact h.pending id i row hpending
  · exact h.committed id row (hvisible.symm.trans hrow)

/-- A request about to write a row holds no version of it, and sees the committed one. -/
theorem Coupled.fresh_of_update (h : Coupled reqs s) (hd : Disciplined reqs s) {i : ι} {st : Stmt}
    {u : RowWrite} {k : Reply → TaskProg Response} {id : UUID} {old : TaskRow}
    (hp : s.prog i = .op (.execute st) k) (hu : st.write? = some u) (hid : u.taskId = id)
    (hvisible : (s.world.tasks.slot id).visible i = some old)
    (hlock : (s.world.tasks.slot id).lockedFor i = false) :
    (s.world.tasks.slot id).pending = none ∧ committedTask s id = some old := by
  subst hid
  obtain ⟨hnone, row, hrow, -⟩ := h.write_target hd hp hu
  have hexists : committedTask s u.taskId ≠ none := by simp [hrow]
  have hcommitted := h.visible_eq_committed hnone (Or.inl hexists)
  rw [hvisible] at hcommitted
  refine ⟨?_, hcommitted.symm⟩
  cases hpending : (s.world.tasks.slot u.taskId).pending with
  | none => rfl
  | some jr =>
      obtain ⟨j, row'⟩ := jr
      by_cases hji : j = i
      · subst hji
        obtain ⟨u', hu'⟩ := h.updated hpending hcommitted.symm
        have hsome : none = some u' := hnone.symm.trans hu'.wrote
        cases hsome
      · simp [Slot.lockedFor, hpending, hji] at hlock

theorem NoticesFit.call (h : NoticesFit s.world) (hsound : Sound reqs s) {i : ι} {c : Choice}
    {o : TaskOp} {k : Reply → TaskProg Response} {r : Reply} {w : World ι}
    (hp : s.prog i = .op o k) (hexec : callOp i c o s.world = some (r, w)) :
    NoticesFit w := by
  have hkeyed := h.keyedFor i
  have hother : ∀ {id j}, j ≠ i → noticesFor id (w.notices j) =
      raisedFor j (s.world.tasks.slot id) := by
    intro id j hji
    rw [callOp_notices_other hji hexec]
    exact h.raised j id
  refine ⟨fun id row hrow => ?_, fun id j row hrow => ?_, fun j id => ?_⟩
  · rcases (callOp_slot hexec id).committed with hsame | ⟨-, row', hpending, hcommitted⟩
    · exact h.committed id row (hsame.symm.trans hrow)
    · cases hrow.symm.trans hcommitted
      exact h.pending id i row hpending
  · rcases (callOp_slot hexec id).pending hrow with ⟨hsame, -⟩ |
        ⟨rfl, -, -, rows, bindparams, news, new, createdAt, -, -, -, rfl⟩ |
        ⟨rfl, -, st, u, old, -, -, -, hmakes, hvisible, -⟩
    · exact h.pending id j row (hsame ▸ hrow)
    · rfl
    · exact hmakes.sameTask.id.trans (hkeyed id old hvisible)
  · cases callOp_notices hkeyed hexec id with
    | same hslot hraised hnotified =>
        rw [hslot]
        by_cases hji : j = i
        · subst hji
          exact hraised.trans (h.raised j id)
        · exact hother hji
    | commit ho hslot hraised hnotified =>
        rw [hslot]
        by_cases hji : j = i
        · subst hji
          rw [hraised, raisedFor_commit_self]
          rfl
        · rw [raisedFor_commit_other hji]
          exact hother hji
    | rollback hslot hraised hnotified =>
        rw [hslot]
        by_cases hji : j = i
        · subst hji
          rw [hraised, raisedFor_rollback_self]
          rfl
        · rw [raisedFor_rollback_other hji]
          exact hother hji
    | insert hnew hid hslot hraised hnotified =>
        rw [hslot]
        by_cases hji : j = i
        · subst hji
          rw [hraised, h.raised, hnew, raisedFor_write_self]
          rfl
        · rw [raisedFor_write_other hji, hother hji, hnew]
          rfl
    | update ho hu hid hmakes hvisible hlock hslot hraised hnotified =>
        subst ho
        obtain ⟨hnone, hcommitted⟩ :=
          hsound.coupled.fresh_of_update hsound.disciplined hp hu hid hvisible hlock
        have hbefore : ∀ j, raisedFor j (s.world.tasks.slot id) = [] :=
          fun j => raisedFor_of_not_pending fun row => by simp [hnone]
        rw [hslot]
        by_cases hji : j = i
        · subst hji
          rw [hraised, h.raised, hbefore, raisedFor_write_self, List.nil_append]
          exact congrArg (notifyTaskStatusChange · _) hcommitted.symm
        · rw [raisedFor_write_other hji, hother hji, hbefore]

theorem NoticesFit.step (h : NoticesFit s.world) (hsound : Sound reqs s)
    (hstep : (taskMachine ι).step s l = some s') :
    NoticesFit s'.world := by
  obtain ⟨i, c, o, k, r, w, rfl, hp, hexec, rfl⟩ | ⟨a, w, rfl, henv, rfl⟩ |
      ⟨i, o, k, rfl, hp, rfl⟩ := Machine.step_cases hstep
  · exact h.call hsound hp hexec
  · have htasks : w.tasks = s.world.tasks := envStep_tasks henv
    have hnotices : w.notices = s.world.notices := by
      cases a with
      | tick d =>
          cases henv
          rfl
      | broker a =>
          obtain ⟨b, -, rfl⟩ := Option.map_eq_some_iff.1 henv
          rfl
    constructor <;> simp only [htasks, hnotices]
    · exact h.committed
    · exact h.pending
    · exact h.raised
  · refine ⟨fun id row hrow => ?_, fun id j row hrow => ?_, fun j id => ?_⟩
    · exact h.committed id row ((Slot.rollback_committed i _).symm.trans hrow)
    · exact h.pending id j row (Slot.rollback_pending.1 hrow).2
    · by_cases hji : j = i
      · subst hji
        show noticesFor id (update s.world.notices j [] j) = raisedFor j (Slot.rollback j _)
        rw [update_self, raisedFor_rollback_self]
        rfl
      · show noticesFor id (update s.world.notices i [] j) = raisedFor j (Slot.rollback i _)
        rw [update_of_ne hji, raisedFor_rollback_other hji]
        exact h.raised j id

end Fitting

section Replaying

variable {reqs : ι → TaskRequest} {s s' : TaskConfig ι} {l : TaskLabel ι}

/-- A call that ends no transaction in a commit delivers nothing. -/
theorem callOp_delivers {i : ι} {c : Choice} {o : TaskOp} {w w' : World ι} {r : Reply}
    (hkeyed : w.KeyedFor i) (h : callOp i c o w = some (r, w')) :
    (w'.notified = w.notified ∧ ∀ id, w'.tasks.committed id = w.tasks.committed id) ∨
    (w'.notified = w.notified ++ w.notices i ∧ w'.tasks = w.tasks.commit i) := by
  by_cases ho : o = .commit
  · subst ho
    rcases callOp_cases h with ⟨r', hrun, -, -⟩ | ⟨f, -, -, -, rfl⟩
    · cases hrun
      exact Or.inr ⟨rfl, rfl⟩
    · exact Or.inl ⟨rfl, fun _ => rfl⟩
  · have hcommitted : ∀ id, w'.tasks.committed id = w.tasks.committed id := fun id =>
      (callOp_slot h id).committed.resolve_right fun hcommit => ho hcommit.1
    refine Or.inl ⟨?_, hcommitted⟩
    cases callOp_notices hkeyed h 0 with
    | same hslot hraised hnotified => exact hnotified
    | commit hcommit => exact absurd hcommit ho
    | rollback hslot hraised hnotified => exact hnotified
    | insert hnew hid hslot hraised hnotified => exact hnotified
    | update hst hu hid hmakes hvisible hlock hslot hraised hnotified => exact hnotified

theorem notify_unchanged (row : Option TaskRow) :
    row.elim [] (notifyTaskStatusChange row) = [] := by
  cases row with
  | none => rfl
  | some row => simp [notifyTaskStatusChange]

/-- What a step delivers about a task is what it changes of the committed version. -/
theorem NoticesFit.delivered (h : NoticesFit s.world)
    (hstep : (taskMachine ι).step s l = some s') :
    ∃ delivered, s'.world.notified = s.world.notified ++ delivered ∧
      ∀ id, noticesFor id delivered =
        (committedTask s' id).elim [] (notifyTaskStatusChange (committedTask s id)) := by
  have hnothing : s'.world.notified = s.world.notified →
      (∀ id, committedTask s' id = committedTask s id) →
      ∃ delivered, s'.world.notified = s.world.notified ++ delivered ∧
        ∀ id, noticesFor id delivered =
          (committedTask s' id).elim [] (notifyTaskStatusChange (committedTask s id)) := by
    intro hnotified hcommitted
    refine ⟨[], by rw [hnotified, List.append_nil], fun id => ?_⟩
    rw [hcommitted, notify_unchanged]
    rfl
  obtain ⟨i, c, o, k, r, w, rfl, hp, hexec, rfl⟩ | ⟨a, w, rfl, henv, rfl⟩ |
      ⟨i, o, k, rfl, hp, rfl⟩ := Machine.step_cases hstep
  · rcases callOp_delivers (h.keyedFor i) hexec with ⟨hnotified, hcommitted⟩ |
        ⟨hnotified, htasks⟩
    · exact hnothing hnotified hcommitted
    · refine ⟨s.world.notices i, hnotified, fun id => ?_⟩
      have hafter : w.tasks.committed id = (s.world.tasks.slot id).visible i := by
        rw [htasks]
        exact Slot.commit_committed i _
      rw [h.raised, committedTask, hafter]
      rcases Slot.visible_cases i (s.world.tasks.slot id) with ⟨row, hpending, hvisible⟩ |
          ⟨hnot, hvisible⟩
      · rw [raisedFor_of_pending hpending, hvisible]
        rfl
      · rw [raisedFor_of_not_pending hnot, hvisible]
        exact (notify_unchanged (committedTask s id)).symm
  · refine hnothing ?_ fun id => ?_
    · cases a with
      | tick d =>
          cases henv
          rfl
      | broker a =>
          obtain ⟨b, -, rfl⟩ := Option.map_eq_some_iff.1 henv
          rfl
    · have htasks : w.tasks = s.world.tasks := envStep_tasks henv
      simp only [committedTask, htasks]
  · exact hnothing rfl fun id => Slot.rollback_committed i _

/-- The status of a task, as a list with nothing in it before the task is committed. -/
def statusOf (s : TaskConfig ι) (id : UUID) : List TaskStatus :=
  ((committedTask s id).map TaskRow.status).toList

/-- The committed statuses of a task in the states of a run, one after the other. -/
def committedStatuses (id : UUID) : TaskConfig ι → List (TaskLabel ι) → List TaskStatus
  | s, [] => statusOf s id
  | s, l :: ls =>
      statusOf s id ++ ((taskMachine ι).step s l).elim [] fun s' => committedStatuses id s' ls

/-- The statuses delivered about a task. -/
def deliveredStatuses (id : UUID) (delivered : List Notice) : List TaskStatus :=
  (noticesFor id delivered).map Notice.status

theorem committedStatuses_eq (id : UUID) (s : TaskConfig ι) (ls : List (TaskLabel ι)) :
    ∃ rest, committedStatuses id s ls = statusOf s id ++ rest := by
  cases ls with
  | nil => exact ⟨[], (List.append_nil _).symm⟩
  | cons l ls => exact ⟨_, rfl⟩

theorem notify_statuses {old new : TaskRow} :
    (notifyTaskStatusChange (some old) new).map Notice.status =
      if new.status ≠ old.status then [new.status] else [] := by
  simp only [notifyTaskStatusChange]
  split <;> rfl

end Replaying

section Results

variable [UrlValidator] {reqs : ι → TaskRequest} {s t : TaskConfig ι} {w : World ι}
variable {ls : List (TaskLabel ι)}

/-- What the notifications delivered during a run say about a task. -/
structure Replays (id : UUID) (s : TaskConfig ι) (ls : List (TaskLabel ι)) (t : TaskConfig ι)
    (delivered : List Notice) : Prop where
  statuses : statusOf s id ++ deliveredStatuses id delivered =
    (committedStatuses id s ls).destutter (· ≠ ·)
  last : (statusOf s id ++ deliveredStatuses id delivered).getLast? =
    (committedTask t id).map TaskRow.status
  first : committedTask s id = none → ∀ n, (noticesFor id delivered).head? = some n →
    n.operation = .INSERT

omit [UrlValidator] in
theorem replays_nil (id : UUID) (s : TaskConfig ι) : Replays id s [] s [] := by
  refine ⟨?_, ?_, fun _ n hn => by cases hn⟩
  · rw [committedStatuses, statusOf]
    cases committedTask s id <;> rfl
  · rw [statusOf]
    cases committedTask s id <;> rfl

omit [UrlValidator] in
/-- One more step at the beginning, by what it changes of the committed version. -/
theorem Replays.cons {id : UUID} {s s' t : TaskConfig ι} {l : TaskLabel ι}
    {delivered rest : List Notice} (h : Replays id s' ls t rest)
    (hstep : (taskMachine ι).step s l = some s')
    (hkept : committedTask s id ≠ none → committedTask s' id ≠ none)
    (hdelivered : noticesFor id delivered =
      (committedTask s' id).elim [] (notifyTaskStatusChange (committedTask s id))) :
    Replays id s (l :: ls) t (delivered ++ rest) := by
  obtain ⟨hstatuses, hlast, hfirst⟩ := h
  have htrace : committedStatuses id s (l :: ls) =
      statusOf s id ++ committedStatuses id s' ls := by
    rw [committedStatuses, hstep]
    rfl
  have hsplit : deliveredStatuses id (delivered ++ rest) =
      (noticesFor id delivered).map Notice.status ++ deliveredStatuses id rest := by
    rw [deliveredStatuses, noticesFor_append, List.map_append]
    rfl
  cases hold : committedTask s id with
  | none =>
      -- the task appears in this step, or does not exist yet
      have hnone : statusOf s id = [] := by rw [statusOf, hold]; rfl
      have hnew : (noticesFor id delivered).map Notice.status = statusOf s' id := by
        rw [hdelivered, hold, statusOf]
        cases committedTask s' id <;> rfl
      refine ⟨?_, ?_, fun _ n hn => ?_⟩
      · rw [htrace, hnone, hsplit, hnew]
        exact hstatuses
      · rw [hnone, hsplit, hnew]
        exact hlast
      · rw [noticesFor_append, hdelivered, hold] at hn
        cases hnew : committedTask s' id with
        | none =>
            rw [hnew] at hn
            exact hfirst hnew n hn
        | some new =>
            rw [hnew] at hn
            cases hn
            rfl
  | some old =>
      obtain ⟨new, hnew⟩ := Option.ne_none_iff_exists'.1 (hkept (by simp [hold]))
      have hbefore : statusOf s id = [old.status] := by rw [statusOf, hold]; rfl
      have hafter : statusOf s' id = [new.status] := by rw [statusOf, hnew]; rfl
      have hchange : (noticesFor id delivered).map Notice.status =
          if new.status ≠ old.status then [new.status] else [] := by
        rw [hdelivered, hold, hnew]
        exact notify_statuses
      obtain ⟨tail, htail⟩ := committedStatuses_eq id s' ls
      rw [hafter] at hstatuses hlast htail
      refine ⟨?_, ?_, fun hnone => by cases hold.symm.trans hnone⟩
      · rw [htrace, hbefore, hsplit, hchange, htail]
        rw [htail] at hstatuses
        by_cases hsame : new.status = old.status
        · -- the step repeats the status, or leaves the row alone
          rw [hsame] at hstatuses ⊢
          simpa [List.destutter_cons'] using hstatuses
        · simp only [List.singleton_append, List.destutter_cons'] at hstatuses ⊢
          rw [List.destutter'_cons_pos _ (Ne.symm hsame), ← hstatuses]
          simp [hsame]
      · rw [hbefore, hsplit, hchange, ← hlast]
        by_cases hsame : new.status = old.status
        · simp [hsame]
        · simp [hsame, List.getLast?_cons_cons]

omit [UrlValidator] in
theorem Sound.replays (h : Sound reqs s) (hfit : NoticesFit s.world)
    (hrun : (taskMachine ι).run s ls = some t) :
    ∃ delivered, t.world.notified = s.world.notified ++ delivered ∧
      ∀ id, Replays id s ls t delivered := by
  induction ls generalizing s with
  | nil =>
      cases hrun
      exact ⟨[], (List.append_nil _).symm, fun id => replays_nil id _⟩
  | cons l ls ih =>
      obtain ⟨s', hstep, hrest⟩ := Machine.run_cons_eq_some.1 hrun
      obtain ⟨rest, hnotified, hreplays⟩ := ih (h.step hstep) (hfit.step h hstep) hrest
      obtain ⟨delivered, hnotified', hdelivered⟩ := hfit.delivered hstep
      refine ⟨delivered ++ rest, by rw [hnotified, hnotified', List.append_assoc], fun id => ?_⟩
      refine (hreplays id).cons hstep (fun hsome => ?_) (hdelivered id)
      obtain ⟨old, hold⟩ := Option.ne_none_iff_exists'.1 hsome
      obtain ⟨new, hnew, -⟩ := h.coupled.step_advance hstep hold
      simp [hnew]

/--
From every quiet world with rows under their own ids: in every state that
requests can reach, the statuses delivered for a task since are its committed
statuses without repetition, the status it had at the start left out; the last is
the current one, and the first comes from the INSERT if the task was not there.
-/
theorem statusNotices (hw : w.Quiet) (hkeyed : w.Keyed)
    (hrun : (taskMachine ι).run (startTasks w reqs) ls = some t) :
    ∃ delivered, t.world.notified = w.notified ++ delivered ∧
      ∀ id, Replays id (startTasks w reqs) ls t delivered :=
  (sound_of_run hw Machine.run_nil).replays (hw.noticesFit hkeyed) hrun

/-- Two DELETEs that both read the task before one of them writes it. -/
def racingDeletes : List (TaskLabel (Fin 2)) :=
  turns [false, true, false, false, false, false, false, true, true, true, true, true, true]

omit [UrlValidator] in
/-- The second one writes the status that is there already, and raises nothing. -/
theorem statusNotices_racing :
    letI := sampleUrls
    ∃ (t : TaskConfig (Fin 2)) (delivered : List Notice),
      (taskMachine (Fin 2)).run
        (startTasks (worldOf (Fin 2) [samplePending]) fun _ => sampleDelete) racingDeletes =
          some t ∧
      t.world.notified = delivered ∧
      deliveredStatuses 7 delivered = [.canceled] ∧
      Replays 7 (startTasks (worldOf (Fin 2) [samplePending]) fun _ => sampleDelete)
        racingDeletes t delivered := by
  let := sampleUrls
  obtain ⟨t, hrun⟩ := Option.isSome_iff_exists.1
    (show ((taskMachine (Fin 2)).run
      (startTasks (worldOf (Fin 2) [samplePending]) fun _ => sampleDelete)
      racingDeletes).isSome = true by decide +kernel)
  have hdelivered : ((taskMachine (Fin 2)).run
      (startTasks (worldOf (Fin 2) [samplePending]) fun _ => sampleDelete)
      racingDeletes).map (fun t => deliveredStatuses 7 t.world.notified) = some [.canceled] := by
    decide +kernel
  rw [hrun] at hdelivered
  have hkeyed : (worldOf (Fin 2) [samplePending]).Keyed := by
    intro id row hrow
    have hfind : [samplePending].find? (fun row => row.id = id) = some row := hrow
    simpa using List.find?_some hfind
  obtain ⟨delivered, hnotified, hreplays⟩ :=
    statusNotices (worldOf_quiet [samplePending]) hkeyed hrun
  have heq : t.world.notified = delivered := hnotified.trans (List.nil_append delivered)
  refine ⟨t, delivered, hrun, heq, ?_, hreplays 7⟩
  rw [← heq]
  exact Option.some.inj hdelivered

end Results

end StatusNotices

end SmartHttpRequester
