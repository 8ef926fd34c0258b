import SmartHttpRequester.TaskDiscipline

/-!
# The life of a task

First, what one call of a request can do to the versions of one row
(`callOp_slot`).  Then the invariant that couples the table with what every
request in flight remembers (`Coupled`): an uncommitted version is a first
version, or what one UPDATE made of the committed one; a status that was read
may be stale, but the row has only moved on since; a request knows which of the
rows it inserted are committed.

`taskLifecycle` is the result: under every schedule of requests, failures and
abandoned requests, a committed row keeps its identity and moves from
`BEFORE RMQ` to `pending` to `canceled` only, and its data changes only by the
commit of an update request of its owner.
-/

namespace SmartHttpRequester

open Foundations Function

section TaskLifecycle

variable {ι : Type} [DecidableEq ι]

section Steps

def Stmt.write? : Stmt → Option RowWrite
  | .insertTasks _ _ => none
  | .selectOwnerStatus _ => none
  | .selectTask _ => none
  | .selectUserTasks _ _ _ => none
  | .cancelTask taskId => some (.cancel taskId)
  | .updateTask taskId _ _ _ _ => some (.data taskId)
  | .confirmTask taskId => some (.confirm taskId)

def RowWrite.taskId : RowWrite → UUID
  | .cancel taskId => taskId
  | .data taskId => taskId
  | .confirm taskId => taskId

/-- The UPDATE writes its row whatever the status. -/
def RowWrite.Unconditional : RowWrite → Prop
  | .cancel _ => True
  | .data _ => True
  | .confirm _ => False

/-- What an UPDATE makes of a row. -/
def RowWrite.Makes (old new : TaskRow) : RowWrite → Prop
  | .cancel _ => new = { old with status := .canceled, updatedAt := new.updatedAt }
  | .data _ =>
      new =
        { old with
          url := new.url
          method := new.method
          headers := new.headers
          body := new.body
          updatedAt := new.updatedAt }
  | .confirm _ => old.status = .beforeRmq ∧ new = { old with status := .pending }

/-- The call ends the transaction for certain. -/
def TaskOp.ends : TaskOp → Reply → Bool
  | .commit, .ok _ => true
  | .rollback, _ => true
  | .close, _ => true
  | _, _ => false

/-- What one call of request `i` does to the versions of one row. -/
inductive SlotStep (i : ι) (id : UUID) (o : TaskOp) (r : Reply) (s : Slot ι TaskRow) :
    Slot ι TaskRow → Prop
  | same (ho : o.ends r = false) :
      SlotStep i id o r s s
  | commit (ho : o = .commit) :
      SlotStep i id o r s (s.commit i)
  | rollback (ho : o = .rollback ∨ o = .close) :
      SlotStep i id o r s (s.rollback i)
  | insert
      {rows : List InsertRow} {bindparams : List BindParameter} {news : List NewTask}
      {t : NewTask} {createdAt : Timestamp}
      (ho : o = .execute (.insertTasks rows bindparams))
      (hnews : rows.mapM (InsertRow.eval bindparams) = some news)
      (ht : t ∈ news)
      (hs : s = .empty) :
      SlotStep i id o r s (Slot.empty.write i (t.toRow createdAt id))
  | update
      {st : Stmt} {w : RowWrite} {old new : TaskRow}
      (ho : o = .execute st)
      (hw : st.write? = some w) (hid : w.taskId = id) (hmakes : w.Makes old new)
      (hvisible : s.visible i = some old) (hlock : s.lockedFor i = false) :
      SlotStep i id o r s (s.write i new)

omit [DecidableEq ι] in
theorem mem_zipWith_toRow {now : Timestamp} {ids : List UUID} {news : List NewTask}
    {row : TaskRow} (h : row ∈ List.zipWith (NewTask.toRow now) ids news) :
    ∃ t ∈ news, row = t.toRow now row.id := by
  rw [← List.map_uncurry_zip_eq_zipWith, List.mem_map] at h
  obtain ⟨⟨id, t⟩, hmem, rfl⟩ := h
  exact ⟨t, (List.of_mem_zip hmem).2, rfl⟩

theorem updateRow_slot {i : ι} {st : Stmt} {w : RowWrite} {f : TaskRow → Option TaskRow}
    {v v' : World ι} {r r' : Reply}
    (hw : st.write? = some w) (hf : ∀ old new, f old = some new → w.Makes old new)
    (h : updateRow i w.taskId f v = some (r', v')) (id : UUID) :
    SlotStep i id (.execute st) r (v.tasks.slot id) (v'.tasks.slot id) := by
  obtain ⟨t, ht, heq⟩ := Option.map_eq_some_iff.1 h
  cases heq
  rcases Table.modify_cases ht with rfl | ⟨old, new, hvisible, hnew, hlock, rfl⟩
  · exact .same rfl
  · by_cases hid : id = w.taskId
    · subst hid
      simpa using SlotStep.update rfl hw rfl (hf old new hnew) hvisible hlock
    · simpa [hid] using SlotStep.same rfl

theorem runStmt_slot {i : ι} {c : Choice} {st : Stmt} {v v' : World ι} {r r' : Reply}
    (h : runStmt i c st v = some (r', v')) (id : UUID) :
    SlotStep i id (.execute st) r (v.tasks.slot id) (v'.tasks.slot id) := by
  cases st with
  | insertTasks rows bindparams =>
      simp only [runStmt] at h
      split at h
      · cases h
        exact .same rfl
      · rename_i news hnews
        split at h
        · obtain ⟨t, ht, heq⟩ := Option.map_eq_some_iff.1 h
          cases heq
          rcases Table.insertAll_slot ht id with ⟨hsame, -⟩ | ⟨hempty, row, hmem, hslot⟩
          · simpa [hsame] using SlotStep.same rfl
          · obtain ⟨row', hrow', heq⟩ := List.mem_map.1 hmem
            cases heq
            obtain ⟨new, hnew, hrow⟩ := mem_zipWith_toRow hrow'
            rw [hslot, hrow]
            exact .insert rfl hnews hnew hempty
        · cases h
  | selectOwnerStatus taskId =>
      cases h
      exact .same rfl
  | selectTask taskId =>
      cases h
      exact .same rfl
  | selectUserTasks userId skip limit =>
      simp only [runStmt] at h
      split at h
      · cases h
        exact .same rfl
      · cases h
  | cancelTask taskId =>
      refine updateRow_slot (w := .cancel taskId) rfl (fun old new hnew => ?_) h id
      cases hnew
      rfl
  | updateTask taskId url method headers body =>
      refine updateRow_slot (w := .data taskId) rfl (fun old new hnew => ?_) h id
      cases hnew
      rfl
  | confirmTask taskId =>
      refine updateRow_slot (w := .confirm taskId) rfl (fun old new hnew => ?_) h id
      unfold setPending at hnew
      split at hnew
      · rename_i hstatus
        cases hnew
        exact ⟨hstatus, rfl⟩
      · cases hnew

theorem runOp_slot {i : ι} {c : Choice} {o : TaskOp} {w w' : World ι} {r r' : Reply}
    (h : runOp i c o w = some (r', w')) (id : UUID) :
    SlotStep i id o r (w.tasks.slot id) (w'.tasks.slot id) := by
  cases o with
  | execute st =>
      exact runStmt_slot (v := w.begin i) h id
  | commit =>
      cases h
      exact .commit rfl
  | rollback =>
      cases h
      exact .rollback (Or.inl rfl)
  | close =>
      cases h
      exact .rollback (Or.inr rfl)
  | inc counter amount =>
      cases h
      cases counter <;> exact .same rfl
  | _ =>
      cases h
      exact .same rfl

/-- Whether it fails or not, a call does one of the listed things to a row. -/
theorem callOp_slot {i : ι} {c : Choice} {o : TaskOp} {w w' : World ι} {r : Reply}
    (h : callOp i c o w = some (r, w')) (id : UUID) :
    SlotStep i id o r (w.tasks.slot id) (w'.tasks.slot id) := by
  rcases callOp_cases h with ⟨r', hrun, -, -⟩ | ⟨f, -, -, rfl, rfl⟩
  · exact runOp_slot hrun id
  · cases o with
    | rollback => exact .rollback (Or.inl rfl)
    | close => exact .rollback (Or.inr rfl)
    | _ => exact .same rfl

/-- A statement touches the table and the notices, and nothing else. -/
theorem runStmt_frame {i : ι} {c : Choice} {st : Stmt} {w w' : World ι} {r : Reply}
    (h : runStmt i c st w = some (r, w')) :
    ∃ tasks notices, w' = { w with tasks := tasks, notices := notices } := by
  have hrow : ∀ {taskId f}, updateRow i taskId f w = some (r, w') →
      ∃ tasks notices, w' = { w with tasks := tasks, notices := notices } := by
    intro taskId f hupdate
    obtain ⟨t, -, heq⟩ := Option.map_eq_some_iff.1 hupdate
    cases heq
    exact ⟨_, _, rfl⟩
  cases st with
  | insertTasks rows bindparams =>
      simp only [runStmt] at h
      split at h
      · cases h
        exact ⟨_, _, rfl⟩
      · split at h
        · obtain ⟨t, -, heq⟩ := Option.map_eq_some_iff.1 h
          cases heq
          exact ⟨_, _, rfl⟩
        · cases h
  | selectUserTasks userId skip limit =>
      simp only [runStmt] at h
      split at h
      · cases h
        exact ⟨_, _, rfl⟩
      · cases h
  | selectOwnerStatus taskId =>
      cases h
      exact ⟨_, _, rfl⟩
  | selectTask taskId =>
      cases h
      exact ⟨_, _, rfl⟩
  | cancelTask taskId => exact hrow h
  | updateTask taskId url method headers body => exact hrow h
  | confirmTask taskId => exact hrow h

omit [DecidableEq ι] in
/-- Neither the clock nor the broker touches the table. -/
theorem envStep_tasks {a : EnvAction} {w w' : World ι} (h : envStep a w = some w') :
    w'.tasks = w.tasks := by
  cases a with
  | tick d =>
      cases h
      rfl
  | broker a =>
      obtain ⟨b, -, rfl⟩ := Option.map_eq_some_iff.1 h
      rfl

theorem callOp_ok {i : ι} {c : Choice} {o : TaskOp} {w w' : World ι} {rows : List TaskRow}
    (h : callOp i c o w = some (.ok rows, w')) :
    runOp i c o w = some (.ok rows, w') := by
  rcases callOp_cases h with ⟨r', hrun, -, rfl | ⟨-, f, hr⟩⟩ | ⟨f, -, -, hr, -⟩
  · exact hrun
  · cases hr
  · cases hr

/-- An INSERT that succeeds has evaluated its VALUES, and returns the rows it wrote. -/
theorem callOp_ok_values {i : ι} {c : Choice} {values : List InsertRow}
    {bindparams : List BindParameter} {w w' : World ι} {rows : List TaskRow}
    (h : callOp i c (.execute (.insertTasks values bindparams)) w = some (.ok rows, w')) :
    ∃ news,
      values.mapM (InsertRow.eval bindparams) = some news ∧
      c.ids.length = news.length ∧
      rows = List.zipWith (NewTask.toRow ((w.begin i).now i)) c.ids news ∧
      w.tasks.insertAll i (rows.map fun row => (row.id, row)) = some w'.tasks := by
  have hrun := callOp_ok h
  simp only [runOp, runStmt] at hrun
  split at hrun
  · cases hrun
  · rename_i news hnews
    split at hrun
    · rename_i hlength
      obtain ⟨t, ht, heq⟩ := Option.map_eq_some_iff.1 hrun
      cases heq
      exact ⟨news, hnews, hlength, rfl, ht⟩
    · cases hrun

/-- A call that nothing goes wrong with succeeds, unless it inserts. -/
theorem callOp_succeeds {i : ι} {c : Choice} {o : TaskOp} {w w' : World ι} {r : Reply}
    (hfault : c.fault = .none)
    (ho : ∀ rows bindparams, o ≠ .execute (.insertTasks rows bindparams))
    (h : callOp i c o w = some (r, w')) :
    ∃ rows, r = .ok rows := by
  unfold callOp at h
  rw [hfault] at h
  cases o with
  | execute st =>
      cases st with
      | insertTasks rows bindparams => exact absurd rfl (ho rows bindparams)
      | selectUserTasks userId skip limit =>
          simp only [runOp, runStmt] at h
          split at h
          · cases h
            exact ⟨_, rfl⟩
          · cases h
      | selectOwnerStatus taskId =>
          cases h
          exact ⟨_, rfl⟩
      | selectTask taskId =>
          cases h
          exact ⟨_, rfl⟩
      | _ =>
          obtain ⟨t, -, heq⟩ := Option.map_eq_some_iff.1 h
          cases heq
          exact ⟨_, rfl⟩
  | _ =>
      cases h
      exact ⟨_, rfl⟩

theorem fetchone_toList (row : Option TaskRow) : fetchone row.toList = row := by
  cases row <;> rfl

/-- The rows a SELECT by id returns are the visible version. -/
theorem callOp_ok_select {i : ι} {c : Choice} {st : Stmt} {taskId : UUID} {w w' : World ι}
    {rows : List TaskRow} (hst : st = .selectOwnerStatus taskId ∨ st = .selectTask taskId)
    (h : callOp i c (.execute st) w = some (.ok rows, w')) :
    fetchone rows = (w.tasks.slot taskId).visible i := by
  have hrun := callOp_ok h
  rcases hst with rfl | rfl
  · cases hrun
    exact fetchone_toList _
  · cases hrun
    exact fetchone_toList _

/-- The rows an INSERT returns are the versions it wrote. -/
theorem callOp_ok_insert {i : ι} {c : Choice} {values : List InsertRow}
    {bindparams : List BindParameter} {w w' : World ι} {rows : List TaskRow}
    (h : callOp i c (.execute (.insertTasks values bindparams)) w = some (.ok rows, w'))
    {id : UUID} (hid : id ∈ rows.map TaskRow.id) :
    ∃ row, w'.tasks.slot id = Slot.empty.write i row := by
  obtain ⟨-, -, -, -, ht⟩ := callOp_ok_values h
  rcases Table.insertAll_slot ht id with ⟨-, hnot⟩ | ⟨-, row, -, hslot⟩
  · obtain ⟨row, hrow, rfl⟩ := List.mem_map.1 hid
    exact absurd (List.mem_map.2 ⟨row, hrow, rfl⟩) (hnot row)
  · exact ⟨row, hslot⟩

/-- An unconditional UPDATE that succeeds has written the row its request sees. -/
theorem callOp_ok_update {i : ι} {c : Choice} {st : Stmt} {u : RowWrite} {w w' : World ι}
    {rows : List TaskRow} {old : TaskRow} (hu : st.write? = some u) (hforced : u.Unconditional)
    (h : callOp i c (.execute st) w = some (.ok rows, w'))
    (hvisible : (w.tasks.slot u.taskId).visible i = some old) :
    ∃ new, (w'.tasks.slot u.taskId).pending = some (i, new) := by
  have hwritten : ∀ {f : TaskRow → Option TaskRow} {new : TaskRow}, f old = some new →
      updateRow i u.taskId f (w.begin i) = some (.ok rows, w') →
      ∃ new, (w'.tasks.slot u.taskId).pending = some (i, new) := by
    intro f new hf hrow
    obtain ⟨t, ht, heq⟩ := Option.map_eq_some_iff.1 hrow
    cases heq
    have hvisible' : (((w.begin i).tasks).slot u.taskId).visible i = some old := hvisible
    simp only [Table.modify, hvisible', hf] at ht
    split at ht
    · cases ht
    · cases ht
      exact ⟨new, by simp⟩
  have hrun := callOp_ok h
  cases st with
  | cancelTask taskId =>
      cases hu
      exact hwritten (f := setCanceled ((w.begin i).now i)) rfl hrun
  | updateTask taskId url method headers body =>
      cases hu
      exact hwritten (f := setData url method headers body ((w.begin i).now i)) rfl hrun
  | confirmTask taskId =>
      cases hu
      cases hforced
  | _ => cases hu

theorem SlotStep.eq_of_locked {i j : ι} {id : UUID} {o : TaskOp} {r : Reply}
    {t t' : Slot ι TaskRow} {row : TaskRow} (h : SlotStep i id o r t t') (hji : j ≠ i)
    (hrow : t.pending = some (j, row)) :
    t' = t := by
  have hno : ∀ v, t.pending ≠ some (i, v) := by
    intro v hv
    rw [hrow] at hv
    exact hji (congrArg Prod.fst (Option.some.inj hv))
  cases h with
  | same ho => rfl
  | commit ho => exact Slot.commit_eq_self hno
  | rollback ho => exact Slot.rollback_eq_self hno
  | insert ho hnews ht hs =>
      subst hs
      cases hrow
  | update ho hw hid hmakes hvisible hlock =>
      simp [Slot.lockedFor, hrow, hji] at hlock

/-- A holder that does not end its transaction keeps its version, or writes the next one. -/
theorem SlotStep.eq_or_write_of_held {i : ι} {id : UUID} {o : TaskOp} {r : Reply}
    {t t' : Slot ι TaskRow} {row : TaskRow} (h : SlotStep i id o r t t')
    (hrow : t.pending = some (i, row))
    (hcommit : o ≠ .commit) (hrollback : o ≠ .rollback) (hclose : o ≠ .close) :
    t' = t ∨
    ∃ st w new,
      o = .execute st ∧ st.write? = some w ∧ w.taskId = id ∧ w.Makes row new ∧
      t' = t.write i new := by
  cases h with
  | same ho =>
      exact Or.inl rfl
  | commit ho =>
      exact absurd ho hcommit
  | rollback ho =>
      rcases ho with ho | ho
      · exact absurd ho hrollback
      · exact absurd ho hclose
  | insert ho hnews ht hs =>
      rw [hs] at hrow
      cases hrow
  | @update st w old new ho hw hid hmakes hvisible hlock =>
      have hold : old = row :=
        Option.some.inj (hvisible.symm.trans (Slot.visible_eq_of_pending hrow))
      subst hold
      exact Or.inr ⟨st, w, new, ho, hw, hid, hmakes, rfl⟩

end Steps

section Ghost

variable {g : TaskGhost} {o : TaskOp} {r : Reply} {id : UUID} {row : TaskRow}

/-- A call that neither ends the transaction nor writes leaves the UPDATE on record. -/
theorem TaskGhost.next_wrote (hends : o.ends r = false)
    (hwrite : ∀ st, o = .execute st → st.write? = none) :
    (g.next o r).wrote = g.wrote := by
  cases r with
  | ok rows =>
      cases o with
      | execute st =>
          cases st <;> first | rfl | exact absurd (hwrite _ rfl) (by simp [Stmt.write?])
      | inc counter amount => cases counter <;> rfl
      | _ => first | rfl | cases hends
  | error e =>
      cases o with
      | execute st =>
          cases st <;> first | rfl | exact absurd (hwrite _ rfl) (by simp [Stmt.write?])
      | _ => first | rfl | cases hends

theorem TaskGhost.next_write {st : Stmt} {w : RowWrite} (hw : st.write? = some w) :
    (g.next (.execute st) r).wrote = some w := by
  cases r <;> cases st <;> cases hw <;> rfl

/-- The row found is kept; it is set by the first SELECT that returns a row. -/
theorem TaskGhost.next_found (h : (g.next o r).found = some (id, row)) :
    g.found = some (id, row) ∨
    (g.found = none ∧ ∃ st rows,
      (st = .selectOwnerStatus id ∨ st = .selectTask id) ∧
      o = .execute st ∧ r = .ok rows ∧ fetchone rows = some row) := by
  have hfind : ∀ (taskId : UUID) (rows : List TaskRow),
      (g.find taskId rows).found = some (id, row) →
      g.found = some (id, row) ∨
        (g.found = none ∧ taskId = id ∧ fetchone rows = some row) := by
    intro taskId rows hfound
    rcases Option.or_eq_some_iff.1 hfound with hkept | ⟨hnone, hnew⟩
    · exact Or.inl hkept
    · obtain ⟨row', hrow', heq⟩ := Option.map_eq_some_iff.1 hnew
      cases heq
      exact Or.inr ⟨hnone, rfl, hrow'⟩
  cases r with
  | ok rows =>
      cases o with
      | execute st =>
          cases st with
          | selectOwnerStatus taskId =>
              rcases hfind taskId rows h with hkept | ⟨hnone, rfl, hrow⟩
              · exact Or.inl hkept
              · exact Or.inr ⟨hnone, _, rows, Or.inl rfl, rfl, rfl, hrow⟩
          | selectTask taskId =>
              rcases hfind taskId rows h with hkept | ⟨hnone, rfl, hrow⟩
              · exact Or.inl hkept
              · exact Or.inr ⟨hnone, _, rows, Or.inr rfl, rfl, rfl, hrow⟩
          | _ => exact Or.inl h
      | inc counter amount => cases counter <;> exact Or.inl h
      | _ => exact Or.inl h
  | error e =>
      cases o with
      | execute st => cases st <;> exact Or.inl h
      | _ => exact Or.inl h

theorem TaskGhost.next_found_of_some (h : g.found = some (id, row)) :
    (g.next o r).found = some (id, row) := by
  cases r with
  | ok rows =>
      cases o with
      | execute st =>
          cases st <;> first | exact h | simp [next, succeed, read, find, h]
      | inc counter amount => cases counter <;> exact h
      | _ => exact h
  | error e =>
      cases o with
      | execute st => cases st <;> exact h
      | _ => exact h

theorem TaskGhost.next_durable (h : id ∈ (g.next o r).durable) :
    id ∈ g.durable ∨ (o = .commit ∧ (∃ rows, r = .ok rows) ∧ id ∈ g.own) := by
  cases r with
  | ok rows =>
      cases o with
      | execute st => cases st <;> exact Or.inl h
      | commit =>
          rcases List.mem_append.1 h with hold | hown
          · exact Or.inl hold
          · exact Or.inr ⟨rfl, ⟨rows, rfl⟩, hown⟩
      | inc counter amount => cases counter <;> exact Or.inl h
      | _ => exact Or.inl h
  | error e =>
      cases o with
      | execute st => cases st <;> exact Or.inl h
      | _ => exact Or.inl h

theorem TaskGhost.next_own (h : id ∈ (g.next o r).own) :
    (id ∈ g.own ∧ o ≠ .commit ∧ o ≠ .rollback ∧ o ≠ .close) ∨
    (∃ values bindparams rows,
      o = .execute (.insertTasks values bindparams) ∧ r = .ok rows ∧
      id ∈ rows.map TaskRow.id) := by
  cases r with
  | ok rows =>
      cases o with
      | execute st =>
          cases st with
          | insertTasks values bindparams =>
              rcases List.mem_append.1 h with hold | hnew
              · exact Or.inl ⟨hold, by simp, by simp, by simp⟩
              · exact Or.inr ⟨values, bindparams, rows, rfl, rfl, hnew⟩
          | _ => exact Or.inl ⟨h, by simp, by simp, by simp⟩
      | commit => cases h
      | rollback => cases h
      | close => cases h
      | inc counter amount =>
          cases counter <;> exact Or.inl ⟨h, by simp, by simp, by simp⟩
      | _ => exact Or.inl ⟨h, by simp, by simp, by simp⟩
  | error e =>
      cases o with
      | execute st => cases st <;> exact Or.inl ⟨h, by simp, by simp, by simp⟩
      | commit => cases h
      | rollback => cases h
      | close => cases h
      | _ => exact Or.inl ⟨h, by simp, by simp, by simp⟩

/-- An answered UPDATE stays on record until the transaction ends. -/
theorem TaskGhost.next_applied {w : RowWrite} (hwrote : (g.next o r).wrote = some w)
    (happlied : (g.next o r).applied = true) :
    (g.wrote = some w ∧ g.applied = true ∧ o ≠ .commit ∧ o ≠ .rollback ∧ o ≠ .close ∧
      ∀ st, o = .execute st → st.write? = none) ∨
    (∃ st rows, o = .execute st ∧ r = .ok rows ∧ st.write? = some w) := by
  cases r with
  | ok rows =>
      cases o with
      | execute st =>
          cases st with
          | cancelTask taskId => exact Or.inr ⟨_, rows, rfl, rfl, hwrote⟩
          | updateTask taskId url method headers body =>
              exact Or.inr ⟨_, rows, rfl, rfl, hwrote⟩
          | confirmTask taskId => exact Or.inr ⟨_, rows, rfl, rfl, hwrote⟩
          | _ => exact Or.inl ⟨hwrote, happlied, by simp, by simp, by simp,
              fun st hst => by cases hst; rfl⟩
      | commit => cases hwrote
      | rollback => cases hwrote
      | close => cases hwrote
      | inc counter amount =>
          cases counter <;> exact Or.inl ⟨hwrote, happlied, by simp, by simp, by simp, by simp⟩
      | _ => exact Or.inl ⟨hwrote, happlied, by simp, by simp, by simp, by simp⟩
  | error e =>
      cases o with
      | execute st =>
          cases st with
          | cancelTask taskId => cases happlied
          | updateTask taskId url method headers body => cases happlied
          | confirmTask taskId => cases happlied
          | _ => exact Or.inl ⟨hwrote, happlied, by simp, by simp, by simp,
              fun st hst => by cases hst; rfl⟩
      | commit => cases happlied
      | rollback => cases hwrote
      | close => cases hwrote
      | _ => exact Or.inl ⟨hwrote, happlied, by simp, by simp, by simp, by simp⟩

end Ghost

section Coupling

/-- Where a status can move. -/
inductive StatusStep : TaskStatus → TaskStatus → Prop
  | confirm : StatusStep .beforeRmq .pending
  | cancel : StatusStep .pending .canceled

abbrev StatusPath : TaskStatus → TaskStatus → Prop :=
  Relation.ReflTransGen StatusStep

theorem statusPath_pending {status : TaskStatus} (h : StatusPath .pending status) :
    status = .pending ∨ status = .canceled := by
  induction h with
  | refl =>
      exact Or.inl rfl
  | tail _ hstep ih =>
      rcases ih with rfl | rfl
      · cases hstep
        exact Or.inr rfl
      · cases hstep

theorem statusPath_canceled {status : TaskStatus} (h : StatusPath .canceled status) :
    status = .canceled := by
  induction h with
  | refl =>
      rfl
  | tail _ hstep ih =>
      subst ih
      cases hstep

structure SameTask (old new : TaskRow) : Prop where
  id : new.id = old.id
  userId : new.userId = old.userId
  attemptCount : new.attemptCount = old.attemptCount
  maxAttempts : new.maxAttempts = old.maxAttempts
  result : new.result = old.result
  createdAt : new.createdAt = old.createdAt

theorem SameTask.refl (row : TaskRow) : SameTask row row :=
  ⟨rfl, rfl, rfl, rfl, rfl, rfl⟩

theorem SameTask.trans {a b c : TaskRow} (hab : SameTask a b) (hbc : SameTask b c) :
    SameTask a c where
  id := hbc.id.trans hab.id
  userId := hbc.userId.trans hab.userId
  attemptCount := hbc.attemptCount.trans hab.attemptCount
  maxAttempts := hbc.maxAttempts.trans hab.maxAttempts
  result := hbc.result.trans hab.result
  createdAt := hbc.createdAt.trans hab.createdAt

theorem RowWrite.Makes.sameTask {w : RowWrite} {old new : TaskRow} (h : w.Makes old new) :
    SameTask old new := by
  cases w with
  | cancel taskId =>
      have hnew : new = { old with status := .canceled, updatedAt := new.updatedAt } := h
      rw [hnew]
      exact ⟨rfl, rfl, rfl, rfl, rfl, rfl⟩
  | data taskId =>
      have hnew : new =
        { old with
          url := new.url
          method := new.method
          headers := new.headers
          body := new.body
          updatedAt := new.updatedAt } := h
      rw [hnew]
      exact ⟨rfl, rfl, rfl, rfl, rfl, rfl⟩
  | confirm taskId =>
      obtain ⟨-, rfl⟩ := h
      exact ⟨rfl, rfl, rfl, rfl, rfl, rfl⟩

def RowWrite.statusAfter (old : TaskStatus) : RowWrite → TaskStatus
  | .cancel _ => .canceled
  | .data _ => old
  | .confirm _ => .pending

theorem RowWrite.Makes.status {w : RowWrite} {old new : TaskRow} (h : w.Makes old new) :
    new.status = w.statusAfter old.status := by
  cases w with
  | cancel taskId =>
      have hnew : new = { old with status := .canceled, updatedAt := new.updatedAt } := h
      rw [hnew]
      rfl
  | data taskId =>
      have hnew : new =
        { old with
          url := new.url
          method := new.method
          headers := new.headers
          body := new.body
          updatedAt := new.updatedAt } := h
      rw [hnew]
      rfl
  | confirm taskId =>
      obtain ⟨-, rfl⟩ := h
      rfl

/-- What is served to users of a task besides its status. -/
def SameData (old new : TaskRow) : Prop :=
  new.url = old.url ∧ new.method = old.method ∧ new.headers = old.headers ∧ new.body = old.body

structure Inserted (req : TaskRequest) (row : TaskRow) : Prop where
  creates : req.Creates
  userId : row.userId = req.user
  attemptCount : row.attemptCount = 0
  result : row.result = none
  status : row.status = .beforeRmq ∨ row.status = .pending

/-- What the one UPDATE of a request made of the committed version. -/
structure Updated (g : TaskGhost) (id : UUID) (w : RowWrite) (old new : TaskRow) : Prop where
  wrote : g.wrote = some w
  taskId : w.taskId = id
  makes : w.Makes old new
  status : Relation.ReflGen StatusStep old.status new.status

/-- The version a request found has only moved on since. -/
structure MovedOn (found row : TaskRow) : Prop where
  userId : row.userId = found.userId
  status : StatusPath found.status row.status

/-- The table and what the requests remember agree. -/
structure Coupled (reqs : ι → TaskRequest) (s : TaskConfig ι) : Prop where
  inserted : ∀ {id i row},
    (s.world.tasks.slot id).pending = some (i, row) → committedTask s id = none →
    Inserted (reqs i) row
  updated : ∀ {id i row old},
    (s.world.tasks.slot id).pending = some (i, row) → committedTask s id = some old →
    ∃ w, Updated (ghostOf (s.hist i)) id w old row
  found : ∀ {i id row},
    (ghostOf (s.hist i)).found = some (id, row) →
    ∃ row', committedTask s id = some row' ∧ MovedOn row row'
  durable : ∀ {i id},
    id ∈ (ghostOf (s.hist i)).durable →
    ∃ row, committedTask s id = some row ∧ row.userId = (reqs i).user
  own : ∀ {i o k id},
    s.prog i = .op o k → id ∈ (ghostOf (s.hist i)).own →
    ∃ row, s.world.tasks.slot id = Slot.empty.write i row
  held : ∀ {i o k w},
    s.prog i = .op o k → (ghostOf (s.hist i)).wrote = some w →
    (ghostOf (s.hist i)).applied = true → w.Unconditional →
    ∃ row, (s.world.tasks.slot w.taskId).pending = some (i, row)

variable {reqs : ι → TaskRequest} {s s' : TaskConfig ι} {l : TaskLabel ι}

omit [DecidableEq ι] in
/-- A row that exists only as an INSERT has no committed version. -/
theorem committedTask_of_inserted {i : ι} {id : UUID} {row : TaskRow}
    (hslot : s.world.tasks.slot id = Slot.empty.write i row) :
    committedTask s id = none := by
  rw [committedTask, Table.committed, hslot]
  rfl

omit [DecidableEq ι] in
theorem startTasks_coupled [UrlValidator] {w : World ι} (hw : w.Quiet) (reqs : ι → TaskRequest) :
    Coupled reqs (startTasks w reqs) where
  inserted h := by simp [startTasks, Machine.start, hw.pending] at h
  updated h := by simp [startTasks, Machine.start, hw.pending] at h
  found h := by cases h
  durable h := by cases h
  own _ h := by cases h
  held _ h := by cases h

theorem TaskRequest.not_creates_of_onTask {req : TaskRequest} (h : req.OnTask) :
    ¬ req.Creates := by
  cases req <;> simp_all [OnTask, Creates]

theorem TaskRequest.onTask_of_cancels {req : TaskRequest} {taskId : UUID}
    (h : req.Cancels taskId) : req.OnTask := by
  cases req <;> simp_all [OnTask, Cancels]

theorem TaskRequest.onTask_of_edits {req : TaskRequest} {taskId : UUID}
    (h : req.Edits taskId) : req.OnTask := by
  cases req <;> simp_all [OnTask, Edits]

theorem TaskRequest.not_single_of_onTask {req : TaskRequest} (h : req.OnTask) :
    ¬ req.IsSingle := by
  cases req <;> simp_all [OnTask, IsSingle]

theorem TaskRequest.eq_of_cancels {req : TaskRequest} {taskId taskId' : UUID}
    (h : req.Cancels taskId) (h' : req.Cancels taskId') : taskId = taskId' := by
  cases req <;> simp_all [Cancels]

theorem TaskRequest.not_cancels_of_edits {req : TaskRequest} {taskId taskId' : UUID}
    (h : req.Edits taskId) : ¬ req.Cancels taskId' := by
  cases req <;> simp_all [Edits, Cancels]

/-- A request that has no UPDATE on record sees the committed version of an existing row. -/
theorem Coupled.visible_eq_committed (h : Coupled reqs s) {i : ι} {id : UUID}
    (hwrote : (ghostOf (s.hist i)).wrote = none)
    (hexists : committedTask s id ≠ none ∨ ¬ (reqs i).Creates) :
    (s.world.tasks.slot id).visible i = committedTask s id := by
  refine Slot.visible_eq_committed fun row hrow => ?_
  cases hcommitted : committedTask s id with
  | none =>
      rcases hexists with hsome | hcreates
      · exact hsome hcommitted
      · exact hcreates (h.inserted hrow hcommitted).creates
  | some old =>
      obtain ⟨w, hw⟩ := h.updated hrow hcommitted
      have hsome : none = some w := hwrote.symm.trans hw.wrote
      cases hsome

omit [DecidableEq ι] in
/-- A request about to UPDATE has not written before, and its row is committed. -/
theorem Coupled.write_target (h : Coupled reqs s) (hd : Disciplined reqs s) {i : ι} {st : Stmt}
    {w : RowWrite} {k : Reply → TaskProg Response}
    (hp : s.prog i = .op (.execute st) k) (hw : st.write? = some w) :
    (ghostOf (s.hist i)).wrote = none ∧
    ∃ row, committedTask s w.taskId = some row ∧
      (w = .cancel w.taskId → row.status = .pending ∨ row.status = .canceled) := by
  have hpermits := hd.permits hp
  cases st with
  | cancelTask taskId =>
      cases hw
      obtain ⟨-, hwrote, -, found, hfound, hstatus⟩ := hpermits
      obtain ⟨row, hrow, hmoved⟩ := h.found hfound
      refine ⟨hwrote, row, hrow, fun _ => statusPath_pending ?_⟩
      exact hstatus ▸ hmoved.status
  | updateTask taskId url method headers body =>
      cases hw
      obtain ⟨-, hwrote, -, found, hfound⟩ := hpermits
      obtain ⟨row, hrow, -⟩ := h.found hfound
      exact ⟨hwrote, row, hrow, by simp⟩
  | confirmTask taskId =>
      cases hw
      obtain ⟨-, hwrote, hdurable⟩ := hpermits
      obtain ⟨row, hrow, -⟩ := h.durable hdurable
      exact ⟨hwrote, row, hrow, by simp⟩
  | _ => cases hw

/-- One committed version to the next: the same task, further along. -/
structure Advance (old new : TaskRow) : Prop where
  task : SameTask old new
  status : Relation.ReflGen StatusStep old.status new.status

theorem Advance.refl (row : TaskRow) : Advance row row :=
  ⟨SameTask.refl row, .refl⟩

theorem Updated.advance {g : TaskGhost} {id : UUID} {w : RowWrite} {old new : TaskRow}
    (h : Updated g id w old new) : Advance old new :=
  ⟨h.makes.sameTask, h.status⟩

/-- A call changes a committed version only by committing the caller's own. -/
theorem SlotStep.committed {i : ι} {id : UUID} {o : TaskOp} {r : Reply} {t t' : Slot ι TaskRow}
    (h : SlotStep i id o r t t') :
    t'.committed = t.committed ∨
    (o = .commit ∧ ∃ row, t.pending = some (i, row) ∧ t'.committed = some row) := by
  cases h with
  | same ho =>
      exact Or.inl rfl
  | commit ho =>
      rw [Slot.commit_committed]
      rcases Slot.visible_cases i t with ⟨row, hrow, hvisible⟩ | ⟨-, hvisible⟩
      · exact Or.inr ⟨ho, row, hrow, hvisible⟩
      · exact Or.inl hvisible
  | rollback ho =>
      exact Or.inl (Slot.rollback_committed i t)
  | insert ho hnews ht hs =>
      exact Or.inl (hs ▸ rfl)
  | update ho hw hid hmakes hvisible hlock =>
      exact Or.inl rfl

/-- A step changes a committed version only by a commit of the version's writer. -/
theorem step_committed (hstep : (taskMachine ι).step s l = some s') (id : UUID) :
    committedTask s' id = committedTask s id ∨
    ∃ i c k row,
      l = .op i c ∧
      s.prog i = .op .commit k ∧
      (s.world.tasks.slot id).pending = some (i, row) ∧
      committedTask s' id = some row := by
  obtain ⟨i, c, o, k, r, w, rfl, hp, hexec, rfl⟩ | ⟨a, w, rfl, henv, rfl⟩ |
      ⟨i, o, k, rfl, -, rfl⟩ := Machine.step_cases hstep
  · rcases (callOp_slot hexec id).committed with hsame | ⟨rfl, row, hrow, hrow'⟩
    · exact Or.inl hsame
    · exact Or.inr ⟨i, c, k, row, rfl, hp, hrow, hrow'⟩
  · left
    have htasks : w.tasks = s.world.tasks := envStep_tasks henv
    simp only [committedTask, htasks]
  · left
    exact Slot.rollback_committed i _

/-- A committed version never disappears; it advances. -/
theorem Coupled.step_advance (h : Coupled reqs s)
    (hstep : (taskMachine ι).step s l = some s') {id : UUID} {old : TaskRow}
    (hold : committedTask s id = some old) :
    ∃ new, committedTask s' id = some new ∧ Advance old new := by
  rcases step_committed hstep id with hsame | ⟨i, c, k, row, -, -, hrow, hnew⟩
  · exact ⟨old, hsame.trans hold, Advance.refl old⟩
  · obtain ⟨w, hw⟩ := h.updated hrow hold
    exact ⟨row, hnew, hw.advance⟩

theorem MovedOn.advance {found old new : TaskRow} (h : MovedOn found old)
    (hadvance : Advance old new) : MovedOn found new where
  userId := hadvance.task.userId.trans h.userId
  status := h.status.trans hadvance.status.to_reflTransGen

/-- What others remember survives every step that keeps their history. -/
theorem Coupled.found_of_step (h : Coupled reqs s) (hstep : (taskMachine ι).step s l = some s')
    {i : ι} {id : UUID} {row : TaskRow}
    (hfound : (ghostOf (s.hist i)).found = some (id, row)) :
    ∃ row', committedTask s' id = some row' ∧ MovedOn row row' := by
  obtain ⟨old, hold, hmoved⟩ := h.found hfound
  obtain ⟨new, hnew, hadvance⟩ := h.step_advance hstep hold
  exact ⟨new, hnew, hmoved.advance hadvance⟩

theorem Coupled.durable_of_step (h : Coupled reqs s) (hstep : (taskMachine ι).step s l = some s')
    {i : ι} {id : UUID} (hdurable : id ∈ (ghostOf (s.hist i)).durable) :
    ∃ row, committedTask s' id = some row ∧ row.userId = (reqs i).user := by
  obtain ⟨old, hold, huser⟩ := h.durable hdurable
  obtain ⟨new, hnew, hadvance⟩ := h.step_advance hstep hold
  exact ⟨new, hnew, hadvance.task.userId.trans huser⟩

/-- Where an uncommitted version can come from. -/
theorem SlotStep.pending {i j : ι} {id : UUID} {o : TaskOp} {r : Reply} {t t' : Slot ι TaskRow}
    {row : TaskRow} (h : SlotStep i id o r t t') (hrow : t'.pending = some (j, row)) :
    (t' = t ∧ (j = i → o.ends r = false)) ∨
    (j = i ∧ t = .empty ∧ t' = Slot.empty.write i row ∧
      ∃ rows bindparams news new createdAt,
        o = .execute (.insertTasks rows bindparams) ∧
        rows.mapM (InsertRow.eval bindparams) = some news ∧
        new ∈ news ∧ row = NewTask.toRow createdAt id new) ∨
    (j = i ∧ t' = t.write i row ∧
      ∃ st w old,
        o = .execute st ∧ st.write? = some w ∧ w.taskId = id ∧
        w.Makes old row ∧ t.visible i = some old ∧ t.lockedFor i = false) := by
  cases h with
  | same ho =>
      exact Or.inl ⟨rfl, fun _ => ho⟩
  | commit ho =>
      obtain ⟨hji, hpending⟩ := Slot.commit_pending.1 hrow
      refine Or.inl ⟨Slot.commit_eq_self fun v hv => ?_, fun hji' => absurd hji' hji⟩
      rw [hpending] at hv
      exact hji (congrArg Prod.fst (Option.some.inj hv))
  | rollback ho =>
      obtain ⟨hji, hpending⟩ := Slot.rollback_pending.1 hrow
      refine Or.inl ⟨Slot.rollback_eq_self fun v hv => ?_, fun hji' => absurd hji' hji⟩
      rw [hpending] at hv
      exact hji (congrArg Prod.fst (Option.some.inj hv))
  | insert ho hnews ht hs =>
      cases hrow
      exact Or.inr (Or.inl ⟨rfl, hs, rfl, _, _, _, _, _, ho, hnews, ht, rfl⟩)
  | update ho hw hid hmakes hvisible hlock =>
      cases hrow
      exact Or.inr (Or.inr ⟨rfl, rfl, _, _, _, ho, hw, hid, hmakes, hvisible, hlock⟩)

section Call

variable {i : ι} {c : Choice} {o : TaskOp} {k : Reply → TaskProg Response} {r : Reply}
variable {w : World ι}

theorem Coupled.inserted_of_call (h : Coupled reqs s) (hd : Disciplined reqs s)
    (hp : s.prog i = .op o k) (hexec : callOp i c o s.world = some (r, w))
    {id : UUID} {j : ι} {row : TaskRow}
    (hrow : (w.tasks.slot id).pending = some (j, row)) (hnone : w.tasks.committed id = none) :
    Inserted (reqs j) row := by
  rcases (callOp_slot hexec id).pending hrow with ⟨hsame, -⟩ |
      ⟨rfl, -, -, rows, bindparams, news, new, createdAt, rfl, hnews, hnew, rfl⟩ |
      ⟨rfl, hwrite, st, u, old, rfl, hu, rfl, -, -, -⟩
  · have hnone' : committedTask s id = none := by
      rw [← hnone]
      exact (congrArg Slot.committed hsame).symm
    exact h.inserted (hsame ▸ hrow) hnone'
  · obtain ⟨hcreates, hfirst⟩ := hd.permits hp
    have hversion := hfirst news hnews new hnew
    exact ⟨hcreates, hversion.userId, hversion.attemptCount, rfl, hversion.status⟩
  · -- an UPDATE is about a committed row
    obtain ⟨-, old', hold', -⟩ := h.write_target hd hp hu
    have hcommitted : w.tasks.committed u.taskId = committedTask s u.taskId :=
      (congrArg Slot.committed hwrite :)
    rw [hnone, hold'] at hcommitted
    cases hcommitted

theorem Coupled.updated_of_call (h : Coupled reqs s) (hd : Disciplined reqs s)
    (hp : s.prog i = .op o k) (hexec : callOp i c o s.world = some (r, w))
    {id : UUID} {j : ι} {row old : TaskRow}
    (hrow : (w.tasks.slot id).pending = some (j, row)) (hold : w.tasks.committed id = some old) :
    ∃ u, Updated (ghostOf (update s.hist i (s.hist i ++ [(o, r)]) j)) id u old row := by
  rcases (callOp_slot hexec id).pending hrow with ⟨hsame, hends⟩ |
      ⟨rfl, -, hinsert, -⟩ |
      ⟨rfl, hwrite, st, u, old', rfl, hu, rfl, hmakes, hvisible, -⟩
  · have hold' : committedTask s id = some old := by
      rw [← hold]
      exact (congrArg Slot.committed hsame).symm
    obtain ⟨u, hu⟩ := h.updated (hsame ▸ hrow) hold'
    refine ⟨u, ?_, hu.taskId, hu.makes, hu.status⟩
    by_cases hji : j = i
    · subst hji
      rw [update_self, ghostOf_snoc]
      -- having written already, the request does not write again
      refine (TaskGhost.next_wrote (hends rfl) fun st hst => ?_).trans hu.wrote
      subst hst
      by_contra hwrite
      obtain ⟨u', hu'⟩ := Option.ne_none_iff_exists'.1 hwrite
      have hnone := (h.write_target hd hp hu').1
      rw [hu.wrote] at hnone
      cases hnone
    · rw [update_of_ne hji]
      exact hu.wrote
  · have hnone : w.tasks.committed id = none := congrArg Slot.committed hinsert
    rw [hnone] at hold
    cases hold
  · obtain ⟨hnone, row', hrow', hcancel⟩ := h.write_target hd hp hu
    have hcommitted : committedTask s u.taskId = some old := by
      rw [← hold]
      exact (congrArg Slot.committed hwrite).symm
    have hvisible' : (s.world.tasks.slot u.taskId).visible j = committedTask s u.taskId :=
      h.visible_eq_committed hnone (Or.inl (by simp [hcommitted]))
    obtain rfl : old' = old := by
      rw [hvisible, hcommitted] at hvisible'
      exact Option.some.inj hvisible'
    rw [hcommitted] at hrow'
    cases hrow'
    refine ⟨u, ?_, rfl, hmakes, ?_⟩
    · rw [update_self, ghostOf_snoc]
      exact TaskGhost.next_write hu
    · rw [hmakes.status]
      cases u with
      | cancel taskId =>
          rcases hcancel rfl with hpending | hcanceled
          · rw [hpending]
            exact .single .cancel
          · rw [hcanceled]
            rfl
      | data taskId =>
          exact .refl
      | confirm taskId =>
          rw [hmakes.1]
          exact .single .confirm

theorem Coupled.found_of_call (h : Coupled reqs s) (hd : Disciplined reqs s)
    (hp : s.prog i = .op o k) (hexec : callOp i c o s.world = some (r, w))
    {id : UUID} {row : TaskRow}
    (hnone : (ghostOf (s.hist i)).found = none)
    (hfound : ((ghostOf (s.hist i)).next o r).found = some (id, row)) :
    w.tasks.committed id = some row := by
  rcases TaskGhost.next_found hfound with hkept | ⟨-, st, rows, hst, rfl, rfl, hrow⟩
  · rw [hnone] at hkept
    cases hkept
  · have hpermits : (reqs i).OnTask ∧ (ghostOf (s.hist i)).wrote = none := by
      have hallowed := hd.permits hp
      rcases hst with rfl | rfl
      · exact hallowed
      · obtain ⟨hon, hwrote | ⟨row', hrow'⟩⟩ := hallowed
        · exact ⟨hon, hwrote⟩
        · rw [hnone] at hrow'
          cases hrow'
    have hvisible := callOp_ok_select hst hexec
    rw [hrow, h.visible_eq_committed hpermits.2
      (Or.inr (TaskRequest.not_creates_of_onTask hpermits.1))] at hvisible
    rcases (callOp_slot hexec id).committed with hsame | ⟨hcommit, -⟩
    · exact hsame.trans hvisible.symm
    · cases hcommit

theorem Coupled.durable_of_call (h : Coupled reqs s)
    (hp : s.prog i = .op o k) (hexec : callOp i c o s.world = some (r, w))
    {id : UUID} (hnew : id ∉ (ghostOf (s.hist i)).durable)
    (hdurable : id ∈ ((ghostOf (s.hist i)).next o r).durable) :
    ∃ row, w.tasks.committed id = some row ∧ row.userId = (reqs i).user := by
  rcases TaskGhost.next_durable hdurable with hold | ⟨rfl, ⟨rows, rfl⟩, hown⟩
  · exact absurd hold hnew
  · obtain ⟨row, hslot⟩ := h.own hp hown
    have hinserted : Inserted (reqs i) row :=
      h.inserted (by rw [hslot]; rfl) (committedTask_of_inserted hslot)
    cases callOp_ok hexec
    refine ⟨row, ?_, hinserted.userId⟩
    show ((s.world.tasks.slot id).commit i).committed = some row
    rw [hslot, Slot.commit_committed, Slot.visible_write]

theorem Coupled.own_of_call (h : Coupled reqs s)
    (hp : s.prog i = .op o k) (hexec : callOp i c o s.world = some (r, w))
    {id : UUID} (hown : id ∈ ((ghostOf (s.hist i)).next o r).own) :
    ∃ row, w.tasks.slot id = Slot.empty.write i row := by
  rcases TaskGhost.next_own hown with ⟨hold, hcommit, hrollback, hclose⟩ |
      ⟨values, bindparams, rows, rfl, rfl, hid⟩
  · obtain ⟨row, hslot⟩ := h.own hp hold
    have hpending : (s.world.tasks.slot id).pending = some (i, row) := by
      rw [hslot]
      rfl
    rcases (callOp_slot hexec id).eq_or_write_of_held hpending hcommit hrollback hclose with
      hsame | ⟨st, u, new, -, -, -, -, hwrite⟩
    · exact ⟨row, hsame.trans hslot⟩
    · refine ⟨new, ?_⟩
      rw [hwrite, hslot]
      rfl
  · exact callOp_ok_insert hexec hid

theorem Coupled.held_of_call (h : Coupled reqs s) (hd : Disciplined reqs s)
    (hp : s.prog i = .op o k) (hexec : callOp i c o s.world = some (r, w)) {u : RowWrite}
    (hwrote : ((ghostOf (s.hist i)).next o r).wrote = some u)
    (happlied : ((ghostOf (s.hist i)).next o r).applied = true) (hforced : u.Unconditional) :
    ∃ row, (w.tasks.slot u.taskId).pending = some (i, row) := by
  rcases TaskGhost.next_applied hwrote happlied with
    ⟨hwrote', happlied', hcommit, hrollback, hclose, hread⟩ | ⟨st, rows, rfl, rfl, hu⟩
  · obtain ⟨row, hrow⟩ := h.held hp hwrote' happlied' hforced
    rcases (callOp_slot hexec u.taskId).eq_or_write_of_held hrow hcommit hrollback hclose with
      hsame | ⟨st, v, new, ho, hw, -, -, -⟩
    · exact ⟨row, (congrArg Slot.pending hsame).trans hrow⟩
    · rw [hread _ ho] at hw
      cases hw
  · obtain ⟨hnone, row, hrow, -⟩ := h.write_target hd hp hu
    have hexists : committedTask s u.taskId ≠ none := by simp [hrow]
    have hvisible := h.visible_eq_committed hnone (Or.inl hexists)
    exact callOp_ok_update hu hforced hexec (hvisible.trans hrow)

end Call

theorem Coupled.call {i : ι} {c : Choice} {o : TaskOp} {k : Reply → TaskProg Response}
    {r : Reply} {w : World ι} (h : Coupled reqs s) (hd : Disciplined reqs s)
    (hp : s.prog i = .op o k) (hexec : callOp i c o s.world = some (r, w))
    (hstep : (taskMachine ι).step s (.op i c) = some
      { world := w
        prog := update s.prog i (k r)
        hist := update s.hist i (s.hist i ++ [(o, r)]) }) :
    Coupled reqs
      { world := w
        prog := update s.prog i (k r)
        hist := update s.hist i (s.hist i ++ [(o, r)]) } := by
  refine ⟨h.inserted_of_call hd hp hexec, h.updated_of_call hd hp hexec, ?_, ?_, ?_, ?_⟩
  · intro j id row hj
    by_cases hji : j = i
    · subst hji
      simp only [update_self, ghostOf_snoc] at hj
      cases hg : (ghostOf (s.hist j)).found with
      | none =>
          exact ⟨row, h.found_of_call hd hp hexec hg hj, rfl, .refl⟩
      | some found =>
          rw [TaskGhost.next_found_of_some hg, ← hg] at hj
          exact h.found_of_step hstep hj
    · simp only [update_of_ne hji] at hj
      exact h.found_of_step hstep hj
  · intro j id hj
    by_cases hji : j = i
    · subst hji
      simp only [update_self, ghostOf_snoc] at hj
      by_cases hold : id ∈ (ghostOf (s.hist j)).durable
      · exact h.durable_of_step hstep hold
      · exact h.durable_of_call hp hexec hold hj
    · simp only [update_of_ne hji] at hj
      exact h.durable_of_step hstep hj
  · intro j o' k' id hj hown
    by_cases hji : j = i
    · subst hji
      simp only [update_self, ghostOf_snoc] at hown
      exact h.own_of_call hp hexec hown
    · simp only [update_of_ne hji] at hj hown
      obtain ⟨row, hrow⟩ := h.own hj hown
      have hlocked := (callOp_slot hexec id).eq_of_locked hji (congrArg Slot.pending hrow)
      exact ⟨row, hlocked.trans hrow⟩
  · intro j o' k' u hj hwrote happlied hforced
    by_cases hji : j = i
    · subst hji
      simp only [update_self, ghostOf_snoc] at hwrote happlied
      exact h.held_of_call hd hp hexec hwrote happlied hforced
    · simp only [update_of_ne hji] at hj hwrote happlied
      obtain ⟨row, hrow⟩ := h.held hj hwrote happlied hforced
      have hlocked := (callOp_slot hexec u.taskId).eq_of_locked hji hrow
      exact ⟨row, (congrArg Slot.pending hlocked).trans hrow⟩

omit [DecidableEq ι] in
/-- Only the table of the world matters. -/
theorem Coupled.of_tasks_eq (h : Coupled reqs s) {w : World ι} (htasks : w.tasks = s.world.tasks) :
    Coupled reqs { s with world := w } := by
  constructor <;> simp only [committedTask, htasks]
  · exact h.inserted
  · exact h.updated
  · exact h.found
  · exact h.durable
  · exact h.own
  · exact h.held

/-- An abandoned request leaves nothing uncommitted; the others keep what they have. -/
theorem Coupled.abandon (h : Coupled reqs s) (i : ι) :
    Coupled reqs
      { s with
        world := s.world.rollback i
        prog := update s.prog i (.raise .cancelledError) } := by
  have hother : ∀ {id j row}, ((s.world.tasks.slot id).rollback i).pending = some (j, row) →
      j ≠ i ∧ (s.world.tasks.slot id).pending = some (j, row) := Slot.rollback_pending.1
  have hcommitted : ∀ id, ((s.world.tasks.slot id).rollback i).committed =
      committedTask s id := fun id => Slot.rollback_committed i _
  have halive : ∀ {j o' k'}, update s.prog i (.raise .cancelledError) j = .op o' k' →
      j ≠ i := by
    rintro j o' k' hj rfl
    simp at hj
  have hkept : ∀ {id j row}, j ≠ i → (s.world.tasks.slot id).pending = some (j, row) →
      (s.world.tasks.slot id).rollback i = s.world.tasks.slot id := by
    intro id j row hji hrow
    refine Slot.rollback_eq_self fun v hv => ?_
    rw [hrow] at hv
    exact hji (congrArg Prod.fst (Option.some.inj hv))
  refine ⟨?_, ?_, ?_, ?_, ?_, ?_⟩
  · intro id j row hrow hnone
    exact h.inserted (hother hrow).2 ((hcommitted id).symm.trans hnone)
  · intro id j row old hrow hold
    exact h.updated (hother hrow).2 ((hcommitted id).symm.trans hold)
  · intro j id row hj
    obtain ⟨row', hrow', hmoved⟩ := h.found hj
    exact ⟨row', (hcommitted id).trans hrow', hmoved⟩
  · intro j id hj
    obtain ⟨row, hrow, howner⟩ := h.durable hj
    exact ⟨row, (hcommitted id).trans hrow, howner⟩
  · intro j o' k' id hj hown
    have hji := halive hj
    simp only [update_of_ne hji] at hj hown
    obtain ⟨row, hrow⟩ := h.own hj hown
    exact ⟨row, (hkept hji (congrArg Slot.pending hrow)).trans hrow⟩
  · intro j o' k' u hj hwrote happlied hforced
    have hji := halive hj
    simp only [update_of_ne hji] at hj hwrote happlied
    obtain ⟨row, hrow⟩ := h.held hj hwrote happlied hforced
    exact ⟨row, (congrArg Slot.pending (hkept hji hrow)).trans hrow⟩

theorem Coupled.step (h : Coupled reqs s) (hd : Disciplined reqs s)
    (hstep : (taskMachine ι).step s l = some s') :
    Coupled reqs s' := by
  obtain ⟨i, c, o, k, r, w, rfl, hp, hexec, rfl⟩ | ⟨a, w, rfl, henv, rfl⟩ |
      ⟨i, o, k, rfl, hp, rfl⟩ := Machine.step_cases hstep
  · exact h.call hd hp hexec hstep
  · exact h.of_tasks_eq (envStep_tasks henv)
  · exact h.abandon i

end Coupling

section Lifecycle

variable {reqs : ι → TaskRequest} {s s' : TaskConfig ι} {l : TaskLabel ι} {w : World ι}
variable {ls : List (TaskLabel ι)}

/-- What holds of every state that requests can reach. -/
structure Sound (reqs : ι → TaskRequest) (s : TaskConfig ι) : Prop where
  disciplined : Disciplined reqs s
  coupled : Coupled reqs s

theorem Sound.step (h : Sound reqs s) (hstep : (taskMachine ι).step s l = some s') :
    Sound reqs s' :=
  ⟨h.disciplined.step hstep, h.coupled.step h.disciplined hstep⟩

theorem Sound.run (h : Sound reqs s) (hrun : (taskMachine ι).run s ls = some s') :
    Sound reqs s' :=
  Machine.invariant_of_run (Sound reqs) (fun _ _ _ hs hstep => hs.step hstep) h hrun

theorem sound_of_run [UrlValidator] (hw : w.Quiet)
    (hrun : (taskMachine ι).run (startTasks w reqs) ls = some s) :
    Sound reqs s :=
  Sound.run ⟨startTasks_disciplined w reqs, startTasks_coupled hw reqs⟩ hrun

theorem Sound.run_advance (h : Sound reqs s) (hrun : (taskMachine ι).run s ls = some s')
    {id : UUID} {old : TaskRow} (hold : committedTask s id = some old) :
    ∃ new, committedTask s' id = some new ∧ SameTask old new ∧
      StatusPath old.status new.status := by
  induction ls generalizing s old with
  | nil =>
      cases hrun
      exact ⟨old, hold, SameTask.refl old, .refl⟩
  | cons l ls ih =>
      obtain ⟨s₁, hstep, hrest⟩ := Machine.run_cons_eq_some.1 hrun
      obtain ⟨mid, hmid, hadvance⟩ := h.coupled.step_advance hstep hold
      obtain ⟨new, hnew, hsame, hpath⟩ := ih (h.step hstep) hrest hmid
      exact ⟨new, hnew, hadvance.task.trans hsame,
        hadvance.status.to_reflTransGen.trans hpath⟩

omit [DecidableEq ι] in
/-- The version an owner's request found is still the owner's. -/
theorem Coupled.owner_of_entitled (h : Coupled reqs s) {i : ι} {id : UUID} {user : UserId}
    {old : TaskRow} (hentitled : (ghostOf (s.hist i)).Entitled user id)
    (hold : committedTask s id = some old) :
    old.userId = user := by
  obtain ⟨row, hfound, howner, -⟩ := hentitled
  obtain ⟨row', hrow', hmoved⟩ := h.found hfound
  rw [hold] at hrow'
  cases hrow'
  exact hmoved.userId.trans howner

omit [DecidableEq ι] in
/-- A version is committed only for the owner of the row. -/
theorem Sound.owner_of_commit (h : Sound reqs s) {i : ι} {k : Reply → TaskProg Response}
    {id : UUID} {old row : TaskRow} (hp : s.prog i = .op .commit k)
    (hrow : (s.world.tasks.slot id).pending = some (i, row))
    (hold : committedTask s id = some old) :
    old.userId = (reqs i).user ∧
    (¬ SameData old row → (reqs i).Edits id) := by
  obtain ⟨u, hu⟩ := h.coupled.updated hrow hold
  have hsettled := (h.disciplined.permits hp).1.of_wrote hu.wrote
  have hid := hu.taskId
  have hmakes := hu.makes
  cases u with
  | cancel taskId =>
      obtain rfl : taskId = id := hid
      refine ⟨h.coupled.owner_of_entitled hsettled.2.2.2 hold, fun hdata => absurd ?_ hdata⟩
      rw [hmakes]
      exact ⟨rfl, rfl, rfl, rfl⟩
  | data taskId =>
      obtain rfl : taskId = id := hid
      exact ⟨h.coupled.owner_of_entitled hsettled.2.2 hold, fun _ => hsettled.2.1⟩
  | confirm taskId =>
      obtain rfl : taskId = id := hid
      obtain ⟨row', hrow', howner⟩ := h.coupled.durable hsettled.2.2
      rw [hold] at hrow'
      cases hrow'
      refine ⟨howner, fun hdata => absurd ?_ hdata⟩
      rw [hmakes.2]
      exact ⟨rfl, rfl, rfl, rfl⟩

/-- The step commits an update request of `owner` on the task. -/
def CommitsEdit (reqs : ι → TaskRequest) (s : TaskConfig ι) (l : TaskLabel ι) (id : UUID)
    (owner : UserId) : Prop :=
  ∃ i c k,
    l = .op i c ∧
    s.prog i = .op .commit k ∧
    (reqs i).Edits id ∧
    (reqs i).user = owner

/-- What one step of a run makes of a committed row, and what the rest of the run does. -/
structure Lives (reqs : ι → TaskRequest) (s : TaskConfig ι) (l : TaskLabel ι)
    (id : UUID) (old new last : TaskRow) : Prop where
  task : SameTask old new ∧ SameTask old last
  step : Relation.ReflGen StatusStep old.status new.status
  path : StatusPath old.status last.status
  canceled : old.status = .canceled → last.status = .canceled
  data : ¬ SameData old new → CommitsEdit reqs s l id old.userId

/--
The lifecycle of tasks: at every step of every run a committed row keeps its
identity, its status stays or moves one step along `BEFORE RMQ`, `pending`,
`canceled`, and its data changes only when an update request of its owner
commits; a row that appears is in one of the two first statuses.
-/
theorem taskLifecycle [UrlValidator] (hw : w.Quiet) {pre post : List (TaskLabel ι)}
    {t : TaskConfig ι}
    (hpre : (taskMachine ι).run (startTasks w reqs) pre = some s)
    (hstep : (taskMachine ι).step s l = some s')
    (hpost : (taskMachine ι).run s' post = some t) (id : UUID) :
    (∀ old, committedTask s id = some old →
      ∃ new last,
        committedTask s' id = some new ∧
        committedTask t id = some last ∧
        Lives reqs s l id old new last) ∧
    (∀ new, committedTask s id = none → committedTask s' id = some new →
      new.status = .beforeRmq ∨ new.status = .pending) := by
  have hsound := sound_of_run hw hpre
  constructor
  · intro old hold
    obtain ⟨new, hnew, hadvance⟩ := hsound.coupled.step_advance hstep hold
    obtain ⟨last, hlast, hsame, hpath⟩ := (hsound.step hstep).run_advance hpost hnew
    have hwhole := hadvance.status.to_reflTransGen.trans hpath
    refine ⟨new, last, hnew, hlast, ⟨hadvance.task, hadvance.task.trans hsame⟩,
      hadvance.status, hwhole, fun hcanceled => ?_, fun hdata => ?_⟩
    · rw [hcanceled] at hwhole
      exact statusPath_canceled hwhole
    · rcases step_committed hstep id with hkept | ⟨i, c, k, row, rfl, hp, hrow, hrow'⟩
      · rw [hnew, hold] at hkept
        cases hkept
        exact absurd ⟨rfl, rfl, rfl, rfl⟩ hdata
      · rw [hnew] at hrow'
        cases hrow'
        obtain ⟨howner, hedits⟩ := hsound.owner_of_commit hp hrow hold
        exact ⟨i, c, k, rfl, hp, hedits hdata, howner.symm⟩
  · intro new hnone hnew
    rcases step_committed hstep id with hkept | ⟨i, c, k, row, rfl, hp, hrow, hrow'⟩
    · rw [hnew, hnone] at hkept
      cases hkept
    · rw [hnew] at hrow'
      cases hrow'
      exact (hsound.coupled.inserted hrow hnone).status

/-- The step that commits a PUT changes the data, and nothing else, of the owner's task. -/
theorem taskLifecycle_edited :
    letI := sampleUrls
    ∃ s s' t : TaskConfig (Fin 1),
      (taskMachine (Fin 1)).run (startTasks (worldOf (Fin 1) [samplePending]) fun _ => sampleEdit 1)
        (List.replicate 4 (callOf 0)) = some s ∧
      (taskMachine (Fin 1)).step s (callOf 0) = some s' ∧
      (taskMachine (Fin 1)).run s' [callOf 0] = some t ∧
      ∃ new last,
        committedTask s' 7 = some new ∧
        committedTask t 7 = some last ∧
        Lives (fun _ => sampleEdit 1) s (callOf 0) 7 samplePending new last := by
  let := sampleUrls
  obtain ⟨s, s', t, hpre, hstep, hpost⟩ := Machine.exists_of_run_isSome
    (show ((taskMachine (Fin 1)).run
      (startTasks (worldOf (Fin 1) [samplePending]) fun _ => sampleEdit 1)
      (List.replicate 4 (callOf 0) ++ callOf 0 :: [callOf 0])).isSome = true by decide)
  have hold : ((taskMachine (Fin 1)).run
      (startTasks (worldOf (Fin 1) [samplePending]) fun _ => sampleEdit 1)
      (List.replicate 4 (callOf 0))).bind (committedTask · 7) = some samplePending := by
    decide
  rw [hpre] at hold
  exact ⟨s, s', t, hpre, hstep, hpost,
    (taskLifecycle (worldOf_quiet [samplePending]) hpre hstep hpost 7).1 samplePending hold⟩

end Lifecycle

end TaskLifecycle

end SmartHttpRequester
