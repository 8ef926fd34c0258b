import SmartHttpRequester.TaskStories

/-!
# Stories and the table

`Linked` says what the open transactions of the API hold: a version that is
uncommitted is one the story of its request has on record, and what is on record
is there, as long as no call of the request has failed.  Every step keeps it
(`Linked.step`).
-/

namespace SmartHttpRequester

open Foundations Function

section LinkedStories

section Ghost

variable {g : StoryGhost} {o : TaskOp} {r : Reply}

/-- Neither the transaction ends nor does the statement write. -/
structure TaskOp.Neutral (o : TaskOp) : Prop where
  commit : o ≠ .commit
  rollback : o ≠ .rollback
  close : o ≠ .close
  inserts : ∀ values bindparams, o ≠ .execute (.insertTasks values bindparams)
  writes : ∀ st, o = .execute st → st.action? = none

/-- What an answer adds to the story of a request in which no call has failed. -/
theorem StoryGhost.next_cases (h : (g.next o r).failed = false) :
    g.failed = false ∧
    ((o = .commit ∧ (∃ rows, r = .ok rows) ∧
        g.next o r = { g.ended with performed := g.performed ++ g.action?.toList }) ∨
      ((o = .rollback ∨ o = .close) ∧ g.next o r = g.ended) ∨
      (∃ values bindparams rows,
        o = .execute (.insertTasks values bindparams) ∧ r = .ok rows ∧
        g.next o r = { g with rows := g.rows ++ rows }) ∨
      (∃ st a rows,
        o = .execute st ∧ st.action? = some a ∧ r = .ok rows ∧
        g.next o r = { g with writing := some a }) ∨
      (o.Neutral ∧ g.next o r = g)) := by
  cases r with
  | error e =>
      cases o with
      | redisPublish taskId status =>
          exact ⟨h, Or.inr (Or.inr (Or.inr (Or.inr ⟨⟨by simp, by simp, by simp, by simp, by simp⟩,
            rfl⟩)))⟩
      | _ => cases h
  | ok rows =>
      cases o with
      | commit => exact ⟨h, Or.inl ⟨rfl, ⟨rows, rfl⟩, rfl⟩⟩
      | rollback => exact ⟨h, Or.inr (Or.inl ⟨Or.inl rfl, rfl⟩)⟩
      | close => exact ⟨h, Or.inr (Or.inl ⟨Or.inr rfl, rfl⟩)⟩
      | execute st =>
          cases st with
          | insertTasks values bindparams =>
              exact ⟨h, Or.inr (Or.inr (Or.inl ⟨values, bindparams, rows, rfl, rfl, rfl⟩))⟩
          | cancelTask taskId =>
              exact ⟨h, Or.inr (Or.inr (Or.inr (Or.inl ⟨_, _, rows, rfl, rfl, rfl, rfl⟩)))⟩
          | updateTask taskId url method headers body =>
              exact ⟨h, Or.inr (Or.inr (Or.inr (Or.inl ⟨_, _, rows, rfl, rfl, rfl, rfl⟩)))⟩
          | confirmTask taskId =>
              exact ⟨h, Or.inr (Or.inr (Or.inr (Or.inl ⟨_, _, rows, rfl, rfl, rfl, rfl⟩)))⟩
          | _ =>
              refine ⟨h, Or.inr (Or.inr (Or.inr (Or.inr ⟨⟨by simp, by simp, by simp, by simp, ?_⟩,
                rfl⟩)))⟩
              rintro st ⟨⟩
              rfl
      | _ =>
          exact ⟨h, Or.inr (Or.inr (Or.inr (Or.inr ⟨⟨by simp, by simp, by simp, by simp, by simp⟩,
            rfl⟩)))⟩

/-- The action is an UPDATE of the row with this id that makes the one row the other. -/
def StoreAction.Writes (id : UUID) (old new : TaskRow) : StoreAction → Prop
  | .created _ => False
  | .confirmed taskId => taskId = id ∧ setPending old = some new
  | .canceled taskId => taskId = id ∧ ∃ now, new = canceledRow now old
  | .edited taskId taskData => taskId = id ∧ ∃ now, new = editedRow taskData now old

/-- The UPDATE of an action. -/
def StoreAction.write? : StoreAction → Option RowWrite
  | .created _ => none
  | .confirmed taskId => some (.confirm taskId)
  | .canceled taskId => some (.cancel taskId)
  | .edited taskId _ => some (.data taskId)

theorem Stmt.write?_eq_action? (st : Stmt) : st.write? = st.action?.bind StoreAction.write? := by
  cases st <;> rfl

theorem exists_write_of_action {st : Stmt} {a : StoreAction} (h : st.action? = some a) :
    ∃ u, st.write? = some u ∧ a.write? = some u := by
  cases st <;> cases h <;> exact ⟨_, rfl, rfl⟩

theorem StoreAction.Writes.taskId {a : StoreAction} {id : UUID} {old new : TaskRow} {u : RowWrite}
    (h : a.Writes id old new) (hu : a.write? = some u) : u.taskId = id := by
  cases a with
  | created rows => cases hu
  | confirmed taskId =>
      cases hu
      exact h.1
  | canceled taskId =>
      cases hu
      exact h.1
  | edited taskId taskData =>
      cases hu
      exact h.1

end Ghost

section Histories

/-- The story that a history tells. -/
def storyOf (hist : List (TaskOp × Reply)) : StoryGhost :=
  hist.foldl (fun g e => g.next e.1 e.2) {}

theorem storyOf_snoc (hist : List (TaskOp × Reply)) (o : TaskOp) (r : Reply) :
    storyOf (hist ++ [(o, r)]) = (storyOf hist).next o r := by
  simp [storyOf, List.foldl_append]

theorem TaskOp.Neutral.ends {o : TaskOp} (h : o.Neutral) (r : Reply) : o.ends r = false := by
  cases o with
  | commit => exact absurd rfl h.commit
  | rollback => exact absurd rfl h.rollback
  | close => exact absurd rfl h.close
  | _ => cases r <;> rfl

theorem TaskOp.Neutral.write? {o : TaskOp} (h : o.Neutral) {st : Stmt} (ho : o = .execute st) :
    st.write? = none := by
  rw [Stmt.write?_eq_action?, h.writes st ho]
  rfl

/-- The UPDATE of the story is the one that the discipline of the request has on record. -/
theorem wrote_of_writing {hist : List (TaskOp × Reply)} {a : StoreAction}
    (hfailed : (storyOf hist).failed = false) (hwriting : (storyOf hist).writing = some a) :
    (ghostOf hist).wrote = a.write? := by
  induction hist using List.reverseRecOn generalizing a with
  | nil =>
      cases hwriting
  | append_singleton hist e ih =>
      obtain ⟨o, r⟩ := e
      rw [storyOf_snoc] at hfailed hwriting
      rw [ghostOf_snoc]
      obtain ⟨hbefore, ⟨-, -, hnext⟩ | ⟨-, hnext⟩ | ⟨values, bindparams, rows, rfl, rfl, hnext⟩ |
        ⟨st, b, rows, rfl, haction, rfl, hnext⟩ | ⟨hneutral, hnext⟩⟩ :=
          StoryGhost.next_cases hfailed
      · rw [hnext] at hwriting
        cases hwriting
      · rw [hnext] at hwriting
        cases hwriting
      · rw [hnext] at hwriting
        exact (TaskGhost.next_wrote rfl fun st hst => by cases hst; rfl).trans
          (ih hbefore hwriting)
      · rw [hnext] at hwriting
        cases hwriting
        have hwrite : st.write? = a.write? := by
          rw [Stmt.write?_eq_action?, haction]
          rfl
        cases hu : a.write? with
        | none =>
            cases st <;> cases haction <;> cases hu
        | some u =>
            exact TaskGhost.next_write (hwrite.trans hu)
      · rw [hnext] at hwriting
        exact (TaskGhost.next_wrote (hneutral.ends r) fun st hst => hneutral.write? hst).trans
          (ih hbefore hwriting)

end Histories

section Statements

variable {ι : Type} [DecidableEq ι] {i : ι} {c : Choice} {st : Stmt} {a : StoreAction}
variable {w w' : World ι} {r : Reply}

/-- What an UPDATE does: it writes the row its request sees, or there is none it is about. -/
theorem runStmt_action (ha : st.action? = some a) (h : runStmt i c st w = some (r, w')) :
    (∃ id old new,
      (w.tasks.slot id).visible i = some old ∧ a.Writes id old new ∧
      (w.tasks.slot id).lockedFor i = false ∧
      w'.tasks = w.tasks.set id ((w.tasks.slot id).write i new)) ∨
    (w'.tasks = w.tasks ∧ ∃ u, a.write? = some u ∧
      ((w.tasks.slot u.taskId).visible i = none ∨
        (a = .confirmed u.taskId ∧ ∃ old, (w.tasks.slot u.taskId).visible i = some old ∧
          old.status ≠ .beforeRmq))) := by
  have hrow : ∀ {f : TaskRow → Option TaskRow} {u : RowWrite},
      updateRow i u.taskId f w = some (r, w') → a.write? = some u →
      (∀ old new, f old = some new → a.Writes u.taskId old new) →
      (∀ old, f old = none → a = .confirmed u.taskId ∧ old.status ≠ .beforeRmq) →
      (∃ id old new,
        (w.tasks.slot id).visible i = some old ∧ a.Writes id old new ∧
        (w.tasks.slot id).lockedFor i = false ∧
        w'.tasks = w.tasks.set id ((w.tasks.slot id).write i new)) ∨
      (w'.tasks = w.tasks ∧ ∃ u, a.write? = some u ∧
        ((w.tasks.slot u.taskId).visible i = none ∨
          (a = .confirmed u.taskId ∧ ∃ old, (w.tasks.slot u.taskId).visible i = some old ∧
            old.status ≠ .beforeRmq))) := by
    intro f u hupdate hu hwrites hskips
    obtain ⟨t, ht, heq⟩ := Option.map_eq_some_iff.1 hupdate
    cases heq
    cases hvisible : (w.tasks.slot u.taskId).visible i with
    | none =>
        simp only [Table.modify, hvisible] at ht
        cases ht
        exact Or.inr ⟨rfl, u, hu, Or.inl hvisible⟩
    | some old =>
        cases hf : f old with
        | none =>
            simp only [Table.modify, hvisible, hf] at ht
            cases ht
            obtain ⟨hconfirms, hstatus⟩ := hskips old hf
            exact Or.inr ⟨rfl, u, hu, Or.inr ⟨hconfirms, old, hvisible, hstatus⟩⟩
        | some new =>
            simp only [Table.modify, hvisible, hf] at ht
            split at ht
            · cases ht
            · rename_i hlock
              cases ht
              exact Or.inl ⟨u.taskId, old, new, hvisible, hwrites old new hf,
                by simpa using hlock, rfl⟩
  cases st with
  | cancelTask taskId =>
      cases ha
      refine hrow (u := .cancel taskId) h rfl (fun old new hnew => ⟨rfl, w.now i, ?_⟩)
        fun old hnone => ?_
      · exact (Option.some.inj hnew).symm
      · cases hnone
  | updateTask taskId url method headers body =>
      cases ha
      refine hrow (u := .data taskId) h rfl (fun old new hnew => ⟨rfl, w.now i, ?_⟩)
        fun old hnone => ?_
      · exact (Option.some.inj hnew).symm
      · cases hnone
  | confirmTask taskId =>
      cases ha
      refine hrow (u := .confirm taskId) h rfl (fun old new hnew => ⟨rfl, hnew⟩)
        fun old hnone => ⟨rfl, fun hstatus => ?_⟩
      rw [setPending, if_pos hstatus] at hnone
      cases hnone
  | _ => cases ha

/-- Where an UPDATE has left a version, it is what its action writes. -/
theorem callOp_writes (ha : st.action? = some a)
    (h : callOp i c (.execute st) w = some (r, w')) {id : UUID} {row : TaskRow}
    (hrow : (w'.tasks.slot id).pending = some (i, row)) :
    w'.tasks.slot id = w.tasks.slot id ∨
    ∃ old, (w.tasks.slot id).visible i = some old ∧ a.Writes id old row ∧
      w'.tasks.slot id = (w.tasks.slot id).write i row := by
  rcases callOp_cases h with ⟨r', hrun, -, -⟩ | ⟨f, -, -, -, rfl⟩
  · rcases runStmt_action (w := w.begin i) ha hrun with
      ⟨id', old, new, hvisible, hwrites, -, htasks⟩ | ⟨htasks, -⟩
    · rw [htasks] at hrow ⊢
      by_cases hid : id = id'
      · subst hid
        rw [Table.set_slot_self] at hrow ⊢
        cases hrow
        exact Or.inr ⟨old, hvisible, hwrites, rfl⟩
      · rw [Table.set_slot_other hid]
        exact Or.inl rfl
    · rw [htasks]
      exact Or.inl rfl
  · exact Or.inl rfl

end Statements

section Linked

variable {ι : Type} [DecidableEq ι] {reqs : ι → TaskRequest} {s s' : TaskConfig ι}
variable {l : TaskLabel ι} {i : ι} {id : UUID} {row : TaskRow}

/-- All requests of a configuration have told, and will tell, their stories. -/
abbrev Telling (reqs : ι → TaskRequest) (s : TaskConfig ι) : Prop :=
  Monitored (fun i => storyMonitor (reqs i)) (fun _ => {}) (fun i => (reqs i).Told)
    .cancelledError s

omit [DecidableEq ι] in
theorem Telling.tells (h : Telling reqs s) {o : TaskOp} {k : Reply → TaskProg Response}
    (hp : s.prog i = .op o k) : (reqs i).Tells (storyOf (s.hist i)) o :=
  Monitored.allows h hp

theorem callOp_returnsInserted {c : Choice} {o : TaskOp} {w w' : World ι} {r : Reply}
    (h : callOp i c o w = some (r, w')) : ReturnsInserted o r := by
  rintro values bindparams rows rfl rfl
  obtain ⟨news, hnews, hlength, hrows, -⟩ := callOp_ok_values h
  exact ⟨_, c.ids, news, hnews, hlength, hrows⟩

theorem Telling.step (h : Telling reqs s) (hstep : (taskMachine ι).step s l = some s') :
    Telling reqs s' :=
  Monitored.step (M := taskMachine ι) (fun _ _ _ _ _ _ hexec => callOp_returnsInserted hexec) h
    hstep

/-- The request is still running, and no call of its has failed. -/
def Sure (s : TaskConfig ι) (i : ι) : Prop :=
  (∃ o k, s.prog i = .op o k) ∧ (storyOf (s.hist i)).failed = false

/-- The table and the stories of the requests agree on what is uncommitted. -/
structure Linked (reqs : ι → TaskRequest) (s : TaskConfig ι) : Prop where
  holds : ∀ {i id row},
    Sure s i → (s.world.tasks.slot id).pending = some (i, row) →
    (committedTask s id = none ∧ row ∈ (storyOf (s.hist i)).rows ∧ row.id = id) ∨
    ∃ a old,
      (storyOf (s.hist i)).writing = some a ∧ committedTask s id = some old ∧ a.Writes id old row
  inserted : ∀ {i row},
    Sure s i → row ∈ (storyOf (s.hist i)).rows →
    s.world.tasks.slot row.id = Slot.empty.write i row
  written : ∀ {i a},
    Sure s i → (storyOf (s.hist i)).writing = some a →
    ∃ u, a.write? = some u ∧
      ((∃ row, (s.world.tasks.slot u.taskId).pending = some (i, row)) ∨
        (a = .confirmed u.taskId ∧ (∀ row, (s.world.tasks.slot u.taskId).pending ≠ some (i, row)) ∧
          ∃ old, committedTask s u.taskId = some old ∧ old.status ≠ .beforeRmq ∧
            old.userId = (reqs i).user))

omit [DecidableEq ι] in
theorem startTasks_linked [UrlValidator] {w : World ι} (hw : w.Quiet) (reqs : ι → TaskRequest) :
    Linked reqs (startTasks w reqs) where
  holds _ h := by simp [startTasks, Machine.start, hw.pending] at h
  inserted _ h := by cases h
  written _ h := by cases h

omit [DecidableEq ι] in
/-- Before its write a request holds nothing. -/
theorem Linked.not_holds_of_clean (h : Linked reqs s) (hsure : Sure s i)
    (hclean : (storyOf (s.hist i)).Clean) :
    (s.world.tasks.slot id).pending ≠ some (i, row) := by
  intro hrow
  rcases h.holds hsure hrow with ⟨-, hmem, -⟩ | ⟨a, old, hwriting, -⟩
  · rw [hclean.1] at hmem
    cases hmem
  · rw [hclean.2] at hwriting
    cases hwriting

omit [DecidableEq ι] in
/-- A status that has left `BEFORE RMQ` does not come back. -/
theorem Advance.status_ne {old new : TaskRow} (h : Advance old new)
    (hstatus : old.status ≠ .beforeRmq) : new.status ≠ .beforeRmq := by
  intro hnew
  rcases (Relation.reflGen_iff _ _ _).1 h.status with hsame | hmove
  · exact hstatus (hsame.symm.trans hnew)
  · rw [hnew] at hmove
    generalize old.status = status at hmove
    cases hmove

/-- A step of somebody else leaves the rows alone on which a request holds a version. -/
theorem slot_of_other_step (hstep : (taskMachine ι).step s l = some s') (hl : l.actor ≠ some i)
    (hrow : (s.world.tasks.slot id).pending = some (i, row) ∨
      (s'.world.tasks.slot id).pending = some (i, row)) :
    s'.world.tasks.slot id = s.world.tasks.slot id := by
  rcases hrow with hrow | hrow
  · obtain ⟨j, c, o, k, r, w, rfl, hp, hexec, rfl⟩ | ⟨a, w, rfl, henv, rfl⟩ |
        ⟨j, o, k, rfl, hp, rfl⟩ := Machine.step_cases hstep
    · refine (callOp_slot hexec id).eq_of_locked (fun hij => ?_) hrow
      exact hl (congrArg some hij.symm)
    · show w.tasks.slot id = s.world.tasks.slot id
      rw [envStep_tasks henv]
    · refine Slot.rollback_eq_self fun v hv => ?_
      rw [hrow] at hv
      exact hl (congrArg some (congrArg Prod.fst (Option.some.inj hv)).symm)
  · rcases step_pending hstep hrow with hsame | ⟨c, o, k, r, rfl, -⟩
    · exact hsame
    · exact absurd rfl hl

theorem Linked.holds_of_step (h : Linked reqs s) (hsound : Sound reqs s) (htelling : Telling reqs s)
    (hstep : (taskMachine ι).step s l = some s') (hsure : Sure s' i)
    (hrow : (s'.world.tasks.slot id).pending = some (i, row)) :
    (committedTask s' id = none ∧ row ∈ (storyOf (s'.hist i)).rows ∧ row.id = id) ∨
    ∃ a old,
      (storyOf (s'.hist i)).writing = some a ∧ committedTask s' id = some old ∧
      a.Writes id old row := by
  rcases Machine.step_participant hstep i with ⟨hl, hprog, hhist⟩ |
      ⟨c, o, k, r, rfl, hp, hexec, -, hhist⟩ | ⟨rfl, hprog, -⟩
  · have hslot := slot_of_other_step hstep hl (Or.inr hrow)
    have hcommitted : committedTask s' id = committedTask s id := congrArg Slot.committed hslot
    unfold Sure at hsure
    rw [hprog, hhist] at hsure
    rw [hhist, hcommitted]
    exact h.holds hsure (hslot ▸ hrow)
  · rw [hhist, storyOf_snoc]
    obtain ⟨-, hfailed⟩ := hsure
    rw [hhist, storyOf_snoc] at hfailed
    obtain ⟨hbefore, hcases⟩ := StoryGhost.next_cases hfailed
    have hsure : Sure s i := ⟨⟨o, k, hp⟩, hbefore⟩
    have htells := htelling.tells hp
    rcases (callOp_slot hexec id).pending hrow with ⟨hslot, hends⟩ |
        ⟨-, hempty, -, values, bindparams, news, new, createdAt, ho, -⟩ |
        ⟨-, hwrite, st, u, old, rfl, hu, hid, -, -, -⟩
    · have hheld : (s.world.tasks.slot id).pending = some (i, row) := hslot ▸ hrow
      have hcommitted : committedTask s' id = committedTask s id := congrArg Slot.committed hslot
      obtain ⟨rfl, ⟨rows, rfl⟩, -⟩ | ⟨ho, -⟩ | ⟨values, bindparams, rows, rfl, -, -⟩ |
          ⟨st, a, rows, rfl, haction, -, -⟩ | ⟨-, hnext⟩ := hcases
      · cases hends rfl
      · rcases ho with rfl | rfl
        · cases hends rfl
        · cases hends rfl
      · exact absurd hheld (h.not_holds_of_clean hsure htells)
      · have hclean : (storyOf (s.hist i)).Clean := by
          cases st <;> first | exact htells (by simp [haction]) | cases haction
        exact absurd hheld (h.not_holds_of_clean hsure hclean)
      · rw [hnext, hcommitted]
        exact h.holds hsure hheld
    · subst ho
      obtain ⟨h₁, -⟩ | ⟨h₁ | h₁, -⟩ | ⟨values, bindparams, rows, h₁, rfl, hnext⟩ |
          ⟨st, a, rows, h₁, haction, -, -⟩ | ⟨hneutral, -⟩ := hcases
      · cases h₁
      · cases h₁
      · cases h₁
      · cases h₁
        obtain ⟨hwritten, hkept, -⟩ := callOp_ok_insert_rows hexec
        rcases hkept id with hsame | ⟨row', hrow', rfl⟩
        · rw [hsame, hempty] at hrow
          cases hrow
        · rw [hwritten row' hrow'] at hrow
          cases hrow
          refine Or.inl ⟨congrArg Slot.committed (hwritten row hrow'), ?_, rfl⟩
          rw [hnext]
          exact List.mem_append_right _ hrow'
      · cases h₁
        cases haction
      · exact absurd rfl (hneutral.inserts _ _)
    · -- the row that an UPDATE writes is committed
      obtain ⟨-, committed, hcommitted, -⟩ := hsound.coupled.write_target hsound.disciplined hp hu
      have haction : ∃ a, st.action? = some a := by
        rw [Stmt.write?_eq_action?] at hu
        obtain ⟨a, ha, -⟩ := Option.bind_eq_some_iff.1 hu
        exact ⟨a, ha⟩
      obtain ⟨a, ha⟩ := haction
      obtain ⟨h₁, -⟩ | ⟨h₁ | h₁, -⟩ | ⟨values, bindparams, rows, h₁, -, -⟩ |
          ⟨st', a', rows, h₁, haction', -, hnext⟩ | ⟨hneutral, -⟩ := hcases
      · cases h₁
      · cases h₁
      · cases h₁
      · cases h₁
        cases ha
      · cases h₁
        obtain rfl : a = a' := Option.some.inj (ha.symm.trans haction')
        have hclean : (storyOf (s.hist i)).Clean := by
          cases st <;> first | exact htells (by simp [ha]) | cases ha
        have hfree : ∀ v, (s.world.tasks.slot id).pending ≠ some (i, v) :=
          fun v => h.not_holds_of_clean hsure hclean
        rcases callOp_writes ha hexec hrow with hsame | ⟨old', hvisible, hwrites, hslot⟩
        · exact absurd (hsame ▸ hrow) (hfree row)
        · rw [Slot.visible_eq_committed hfree] at hvisible
          refine Or.inr ⟨a, old', by rw [hnext], ?_, hwrites⟩
          show (s'.world.tasks.slot id).committed = some old'
          rw [hslot]
          exact hvisible
      · exact absurd ha (by simp [hneutral.writes st rfl])
  · obtain ⟨⟨o, k, hp⟩, -⟩ := hsure
    rw [hprog] at hp
    cases hp

theorem Linked.inserted_of_step (h : Linked reqs s) (htelling : Telling reqs s)
    (hstep : (taskMachine ι).step s l = some s') (hsure : Sure s' i)
    (hrow : row ∈ (storyOf (s'.hist i)).rows) :
    s'.world.tasks.slot row.id = Slot.empty.write i row := by
  have hpending : ∀ {t : TaskConfig ι}, t.world.tasks.slot row.id = Slot.empty.write i row →
      (t.world.tasks.slot row.id).pending = some (i, row) := by
    intro t ht
    rw [ht]
    rfl
  rcases Machine.step_participant hstep i with ⟨hl, hprog, hhist⟩ |
      ⟨c, o, k, r, rfl, hp, hexec, -, hhist⟩ | ⟨rfl, hprog, -⟩
  · unfold Sure at hsure
    rw [hprog, hhist] at hsure
    rw [hhist] at hrow
    have hslot := h.inserted hsure hrow
    exact (slot_of_other_step hstep hl (Or.inl (hpending hslot))).trans hslot
  · obtain ⟨-, hfailed⟩ := hsure
    rw [hhist, storyOf_snoc] at hfailed hrow
    obtain ⟨hbefore, hcases⟩ := StoryGhost.next_cases hfailed
    have htells := htelling.tells hp
    obtain ⟨-, -, hnext⟩ | ⟨-, hnext⟩ | ⟨values, bindparams, rows, rfl, rfl, hnext⟩ |
        ⟨st, a, rows, rfl, haction, -, hnext⟩ | ⟨hneutral, hnext⟩ := hcases
    · rw [hnext] at hrow
      cases hrow
    · rw [hnext] at hrow
      cases hrow
    · have hclean : (storyOf (s.hist i)).Clean := htells
      rw [hnext, hclean.1] at hrow
      exact (callOp_ok_insert_rows hexec).1 row hrow
    · have hclean : (storyOf (s.hist i)).Clean := by
        cases st <;> first | exact htells (by simp [haction]) | cases haction
      rw [hnext, hclean.1] at hrow
      cases hrow
    · rw [hnext] at hrow
      have hslot := h.inserted ⟨⟨o, k, hp⟩, hbefore⟩ hrow
      rcases (callOp_slot hexec row.id).eq_or_write_of_held (hpending hslot) hneutral.commit
        hneutral.rollback hneutral.close with hsame | ⟨st, u, new, ho, hu, -⟩
      · exact hsame.trans hslot
      · rw [hneutral.write? ho] at hu
        cases hu
  · obtain ⟨⟨o, k, hp⟩, -⟩ := hsure
    rw [hprog] at hp
    cases hp

/-- An UPDATE that is answered has left a version, or it confirmed what was confirmed. -/
theorem Linked.written_of_update (h : Linked reqs s) (hsound : Sound reqs s) (hsure : Sure s i)
    (hclean : (storyOf (s.hist i)).Clean) {c : Choice} {st : Stmt} {a : StoreAction}
    {k : Reply → TaskProg Response} {rows : List TaskRow} (hp : s.prog i = .op (.execute st) k)
    (ha : st.action? = some a)
    (hexec : callOp i c (.execute st) s.world = some (.ok rows, s'.world)) :
    ∃ u, a.write? = some u ∧
      ((∃ row, (s'.world.tasks.slot u.taskId).pending = some (i, row)) ∨
        (a = .confirmed u.taskId ∧
          (∀ row, (s'.world.tasks.slot u.taskId).pending ≠ some (i, row)) ∧
          ∃ old, committedTask s' u.taskId = some old ∧ old.status ≠ .beforeRmq ∧
            old.userId = (reqs i).user)) := by
  obtain ⟨u, hwrite, hu⟩ := exists_write_of_action ha
  have hfree : ∀ v, (s.world.tasks.slot u.taskId).pending ≠ some (i, v) :=
    fun v => h.not_holds_of_clean hsure hclean
  have hvisible := Slot.visible_eq_committed hfree
  refine ⟨u, hu, ?_⟩
  rcases runStmt_action ha (callOp_ok hexec) with
    ⟨id, old, new, -, hwrites, -, htasks⟩ | ⟨htasks, v, hv, hcases⟩
  · obtain rfl := hwrites.taskId hu
    exact Or.inl ⟨new, by rw [htasks, Table.set_slot_self]; rfl⟩
  · obtain rfl : v = u := Option.some.inj (hv.symm.trans hu)
    have htasks' : s'.world.tasks = s.world.tasks := htasks
    simp only [committedTask, htasks']
    obtain ⟨-, old, hold, -⟩ := hsound.coupled.write_target hsound.disciplined hp hwrite
    rcases hcases with hnone | ⟨hconfirms, old', hold', hstatus⟩
    · -- the row of an UPDATE is committed
      cases hold.symm.trans (hvisible.symm.trans hnone)
    · have hold'' : committedTask s v.taskId = some old' := hvisible.symm.trans hold'
      refine Or.inr ⟨hconfirms, hfree, old', hold'', hstatus, ?_⟩
      have hdurable : v.taskId ∈ (ghostOf (s.hist i)).durable := by
        have hpermits := hsound.disciplined.permits hp
        cases st <;> cases ha <;> cases hconfirms
        exact hpermits.2.2
      obtain ⟨row, hrow, howner⟩ := hsound.coupled.durable hdurable
      rw [hold''] at hrow
      cases hrow
      exact howner

theorem Linked.written_of_step (h : Linked reqs s) (hsound : Sound reqs s)
    (htelling : Telling reqs s) (hstep : (taskMachine ι).step s l = some s') (hsure : Sure s' i)
    {a : StoreAction} (hwriting : (storyOf (s'.hist i)).writing = some a) :
    ∃ u, a.write? = some u ∧
      ((∃ row, (s'.world.tasks.slot u.taskId).pending = some (i, row)) ∨
        (a = .confirmed u.taskId ∧
          (∀ row, (s'.world.tasks.slot u.taskId).pending ≠ some (i, row)) ∧
          ∃ old, committedTask s' u.taskId = some old ∧ old.status ≠ .beforeRmq ∧
            old.userId = (reqs i).user)) := by
  have hadvanced : ∀ {id : UUID},
      (∃ old, committedTask s id = some old ∧ old.status ≠ .beforeRmq ∧
        old.userId = (reqs i).user) →
      ∃ old, committedTask s' id = some old ∧ old.status ≠ .beforeRmq ∧
        old.userId = (reqs i).user := by
    rintro id ⟨old, hold, hstatus, howner⟩
    obtain ⟨new, hnew, hadvance⟩ := hsound.coupled.step_advance hstep hold
    exact ⟨new, hnew, hadvance.status_ne hstatus, hadvance.task.userId.trans howner⟩
  rcases Machine.step_participant hstep i with ⟨hl, hprog, hhist⟩ |
      ⟨c, o, k, r, rfl, hp, hexec, -, hhist⟩ | ⟨rfl, hprog, -⟩
  · unfold Sure at hsure
    rw [hprog, hhist] at hsure
    rw [hhist] at hwriting
    obtain ⟨u, hu, ⟨row, hrow⟩ | ⟨hconfirms, hfree, hold⟩⟩ := h.written hsure hwriting
    · exact ⟨u, hu, Or.inl ⟨row, (congrArg Slot.pending
        (slot_of_other_step hstep hl (Or.inl hrow))).trans hrow⟩⟩
    · refine ⟨u, hu, Or.inr ⟨hconfirms, fun row hrow => ?_, hadvanced hold⟩⟩
      exact hfree row (slot_of_other_step hstep hl (Or.inr hrow) ▸ hrow)
  · obtain ⟨-, hfailed⟩ := hsure
    rw [hhist, storyOf_snoc] at hfailed hwriting
    obtain ⟨hbefore, hcases⟩ := StoryGhost.next_cases hfailed
    have hsure : Sure s i := ⟨⟨o, k, hp⟩, hbefore⟩
    have htells := htelling.tells hp
    obtain ⟨-, -, hnext⟩ | ⟨-, hnext⟩ | ⟨values, bindparams, rows, rfl, -, hnext⟩ |
        ⟨st, b, rows, rfl, haction, rfl, hnext⟩ | ⟨hneutral, hnext⟩ := hcases
    · rw [hnext] at hwriting
      cases hwriting
    · rw [hnext] at hwriting
      cases hwriting
    · have hclean : (storyOf (s.hist i)).Clean := htells
      rw [hnext, hclean.2] at hwriting
      cases hwriting
    · have hclean : (storyOf (s.hist i)).Clean := by
        cases st <;> first | exact htells (by simp [haction]) | cases haction
      rw [hnext] at hwriting
      cases hwriting
      exact h.written_of_update hsound hsure hclean hp haction hexec
    · rw [hnext] at hwriting
      have hslot := fun id => callOp_slot hexec id
      obtain ⟨u, hu, ⟨row, hrow⟩ | ⟨hconfirms, hfree, hold⟩⟩ := h.written hsure hwriting
      · rcases (hslot u.taskId).eq_or_write_of_held hrow hneutral.commit hneutral.rollback
          hneutral.close with hsame | ⟨st, v, new, ho, hv, -⟩
        · exact ⟨u, hu, Or.inl ⟨row, (congrArg Slot.pending hsame).trans hrow⟩⟩
        · rw [hneutral.write? ho] at hv
          cases hv
      · refine ⟨u, hu, Or.inr ⟨hconfirms, fun row hrow => ?_, hadvanced hold⟩⟩
        rcases (hslot u.taskId).pending hrow with ⟨hsame, -⟩ |
            ⟨-, -, -, values, bindparams, news, new, createdAt, ho, -⟩ |
            ⟨-, -, st, v, old, ho, hv, -⟩
        · exact hfree row (hsame ▸ hrow)
        · exact hneutral.inserts _ _ ho
        · rw [hneutral.write? ho] at hv
          cases hv
  · obtain ⟨⟨o, k, hp⟩, -⟩ := hsure
    rw [hprog] at hp
    cases hp

theorem Linked.step (h : Linked reqs s) (hsound : Sound reqs s) (htelling : Telling reqs s)
    (hstep : (taskMachine ι).step s l = some s') :
    Linked reqs s' where
  holds hsure hrow := h.holds_of_step hsound htelling hstep hsure hrow
  inserted hsure hrow := h.inserted_of_step htelling hstep hsure hrow
  written hsure hwriting := h.written_of_step hsound htelling hstep hsure hwriting

end Linked

end LinkedStories

end SmartHttpRequester
