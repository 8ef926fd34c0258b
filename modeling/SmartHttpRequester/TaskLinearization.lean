import SmartHttpRequester.Foundations.Linearization
import SmartHttpRequester.LinkedStories
import SmartHttpRequester.TaskReads

/-!
# The API is linearizable

The interleaved task system refines the store of `TaskStore`: what a commit makes
visible is the action its request has on record, or nothing
(`Linked.performed_of_commit`).

`tasks_linearize`: every interleaved run of the API is a run of the store.  Each
action happens at one step, and that is a step of the request it belongs to; a
request has never performed more than a beginning of its actions, and if it
succeeds it has performed them all.  What a GET answers is what the store answers
at one of its steps.  Of the answers of the other requests `StoredResponses` says
which are what the store then has.
-/

namespace SmartHttpRequester

open Foundations Function

section TaskLinearization

variable {ι : Type} [DecidableEq ι] {reqs : ι → TaskRequest} {s s' : TaskConfig ι}
variable {l : TaskLabel ι} {i : ι} {id : UUID}

section Commits

omit [DecidableEq ι] in
/-- The row of an entitled request is the user's own and has been confirmed. -/
theorem Coupled.row_of_entitled (h : Coupled reqs s) {user : UserId} {old : TaskRow}
    (hentitled : (ghostOf (s.hist i)).Entitled user id) (hold : committedTask s id = some old) :
    old.userId = user ∧ (old.status = .pending ∨ old.status = .canceled) := by
  refine ⟨h.owner_of_entitled hentitled hold, ?_⟩
  obtain ⟨row, hfound, -, hstatus⟩ := hentitled
  obtain ⟨row', hrow', hmoved⟩ := h.found hfound
  rw [hold] at hrow'
  cases hrow'
  exact statusPath_pending (hstatus ▸ hmoved.status)

/-- The commit of a request that has not written changes no row. -/
theorem Linked.committed_of_clean (h : Linked reqs s) (hsure : Sure s i)
    (hclean : (storyOf (s.hist i)).Clean) :
    (s.world.tasks.commit i).committed = s.world.tasks.committed := by
  funext id
  show ((s.world.tasks.slot id).commit i).committed = committedTask s id
  rw [Slot.commit_committed]
  exact Slot.visible_eq_committed fun v => h.not_holds_of_clean hsure hclean

theorem Linked.performed_of_rows (h : Linked reqs s) (hsound : Sound reqs s) (hsure : Sure s i)
    (hwriting : (storyOf (s.hist i)).writing = none) :
    StoreAction.Performed (reqs i).user (.created (storyOf (s.hist i)).rows)
      s.world.tasks.committed (s.world.tasks.commit i).committed := by
  refine .created (fun row hrow => ?_) (fun row hrow => ?_) fun id hid => ?_
  · have hslot := h.inserted hsure hrow
    exact (hsound.coupled.inserted (by rw [hslot]; rfl) (committedTask_of_inserted hslot)).userId
  · have hslot := h.inserted hsure hrow
    refine ⟨committedTask_of_inserted hslot, ?_⟩
    show ((s.world.tasks.slot row.id).commit i).committed = some row
    rw [hslot, Slot.commit_committed, Slot.visible_write]
  · show ((s.world.tasks.slot id).commit i).committed = committedTask s id
    rw [Slot.commit_committed]
    refine Slot.visible_eq_committed fun v hv => ?_
    rcases h.holds hsure hv with ⟨-, hmem, hrow⟩ | ⟨a, old, ha, -⟩
    · exact hid v hmem hrow
    · rw [hwriting] at ha
      cases ha

/-- The committed rows after the commit of one version. -/
theorem committed_commit_of_held {row : TaskRow}
    (hrow : (s.world.tasks.slot id).pending = some (i, row))
    (hother : ∀ id', id' ≠ id → ∀ v, (s.world.tasks.slot id').pending ≠ some (i, v)) :
    (s.world.tasks.commit i).committed = update s.world.tasks.committed id (some row) := by
  funext id'
  show ((s.world.tasks.slot id').commit i).committed = _
  rw [Slot.commit_committed]
  by_cases hid : id' = id
  · subst hid
    rw [update_self, Slot.visible_eq_of_pending hrow]
  · rw [update_of_ne hid]
    exact Slot.visible_eq_committed (hother id' hid)

theorem Linked.performed_of_writing (h : Linked reqs s) (hsound : Sound reqs s)
    {k : Reply → TaskProg Response} (hp : s.prog i = .op .commit k)
    (hfailed : (storyOf (s.hist i)).failed = false) (hrows : (storyOf (s.hist i)).rows = [])
    {a : StoreAction} (hwriting : (storyOf (s.hist i)).writing = some a) :
    a.Performed (reqs i).user s.world.tasks.committed (s.world.tasks.commit i).committed := by
  have hsure : Sure s i := ⟨⟨_, _, hp⟩, hfailed⟩
  obtain ⟨u, hu, hcases⟩ := h.written hsure hwriting
  have hheld : ∀ {id : UUID} {row : TaskRow},
      (s.world.tasks.slot id).pending = some (i, row) →
      id = u.taskId ∧ ∃ old, committedTask s id = some old ∧ a.Writes id old row := by
    intro id row hrow
    rcases h.holds hsure hrow with ⟨-, hmem, -⟩ | ⟨b, old, hb, hold, hwrites⟩
    · rw [hrows] at hmem
      cases hmem
    · rw [hwriting] at hb
      cases hb
      exact ⟨(hwrites.taskId hu).symm, old, hold, hwrites⟩
  have hsettled : (ghostOf (s.hist i)).Settled (reqs i) := (hsound.disciplined.permits hp).1
  have hwrote : (ghostOf (s.hist i)).wrote = some u := (wrote_of_writing hfailed hwriting).trans hu
  rcases hcases with ⟨row, hrow⟩ | ⟨rfl, hfree, old, hold, hstatus, howner⟩
  · obtain ⟨-, old, hold, hwrites⟩ := hheld hrow
    rw [committed_commit_of_held hrow fun id' hid v hv => hid (hheld hv).1]
    cases a with
    | created rows => exact hwrites.elim
    | confirmed taskId =>
        cases hu
        obtain ⟨howner, -⟩ := hsound.owner_of_commit hp hrow hold
        have hconfirmed : row = confirmedRow old := by
          rw [confirmedRow, hwrites.2]
          rfl
        subst hconfirmed
        exact .confirmed hold howner
    | canceled taskId =>
        cases hu
        obtain ⟨-, now, rfl⟩ := hwrites
        obtain ⟨-, -, -, hentitled⟩ := hsettled.of_wrote hwrote
        obtain ⟨howner, hstatus⟩ := hsound.coupled.row_of_entitled hentitled hold
        exact .canceled now hold howner hstatus
    | edited taskId taskData =>
        cases hu
        obtain ⟨-, now, rfl⟩ := hwrites
        obtain ⟨-, -, hentitled⟩ := hsettled.of_wrote hwrote
        obtain ⟨howner, hstatus⟩ := hsound.coupled.row_of_entitled hentitled hold
        exact .edited now hold howner hstatus
  · -- the task had been confirmed already
    have hsame : (s.world.tasks.commit i).committed =
        update s.world.tasks.committed u.taskId (some (confirmedRow old)) := by
      rw [confirmedRow, setPending, if_neg hstatus, Option.getD_none]
      refine Eq.trans ?_ (update_eq_self_iff.2 hold.symm).symm
      funext id
      show ((s.world.tasks.slot id).commit i).committed = committedTask s id
      rw [Slot.commit_committed]
      refine Slot.visible_eq_committed fun v hv => ?_
      obtain ⟨rfl, -⟩ := hheld hv
      exact hfree v hv
    rw [hsame]
    exact .confirmed hold howner

/-- A commit performs the action on record, or nothing. -/
theorem Linked.performed_of_commit (h : Linked reqs s) (hsound : Sound reqs s)
    (htelling : Telling reqs s) {k : Reply → TaskProg Response} (hp : s.prog i = .op .commit k) :
    ((storyOf (s.hist i)).action? = none ∧
      (s.world.tasks.commit i).committed = s.world.tasks.committed) ∨
    ∃ a, (storyOf (s.hist i)).action? = some a ∧
      a.Performed (reqs i).user s.world.tasks.committed (s.world.tasks.commit i).committed := by
  obtain ⟨hfailed, hone, -⟩ := htelling.tells hp
  have hsure : Sure s i := ⟨⟨_, _, hp⟩, hfailed⟩
  cases hrows : (storyOf (s.hist i)).rows with
  | nil =>
      have haction : (storyOf (s.hist i)).action? = (storyOf (s.hist i)).writing := by
        rw [StoryGhost.action?, hrows]
      rw [haction]
      cases hwriting : (storyOf (s.hist i)).writing with
      | none => exact Or.inl ⟨rfl, h.committed_of_clean hsure ⟨hrows, hwriting⟩⟩
      | some a => exact Or.inr ⟨a, rfl, h.performed_of_writing hsound hp hfailed hrows hwriting⟩
  | cons row rest =>
      have haction : (storyOf (s.hist i)).action? = some (.created (row :: rest)) := by
        rw [StoryGhost.action?, hrows]
      have hwriting : (storyOf (s.hist i)).writing = none := by
        rcases hone with hnone | hwriting
        · rw [hrows] at hnone
          cases hnone
        · exact hwriting
      refine Or.inr ⟨_, haction, ?_⟩
      rw [← hrows]
      exact h.performed_of_rows hsound hsure hwriting

end Commits

section Runs

variable {w : World ι} {es : List (ι × StoreAction)} {ls : List (TaskLabel ι)}

/-- The store after the actions of the requests is the committed table. -/
structure Storied (w : World ι) (reqs : ι → TaskRequest) (s : TaskConfig ι)
    (es : List (ι × StoreAction)) : Prop where
  store :
    ActionRun (fun i (a : StoreAction) before after => a.Performed (reqs i).user before after)
      w.tasks.committed es s.world.tasks.committed
  may : ∀ i, (reqs i).MayPerform (actionsOf i es)
  sure : ∀ i, (storyOf (s.hist i)).failed = false →
    actionsOf i es = (storyOf (s.hist i)).performed

theorem startTasks_storied [UrlValidator] (w : World ι) (reqs : ι → TaskRequest) :
    Storied w reqs (startTasks w reqs) [] where
  store := .nil
  may i := (reqs i).mayPerform_nil
  sure _ _ := rfl

/-- A call other than a commit brings nothing to a commit. -/
theorem performed_of_not_commit {g : StoryGhost} {o : TaskOp} {r : Reply} (ho : o ≠ .commit)
    (h : (g.next o r).failed = false) : g.failed = false ∧ (g.next o r).performed = g.performed := by
  obtain ⟨hbefore, ⟨rfl, -⟩ | ⟨-, hnext⟩ | ⟨values, bindparams, rows, -, -, hnext⟩ |
    ⟨st, a, rows, -, -, -, hnext⟩ | ⟨-, hnext⟩⟩ := StoryGhost.next_cases h
  · exact absurd rfl ho
  · exact ⟨hbefore, by rw [hnext]; rfl⟩
  · exact ⟨hbefore, by rw [hnext]⟩
  · exact ⟨hbefore, by rw [hnext]⟩
  · exact ⟨hbefore, by rw [hnext]⟩

/-- A step that makes nothing visible performs nothing. -/
theorem Storied.keep (h : Storied w reqs s es)
    (hcommitted : s'.world.tasks.committed = s.world.tasks.committed)
    (hstory : ∀ i, (storyOf (s'.hist i)).failed = false →
      (storyOf (s.hist i)).failed = false ∧
      (storyOf (s'.hist i)).performed = (storyOf (s.hist i)).performed) :
    Storied w reqs s' es where
  store := hcommitted.symm ▸ h.store
  may := h.may
  sure j hj := by
    obtain ⟨hbefore, hperformed⟩ := hstory j hj
    rw [hperformed]
    exact h.sure j hbefore

/-- A commit that takes effect performs the action on record; its answer may still be lost. -/
theorem Storied.commit (h : Storied w reqs s es) (hlinked : Linked reqs s) (hsound : Sound reqs s)
    (htelling : Telling reqs s) {k : Reply → TaskProg Response} {r : Reply}
    (hp : s.prog i = .op .commit k)
    (hcommitted : s'.world.tasks.committed = (s.world.tasks.commit i).committed)
    (hhist : s'.hist = update s.hist i (s.hist i ++ [(.commit, r)])) :
    ∃ e : Option (ι × StoreAction),
      (∀ p, e = some p → p.1 = i) ∧ Storied w reqs s' (es ++ e.toList) := by
  obtain ⟨hfailed, -, hmay⟩ := htelling.tells hp
  have hbefore := h.sure i hfailed
  have hother : ∀ {j}, j ≠ i → s'.hist j = s.hist j := by
    intro j hj
    rw [hhist, update_of_ne hj]
  have hself : (storyOf (s'.hist i)).failed = false →
      (storyOf (s'.hist i)).performed =
        (storyOf (s.hist i)).performed ++ (storyOf (s.hist i)).action?.toList := by
    rw [hhist, update_self, storyOf_snoc]
    intro hnext
    cases r with
    | ok rows => rfl
    | error e => cases hnext
  rcases hlinked.performed_of_commit hsound htelling hp with
    ⟨hnone, hsame⟩ | ⟨a, ha, hperformed⟩
  · refine ⟨none, by simp, ?_⟩
    rw [Option.toList_none, List.append_nil]
    refine h.keep (hcommitted.trans hsame) fun j hj => ?_
    by_cases hji : j = i
    · subst hji
      exact ⟨hfailed, by rw [hself hj, hnone, Option.toList_none, List.append_nil]⟩
    · rw [hother hji] at hj ⊢
      exact ⟨hj, rfl⟩
  · refine ⟨some (i, a), fun p hp => by cases hp; rfl, ?_⟩
    rw [ha] at hmay hself
    constructor
    · rw [hcommitted]
      exact .snoc h.store hperformed
    · intro j
      by_cases hji : j = i
      · subst hji
        rw [Option.toList_some, actionsOf_snoc_self, hbefore]
        exact hmay
      · rw [Option.toList_some, actionsOf_snoc_of_ne (Ne.symm hji)]
        exact h.may j
    · intro j hj
      by_cases hji : j = i
      · subst hji
        rw [Option.toList_some, actionsOf_snoc_self, hbefore, hself hj, Option.toList_some]
      · rw [Option.toList_some, actionsOf_snoc_of_ne (Ne.symm hji)]
        rw [hother hji] at hj ⊢
        exact h.sure j hj

theorem Storied.step (h : Storied w reqs s es) (hlinked : Linked reqs s) (hsound : Sound reqs s)
    (htelling : Telling reqs s) (hstep : (taskMachine ι).step s l = some s') :
    ∃ e : Option (ι × StoreAction),
      (∀ p, e = some p → l.actor = some p.1) ∧ Storied w reqs s' (es ++ e.toList) := by
  have hkept : s'.world.tasks.committed = s.world.tasks.committed →
      (∀ i, (storyOf (s'.hist i)).failed = false →
        (storyOf (s.hist i)).failed = false ∧
        (storyOf (s'.hist i)).performed = (storyOf (s.hist i)).performed) →
      ∃ e : Option (ι × StoreAction),
        (∀ p, e = some p → l.actor = some p.1) ∧ Storied w reqs s' (es ++ e.toList) := by
    intro hcommitted hstory
    refine ⟨none, by simp, ?_⟩
    rw [Option.toList_none, List.append_nil]
    exact h.keep hcommitted hstory
  obtain ⟨i, c, o, k, r, v, rfl, hp, hexec, rfl⟩ | ⟨a, v, rfl, henv, rfl⟩ |
      ⟨i, o, k, rfl, hp, rfl⟩ := Machine.step_cases hstep
  · by_cases ho : o = .commit
    · subst ho
      rcases callOp_cases hexec with ⟨r', hrun, -, -⟩ | ⟨f, -, -, rfl, rfl⟩
      · cases hrun
        have hcommit : ∃ e : Option (ι × StoreAction),
            (∀ p, e = some p → p.1 = i) ∧
            Storied w reqs
              { world := s.world.commit i
                prog := update s.prog i (k r)
                hist := update s.hist i (s.hist i ++ [(.commit, r)]) }
              (es ++ e.toList) := h.commit hlinked hsound htelling hp rfl rfl
        obtain ⟨e, hby, hstoried⟩ := hcommit
        exact ⟨e, fun p hp => congrArg some (hby p hp).symm, hstoried⟩
      · -- the commit was lost
        refine hkept rfl fun j hj => ?_
        by_cases hji : j = i
        · subst hji
          simp only [update_self, storyOf_snoc] at hj
          cases hj
        · simp only [update_of_ne hji] at hj
          exact ⟨hj, by simp only [update_of_ne hji]⟩
    · refine hkept ?_ fun j hj => ?_
      · funext id
        rcases (callOp_slot hexec id).committed with hsame | ⟨hcommit, -⟩
        · exact hsame
        · exact absurd hcommit ho
      · by_cases hji : j = i
        · subst hji
          simp only [update_self, storyOf_snoc] at hj ⊢
          exact performed_of_not_commit ho hj
        · simp only [update_of_ne hji] at hj
          exact ⟨hj, by simp only [update_of_ne hji]⟩
  · exact hkept (congrArg Table.committed (envStep_tasks henv)) fun j hj => ⟨hj, rfl⟩
  · refine hkept ?_ fun j hj => ⟨hj, rfl⟩
    funext id
    exact Slot.rollback_committed i _

/-- The invariant of a run and its actions. -/
structure Linearized (w : World ι) (reqs : ι → TaskRequest) (s : TaskConfig ι)
    (es : List (ι × StoreAction)) : Prop where
  storied : Storied w reqs s es
  linked : Linked reqs s
  sound : Sound reqs s
  telling : Telling reqs s

theorem Linearized.step (h : Linearized w reqs s es)
    (hstep : (taskMachine ι).step s l = some s') :
    ∃ e : Option (ι × StoreAction),
      (∀ p, e = some p → l.actor = some p.1) ∧ Linearized w reqs s' (es ++ e.toList) := by
  obtain ⟨e, hby, hstoried⟩ := h.storied.step h.linked h.sound h.telling hstep
  exact ⟨e, hby, hstoried, h.linked.step h.sound h.telling hstep, h.sound.step hstep,
    h.telling.step hstep⟩

/-- The store after some actions is the committed table, and they are those of the requests. -/
structure StoredAt (w : World ι) (reqs : ι → TaskRequest) (s : TaskConfig ι)
    (es : List (ι × StoreAction)) : Prop where
  store :
    ActionRun (fun i (a : StoreAction) before after => a.Performed (reqs i).user before after)
      w.tasks.committed es s.world.tasks.committed
  may : ∀ i, (reqs i).MayPerform (actionsOf i es)
  done : ∀ i response,
    (s.prog i).outcome? = some (.ok response) → (reqs i).Effects (actionsOf i es)

theorem Linearized.storedAt (h : Linearized w reqs s es) :
    StoredAt w reqs s es where
  store := h.storied.store
  may := h.storied.may
  done i response hresponse := by
    rcases h.telling.outcome hresponse with hkilled | ⟨hfailed, heffects⟩
    · cases hkilled
    · rw [h.storied.sure i hfailed]
      exact heffects

/--
The API is linearizable.  The steps of a run that make something visible are the
actions of a run of the store, each of the request whose step it is, and at every
place of the run the committed table is the store after the actions up to there.
What a request has performed is a beginning of its actions, and all of them if it
succeeded.  A GET that is not abandoned and none of whose calls fails answers what
the store answers at one of its steps.
-/
theorem tasks_linearize [UrlValidator] (hw : w.Quiet)
    (hrun : (taskMachine ι).run (startTasks w reqs) ls = some s) :
    ∃ entries : List (Option (ι × StoreAction)),
      List.Forall₂ (fun l e => ∀ p, e = some p → l.actor = some p.1) ls entries ∧
      (∀ pre post t,
        ls = pre ++ post → (taskMachine ι).run (startTasks w reqs) pre = some t →
        StoredAt w reqs t (actionsUpTo pre.length entries)) ∧
      ∀ i r,
        (reqs i).IsGet → (s.prog i).outcome? = some r →
        r = .error .cancelledError ∨
        ((∃ e, r = .error e) ∧ ∃ o e, (o, Except.error e) ∈ s.hist i) ∨
        ∃ pre c post t,
          ls = pre ++ .op i c :: post ∧
          (taskMachine ι).run (startTasks w reqs) pre = some t ∧
          (reqs i).Answered t.world.tasks.committed r := by
  have hstart : Linearized w reqs (startTasks w reqs) [] :=
    ⟨startTasks_storied w reqs, startTasks_linked hw reqs, sound_of_run hw Machine.run_nil,
      Monitored.start fun i => (reqs i).tells⟩
  obtain ⟨entries, hentries, hplaces⟩ :=
    @exists_entries _ _ ι StoreAction _ (fun l i => l.actor = some i) (fun _ => True)
      (Linearized w reqs) (fun _ h hstep => h.step hstep) _ _ [] ls (fun _ _ => trivial) hstart
      (Machine.run_eq.symm.trans hrun)
  refine ⟨entries, hentries, fun pre post t hls ht => ?_, fun i r hget hend => ?_⟩
  · exact (hplaces pre post t hls (Machine.run_eq.symm.trans ht)).storedAt
  · exact get_answered_of_run hw hrun hget hend

/-- Two DELETEs of a task, and a GET. -/
def deletesAndRead : Fin 3 → TaskRequest :=
  ![sampleDelete, sampleDelete, .info 1 7]

/-- Both DELETEs read the task first; the GET reads it between their commits. -/
def readBetween (i j reader : ι) : List (TaskLabel ι) :=
  ([i, j] ++ List.replicate 6 i ++ List.replicate 4 reader ++ List.replicate 6 j).map callOf

/-- In the store the task is canceled twice, and the GET finds it canceled. -/
theorem tasks_linearize_racing :
    letI := sampleUrls
    ∃ (s : TaskConfig (Fin 3)) (entries : List (Option (Fin 3 × StoreAction)))
        (response : Response),
      (taskMachine (Fin 3)).run
        (startTasks (worldOf (Fin 3) [samplePending]) deletesAndRead) (readBetween 0 1 2) = some s ∧
      StoredAt (worldOf (Fin 3) [samplePending]) deletesAndRead s entries.reduceOption ∧
      actionsOf 0 entries.reduceOption = [.canceled 7] ∧
      actionsOf 1 entries.reduceOption = [.canceled 7] ∧
      response.statuses = [.canceled] ∧
      ∃ pre c post t,
        readBetween 0 1 2 = pre ++ .op 2 c :: post ∧
        (taskMachine (Fin 3)).run
          (startTasks (worldOf (Fin 3) [samplePending]) deletesAndRead) pre = some t ∧
        (TaskRequest.info 1 7).Answered t.world.tasks.committed (.ok response) := by
  let := sampleUrls
  have hfinal : ((taskMachine (Fin 3)).run
      (startTasks (worldOf (Fin 3) [samplePending]) deletesAndRead)
      (readBetween 0 1 2)).map (fun s =>
        ((s.prog 0).outcome?.map Except.toBool, (s.prog 1).outcome?.map Except.toBool,
          (s.prog 2).outcome?.bind fun r => r.toOption.map Response.statuses)) =
      some (some true, some true, some [.canceled]) := by
    decide
  obtain ⟨s, hs, heq⟩ := Option.map_eq_some_iff.1 hfinal
  simp only [Prod.mk.injEq] at heq
  obtain ⟨hfirst, hsecond, hread⟩ := heq
  obtain ⟨entries, hentries, hplaces, hgets⟩ := tasks_linearize (worldOf_quiet [samplePending]) hs
  have hstored := hplaces (readBetween 0 1 2) [] s (List.append_nil _).symm hs
  rw [actionsUpTo_length hentries] at hstored
  have hdone : ∀ i, (s.prog i).outcome?.map Except.toBool = some true →
      (deletesAndRead i).Effects (actionsOf i entries.reduceOption) := by
    intro i hends
    obtain ⟨r, hr, hok⟩ := Option.map_eq_some_iff.1 hends
    cases r with
    | error e => cases hok
    | ok response => exact hstored.done i response hr
  obtain ⟨r, hr, hstatuses⟩ := Option.bind_eq_some_iff.1 hread
  cases r with
  | error e => cases hstatuses
  | ok response =>
      refine ⟨s, entries, response, hs, hstored, hdone 0 hfirst, hdone 1 hsecond,
        Option.some.inj hstatuses, ?_⟩
      rcases hgets 2 _ trivial hr with hkilled | ⟨⟨e, he⟩, -⟩ | hanswered
      · cases hkilled
      · cases he
      · exact hanswered

end Runs

end TaskLinearization

end SmartHttpRequester
