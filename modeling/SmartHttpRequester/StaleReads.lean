import SmartHttpRequester.TaskLifecycle

/-!
# Stale reads of a status

`cancel_task` and `update_task` read the status in one statement and write in
the next, and the UPDATE does not repeat the condition.  Between the two another
request may commit a cancellation, and the second request goes on with the
status it has read.

`NoOvertaking` says of a step that it does not do this to the owner's requests
of a given kind.  `UpToDate` is what then holds: the status a request has read
as pending is still the committed one, until its own transaction ends.
-/

namespace SmartHttpRequester

open Foundations Function

section StaleReads

variable {ι : Type}

/-- The request has found the task pending, and has neither executed its UPDATE nor ended. -/
structure BetweenReadAndWrite (s : TaskConfig ι) (j : ι) (id : UUID) : Prop where
  found : ∃ row, (ghostOf (s.hist j)).found = some (id, row) ∧ row.status = .pending
  unsent : (ghostOf (s.hist j)).sent = false
  running : (s.prog j).next? ≠ none

/-- The step commits a cancellation of the task. -/
def CommitsCancel (s : TaskConfig ι) (l : TaskLabel ι) (id : UUID) : Prop :=
  ∃ i c k row,
    l = .op i c ∧
    s.prog i = .op .commit k ∧
    (s.world.tasks.slot id).pending = some (i, row) ∧
    row.status = .canceled

/--
The step commits no cancellation while a request of the kind, made by the owner
of the task, is between its read and its write.
-/
def NoOvertaking (reqs : ι → TaskRequest) (kind : UUID → TaskRequest → Prop)
    (s : TaskConfig ι) (l : TaskLabel ι) : Prop :=
  ∀ id, CommitsCancel s l id →
    ∀ j row, kind id (reqs j) → BetweenReadAndWrite s j id →
      committedTask s id = some row → row.userId ≠ (reqs j).user

/-- What the owner's requests of the kind have read as pending is still pending. -/
structure UpToDate (reqs : ι → TaskRequest) (kind : UUID → TaskRequest → Prop)
    (s : TaskConfig ι) : Prop where
  reading : ∀ {j id row},
    kind id (reqs j) → BetweenReadAndWrite s j id →
    committedTask s id = some row → row.userId = (reqs j).user →
    row.status = .pending
  writing : ∀ {j o k u row},
    kind u.taskId (reqs j) → s.prog j = .op o k →
    (ghostOf (s.hist j)).wrote = some u → u.Unconditional →
    (ghostOf (s.hist j)).applied = true →
    (ghostOf (s.hist j)).Entitled (reqs j).user u.taskId →
    committedTask s u.taskId = some row →
    row.status = .pending

section Ghost

variable {g : TaskGhost} {o : TaskOp} {r : Reply}

theorem TaskGhost.next_sent (h : (g.next o r).sent = false) :
    g.sent = false ∧ ∀ st, o = .execute st → st.write? = none := by
  cases r with
  | ok rows =>
      cases o with
      | execute st =>
          cases st <;> first | cases h | exact ⟨h, fun st hst => by cases hst; rfl⟩
      | inc counter amount => cases counter <;> exact ⟨h, by simp⟩
      | _ => exact ⟨h, by simp⟩
  | error e =>
      cases o with
      | execute st =>
          cases st <;> first | cases h | exact ⟨h, fun st hst => by cases hst; rfl⟩
      | _ => exact ⟨h, by simp⟩

theorem TaskGhost.next_wrote_of_ends (h : o.ends r = true) :
    (g.next o r).wrote = none := by
  cases r with
  | ok rows =>
      cases o with
      | commit => rfl
      | rollback => rfl
      | close => rfl
      | _ => cases h
  | error e =>
      cases o with
      | rollback => rfl
      | close => rfl
      | _ => cases h

theorem sent_of_wrote {hist : List (TaskOp × Reply)} {u : RowWrite}
    (h : (ghostOf hist).wrote = some u) :
    (ghostOf hist).sent = true := by
  by_contra hsent
  rw [Bool.not_eq_true] at hsent
  induction hist using List.reverseRecOn with
  | nil =>
      cases h
  | append_singleton hist e ih =>
      obtain ⟨o, r⟩ := e
      rw [ghostOf_snoc] at h hsent
      obtain ⟨hold, hread⟩ := TaskGhost.next_sent hsent
      by_cases hends : o.ends r = true
      · rw [TaskGhost.next_wrote_of_ends hends] at h
        cases h
      · rw [Bool.not_eq_true] at hends
        rw [TaskGhost.next_wrote hends hread] at h
        exact ih h hold

end Ghost

variable [DecidableEq ι] {reqs : ι → TaskRequest} {kind : UUID → TaskRequest → Prop}
variable {s s' : TaskConfig ι} {l : TaskLabel ι}

/-- A row changes under a request's lock only by the request's own commit. -/
theorem committed_of_locked (hstep : (taskMachine ι).step s l = some s') {id : UUID} {j : ι}
    {row : TaskRow} (hrow : (s.world.tasks.slot id).pending = some (j, row))
    (hactor : l.actor ≠ some j) :
    committedTask s' id = committedTask s id := by
  rcases step_committed hstep id with hsame | ⟨i, c, k, row', rfl, -, hrow', -⟩
  · exact hsame
  · rw [hrow] at hrow'
    cases hrow'
    exact absurd rfl hactor

/-- A row that a call finds is the committed one. -/
theorem Sound.found_eq (h : Sound reqs s) {i : ι} {c : Choice} {o : TaskOp}
    {k : Reply → TaskProg Response} {r : Reply} (hp : s.prog i = .op o k)
    (hexec : (taskMachine ι).exec i c o s.world = some (r, s'.world)) {id : UUID}
    {found row : TaskRow} (hnone : (ghostOf (s.hist i)).found = none)
    (hfound : ((ghostOf (s.hist i)).next o r).found = some (id, found))
    (hrow : committedTask s' id = some row) :
    found = row :=
  Option.some.inj ((h.coupled.found_of_call h.disciplined hp hexec hnone hfound).symm.trans hrow)

/-- A call that is no COMMIT changes no committed row. -/
theorem committed_of_call {i : ι} {c : Choice} {o : TaskOp} {k : Reply → TaskProg Response}
    (hstep : (taskMachine ι).step s (.op i c) = some s') (hp : s.prog i = .op o k)
    (ho : o ≠ .commit) (id : UUID) :
    committedTask s' id = committedTask s id := by
  rcases step_committed hstep id with hsame | ⟨j, c', k', row, hl, hp', -, -⟩
  · exact hsame
  · cases hl
    rw [hp] at hp'
    cases hp'
    exact absurd rfl ho

/-- A step of the request itself between its read and its write keeps the committed row. -/
theorem Sound.committed_of_unsent (h : Sound reqs s) {i : ι} {c : Choice}
    (hstep : (taskMachine ι).step s (.op i c) = some s') {id : UUID} {old : TaskRow}
    (hsent : (ghostOf (s.hist i)).sent = false) (hold : committedTask s id = some old) :
    committedTask s' id = committedTask s id := by
  rcases step_committed hstep id with hsame | ⟨j, c', k, row, hl, -, hrow, -⟩
  · exact hsame
  · cases hl
    obtain ⟨u, hu⟩ := h.coupled.updated hrow hold
    have htrue := sent_of_wrote hu.wrote
    rw [hsent] at htrue
    cases htrue

theorem UpToDate.reading_step (h : UpToDate reqs kind s) (hsound : Sound reqs s)
    (hno : NoOvertaking reqs kind s l) (hstep : (taskMachine ι).step s l = some s')
    {j : ι} {id : UUID} {row : TaskRow} (hkind : kind id (reqs j))
    (hbetween : BetweenReadAndWrite s' j id) (hrow : committedTask s' id = some row)
    (howner : row.userId = (reqs j).user) :
    row.status = .pending := by
  obtain ⟨⟨found, hfound, hpending⟩, hsent, hrunning⟩ := hbetween
  rcases Machine.step_participant hstep j with ⟨hactor, hprog, hhist⟩ |
      ⟨c, o, k, r, rfl, hp, hexec, hprog, hhist⟩ | ⟨-, hprog, -⟩
  · -- another participant's step
    rw [hhist] at hfound hsent
    rw [hprog] at hrunning
    have hbefore : BetweenReadAndWrite s j id := ⟨⟨found, hfound, hpending⟩, hsent, hrunning⟩
    obtain ⟨old, hold, -⟩ := hsound.coupled.found hfound
    rcases step_committed hstep id with hsame | ⟨i, c, k, new, rfl, hp, hnew, hnew'⟩
    · exact h.reading hkind hbefore (hsame.symm.trans hrow) howner
    · rw [hrow] at hnew'
      cases hnew'
      obtain ⟨u, hu⟩ := hsound.coupled.updated hnew hold
      have hold' : old.userId = (reqs j).user := hu.makes.sameTask.userId.symm.trans howner
      have hstatus := h.reading hkind hbefore hold hold'
      rw [hu.makes.status, hstatus]
      have hmakes := hu.makes
      cases u with
      | cancel taskId =>
          refine absurd hold' (hno id ⟨i, c, k, row, rfl, hp, hnew, ?_⟩ j old hkind hbefore hold)
          rw [hu.makes.status]
          rfl
      | data taskId => rfl
      | confirm taskId => rfl
  · -- the request's own step
    rw [hhist, ghostOf_snoc] at hfound hsent
    obtain ⟨hsent', -⟩ := TaskGhost.next_sent hsent
    cases hg : (ghostOf (s.hist j)).found with
    | none =>
        exact hsound.found_eq hp hexec hg hfound hrow ▸ hpending
    | some x =>
        rw [TaskGhost.next_found_of_some hg, ← hg] at hfound
        obtain ⟨old, hold, -⟩ := hsound.coupled.found hfound
        have hbefore : BetweenReadAndWrite s j id :=
          ⟨⟨found, hfound, hpending⟩, hsent', by simp [hp, Prog.next?]⟩
        have hsame := hsound.committed_of_unsent hstep hsent' hold
        exact h.reading hkind hbefore (hsame.symm.trans hrow) howner
  · rw [hprog] at hrunning
    exact absurd rfl hrunning

theorem UpToDate.writing_step (h : UpToDate reqs kind s) (hsound : Sound reqs s)
    (hstep : (taskMachine ι).step s l = some s')
    {j : ι} {o : TaskOp} {k : Reply → TaskProg Response} {u : RowWrite} {row : TaskRow}
    (hkind : kind u.taskId (reqs j)) (hp' : s'.prog j = .op o k)
    (hwrote : (ghostOf (s'.hist j)).wrote = some u) (hforced : u.Unconditional)
    (happlied : (ghostOf (s'.hist j)).applied = true)
    (hentitled : (ghostOf (s'.hist j)).Entitled (reqs j).user u.taskId)
    (hrow : committedTask s' u.taskId = some row) :
    row.status = .pending := by
  rcases Machine.step_participant hstep j with ⟨hactor, hprog, hhist⟩ |
      ⟨c, o', k', r, rfl, hp, hexec, hprog, hhist⟩ | ⟨-, hprog, -⟩
  · rw [hhist] at hwrote happlied hentitled
    rw [hprog] at hp'
    obtain ⟨new, hnew⟩ := hsound.coupled.held hp' hwrote happlied hforced
    have hsame := committed_of_locked hstep hnew hactor
    exact h.writing hkind hp' hwrote hforced happlied hentitled (hsame.symm.trans hrow)
  · rw [hhist, ghostOf_snoc] at hwrote happlied hentitled
    obtain ⟨found, hfound, howner, hpending⟩ := hentitled
    cases hg : (ghostOf (s.hist j)).found with
    | none =>
        exact hsound.found_eq hp hexec hg hfound hrow ▸ hpending
    | some x =>
        rw [TaskGhost.next_found_of_some hg, ← hg] at hfound
        have hentitled : (ghostOf (s.hist j)).Entitled (reqs j).user u.taskId :=
          ⟨found, hfound, howner, hpending⟩
        obtain ⟨old, hold, -⟩ := hsound.coupled.found hfound
        rcases TaskGhost.next_applied hwrote happlied with
          ⟨hwrote', happlied', hcommit, -, -, -⟩ | ⟨st, rows, rfl, rfl, hu⟩
        · exact h.writing hkind hp hwrote' hforced happlied' hentitled
            ((committed_of_call hstep hp hcommit _).symm.trans hrow)
        · -- the UPDATE itself: until now the request was between read and write
          have hsent : (ghostOf (s.hist j)).sent = false := by
            have hpermits := hsound.disciplined.permits hp
            cases st <;> cases hu
            · exact hpermits.2.2.1
            · exact hpermits.2.2.1
            · cases hforced
          have hbefore : BetweenReadAndWrite s j u.taskId :=
            ⟨⟨found, hfound, hpending⟩, hsent, by simp [hp, Prog.next?]⟩
          have hrow' : committedTask s u.taskId = some row :=
            (committed_of_call hstep hp (by simp) _).symm.trans hrow
          exact h.reading hkind hbefore hrow'
            (hsound.coupled.owner_of_entitled hentitled hrow')
  · rw [hprog] at hp'
    cases hp'

theorem UpToDate.step (h : UpToDate reqs kind s) (hsound : Sound reqs s)
    (hno : NoOvertaking reqs kind s l) (hstep : (taskMachine ι).step s l = some s') :
    UpToDate reqs kind s' :=
  ⟨h.reading_step hsound hno hstep, h.writing_step hsound hstep⟩

omit [DecidableEq ι] in
theorem startTasks_upToDate [UrlValidator] (w : World ι) (reqs : ι → TaskRequest)
    (kind : UUID → TaskRequest → Prop) :
    UpToDate reqs kind (startTasks w reqs) where
  reading _ hbetween := by
    obtain ⟨⟨row, hfound, -⟩, -, -⟩ := hbetween
    cases hfound
  writing _ _ hwrote := by
    cases hwrote

section Success

def Succeeds (s : TaskConfig ι) (i : ι) : Prop :=
  ∃ response reply, (TaskOp.respond response, reply) ∈ s.hist i

omit [DecidableEq ι] in
theorem TaskGhost.next_counted {g : TaskGhost} (o : TaskOp) (r : Reply)
    (h : g.counted = true) : (g.next o r).counted = true := by
  cases r with
  | ok rows =>
      cases o with
      | execute st => cases st <;> exact h
      | inc counter amount => cases counter <;> first | exact h | rfl
      | _ => exact h
  | error e =>
      cases o with
      | execute st => cases st <;> exact h
      | _ => exact h

/-- Successful PUTs and DELETEs have found their task pending and the user's own. -/
def Earned (reqs : ι → TaskRequest) (s : TaskConfig ι) : Prop :=
  ∀ i id, Succeeds s i →
    ((reqs i).Edits id → (ghostOf (s.hist i)).Entitled (reqs i).user id) ∧
    ((reqs i).Cancels id → (ghostOf (s.hist i)).counted = true)

theorem Earned.step (h : Earned reqs s) (hd : Disciplined reqs s)
    (hstep : (taskMachine ι).step s l = some s') :
    Earned reqs s' := by
  intro i id hsucceeds
  rcases Machine.step_hist hstep i with hhist | ⟨c, o, k, r, -, hp, -, hhist⟩
  · rw [Succeeds, hhist] at hsucceeds
    rw [hhist]
    exact h i id hsucceeds
  · obtain ⟨response, reply, hmem⟩ := hsucceeds
    rw [hhist, List.mem_append, List.mem_singleton] at hmem
    rw [hhist, ghostOf_snoc]
    have hkept : ∀ {user}, (ghostOf (s.hist i)).Entitled user id →
        ((ghostOf (s.hist i)).next o r).Entitled user id := by
      rintro user ⟨row, hfound, howner, hpending⟩
      exact ⟨row, TaskGhost.next_found_of_some hfound, howner, hpending⟩
    rcases hmem with hold | hnew
    · obtain ⟨hedits, hcancels⟩ := h i id ⟨response, reply, hold⟩
      exact ⟨fun hreq => hkept (hedits hreq),
        fun hreq => TaskGhost.next_counted o r (hcancels hreq)⟩
    · -- the response is handed over now
      cases hnew
      obtain ⟨hsettled, -, hcancels, hedits⟩ := hd.permits hp
      constructor
      · intro hreq
        exact hkept (hsettled.of_wrote (hedits id hreq)).2.2
      · intro hreq
        exact TaskGhost.next_counted _ _ (hsettled.of_wrote (hcancels id hreq)).2.2.1

theorem found_of_run {ls : List (TaskLabel ι)} (hrun : (taskMachine ι).run s ls = some s')
    {i : ι} {id : UUID} {row : TaskRow}
    (hfound : (ghostOf (s.hist i)).found = some (id, row)) :
    (ghostOf (s'.hist i)).found = some (id, row) := by
  refine Machine.invariant_of_run (fun t => (ghostOf (t.hist i)).found = some (id, row))
    (fun t l t' ht hstep => ?_) hfound hrun
  rcases Machine.step_hist hstep i with hhist | ⟨c, o, k, r, -, -, -, hhist⟩
  · rwa [hhist]
  · rw [hhist, ghostOf_snoc]
    exact TaskGhost.next_found_of_some ht

/-- The request has handed over its response. -/
def responds (s : TaskConfig ι) (i : ι) : Bool :=
  (s.hist i).any fun e => e.1.response?.isSome

omit [DecidableEq ι] in
theorem succeeds_of_responds {i : ι} (h : responds s i = true) : Succeeds s i := by
  obtain ⟨⟨o, reply⟩, hmem, ho⟩ := List.any_eq_true.1 h
  cases o with
  | respond response => exact ⟨response, reply, hmem⟩
  | _ => cases ho

end Success

/-- Nobody but the acting request is between its read and its write. -/
def OthersAside (s : TaskConfig ι) (l : TaskLabel ι) : Prop :=
  ∀ j,
    l.actor = some j ∨
    (ghostOf (s.hist j)).found.isNone ∨
    (ghostOf (s.hist j)).sent ∨
    (s.prog j).next?.isNone

instance [Fintype ι] : Decidable (OthersAside s l) :=
  inferInstanceAs (Decidable (∀ j,
    l.actor = some j ∨ (ghostOf (s.hist j)).found.isNone ∨ (ghostOf (s.hist j)).sent ∨
    (s.prog j).next?.isNone))

omit [DecidableEq ι] in
/-- A request that finds all others aside overtakes nobody. -/
theorem Sound.noOvertaking_of_othersAside (h : Sound reqs s) (haside : OthersAside s l) :
    NoOvertaking reqs kind s l := by
  rintro id ⟨i, c, k, new, rfl, -, hnew, -⟩ j row - hbetween hrow
  obtain ⟨read, hread, -⟩ := hbetween.found
  rcases haside j with hactor | hnone | hsent | hended
  · -- a request that cancels has executed its UPDATE
    cases hactor
    obtain ⟨u, hu⟩ := h.coupled.updated hnew hrow
    have hsent := sent_of_wrote hu.wrote
    rw [hbetween.unsent] at hsent
    cases hsent
  · rw [hread] at hnone
    cases hnone
  · rw [hbetween.unsent] at hsent
    cases hsent
  · exact absurd (Option.isNone_iff_eq_none.1 hended) hbetween.running

/-- All that holds in runs in which the requests of the kind are not overtaken. -/
structure Timely (reqs : ι → TaskRequest) (kind : UUID → TaskRequest → Prop)
    (s : TaskConfig ι) : Prop where
  sound : Sound reqs s
  upToDate : UpToDate reqs kind s
  earned : Earned reqs s

theorem Timely.step (h : Timely reqs kind s) (hno : NoOvertaking reqs kind s l)
    (hstep : (taskMachine ι).step s l = some s') :
    Timely reqs kind s' :=
  ⟨h.sound.step hstep, h.upToDate.step h.sound hno hstep,
    h.earned.step h.sound.disciplined hstep⟩

theorem startTasks_timely [UrlValidator] {w : World ι} (hw : w.Quiet)
    (reqs : ι → TaskRequest) (kind : UUID → TaskRequest → Prop) :
    Timely reqs kind (startTasks w reqs) where
  sound := sound_of_run hw Machine.run_nil
  upToDate := startTasks_upToDate w reqs kind
  earned := by
    rintro i id ⟨response, reply, hmem⟩
    cases hmem

end StaleReads

end SmartHttpRequester
