import SmartHttpRequester.Creations
import SmartHttpRequester.Foundations.Products
import SmartHttpRequester.StaleReads
import SmartHttpRequester.TaskStore

/-!
# What a GET answers

A GET has one SELECT, and what it answers depends on nothing else
(`TaskRequest.relays`).  It writes nothing, so what its SELECT sees is the committed
table at that place of the run.

`get_answered_of_run`: a GET none of whose calls fails answers what the store of
`TaskStore` answers at the step of its SELECT.
-/

namespace SmartHttpRequester

open Foundations

section TaskReads

variable [UrlValidator]

section Programs

variable {req : TaskRequest} {r : Except Exc Response} {hist : List (TaskOp × Reply)}
variable {user : UserId} {taskId : UUID} {skip limit : Nat}

/-- What a GET makes of the answer to its SELECT. -/
def TaskRequest.Conveys (req : TaskRequest) (r : Except Exc Response)
    (hist : List (TaskOp × Reply)) : Prop :=
  match req with
  | .info user taskId =>
      ∃ raw,
        (TaskOp.execute (.selectTask taskId), Except.ok raw) ∈ hist ∧
        ∀ rows : Rows, rows taskId = fetchone raw → r = (infoOutcome user taskId rows).1
  | .userTasks user skip limit =>
      ∃ raw,
        (TaskOp.execute (.selectUserTasks user skip limit), Except.ok raw) ∈ hist ∧
        r = (validated raw).map .tasks
  | _ => True

/-- A GET conveys what it has read, or fails as one of its calls has failed. -/
def TaskRequest.Relays (req : TaskRequest) (r : Except Exc Response)
    (hist : List (TaskOp × Reply)) : Prop :=
  ((∃ e, r = .error e) ∧ ∃ o e, (o, Except.error e) ∈ hist) ∨ req.Conveys r hist

theorem TaskRequest.Relays.snoc (h : req.Relays r hist) (e : TaskOp × Reply) :
    req.Relays r (hist ++ [e]) := by
  rcases h with ⟨herror, o, e', hmem⟩ | hconveys
  · exact Or.inl ⟨herror, o, e', List.mem_append_left _ hmem⟩
  · right
    cases req with
    | info user taskId =>
        obtain ⟨raw, hmem, hr⟩ := hconveys
        exact ⟨raw, List.mem_append_left _ hmem, hr⟩
    | userTasks user skip limit =>
        obtain ⟨raw, hmem, hr⟩ := hconveys
        exact ⟨raw, List.mem_append_left _ hmem, hr⟩
    | _ => trivial

theorem TaskRequest.relays_error (req : TaskRequest) (hist : List (TaskOp × Reply)) (e e' : Exc)
    (o : TaskOp) : req.Relays (.error e) (hist ++ [(o, .error e')]) :=
  Or.inl ⟨⟨e, rfl⟩, o, e', List.mem_append_right _ (List.mem_singleton_self _)⟩

abbrev taskLog : Prog.Monitor TaskOp (List TaskRow) Exc (List (TaskOp × Reply)) :=
  Prog.logMonitor TaskOp (List TaskRow) Exc

theorem wp_validated {m : Prog.Monitor TaskOp (List TaskRow) Exc (List (TaskOp × Reply))}
    {rawTasks : List TaskRow} {Q : Except Exc (List TaskResponse) → List (TaskOp × Reply) → Prop}
    (h : Q (validated rawTasks) hist) :
    (validateAll rawTasks).wp m Q hist := by
  induction rawTasks generalizing Q with
  | nil =>
      exact h
  | cons row rest ih =>
      refine (Prog.wp_bind _ _ _ _ _).2 ?_
      rw [validated] at h
      unfold modelValidate
      cases hrow : TaskResponse.modelValidate row with
      | none =>
          rw [hrow] at h
          exact h
      | some task =>
          rw [hrow] at h
          refine (Prog.wp_bind _ _ _ _ _).2 (ih ?_)
          cases hrest : validated rest with
          | error e =>
              rw [hrest] at h
              exact h
          | ok tasks =>
              rw [hrest] at h
              exact h

theorem requestInfo_relays :
    (requestInfo taskId user).wp taskLog (TaskRequest.info user taskId).Relays [] := by
  refine (Prog.wp_bind _ _ _ _ _).2 ((Prog.wp_tryCatch _ _ _ _ _).2 ?_)
  refine (Prog.wp_bind _ _ _ _ _).2 ((Prog.wp_bind _ _ _ _ _).2 ((Prog.wp_perform _ _ _ _).2
    ⟨trivial, fun raw _ => ?_, fun e _ => TaskRequest.relays_error _ _ _ e _⟩))
  have hconveys : ∀ r : Except Exc Response,
      (∀ rows : Rows, rows taskId = fetchone raw → r = (infoOutcome user taskId rows).1) →
      (TaskRequest.info user taskId).Relays r
        ([] ++ [(TaskOp.execute (.selectTask taskId), Except.ok raw)]) :=
    fun r hr => Or.inr ⟨raw, List.mem_singleton_self _, hr⟩
  rw [Prog.onResult_ok]
  cases hrow : fetchone raw with
  | none =>
      refine hconveys _ fun rows hrows => ?_
      rw [infoOutcome, hrows, hrow]
      rfl
  | some row =>
      refine (Prog.wp_bind _ _ _ _ _).2 ?_
      unfold modelValidate
      cases htask : TaskResponse.modelValidate row with
      | none =>
          refine hconveys _ fun rows hrows => ?_
          simp only [infoOutcome, hrows, hrow, htask]
          rfl
      | some task =>
          show Prog.wp _ (if row.userId ≠ user then _ else _) _ _
          by_cases howner : row.userId ≠ user
          · rw [if_pos howner]
            refine hconveys _ fun rows hrows => ?_
            simp only [infoOutcome, hrows, hrow, htask, if_pos howner]
            rfl
          · rw [if_neg howner]
            refine hconveys _ fun rows hrows => ?_
            simp only [infoOutcome, hrows, hrow, htask, if_neg howner]

theorem requestUserTasks_relays :
    (requestUserTasks user skip limit).wp taskLog (TaskRequest.userTasks user skip limit).Relays
      [] := by
  refine (Prog.wp_bind _ _ _ _ _).2 ((Prog.wp_bind _ _ _ _ _).2 ((Prog.wp_perform _ _ _ _).2
    ⟨trivial, fun raw _ => wp_validated ?_, fun e _ => TaskRequest.relays_error _ _ _ e _⟩))
  have hconveys : (TaskRequest.userTasks user skip limit).Relays ((validated raw).map .tasks)
      ([] ++ [(TaskOp.execute (.selectUserTasks user skip limit), Except.ok raw)]) :=
    Or.inr ⟨raw, List.mem_singleton_self _, rfl⟩
  cases hraw : validated raw with
  | error e =>
      rw [hraw] at hconveys
      exact hconveys
  | ok tasks =>
      rw [hraw] at hconveys
      exact hconveys

theorem getDb_relays {handler : TaskProg Response}
    (hhandler : handler.wp taskLog req.Relays []) :
    (getDb handler).wp taskLog req.Relays [] := by
  have hcall : ∀ {o : TaskOp} {Q : Except Exc Unit → List (TaskOp × Reply) → Prop}
      {g : List (TaskOp × Reply)},
      (∀ rows, Q (.ok ()) (g ++ [(o, .ok rows)])) → (∀ e, Q (.error e) (g ++ [(o, .error e)])) →
      (Prog.effect o : TaskProg Unit).wp taskLog Q g :=
    fun hok herr => (Prog.wp_effect _ _ _ _).2
      ⟨trivial, fun rows _ => hok rows, fun e _ => herr e⟩
  refine wp_getDb req.Relays (fun e => req.Relays (.error e)) ?_ ?_ (Prog.wp_mono _ hhandler ?_)
  · intro r g hr
    exact hcall (fun rows => hr.snoc _) fun e => req.relays_error _ _ _ _
  · intro e g hr
    exact hcall (fun rows => hr.snoc _) fun e' => req.relays_error _ _ _ _
  · rintro (e | response) g hr
    · exact hr
    · refine hcall (fun rows => ?_) fun e => req.relays_error _ _ _ _
      exact hcall (fun rows' => (hr.snoc _).snoc _) fun e => req.relays_error _ _ _ _

/-- What a GET answers it has read, unless one of its calls has failed. -/
theorem TaskRequest.relays (req : TaskRequest) :
    req.program.wp taskLog req.Relays [] := by
  cases req with
  | info user taskId => exact getDb_relays requestInfo_relays
  | userTasks user skip limit => exact getDb_relays requestUserTasks_relays
  | _ => exact Prog.wp_of_allows _ (fun _ _ => trivial) fun _ _ => Or.inr trivial

end Programs

section Runs

variable {ι : Type} [DecidableEq ι] {reqs : ι → TaskRequest} {s s' : TaskConfig ι}
variable {l : TaskLabel ι} {ls : List (TaskLabel ι)} {w : World ι} {i : ι}

omit [UrlValidator] in
def TaskRequest.IsGet : TaskRequest → Prop
  | .info _ _ => True
  | .userTasks _ _ _ => True
  | _ => False

omit [UrlValidator] in
theorem TaskRequest.IsGet.excludes {req : TaskRequest} (h : req.IsGet) :
    ¬ req.Creates ∧ ¬ req.IsSingle ∧ (∀ id, ¬ req.Cancels id) ∧ ∀ id, ¬ req.Edits id := by
  cases req with
  | info user taskId => exact ⟨id, id, fun _ => id, fun _ => id⟩
  | userTasks user skip limit => exact ⟨id, id, fun _ => id, fun _ => id⟩
  | _ => exact h.elim

/-- What the store answers to a GET; a listing finds the rows in some order. -/
def TaskRequest.Answered (req : TaskRequest) (rows : Rows) (r : Except Exc Response) : Prop :=
  match req with
  | .info user taskId => r = (infoOutcome user taskId rows).1
  | .userTasks user skip limit =>
      ∃ order : List UUID,
        order.Nodup ∧
        (∀ id, rows id ≠ none → id ∈ order) ∧
        r = (userTasksOutcome user skip limit order rows).1
  | _ => False

/-- No GET has an UPDATE on record. -/
def GetsWriteNothing (reqs : ι → TaskRequest) (s : TaskConfig ι) : Prop :=
  ∀ i, (reqs i).IsGet → (ghostOf (s.hist i)).wrote = none

omit [UrlValidator] in
theorem GetsWriteNothing.step (h : GetsWriteNothing reqs s) (hd : Disciplined reqs s)
    (hstep : (taskMachine ι).step s l = some s') :
    GetsWriteNothing reqs s' := by
  intro i hget
  rcases Machine.step_hist hstep i with hsame | ⟨c, o, k, r, -, hp, -, hsnoc⟩
  · rw [hsame]
    exact h i hget
  · rw [hsnoc, ghostOf_snoc]
    by_cases hends : o.ends r = true
    · exact TaskGhost.next_wrote_of_ends hends
    · rw [TaskGhost.next_wrote (by simpa using hends) fun st hst => ?_]
      · exact h i hget
      · -- an UPDATE is made by another kind of request
        subst hst
        obtain ⟨-, hsingle, hcancels, hedits⟩ := hget.excludes
        have hpermits := hd.permits hp
        cases st with
        | cancelTask taskId => exact absurd hpermits.1 (hcancels taskId)
        | updateTask taskId url method headers body => exact absurd hpermits.1 (hedits taskId)
        | confirmTask taskId => exact absurd hpermits.1 hsingle
        | _ => rfl

omit [UrlValidator] in
/-- A GET sees what is committed. -/
theorem Sound.visible_of_get (h : Sound reqs s) (hwrites : GetsWriteNothing reqs s)
    (hget : (reqs i).IsGet) (id : UUID) :
    (s.world.tasks.slot id).visible i = committedTask s id :=
  h.coupled.visible_eq_committed (hwrites i hget) (Or.inr hget.excludes.1)

theorem getsWriteNothing_of_run (hw : w.Quiet)
    (hrun : (taskMachine ι).run (startTasks w reqs) ls = some s) :
    GetsWriteNothing reqs s := by
  have hboth : Sound reqs s ∧ GetsWriteNothing reqs s :=
    Machine.invariant_of_run (fun t => Sound reqs t ∧ GetsWriteNothing reqs t)
      (fun _ _ _ h hstep => ⟨h.1.step hstep, h.2.step h.1.disciplined hstep⟩)
      ⟨sound_of_run hw Machine.run_nil, fun _ _ => rfl⟩ hrun
  exact hboth.2

/-- What a GET conveys is what the store answers at the step of its SELECT. -/
theorem answered_of_conveys (hw : w.Quiet)
    (hrun : (taskMachine ι).run (startTasks w reqs) ls = some s) (hget : (reqs i).IsGet)
    {r : Except Exc Response} (h : (reqs i).Conveys r (s.hist i)) :
    ∃ pre c post t,
      ls = pre ++ .op i c :: post ∧
      (taskMachine ι).run (startTasks w reqs) pre = some t ∧
      (reqs i).Answered t.world.tasks.committed r := by
  have hplace : ∀ {st : Stmt} {raw : List TaskRow},
      (TaskOp.execute st, Except.ok raw) ∈ s.hist i →
      ∃ pre c post t v,
        ls = pre ++ .op i c :: post ∧
        (taskMachine ι).run (startTasks w reqs) pre = some t ∧
        (∀ id, (t.world.tasks.slot id).visible i = committedTask t id) ∧
        runStmt i c st (t.world.begin i) = some (.ok raw, v) := by
    intro st raw hmem
    obtain ⟨pre, c, post, t, v, hls, hpre, hexec⟩ :=
      Machine.exists_call_of_hist hrun hmem (by simp [startTasks, Machine.start])
    exact ⟨pre, c, post, t, v, hls, hpre, (sound_of_run hw hpre).visible_of_get
      (getsWriteNothing_of_run hw hpre) hget, callOp_ok hexec⟩
  cases hreq : reqs i with
  | info user taskId =>
      rw [hreq] at h
      obtain ⟨raw, hmem, hr⟩ := h
      obtain ⟨pre, c, post, t, v, hls, hpre, hvisible, hstmt⟩ := hplace hmem
      refine ⟨pre, c, post, t, hls, hpre, hr _ ?_⟩
      cases hstmt
      rw [fetchone_toList]
      exact (hvisible taskId).symm
  | userTasks user skip limit =>
      rw [hreq] at h
      obtain ⟨raw, hmem, rfl⟩ := h
      obtain ⟨pre, c, post, t, v, hls, hpre, hvisible, hstmt⟩ := hplace hmem
      refine ⟨pre, c, post, t, hls, hpre, c.order, ?_⟩
      rw [runStmt] at hstmt
      split at hstmt
      · rename_i hperm
        cases hstmt
        refine ⟨hperm.nodup_iff.2 t.world.tasks.nodup, fun id hid => hperm.mem_iff.2 ?_, ?_⟩
        · by_contra hkey
          exact hid (congrArg Slot.committed (t.world.tasks.support id hkey))
        · have hrows : (t.world.begin i).tasks.rows i c.order =
              c.order.filterMap t.world.tasks.committed :=
            congrArg (fun f => c.order.filterMap f) (funext hvisible)
          rw [userTasksOutcome, hrows]
      · cases hstmt
  | _ =>
      rw [hreq] at hget
      exact hget.elim

/--
A GET that ends without being abandoned and without a failing call answers what the
store answers at one of its steps.
-/
theorem get_answered_of_run (hw : w.Quiet)
    (hrun : (taskMachine ι).run (startTasks w reqs) ls = some s) (hget : (reqs i).IsGet)
    {r : Except Exc Response} (hend : (s.prog i).outcome? = some r) :
    r = .error .cancelledError ∨
    ((∃ e, r = .error e) ∧ ∃ o e, (o, Except.error e) ∈ s.hist i) ∨
    ∃ pre c post t,
      ls = pre ++ .op i c :: post ∧
      (taskMachine ι).run (startTasks w reqs) pre = some t ∧
      (reqs i).Answered t.world.tasks.committed r := by
  have hlogged : Monitored (fun _ => taskLog) (fun _ => []) (fun i => (reqs i).Relays)
      .cancelledError s :=
    Machine.invariant_of_run
      (Monitored (fun _ => taskLog) (fun _ => []) (fun i => (reqs i).Relays) .cancelledError)
      (fun _ _ _ hs hstep => Monitored.step (M := taskMachine ι) (fun _ _ _ _ _ _ _ => trivial) hs
        hstep)
      (Monitored.start fun i => (reqs i).relays) hrun
  rcases hlogged.outcome hend with hkilled | hrelays
  · exact Or.inl hkilled
  · rw [Prog.after_log, List.nil_append] at hrelays
    rcases hrelays with hfailed | hconveys
    · exact Or.inr (Or.inl hfailed)
    · exact Or.inr (Or.inr (answered_of_conveys hw hrun hget hconveys))

end Runs

end TaskReads

end SmartHttpRequester
