import SmartHttpRequester.Foundations.Products
import SmartHttpRequester.LoginRaces
import SmartHttpRequester.OwnedResponses
import SmartHttpRequester.TokenRows

/-!
# From the token to the row

The endpoints of `/v1/requests` learn their user from `authorization()`: FastAPI
resolves that dependency first, and a request that it refuses never reaches its
handler.  Here the two halves run together.  On one side any number of logins,
refreshes and logouts and the authentications of the task requests are
interleaved statement by statement, on the other side the task requests
themselves; task request `i` as user `u` may act once its authentication has
returned `u`.

`task_change_authenticated`: no committed task changes, and none appears, but by
a request whose token was accepted as one of the owner.
`task_shown_authenticated`: no response shows a task but to such a request.
-/

namespace SmartHttpRequester

open Foundations

section AuthenticatedRequests

/-- A call of an endpoint of `/v1/requests`, without its user. -/
inductive TaskCall
  | create (taskData : TaskCreate)
  | createBatch (tasksData : List TaskCreate)
  | info (taskId : UUID)
  | userTasks (skip limit : Nat)
  | delete (taskId : UUID)
  | update (taskId : UUID) (taskData : TaskUpdate)

/-- The request that the endpoint serves once `authorization()` has returned the user. -/
def TaskCall.asUser (user : UserId) : TaskCall → TaskRequest
  | .create taskData => .create user taskData
  | .createBatch tasksData => .createBatch user tasksData
  | .info taskId => .info user taskId
  | .userTasks skip limit => .userTasks user skip limit
  | .delete taskId => .delete user taskId
  | .update taskId taskData => .update user taskId taskData

theorem TaskCall.user_asUser (call : TaskCall) (user : UserId) :
    (call.asUser user).user = user := by
  cases call <;> rfl

/-- What a client sends; the token is `none` if its text is not a UUID. -/
structure ApiCall where
  token : Option UUID
  call : TaskCall

variable {κ ι : Type}

section Model

variable [PasswordLibraries]

/-- The session statements of a request, and the user they authenticate. -/
def authentication (logins : κ → SessionRequest) (calls : ι → ApiCall) :
    κ ⊕ ι → SessionProg (Option User)
  | .inl j => do
      let _ ← (logins j).program
      pure none
  | .inr i => do
      let user ← SessionProg.authorization 0 (calls i).token
      pure (some user)

/-- The sessions of all requests, and the task requests as all users. -/
abbrev ApiState (κ ι : Type) :=
  Config (κ ⊕ ι) SessionOp Fetched AuthExc (Option User) (SessionWorld (κ ⊕ ι)) ×
    TaskConfig (ι × UserId)

abbrev ApiLabel (κ ι : Type) := SessionLabel (κ ⊕ ι) ⊕ TaskLabel (ι × UserId)

/-- The user that the authentication of a task request has returned. -/
def admittedAs (s : ApiState κ ι) (i : ι) : Option UserId :=
  match s.1.prog (.inr i) with
  | .ret (some user) => some user.id
  | .ret none => none
  | .raise _ => none
  | .op _ _ => none

/-- A task request acts as the user it was admitted as. -/
def apiGuard (s : ApiState κ ι) : ApiLabel κ ι → Bool
  | .inl _ => true
  | .inr l =>
      match l.actor with
      | some (i, u) => decide (admittedAs s i = some u)
      | none => true

def startApi [UrlValidator] (db : AuthDb) (w : World (ι × UserId))
    (logins : κ → SessionRequest) (calls : ι → ApiCall) : ApiState κ ι :=
  (Machine.start (SessionWorld.quiet (κ ⊕ ι) db) (authentication logins calls),
    startTasks w fun p => (calls p.1).call.asUser p.2)

variable [DecidableEq κ] [DecidableEq ι]

def apiStep : ApiState κ ι → ApiLabel κ ι → Option (ApiState κ ι) :=
  Product.step (sessionMachine (κ ⊕ ι)).step (taskMachine (ι × UserId)).step apiGuard

/--
At some place of the run the token of the request was in the row of the user,
unexpired, and the request has read it there.
-/
def PresentsTokenOf (calls : ι → ApiCall) (start : ApiState κ ι) (ls : List (ApiLabel κ ι))
    (i : ι) (user : UserId) : Prop :=
  ∃ pre c post t token,
    ls = pre ++ .inl (.op (.inr i) c) :: post ∧
    Schedule.run apiStep start pre = some t ∧
    (calls i).token = some token ∧
    t.1.world.db.Holds c.now token user

end Model

section Authentication

/-- The statements with which a request can only read. -/
def SessionOp.Reads : SessionOp → Prop
  | .selectByToken _ => True
  | .close => True
  | _ => False

theorem authorization_reads {privileges : Int} {token : Option UUID} :
    (SessionProg.authorization privileges token).Every SessionOp.Reads := by
  cases token with
  | none => exact Prog.every_raise
  | some accessToken =>
      refine Prog.Every.bind ?_ fun user => ?_
      · refine Prog.Every.tryFinally ?_ (Prog.every_effect.2 trivial)
        exact Prog.Every.bind (Prog.every_perform.2 trivial) fun _ => Prog.every_ret
      · cases user with
        | none => exact Prog.every_raise
        | some user =>
            dsimp only
            cases user.privileges with
            | none => exact Prog.every_raise
            | some userPrivileges =>
                dsimp only
                split
                · exact Prog.every_raise
                · exact Prog.every_ret

/-- Whom `authorization` returns, the SELECT by the token has returned. -/
theorem authorization_selects {privileges : Int} {token : Option UUID} :
    (SessionProg.authorization privileges token).wp (Prog.logMonitor SessionOp Fetched AuthExc)
      (fun r g => ∀ user, r = .ok user → ∃ accessToken fetched,
        token = some accessToken ∧
        (.selectByToken accessToken, .ok fetched) ∈ g ∧
        fetched.user = some user) [] := by
  cases token with
  | none =>
      intro user hreturned
      cases hreturned
  | some accessToken =>
      have hselect : (SessionProg.getUserByToken accessToken).wp
          (Prog.logMonitor SessionOp Fetched AuthExc)
          (fun r g => ∀ user, r = .ok (some user) → ∃ fetched,
            (.selectByToken accessToken, .ok fetched) ∈ g ∧ fetched.user = some user) [] := by
        rw [SessionProg.getUserByToken, SessionProg.withManager, Prog.wp_tryFinally, Prog.wp_bind,
          Prog.wp_perform]
        refine ⟨trivial, fun fetched _ => ?_, fun e _ => ?_⟩
        · refine (Prog.wp_effect _ _ _ _).2 ⟨trivial, fun _ _ user huser => ?_, by simp⟩
          exact ⟨fetched, by simp [Prog.logMonitor], Except.ok.inj huser⟩
        · exact (Prog.wp_effect _ _ _ _).2 ⟨trivial, by simp, by simp⟩
      refine (Prog.wp_bind _ _ _ _ _).2 (Prog.wp_mono _ hselect ?_)
      rintro (e | user) g hg
      · intro user hreturned
        cases hreturned
      · cases user with
        | none =>
            intro user hreturned
            cases hreturned
        | some user =>
            obtain ⟨fetched, hmem, huser⟩ := hg user rfl
            rw [Prog.onResult_ok]
            dsimp only
            split
            · intro user' hreturned
              cases hreturned
            · split
              · intro user' hreturned
                cases hreturned
              · intro user' hreturned
                cases hreturned
                exact ⟨accessToken, fetched, rfl, hmem, huser⟩

variable [PasswordLibraries] {logins : κ → SessionRequest} {calls : ι → ApiCall}

/-- An authentication ends with a user whom a SELECT by its token has returned. -/
def Selected (calls : ι → ApiCall) :
    κ ⊕ ι → Except AuthExc (Option User) → List (SessionOp × SessionReply) → Prop
  | .inl _, _, _ => True
  | .inr i, r, g =>
      ∀ user, r = .ok (some user) → ∃ accessToken fetched,
        (calls i).token = some accessToken ∧
        (.selectByToken accessToken, .ok fetched) ∈ g ∧
        fetched.user = some user

theorem authentication_selects (j : κ ⊕ ι) :
    (authentication logins calls j).wp (Prog.logMonitor SessionOp Fetched AuthExc)
      (Selected calls j) [] := by
  cases j with
  | inl j => exact Prog.wp_of_allows _ (fun _ _ => trivial) fun _ _ => trivial
  | inr i =>
      refine (Prog.wp_bind _ _ _ _ _).2 (Prog.wp_mono _ authorization_selects ?_)
      rintro (e | user) g hg
      · intro user hreturned
        cases hreturned
      · intro user' hreturned
        cases hreturned
        exact hg user rfl

variable [DecidableEq κ] [DecidableEq ι] {s s' : ApiState κ ι}

/-- What the sessions of the authentications may do. -/
def sessionOpMonitor : κ ⊕ ι → Prog.Monitor SessionOp Fetched AuthExc Unit
  | .inl _ => Prog.eachMonitor fun _ => True
  | .inr _ => Prog.eachMonitor SessionOp.Reads

/-- An authentication has nothing uncommitted, and will have nothing. -/
structure OnlyReads
    (s : Config (κ ⊕ ι) SessionOp Fetched AuthExc (Option User) (SessionWorld (κ ⊕ ι))) : Prop where
  programs : Monitored sessionOpMonitor (fun _ => ()) (fun _ _ _ => True) .unknownException s
  pending : ∀ i userId row, s.world.pending userId ≠ some (.inr i, row)

omit [PasswordLibraries] [DecidableEq κ] [DecidableEq ι] in
theorem pending_of_write {α : Type} [DecidableEq α] {i j : α} {w : SessionWorld α}
    {userId userId' : UserId} {new row : Option TokenRow} {hnew : _}
    (h : (w.write i userId new hnew).pending userId' = some (j, row)) :
    j = i ∨ w.pending userId' = some (j, row) := by
  have hpending : Function.update w.pending userId (some (i, new)) userId' = some (j, row) := h
  by_cases hu : userId' = userId
  · subst hu
    rw [Function.update_self] at hpending
    cases hpending
    exact Or.inl rfl
  · rw [Function.update_of_ne hu] at hpending
    exact Or.inr hpending

omit [PasswordLibraries] [DecidableEq κ] [DecidableEq ι] in
/-- A statement leaves no uncommitted row to another request, nor to one that only reads. -/
theorem sessionCall_pending {α : Type} [DecidableEq α] {i j : α} {c : SessionChoice} {o : SessionOp}
    {r : SessionReply} {w w' : SessionWorld α} (h : sessionCall i c o w = some (r, w'))
    (hj : j = i → o.Reads) {userId : UserId} {row : Option TokenRow}
    (hrow : w'.pending userId = some (j, row)) : w.pending userId = some (j, row) := by
  have hchange : ∀ {u new returning}, changeTokenRow i u new returning w = some (r, w') →
      ¬ o.Reads → w.pending userId = some (j, row) := by
    intro u new returning hcall hwrites
    rcases changeTokenRow_cases hcall with ⟨rfl, -⟩ | ⟨old, -, -, -, hnew, rfl⟩
    · exact hrow
    · exact (pending_of_write hrow).resolve_left fun hji => hwrites (hj hji)
  cases o with
  | insertToken u =>
      rcases (insertTokenRow_cases h).2 with ⟨rfl, -⟩ | ⟨-, -, hnew, rfl⟩
      · exact hrow
      · exact (pending_of_write hrow).resolve_left fun hji => hj hji
  | updateToken u => exact hchange h id
  | deleteToken u => exact hchange h id
  | commit =>
      cases h
      exact (SessionWorld.commit_pending.1 hrow).2
  | rollback =>
      cases h
      exact (SessionWorld.rollback_pending.1 hrow).2
  | close =>
      cases h
      exact (SessionWorld.rollback_pending.1 hrow).2
  | _ =>
      cases h
      exact hrow

omit [PasswordLibraries] in
theorem OnlyReads.step
    {s s' : Config (κ ⊕ ι) SessionOp Fetched AuthExc (Option User) (SessionWorld (κ ⊕ ι))}
    {l : SessionLabel (κ ⊕ ι)} (h : OnlyReads s)
    (hstep : (sessionMachine (κ ⊕ ι)).step s l = some s') : OnlyReads s' := by
  have hmeets : (sessionMachine (κ ⊕ ι)).Meets sessionOpMonitor := by
    rintro (j | i) c o w r w' -
    · trivial
    · trivial
  refine ⟨h.programs.step hmeets hstep, fun i userId row hrow => ?_⟩
  obtain ⟨j, c, o, k, r, w, rfl, hp, hexec, rfl⟩ | ⟨a, w, rfl, -⟩ | ⟨j, o, k, rfl, hp, rfl⟩ :=
    Machine.step_cases hstep
  · refine h.pending i userId row (sessionCall_pending hexec (fun hij => ?_) hrow)
    subst hij
    exact h.programs.allows hp
  · exact a.elim
  · exact h.pending i userId row (SessionWorld.rollback_pending.1 hrow).2

theorem onlyReads_of_run {db : AuthDb} {ls : List (SessionLabel (κ ⊕ ι))}
    {s : Config (κ ⊕ ι) SessionOp Fetched AuthExc (Option User) (SessionWorld (κ ⊕ ι))}
    (hrun : (sessionMachine (κ ⊕ ι)).run
      (Machine.start (SessionWorld.quiet (κ ⊕ ι) db) (authentication logins calls)) ls = some s) :
    OnlyReads s := by
  refine Machine.invariant_of_run OnlyReads (fun _ _ _ hs hstep => hs.step hstep)
    ⟨Monitored.start fun j => ?_, fun i userId row h => ?_⟩ hrun
  · cases j with
    | inl j => exact Prog.wp_of_allows _ (fun _ _ => trivial) fun _ _ => trivial
    | inr i => exact Prog.Every.bind authorization_reads fun _ => Prog.every_ret
  · cases h

end Authentication

section Admission

variable [PasswordLibraries] [UrlValidator] [DecidableEq κ] [DecidableEq ι]
variable {logins : κ → SessionRequest} {calls : ι → ApiCall} {db : AuthDb}
variable {w : World (ι × UserId)} {ls : List (ApiLabel κ ι)} {s s' : ApiState κ ι}
variable {l : ApiLabel κ ι}

/-- The sessions are a run of the session machine. -/
theorem sessions_of_run (hrun : Schedule.run apiStep (startApi db w logins calls) ls = some s) :
    (sessionMachine (κ ⊕ ι)).run
      (Machine.start (SessionWorld.quiet (κ ⊕ ι) db) (authentication logins calls))
      (Product.lefts ls) = some s.1 :=
  Machine.run_eq.trans (Product.run_left hrun)

/-- The task requests are a run of the task machine. -/
theorem tasks_of_run (hrun : Schedule.run apiStep (startApi db w logins calls) ls = some s) :
    (taskMachine (ι × UserId)).run (startTasks w fun p => (calls p.1).call.asUser p.2)
      (Product.rights ls) = some s.2 :=
  Machine.run_eq.trans (Product.run_right hrun)

omit [PasswordLibraries] [UrlValidator] [DecidableEq κ] [DecidableEq ι] in
theorem ret_of_admittedAs {i : ι} {user : UserId} (h : admittedAs s i = some user) :
    ∃ found : User, s.1.prog (.inr i) = .ret (some found) ∧ found.id = user := by
  unfold admittedAs at h
  split at h
  · rename_i found hret
    exact ⟨found, hret, Option.some.inj h⟩
  · cases h
  · cases h
  · cases h

/-- Who was admitted as a user has presented a token of that user. -/
theorem presents_of_admitted
    (hrun : Schedule.run apiStep (startApi db w logins calls) ls = some s) {i : ι} {user : UserId}
    (hadmitted : admittedAs s i = some user) :
    PresentsTokenOf calls (startApi db w logins calls) ls i user := by
  obtain ⟨found, hret, rfl⟩ := ret_of_admittedAs hadmitted
  have hsessions := sessions_of_run hrun
  have hlogged : Monitored (fun _ => Prog.logMonitor SessionOp Fetched AuthExc) (fun _ => [])
      (Selected calls) (sessionMachine (κ ⊕ ι)).killed s.1 :=
    Machine.invariant_of_run (Monitored (fun _ => Prog.logMonitor SessionOp Fetched AuthExc)
        (fun _ => []) (Selected calls) (sessionMachine (κ ⊕ ι)).killed)
      (fun _ _ _ hs hstep => Monitored.step (fun _ _ _ _ _ _ _ => trivial) hs hstep)
      (Monitored.start authentication_selects) hsessions
  have houtcome : (s.1.prog (.inr i)).outcome? = some (.ok (some found)) := by
    rw [hret]
    rfl
  obtain ⟨token, fetched, htoken, hmem, huser⟩ :=
    ((hlogged.outcome houtcome).resolve_left (by simp)) found rfl
  rw [Prog.after_log, List.nil_append] at hmem
  obtain ⟨pre, c, post, t, v, hls, hpre, hexec⟩ :=
    Machine.exists_call_of_hist hsessions hmem (by simp [Machine.start])
  obtain ⟨before, after, u, rfl, rfl, hu⟩ := Product.exists_of_lefts hrun hls
  have ht : u.1 = t := by
    have hleft := sessions_of_run hu
    rw [hpre] at hleft
    exact (Option.some.inj hleft).symm
  subst ht
  refine ⟨before, c, after, u, token, rfl, hu, htoken, ?_⟩
  have hcall : sessionCall (.inr i) c (.selectByToken token) u.1.world =
      some (.ok fetched, v) := hexec
  cases hcall
  obtain ⟨row, hrow, rfl⟩ := Option.map_eq_some_iff.1 huser
  obtain ⟨tokenRow, htokenRow, htokenIs, hvalid⟩ := holdsToken_iff.1 (List.find?_some hrow)
  refine ⟨tokenRow, ?_, htokenIs, hvalid⟩
  -- the request sees the committed row, for it has written none
  rw [← htokenRow]
  exact (SessionWorld.row_of_not_pending fun new =>
    (onlyReads_of_run hpre).pending i row.id new).symm

omit [PasswordLibraries] [UrlValidator] in
/-- A call of a task request is a call of one that was admitted. -/
theorem admitted_of_step {i : ι} {user : UserId} {c : Choice}
    (hstep : apiStep s (.inr (.op (i, user) c)) = some s') : admittedAs s i = some user :=
  of_decide_eq_true (Product.step_cases hstep).1

/--
In every run of any number of logins, refreshes, logouts and task requests, each
with its authentication, a committed task changes, or appears, only by the commit
of a request as its owner, and a token was accepted from that request that was,
where it was read, the unexpired token of the owner.
-/
theorem task_change_authenticated (hw : w.Quiet)
    (hrun : Schedule.run apiStep (startApi db w logins calls) ls = some s)
    (hstep : apiStep s l = some s') {id : UUID}
    (hchange : committedTask s'.2 id ≠ committedTask s.2 id) :
    ∃ i c new,
      l = .inr (.op (i, new.userId) c) ∧
      committedTask s'.2 id = some new ∧
      (∀ old, committedTask s.2 id = some old → old.userId = new.userId) ∧
      PresentsTokenOf calls (startApi db w logins calls) ls i new.userId := by
  have hsound := sound_of_run hw (tasks_of_run hrun)
  rcases (Product.step_cases hstep).2 with ⟨k, rfl, -, hsame⟩ | ⟨k, rfl, htask, -⟩
  · exact absurd (congrArg (committedTask · id) hsame) hchange
  · obtain ⟨⟨i, user⟩, c, kont, new, rfl, hp, hpending, hnew⟩ :=
      (step_committed htask id).resolve_left hchange
    have hadmitted := admitted_of_step hstep
    have howner : new.userId = user ∧ ∀ old, committedTask s.2 id = some old →
        old.userId = new.userId := by
      have huser := TaskCall.user_asUser (calls i).call user
      cases hcommitted : committedTask s.2 id with
      | none =>
          have hinserted := hsound.coupled.inserted hpending hcommitted
          exact ⟨hinserted.userId.trans huser, fun old hold => by cases hold⟩
      | some old =>
          obtain ⟨u, hu⟩ := hsound.coupled.updated hpending hcommitted
          have hsame := hu.makes.sameTask.userId
          obtain ⟨hold, -⟩ := hsound.owner_of_commit hp hpending hcommitted
          refine ⟨hsame.trans (hold.trans huser), fun old' hold' => ?_⟩
          cases hold'
          exact hsame.symm
    obtain ⟨rfl, hkept⟩ := howner
    exact ⟨i, c, new, rfl, hnew, hkept, presents_of_admitted hrun hadmitted⟩

/--
In every such run a response shows a task only if the task is, as the request sees
it, the user's, and a token was accepted from the request as one of that user.
-/
theorem task_shown_authenticated (hw : w.Quiet) (hkeyed : w.Keyed)
    (hrun : Schedule.run apiStep (startApi db w logins calls) ls = some s) {i : ι}
    {user : UserId} {c : Choice} {r : Response} {k : Reply → TaskProg Response}
    (hp : s.2.prog (i, user) = .op (.respond r) k)
    (hstep : apiStep s (.inr (.op (i, user) c)) = some s') :
    (∀ task ∈ r.shown, ∃ row,
      (s.2.world.tasks.slot task.id).visible (i, user) = some row ∧ row.userId = user) ∧
    PresentsTokenOf calls (startApi db w logins calls) ls i user := by
  refine ⟨fun task htask => ?_, presents_of_admitted hrun (admitted_of_step hstep)⟩
  obtain ⟨row, hrow, howner⟩ := response_owned hw hkeyed (tasks_of_run hrun) hp task htask
  exact ⟨row, hrow, howner.trans (TaskCall.user_asUser (calls i).call user)⟩

end Admission

section Sample

def sampleApiCall (_ : ι) : ApiCall where
  token := some 2
  call := .delete 7

/-- A login, and with its token a DELETE up to its response. -/
def deleteAfterLogin (j : κ) (i : ι) : List (ApiLabel κ ι) :=
  List.replicate 9 (.inl (.op (.inl j) { gen := 2 })) ++
    List.replicate 2 (.inl (.op (.inr i) { now := 5 })) ++
    List.replicate 4 (.inr (callOf (i, 1)))

variable (κ ι) in
def sampleApi : ApiState κ ι :=
  letI := samplePasswords
  letI := sampleUrls
  startApi registered (worldOf (ι × UserId) [samplePending]) (fun _ => .login sampleCredentials)
    sampleApiCall

/-- The commit of the DELETE changes the task, and the token of the login stands behind it. -/
theorem task_change_authenticated_delete :
    letI := samplePasswords
    letI := sampleUrls
    ∃ s s' : ApiState (Fin 1) (Fin 1),
      Schedule.run apiStep (sampleApi (Fin 1) (Fin 1))
        (deleteAfterLogin 0 0 ++ [.inr (callOf (0, 1))]) = some s ∧
      apiStep s (.inr (callOf (0, 1))) = some s' ∧
      committedTask s'.2 7 ≠ committedTask s.2 7 ∧
      ∃ i c new,
        (.inr (callOf (0, 1)) : ApiLabel (Fin 1) (Fin 1)) = .inr (.op (i, new.userId) c) ∧
        committedTask s'.2 7 = some new ∧
        (∀ old, committedTask s.2 7 = some old → old.userId = new.userId) ∧
        PresentsTokenOf sampleApiCall (sampleApi (Fin 1) (Fin 1))
          (deleteAfterLogin 0 0 ++ [.inr (callOf (0, 1))]) i new.userId := by
  let := samplePasswords
  let := sampleUrls
  have hsteps : ((Schedule.run apiStep (sampleApi (Fin 1) (Fin 1))
      (deleteAfterLogin 0 0 ++ [.inr (callOf (0, 1))])).bind fun s =>
        (apiStep s (.inr (callOf (0, 1)))).map fun s' =>
          ((committedTask s.2 7).map TaskRow.status, (committedTask s'.2 7).map TaskRow.status)) =
      some (some .pending, some .canceled) := by
    rfl
  obtain ⟨s, hs, hrest⟩ := Option.bind_eq_some_iff.1 hsteps
  obtain ⟨s', hs', hstatuses⟩ := Option.map_eq_some_iff.1 hrest
  obtain ⟨hbefore, hafter⟩ := Prod.mk.inj hstatuses
  have hchange : committedTask s'.2 7 ≠ committedTask s.2 7 := by
    intro hsame
    rw [hsame, hbefore] at hafter
    cases hafter
  exact ⟨s, s', hs, hs', hchange,
    task_change_authenticated (worldOf_quiet [samplePending]) hs hs' hchange⟩

/-- The DELETE shows the task to the user whose token it presents. -/
theorem task_shown_authenticated_delete :
    letI := samplePasswords
    letI := sampleUrls
    ∃ (s : ApiState (Fin 1) (Fin 1)) (r : Response),
      Schedule.run apiStep (sampleApi (Fin 1) (Fin 1)) (deleteAfterLogin 0 0) = some s ∧
      (s.2.prog (0, 1)).next? = some (.respond r) ∧
      r.statuses = [.canceled] ∧
      (∀ task ∈ r.shown, ∃ row,
        (s.2.world.tasks.slot task.id).visible (0, 1) = some row ∧ row.userId = 1) ∧
      PresentsTokenOf sampleApiCall (sampleApi (Fin 1) (Fin 1)) (deleteAfterLogin 0 0) 0 1 := by
  let := samplePasswords
  let := sampleUrls
  have hsteps : ((Schedule.run apiStep (sampleApi (Fin 1) (Fin 1)) (deleteAfterLogin 0 0)).bind
      fun s => (apiStep s (.inr (callOf (0, 1)))).map fun s' =>
        ((s.2.prog (0, 1)).next?.bind TaskOp.response?).map Response.statuses) =
      some (some [.canceled]) := by
    rfl
  obtain ⟨s, hs, hrest⟩ := Option.bind_eq_some_iff.1 hsteps
  obtain ⟨s', hs', hshown⟩ := Option.map_eq_some_iff.1 hrest
  obtain ⟨r, hresponse, hstatuses⟩ := Option.map_eq_some_iff.1 hshown
  have hnext := next?_of_response? hresponse
  obtain ⟨k, hk⟩ := Prog.exists_op_of_next? hnext
  exact ⟨s, r, hs, hnext, hstatuses, task_shown_authenticated (worldOf_quiet [samplePending])
    (worldOf_keyed [samplePending]) hs hk hs'⟩

end Sample

end AuthenticatedRequests

end SmartHttpRequester
