import SmartHttpRequester.SessionRuns

/-!
# What a session request does

A session request does at most two things: it has the token that it presents
resolved, and it performs one request of `AuthRequests`.  The monitor writes down
what a request has done, and with which result.  A change of a row counts when it
is committed.

A request that has ended has done what its answer says (`SessionRequest.concludes`).
The one answer that says nothing is that of a login whose INSERT is refused.
-/

namespace SmartHttpRequester

open Foundations

section SessionStories

/-- Something that a session request does at once, and the result. -/
inductive SessionAct
  | authorized (reply : Except AuthExc User)
  | performed (request : AuthRequest) (reply : Except AuthExc AuthReply)

namespace SessionRequest

/-- The login as a request of `AuthRequests`. -/
def asLogin : SessionRequest → Option AuthRequest
  | .login data => some (.login data)
  | .docsLogin username password => some (.loginForDocs username password)
  | .refresh _ => none
  | .logout _ => none

/-- The request of `AuthRequests` that follows once the token is resolved. -/
def asUser (userId : UserId) : SessionRequest → Option AuthRequest
  | .login _ => none
  | .docsLogin _ _ => none
  | .refresh _ => some (.refresh userId)
  | .logout _ => some (.logout userId)

/-- The `except` clauses of the endpoint. -/
def except : SessionRequest → AuthExc → AuthExc
  | .login _ => SessionProg.loginExcept
  | .docsLogin _ _ => SessionProg.loginExcept
  | .refresh _ => SessionProg.sessionExcept 404
  | .logout _ => SessionProg.sessionExcept 400

/-- The endpoint turns the result into its response. -/
inductive Answers (req : SessionRequest) :
    Except AuthExc AuthReply → Except AuthExc SessionResponse → Prop
  | token (token : AccessTokenResponse) : Answers req (.ok (.token token)) (.ok (.token token))
  | loggedOut (userId : UserId) : Answers req (.ok (.loggedOut userId)) (.ok .loggedOut)
  | fails (e : AuthExc) : Answers req (.error e) (.error (req.except e))

/-- What a request has done when it ends with the response. -/
inductive Concludes (req : SessionRequest) :
    List SessionAct → Except AuthExc SessionResponse → Prop
  /-- the token is not the text of a UUID -/
  | unreadable
      (hlogin : req.asLogin = none)
      (hpresented : req.presented = none) :
      Concludes req [] (.error (.httpException 401))
  | unauthorized
      {e : AuthExc}
      (hpresented : req.presented.isSome = true) :
      Concludes req [.authorized (.error e)] (.error e)
  | authorized
      {user : User}
      {request : AuthRequest}
      {reply : Except AuthExc AuthReply}
      {response : Except AuthExc SessionResponse}
      (hpresented : req.presented.isSome = true)
      (hrequest : req.asUser user.id = some request)
      (hanswer : req.Answers reply response) :
      Concludes req [.authorized (.ok user), .performed request reply] response
  | login
      {request : AuthRequest}
      {reply : Except AuthExc AuthReply}
      {response : Except AuthExc SessionResponse}
      (hlogin : req.asLogin = some request)
      (hanswer : req.Answers reply response) :
      Concludes req [.performed request reply] response
  /-- the INSERT of the login is refused -/
  | outrun
      {unique : Bool}
      (hlogin : req.asLogin.isSome = true) :
      Concludes req [] (.error (.integrityError unique))

/-- The request has done a beginning of what it does. -/
def MayConclude (req : SessionRequest) (acts : List SessionAct) : Prop :=
  ∃ rest response, req.Concludes (acts ++ rest) response

end SessionRequest

/-- What `authorization` makes of the user that it finds. -/
def admission : Option User → Except AuthExc User
  | none => .error (.httpException 401)
  | some user =>
      match user.privileges with
      | none => .error .typeError
      | some userPrivileges =>
          if userPrivileges < 0 then .error (.httpException 403) else .ok user

variable [PasswordLibraries]

/-- Why a login fails, from what its first SELECT answers. -/
def loginFailure (password : String) : Except AuthExc (Option UserIdPassword) → Option AuthExc
  | .error e => some e
  | .ok none => some .userDoesNotExists
  | .ok (some idWithHash) =>
      match checkPassword password idWithHash.passwordHash with
      | .error e => some e
      | .ok false => some .passwordIsIncorrect
      | .ok true => none

namespace SessionRequest

/-- A login that answers a token. -/
def logsIn (req : SessionRequest) (token : UUID) : Option SessionAct :=
  req.asLogin.map fun request => .performed request (.ok (.token { accessToken := token }))

/-- A login that fails before it comes to the table. -/
def failsAt (req : SessionRequest) (r : SessionReply) : Option SessionAct :=
  req.asLogin.bind fun request =>
    req.credentials.bind fun credentials =>
      (loginFailure credentials.2 (r.map Fetched.idPassword)).map fun e =>
        .performed request (.error e)

/-- What a commit makes of the row that the request has written. -/
def commits (req : SessionRequest) : SessionPhase → Option SessionAct
  | .inserted _ token => req.logsIn token
  | .changed userId (some token) =>
      some (.performed (.refresh userId) (.ok (.token { accessToken := token })))
  | .changed userId none => some (.performed (.logout userId) (.ok (.loggedOut userId)))
  | _ => none

omit [PasswordLibraries] in
theorem commits_eq_none {req : SessionRequest} {g : SessionPhase}
    (h : ∀ userId, ¬ g.Uncommitted userId) : req.commits g = none := by
  cases g with
  | inserted userId token => exact absurd (Or.inl ⟨token, rfl⟩) (h userId)
  | changed userId new => exact absurd (Or.inr ⟨new, rfl⟩) (h userId)
  | _ => rfl

/-- What a call does, besides writing a row. -/
def does (req : SessionRequest) (g : SessionPhase) (o : SessionOp) (r : SessionReply) :
    Option SessionAct :=
  match o, r with
  | .selectUser _, r => req.failsAt r
  | .selectToken _, .ok f => f.token.bind req.logsIn
  | .selectByToken _, .ok f => some (.authorized (admission f.user))
  | .updateToken userId, .ok f =>
      if f.token.isNone then some (.performed (.refresh userId) (.error .userDoesNotExists))
      else none
  | .deleteToken userId, .ok f =>
      if f.userId.isNone then some (.performed (.logout userId) (.error .userDoesNotExists))
      else none
  | .commit, .ok _ => req.commits g
  | _, _ => none

end SessionRequest

/-- The phase of a request, and what it has done. -/
structure SessionStory where
  phase : SessionPhase := .idle
  acts : List SessionAct := []

def SessionStory.next (req : SessionRequest) (g : SessionStory) (o : SessionOp)
    (r : SessionReply) : SessionStory where
  phase := g.phase.next o r
  acts := g.acts ++ (req.does g.phase o r).toList

/-- Only two statements are refused, and an INSERT only by a constraint. -/
def SessionOp.Refuses (o : SessionOp) (r : SessionReply) : Prop :=
  o.Expects r ∧
    ∀ userId e, o = .insertToken userId → r = .error e → ∃ unique, e = .integrityError unique

def sessionStoryMonitor (req : SessionRequest) :
    Prog.Monitor SessionOp Fetched AuthExc SessionStory where
  allows _ _ := True
  expects := SessionOp.Refuses
  next := SessionStory.next req

section Rules

variable {req : SessionRequest} {g : SessionStory} {o : SessionOp}

omit [PasswordLibraries] in
/-- A statement that is not refused is answered. -/
theorem SessionOp.refuses_iff {r : SessionReply} (ho : o.refusable = false) :
    o.Refuses r ↔ ∃ f, r = .ok f := by
  have hinsert : ∀ userId, o ≠ .insertToken userId := by
    rintro userId rfl
    cases ho
  simp [SessionOp.Refuses, SessionOp.Expects, ho, hinsert]

theorem wp_story_answered {Q : SessionReply → SessionStory → Prop} (ho : o.refusable = false) :
    (Prog.perform o : SessionProg Fetched).wp (sessionStoryMonitor req) Q g ↔
      ∀ f, Q (.ok f) (g.next req o (.ok f)) := by
  simp [sessionStoryMonitor, SessionOp.refuses_iff ho]

/-- A call that tells nothing. -/
theorem wp_story_silent {Q : Except AuthExc Unit → SessionStory → Prop} (ho : o.refusable = false)
    (hnext : ∀ f, g.next req o (.ok f) = g) :
    (Prog.effect o : SessionProg Unit).wp (sessionStoryMonitor req) Q g ↔ Q (.ok ()) g := by
  simp [sessionStoryMonitor, SessionOp.refuses_iff ho, hnext]

theorem wp_story_commit {Q : Except AuthExc Unit → SessionStory → Prop} :
    (Prog.effect .commit : SessionProg Unit).wp (sessionStoryMonitor req) Q g ↔
      Q (.ok ()) ⟨g.phase.commit, g.acts ++ (req.commits g.phase).toList⟩ := by
  have hanswered : SessionOp.commit.refusable = false := rfl
  simp [sessionStoryMonitor, SessionOp.refuses_iff hanswered, SessionStory.next,
    SessionPhase.next, SessionRequest.does]

/-- The end of a session tells nothing. -/
theorem wp_story_withManager {α : Type} {body : SessionProg α}
    {Q : Except AuthExc α → SessionStory → Prop} :
    (SessionProg.withManager body).wp (sessionStoryMonitor req) Q g ↔
      body.wp (sessionStoryMonitor req) Q g := by
  rw [SessionProg.withManager, Prog.wp_tryFinally]
  refine Prog.wp_congr _ fun r g => ?_
  rw [wp_story_silent rfl fun f => by simp [SessionStory.next, SessionPhase.next,
    SessionRequest.does]]
  rfl

end Rules

section Logins

variable {req : SessionRequest} {request : AuthRequest} {username password : String}
variable {userId : UserId}

theorem SessionRequest.failsAt_eq (hlogin : req.asLogin = some request)
    (hcredentials : req.credentials = some (username, password)) (r : SessionReply) :
    req.failsAt r =
      (loginFailure password (r.map Fetched.idPassword)).map fun e =>
        .performed request (.error e) := by
  simp [SessionRequest.failsAt, hlogin, hcredentials]

omit [PasswordLibraries] in
theorem SessionRequest.logsIn_eq (hlogin : req.asLogin = some request) (token : UUID) :
    req.logsIn token = some (.performed request (.ok (.token { accessToken := token }))) := by
  simp [SessionRequest.logsIn, hlogin]

/-- The login has been performed with the result, or its INSERT was refused. -/
def LoggedIn (request : AuthRequest) (r : Except AuthExc AccessTokenResponse)
    (g : SessionStory) : Prop :=
  (∀ u, ¬ g.phase.Uncommitted u) ∧
    (g.acts = [.performed request (r.map .token)] ∨
      (g.acts = [] ∧ ∃ unique, r = .error (.integrityError unique)))

theorem wp_story_getUserIdPassword
    {Q : Except AuthExc (Option UserIdPassword) → SessionStory → Prop}
    (hlogin : req.asLogin = some request)
    (hcredentials : req.credentials = some (username, password))
    (hok : ∀ row, Q (.ok row) ⟨.lookedUp row,
      ((loginFailure password (.ok row)).map fun e => .performed request (.error e)).toList⟩)
    (herror : ∀ e, Q (.error e) ⟨.refused, [.performed request (.error e)]⟩) :
    (SessionProg.getUserIdPassword username).wp (sessionStoryMonitor req) Q {} := by
  rw [SessionProg.getUserIdPassword, wp_story_withManager, Prog.wp_bind, Prog.wp_perform]
  have hnext : ∀ r, (sessionStoryMonitor req).next {} (.selectUser username) r =
      ⟨SessionPhase.idle.next (.selectUser username) r,
        ((loginFailure password (r.map Fetched.idPassword)).map fun e =>
          .performed request (.error e)).toList⟩ := by
    intro r
    simp only [sessionStoryMonitor, SessionStory.next, SessionRequest.does,
      SessionRequest.failsAt_eq hlogin hcredentials, List.nil_append]
  refine ⟨trivial, fun f _ => ?_, fun e _ => ?_⟩
  · rw [hnext]
    exact hok f.idPassword
  · rw [hnext]
    exact herror e

theorem wp_story_getAccessTokenByUserId {row : Option UserIdPassword}
    (hlogin : req.asLogin = some request) :
    (SessionProg.getAccessTokenByUserId userId).wp (sessionStoryMonitor req)
      (fun r g => LoggedIn request (r.map fun token => { accessToken := token }) g)
      ⟨.lookedUp row, []⟩ := by
  rw [SessionProg.getAccessTokenByUserId, wp_story_withManager, Prog.wp_bind,
    SessionProg.getOrCreateUserToken, Prog.wp_bind, wp_story_answered rfl]
  intro f
  obtain ⟨_, token, _, _, _⟩ := f
  cases token with
  | some token =>
      simp only [Prog.onResult_ok, Prog.wp_pure, Prog.wp_bind, wp_story_commit]
      refine ⟨by simp [SessionStory.next, SessionPhase.next, SessionPhase.commit,
        SessionPhase.Uncommitted], Or.inl ?_⟩
      simp [SessionStory.next, SessionPhase.next, SessionRequest.does, SessionRequest.commits,
        SessionRequest.logsIn_eq hlogin, Except.map]
  | none =>
      simp only [Prog.onResult_ok, Prog.wp_bind, Prog.wp_perform, Prog.wp_pure, wp_story_commit]
      refine ⟨trivial, fun inserted _ => ?_, fun e hrefuses => ?_⟩
      · refine ⟨by simp [sessionStoryMonitor, SessionStory.next, SessionPhase.next,
          SessionPhase.commit, SessionPhase.Uncommitted], Or.inl ?_⟩
        simp [sessionStoryMonitor, SessionStory.next, SessionPhase.next, SessionRequest.does,
          SessionRequest.commits, SessionRequest.logsIn_eq hlogin, Except.map]
      · obtain ⟨unique, rfl⟩ := hrefuses.2 userId e rfl rfl
        refine ⟨by simp [sessionStoryMonitor, SessionStory.next, SessionPhase.next,
          SessionPhase.Uncommitted], Or.inr ⟨?_, unique, rfl⟩⟩
        simp [sessionStoryMonitor, SessionStory.next, SessionRequest.does]

theorem wp_story_tokenFor (hlogin : req.asLogin = some request)
    (hcredentials : req.credentials = some (username, password)) :
    (SessionProg.tokenFor username password).wp (sessionStoryMonitor req) (LoggedIn request)
      {} := by
  have hfails : ∀ {row : Option UserIdPassword} {e : AuthExc},
      loginFailure password (.ok row) = some e →
      LoggedIn request (.error e) ⟨.lookedUp row,
        ((loginFailure password (.ok row)).map fun e => .performed request (.error e)).toList⟩ := by
    intro row e he
    refine ⟨by simp [SessionPhase.Uncommitted], Or.inl ?_⟩
    rw [he]
    rfl
  rw [SessionProg.tokenFor, Prog.wp_bind]
  refine wp_story_getUserIdPassword hlogin hcredentials (fun row => ?_) fun e => ?_
  · rw [Prog.onResult_ok]
    cases row with
    | none => exact hfails rfl
    | some idWithHash =>
        dsimp only
        cases hcheck : checkPassword password idWithHash.passwordHash with
        | error e => exact hfails (by simp [loginFailure, hcheck])
        | ok correct =>
            cases correct with
            | false => exact hfails (by simp [loginFailure, hcheck])
            | true =>
                have hnone : loginFailure password (.ok (some idWithHash)) = none := by
                  simp [loginFailure, hcheck]
                simp only [hnone, Option.map_none, Option.toList_none, Prog.wp_bind]
                refine Prog.wp_mono _ (wp_story_getAccessTokenByUserId hlogin) fun r g hr => ?_
                cases r with
                | ok token => exact hr
                | error e => exact hr
  · exact ⟨by simp [SessionPhase.Uncommitted], Or.inl rfl⟩

/-- What a handler leaves behind: all is committed, and done as it says. -/
def SessionRequest.Settled (req : SessionRequest) (r : Except AuthExc SessionResponse)
    (g : SessionStory) : Prop :=
  (∀ u, ¬ g.phase.Uncommitted u) ∧ req.Concludes g.acts r

theorem wp_story_login {body : SessionProg AccessTokenResponse}
    (hlogin : req.asLogin = some request) (hexcept : req.except = SessionProg.loginExcept)
    (h : body.wp (sessionStoryMonitor req) (LoggedIn request) {}) :
    (do
      let token ← Prog.tryCatch body fun e => .raise (SessionProg.loginExcept e)
      pure (.token token) : SessionProg SessionResponse).wp (sessionStoryMonitor req) req.Settled
      {} := by
  rw [Prog.wp_bind, Prog.wp_tryCatch]
  refine Prog.wp_mono _ h ?_
  rintro r g ⟨hphase, hacts⟩
  cases r with
  | ok token =>
      obtain hacts | ⟨-, unique, hr⟩ := hacts
      · refine ⟨hphase, ?_⟩
        rw [hacts]
        exact .login hlogin (.token token)
      · cases hr
  | error e =>
      refine ⟨hphase, ?_⟩
      obtain hacts | ⟨hacts, unique, hr⟩ := hacts
      · rw [hacts, ← hexcept]
        exact .login hlogin (.fails e)
      · cases hr
        rw [hacts]
        exact .outrun (by simp [hlogin])

end Logins

section Sessions

variable {req : SessionRequest} {acts : List SessionAct} {userId : UserId}

/-- A refresh has been performed for the user, with the result. -/
theorem wp_story_refreshToken :
    (SessionProg.refreshToken userId).wp (sessionStoryMonitor req)
      (fun r g => (∀ u, ¬ g.phase.Uncommitted u) ∧
        g.acts = acts ++ [.performed (.refresh userId) (r.map .token)])
      ⟨.resolved userId, acts⟩ := by
  rw [SessionProg.refreshToken, Prog.wp_bind, SessionProg.refreshUserToken, wp_story_withManager,
    Prog.wp_bind, wp_story_answered rfl]
  intro f
  obtain ⟨_, token, _, _, _⟩ := f
  simp only [Prog.onResult_ok, Prog.wp_bind, Prog.wp_pure, wp_story_commit]
  cases token <;>
    simp [SessionStory.next, SessionPhase.next, SessionPhase.commit, SessionPhase.Uncommitted,
      SessionRequest.does, SessionRequest.commits, Except.map]

theorem wp_story_deleteToken :
    (SessionProg.deleteToken userId).wp (sessionStoryMonitor req)
      (fun r g => (∀ u, ¬ g.phase.Uncommitted u) ∧
        g.acts = acts ++ [.performed (.logout userId) (r.map fun _ => .loggedOut userId)])
      ⟨.resolved userId, acts⟩ := by
  rw [SessionProg.deleteToken, Prog.wp_bind, SessionProg.deleteTokenRow, wp_story_withManager,
    Prog.wp_bind, wp_story_answered rfl]
  intro f
  obtain ⟨_, _, _, _, deleted⟩ := f
  simp only [Prog.onResult_ok, Prog.wp_bind, Prog.wp_pure, wp_story_commit]
  cases deleted <;>
    simp [SessionStory.next, SessionPhase.next, SessionPhase.commit, SessionPhase.Uncommitted,
      SessionRequest.does, SessionRequest.commits, Except.map]

/-- A request with a token has it resolved first; without a user it ends there. -/
theorem wp_story_authorized {rest : User → SessionProg SessionResponse}
    (hlogin : req.asLogin = none)
    (hrest : ∀ user : User, req.presented.isSome = true →
      (rest user).wp (sessionStoryMonitor req) req.Settled
        ⟨.resolved user.id, [.authorized (.ok user)]⟩) :
    (SessionProg.authorization 0 req.presented >>= rest).wp (sessionStoryMonitor req) req.Settled
      {} := by
  have hidle : ∀ u, ¬ SessionPhase.idle.Uncommitted u := by simp [SessionPhase.Uncommitted]
  have hresolved : ∀ k u, ¬ (SessionPhase.resolved k).Uncommitted u := by
    simp [SessionPhase.Uncommitted]
  rw [Prog.wp_bind]
  cases hpresented : req.presented with
  | none => exact ⟨hidle, .unreadable hlogin hpresented⟩
  | some token =>
      have hsome : req.presented.isSome = true := by simp [hpresented]
      rw [SessionProg.authorization, Prog.wp_bind, SessionProg.getUserByToken,
        wp_story_withManager, Prog.wp_bind, wp_story_answered rfl]
      intro f
      obtain ⟨_, _, _, user, _⟩ := f
      cases user with
      | none => exact ⟨hidle, .unauthorized hsome⟩
      | some user =>
          simp only [Prog.onResult_ok, Prog.wp_pure]
          cases hprivileges : user.privileges with
          | none =>
              refine ⟨hresolved user.id, ?_⟩
              have hadmission : admission (some user) = .error .typeError := by
                simp [admission, hprivileges]
              simp only [SessionStory.next, SessionRequest.does, hadmission]
              exact .unauthorized hsome
          | some userPrivileges =>
              dsimp only
              by_cases hlow : userPrivileges < 0
              · rw [if_pos hlow]
                refine ⟨hresolved user.id, ?_⟩
                have hadmission : admission (some user) = .error (.httpException 403) := by
                  simp [admission, hprivileges, hlow]
                simp only [SessionStory.next, SessionRequest.does, hadmission]
                exact .unauthorized hsome
              · rw [if_neg hlow]
                have hadmission : admission (some user) = .ok user := by
                  simp [admission, hprivileges, hlow]
                simp only [SessionStory.next, SessionRequest.does, hadmission]
                exact hrest user hsome

theorem wp_story_handler (req : SessionRequest) :
    req.handler.wp (sessionStoryMonitor req) req.Settled {} := by
  cases req with
  | login data => exact wp_story_login rfl rfl (wp_story_tokenFor rfl rfl)
  | docsLogin username password => exact wp_story_login rfl rfl (wp_story_tokenFor rfl rfl)
  | refresh token =>
      refine wp_story_authorized rfl fun user hpresented => ?_
      rw [Prog.wp_bind, Prog.wp_tryCatch]
      refine Prog.wp_mono _ wp_story_refreshToken ?_
      rintro r g ⟨hphase, hacts⟩
      cases r with
      | ok answer => exact ⟨hphase, hacts ▸ .authorized hpresented rfl (.token answer)⟩
      | error e => exact ⟨hphase, hacts ▸ .authorized hpresented rfl (.fails e)⟩
  | logout token =>
      refine wp_story_authorized rfl fun user hpresented => ?_
      rw [Prog.wp_bind, Prog.wp_tryCatch, Prog.wp_bind]
      refine Prog.wp_mono _ wp_story_deleteToken ?_
      rintro r g ⟨hphase, hacts⟩
      cases r with
      | ok deleted => exact ⟨hphase, hacts ▸ .authorized hpresented rfl (.loggedOut user.id)⟩
      | error e => exact ⟨hphase, hacts ▸ .authorized hpresented rfl (.fails e)⟩

/-- A request that ends has done what its answer says. -/
theorem SessionRequest.concludes (req : SessionRequest) :
    req.program.wp (sessionStoryMonitor req) (fun r g => req.Concludes g.acts r) {} := by
  have hsilent : ∀ {o : SessionOp} {g : SessionStory}
      {Q : Except AuthExc Unit → SessionStory → Prop},
      o = .rollback ∨ o = .close ∨ (∃ response, o = .respond response) → Q (.ok ()) g →
      (Prog.effect o : SessionProg Unit).wp (sessionStoryMonitor req) Q g := by
    intro o g Q ho hQ
    rcases ho with rfl | rfl | ⟨response, rfl⟩ <;>
      exact (wp_story_silent rfl fun f => by simp [SessionStory.next, SessionPhase.next,
        SessionRequest.does]).2 hQ
  rw [SessionRequest.program, SessionProg.getDb, Prog.wp_tryFinally, Prog.wp_tryCatch,
    Prog.wp_bind]
  refine Prog.wp_mono _ (wp_story_handler req) ?_
  rintro r g ⟨hphase, hconcludes⟩
  cases r with
  | error e =>
      rw [Prog.onResult_error, Prog.onResult_error, Prog.wp_bind]
      exact hsilent (Or.inl rfl) (hsilent (Or.inr (Or.inl rfl)) hconcludes)
  | ok response =>
      rw [Prog.onResult_ok, Prog.wp_bind]
      refine hsilent (Or.inr (Or.inr ⟨response, rfl⟩)) ?_
      rw [Prog.onResult_ok, Prog.wp_bind, wp_story_commit, SessionRequest.commits_eq_none hphase]
      refine hsilent (Or.inr (Or.inl rfl)) ?_
      simpa using hconcludes

end Sessions

end SessionStories

end SmartHttpRequester
