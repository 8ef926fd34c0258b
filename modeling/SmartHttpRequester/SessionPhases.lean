import SmartHttpRequester.SessionSystem

/-!
# How far a session request has come

The phase of a request is read off its calls and their replies.  The monitor
says which call can come in which phase; the programs keep to it
(`wp_program`): a row is written by the SELECT before it or by the token that
has been resolved, the write is committed next, and a token is sent only once
its row is committed.
-/

namespace SmartHttpRequester

open Foundations

section SessionPhases

/-- What a request has done with the row of a user. -/
inductive SessionPhase
  | idle
  /-- the user's id and hash have been read -/
  | lookedUp (row : Option UserIdPassword)
  /-- the SELECT of a login has found no row -/
  | absent (userId : UserId)
  /-- the SELECT of a login has found a token -/
  | found (userId : UserId) (token : UUID)
  /-- the INSERT has gone through, but is not committed -/
  | inserted (userId : UserId) (token : UUID)
  | created (userId : UserId) (token : UUID)
  /-- a statement was refused -/
  | refused
  /-- the token it presented has been resolved to the user -/
  | resolved (userId : UserId)
  /-- the UPDATE or DELETE has gone through, but is not committed -/
  | changed (userId : UserId) (new : Option UUID)
  | replaced (userId : UserId) (new : Option UUID)

namespace SessionPhase

/-- A version of the request is not committed. -/
def Uncommitted (g : SessionPhase) (userId : UserId) : Prop :=
  (∃ token, g = inserted userId token) ∨ (∃ new, g = changed userId new)

/-- The request has written nothing. -/
def Reading : SessionPhase → Prop
  | idle => True
  | lookedUp _ => True
  | absent _ => True
  | found _ _ => True
  | refused => True
  | resolved _ => True
  | _ => False

/-- The request has committed a row. -/
def Done : SessionPhase → Prop
  | created _ _ => True
  | replaced _ _ => True
  | _ => False

/-- The phase in which the token can be sent. -/
def Holds (g : SessionPhase) (token : UUID) : Prop :=
  ∃ userId, g = created userId token ∨ g = found userId token ∨ g = replaced userId (some token)

def commit : SessionPhase → SessionPhase
  | inserted userId token => created userId token
  | changed userId new => replaced userId new
  | g => g

def next (g : SessionPhase) (o : SessionOp) (r : SessionReply) : SessionPhase :=
  match o, r with
  | .selectUser _, .ok f => lookedUp f.idPassword
  | .selectUser _, .error _ => refused
  | .selectToken userId, .ok f =>
      match f.token with
      | none => absent userId
      | some token => found userId token
  | .insertToken userId, .ok f => inserted userId f.generated
  | .insertToken _, .error _ => refused
  | .selectByToken _, .ok f =>
      match f.user with
      | none => g
      | some user => resolved user.id
  | .updateToken userId, .ok f =>
      match f.token with
      | none => g
      | some token => changed userId (some token)
  | .deleteToken userId, .ok f =>
      match f.userId with
      | none => g
      | some _ => changed userId none
  | .commit, .ok _ => g.commit
  | _, _ => g

theorem Reading.not_uncommitted {g : SessionPhase} (h : g.Reading) (userId : UserId) :
    ¬ g.Uncommitted userId := by
  rintro (⟨token, rfl⟩ | ⟨new, rfl⟩)
  · exact h
  · exact h

theorem Reading.not_done {g : SessionPhase} (h : g.Reading) :
    ¬ g.Done := by
  intro hdone
  cases g with
  | created userId token => exact h
  | replaced userId new => exact h
  | _ => exact hdone

theorem Done.not_uncommitted {g : SessionPhase} (h : g.Done) (userId : UserId) :
    ¬ g.Uncommitted userId := by
  rintro (⟨token, rfl⟩ | ⟨new, rfl⟩)
  · exact h
  · exact h

theorem Uncommitted.unique {g : SessionPhase} {userId userId' : UserId}
    (h : g.Uncommitted userId) (h' : g.Uncommitted userId') :
    userId = userId' := by
  rcases h with ⟨token, rfl⟩ | ⟨new, rfl⟩
  · rcases h' with ⟨token', h'⟩ | ⟨new', h'⟩
    · cases h'
      rfl
    · cases h'
  · rcases h' with ⟨token', h'⟩ | ⟨new', h'⟩
    · cases h'
    · cases h'
      rfl

theorem commit_not_uncommitted (g : SessionPhase) (userId : UserId) :
    ¬ g.commit.Uncommitted userId := by
  cases g <;> simp [commit, Uncommitted]

theorem commit_eq_self {g : SessionPhase} (h : ∀ userId, ¬ g.Uncommitted userId) :
    g.commit = g := by
  cases g with
  | inserted userId token => exact absurd (Or.inl ⟨token, rfl⟩) (h userId)
  | changed userId new => exact absurd (Or.inr ⟨new, rfl⟩) (h userId)
  | _ => rfl

end SessionPhase

variable [PasswordLibraries]

/-- The username and the password of a login. -/
def SessionRequest.credentials : SessionRequest → Option (String × String)
  | .login data => some (data.username, data.passwordHash)
  | .docsLogin username password =>
      some (username, PasswordLibraries.sha256Hexdigest password.toUTF8)
  | .refresh _ => none
  | .logout _ => none

/-- The row that was read for a login verifies its password, for the user. -/
def SessionRequest.Checks (req : SessionRequest) (row : Option UserIdPassword)
    (userId : UserId) : Prop :=
  ∃ username password hash, req.credentials = some (username, password) ∧
    row = some ⟨userId, hash⟩ ∧ checkPassword password hash = .ok true

/-- The calls that a request makes, and in which phase. -/
def SessionRequest.Allows (req : SessionRequest) (g : SessionPhase) : SessionOp → Prop
  | .selectUser username => g = .idle ∧ ∃ password, req.credentials = some (username, password)
  | .selectToken userId => ∃ row, g = .lookedUp row ∧ req.Checks row userId
  | .insertToken userId => g = .absent userId
  | .selectByToken token => g = .idle ∧ req.presented = some token
  | .updateToken userId | .deleteToken userId =>
      g = .resolved userId ∧ ∃ token, req.presented = some token
  | .commit => True
  | .rollback | .close => ∀ userId, ¬ g.Uncommitted userId
  | .respond (.token token) => g.Holds token.accessToken
  | .respond .loggedOut => ∃ userId, g = .replaced userId none

/-- What a request has written, it commits next. -/
theorem SessionRequest.Allows.eq_commit {req : SessionRequest} {g : SessionPhase}
    {o : SessionOp} {userId : UserId} (h : req.Allows g o) (hg : g.Uncommitted userId) :
    o = .commit := by
  cases o with
  | commit => rfl
  | rollback => exact absurd hg (h userId)
  | close => exact absurd hg (h userId)
  | respond response =>
      cases response <;>
        rcases hg with ⟨token, rfl⟩ | ⟨new, rfl⟩ <;>
          simp [SessionRequest.Allows, SessionPhase.Holds] at h
  | _ => rcases hg with ⟨token, rfl⟩ | ⟨new, rfl⟩ <;> simp [SessionRequest.Allows] at h

/-- The statements that can be refused. -/
def SessionOp.refusable : SessionOp → Bool
  | .selectUser _ => true
  | .insertToken _ => true
  | _ => false

def SessionOp.Expects (o : SessionOp) (r : SessionReply) : Prop :=
  o.refusable = true ∨ ∃ f, r = .ok f

def sessionMonitor (req : SessionRequest) :
    Prog.Monitor SessionOp Fetched AuthExc SessionPhase where
  allows := req.Allows
  expects := SessionOp.Expects
  next := SessionPhase.next

/-- How a request can end. -/
def SessionRequest.Ends (req : SessionRequest) (r : Except AuthExc SessionResponse)
    (g : SessionPhase) : Prop :=
  match r with
  | .ok (.token token) => g.Holds token.accessToken
  | .ok .loggedOut => ∃ userId, g = .replaced userId none
  | .error _ =>
      (g = .idle ∧ req.credentials = none) ∨ g = .refused ∨ (∃ userId, g = .resolved userId) ∨
        ∃ row, g = .lookedUp row ∧ ∀ userId, ¬ req.Checks row userId

section Rules

variable {req : SessionRequest} {g : SessionPhase} {userId : UserId} {o : SessionOp}

theorem wp_answered {Q : SessionReply → SessionPhase → Prop} (ho : o.refusable = false) :
    (Prog.perform o : SessionProg Fetched).wp (sessionMonitor req) Q g ↔
      req.Allows g o ∧ ∀ f, Q (.ok f) (g.next o (.ok f)) := by
  simp [sessionMonitor, SessionOp.Expects, ho]

theorem wp_silent {Q : Except AuthExc Unit → SessionPhase → Prop} (ho : o.refusable = false)
    (hnext : ∀ f, g.next o (.ok f) = g) :
    (Prog.effect o : SessionProg Unit).wp (sessionMonitor req) Q g ↔
      req.Allows g o ∧ Q (.ok ()) g := by
  simp [sessionMonitor, SessionOp.Expects, ho, hnext]

theorem wp_commit {Q : Except AuthExc Unit → SessionPhase → Prop} :
    (Prog.effect .commit : SessionProg Unit).wp (sessionMonitor req) Q g ↔
      Q (.ok ()) g.commit := by
  simp [sessionMonitor, SessionOp.Expects, SessionOp.refusable, SessionRequest.Allows,
    SessionPhase.next]

/-- The session is closed however its body ends, with nothing uncommitted. -/
theorem wp_withManager {α : Type} {body : SessionProg α}
    {Q : Except AuthExc α → SessionPhase → Prop} :
    (SessionProg.withManager body).wp (sessionMonitor req) Q g ↔
      body.wp (sessionMonitor req) (fun r g => (∀ u, ¬ g.Uncommitted u) ∧ Q r g) g := by
  rw [SessionProg.withManager, Prog.wp_tryFinally]
  refine Prog.wp_congr _ fun r g => ?_
  rw [wp_silent rfl fun f => rfl]
  rfl

end Rules

section Repository

variable {req : SessionRequest} {userId : UserId}

/-- The user is read, or the statement is refused. -/
theorem wp_getUserIdPassword {username password : String}
    {Q : Except AuthExc (Option UserIdPassword) → SessionPhase → Prop}
    (h : req.credentials = some (username, password))
    (hok : ∀ row, Q (.ok row) (.lookedUp row)) (herror : ∀ e, Q (.error e) .refused) :
    (SessionProg.getUserIdPassword username).wp (sessionMonitor req) Q .idle := by
  rw [SessionProg.getUserIdPassword, wp_withManager, Prog.wp_bind, Prog.wp_perform]
  refine ⟨⟨rfl, password, h⟩, fun f _ => ?_, fun e _ => ?_⟩
  · exact ⟨by simp [SessionPhase.Uncommitted, sessionMonitor, SessionPhase.next], hok _⟩
  · exact ⟨by simp [SessionPhase.Uncommitted, sessionMonitor, SessionPhase.next], herror e⟩

/-- The token is the one found or the one created; only the INSERT can be refused. -/
theorem wp_getAccessTokenByUserId {row : Option UserIdPassword} (h : req.Checks row userId) :
    (SessionProg.getAccessTokenByUserId userId).wp (sessionMonitor req)
      (fun r g => Prog.onResult (fun token => g.Holds token) (fun _ => g = .refused) r)
      (.lookedUp row) := by
  rw [SessionProg.getAccessTokenByUserId, wp_withManager, Prog.wp_bind,
    SessionProg.getOrCreateUserToken, Prog.wp_bind, wp_answered rfl]
  refine ⟨⟨row, rfl, h⟩, fun f => ?_⟩
  obtain ⟨_, token, _, _, _⟩ := f
  cases token with
  | some token =>
      simp only [Prog.onResult_ok, Prog.wp_pure, Prog.wp_bind, wp_commit]
      simp [SessionPhase.next, SessionPhase.commit, SessionPhase.Uncommitted, SessionPhase.Holds]
  | none =>
      simp only [Prog.onResult_ok, Prog.wp_bind, Prog.wp_perform, Prog.wp_pure, wp_commit]
      refine ⟨rfl, fun inserted _ => ?_, fun e _ => ?_⟩
      · simp [sessionMonitor, SessionPhase.next, SessionPhase.commit,
          SessionPhase.Uncommitted, SessionPhase.Holds]
      · simp [sessionMonitor, SessionPhase.next, SessionPhase.Uncommitted]

/-- The presented token is resolved to a user, or the request stays where it was. -/
theorem wp_getUserByToken {token : UUID}
    {Q : Except AuthExc (Option User) → SessionPhase → Prop} (h : req.presented = some token)
    (hsome : ∀ user, Q (.ok (some user)) (.resolved user.id)) (hnone : Q (.ok none) .idle) :
    (SessionProg.getUserByToken token).wp (sessionMonitor req) Q .idle := by
  rw [SessionProg.getUserByToken, wp_withManager, Prog.wp_bind, wp_answered rfl]
  refine ⟨⟨rfl, h⟩, fun f => ?_⟩
  obtain ⟨_, _, _, user, _⟩ := f
  cases user with
  | some user => exact ⟨by simp [SessionPhase.Uncommitted, SessionPhase.next], hsome user⟩
  | none => exact ⟨by simp [SessionPhase.Uncommitted, SessionPhase.next], hnone⟩

theorem wp_refreshUserToken (h : ∃ token, req.presented = some token) :
    (SessionProg.refreshUserToken userId).wp (sessionMonitor req)
      (fun r g => ∃ new, r = .ok new ∧
        g = new.elim (.resolved userId) fun token => .replaced userId (some token))
      (.resolved userId) := by
  rw [SessionProg.refreshUserToken, wp_withManager, Prog.wp_bind, wp_answered rfl]
  refine ⟨⟨rfl, h⟩, fun f => ?_⟩
  obtain ⟨_, token, _, _, _⟩ := f
  simp only [Prog.onResult_ok, Prog.wp_bind, Prog.wp_pure, wp_commit]
  cases token <;>
    simp [SessionPhase.next, SessionPhase.commit, SessionPhase.Uncommitted]

theorem wp_deleteTokenRow (h : ∃ token, req.presented = some token) :
    (SessionProg.deleteTokenRow userId).wp (sessionMonitor req)
      (fun r g => ∃ deleted, r = .ok deleted ∧
        g = deleted.elim (.resolved userId) fun _ => .replaced userId none)
      (.resolved userId) := by
  rw [SessionProg.deleteTokenRow, wp_withManager, Prog.wp_bind, wp_answered rfl]
  refine ⟨⟨rfl, h⟩, fun f => ?_⟩
  obtain ⟨_, _, _, _, id⟩ := f
  simp only [Prog.onResult_ok, Prog.wp_bind, Prog.wp_pure, wp_commit]
  cases id <;>
    simp [SessionPhase.next, SessionPhase.commit, SessionPhase.Uncommitted]

end Repository

section Requests

variable {req : SessionRequest} {userId : UserId}

/-- A login ends with a token it holds, or was refused, or its password does not verify. -/
theorem wp_tokenFor {username password : String}
    (h : req.credentials = some (username, password)) :
    (SessionProg.tokenFor username password).wp (sessionMonitor req)
      (fun r g => req.Ends (r.map .token) g) .idle := by
  rw [SessionProg.tokenFor, Prog.wp_bind]
  refine wp_getUserIdPassword h (fun row => ?_) fun e => Or.inr (Or.inl rfl)
  have hunique : ∀ userId, req.Checks row userId →
      ∃ hash, row = some ⟨userId, hash⟩ ∧ checkPassword password hash = .ok true := by
    rintro userId ⟨username', password', hash, hcredentials, hrow, hcheck⟩
    rw [h] at hcredentials
    cases hcredentials
    exact ⟨hash, hrow, hcheck⟩
  rw [Prog.onResult_ok]
  cases row with
  | none =>
      refine Or.inr (Or.inr (Or.inr ⟨none, rfl, fun userId hchecks => ?_⟩))
      obtain ⟨hash, hrow, -⟩ := hunique userId hchecks
      cases hrow
  | some idWithHash =>
      have hfails : checkPassword password idWithHash.passwordHash ≠ .ok true →
          ∀ userId, ¬ req.Checks (some idWithHash) userId := by
        intro hno userId hchecks
        obtain ⟨hash, hrow, hcheck⟩ := hunique userId hchecks
        cases hrow
        exact hno hcheck
      dsimp only
      cases hcheck : checkPassword password idWithHash.passwordHash with
      | error e =>
          exact Or.inr (Or.inr (Or.inr ⟨_, rfl, hfails (by simp [hcheck])⟩))
      | ok correct =>
          cases correct with
          | false =>
              exact Or.inr (Or.inr (Or.inr ⟨_, rfl, hfails (by simp [hcheck])⟩))
          | true =>
              have hchecks : req.Checks (some idWithHash) idWithHash.userId :=
                ⟨username, password, idWithHash.passwordHash, h, rfl, hcheck⟩
              dsimp only
              rw [Prog.wp_bind]
              refine Prog.wp_mono _ (wp_getAccessTokenByUserId hchecks) fun r g hr => ?_
              cases r with
              | ok token => exact hr
              | error e => exact Or.inr (Or.inl hr)

/-- Only a token that is resolved lets a request go on. -/
theorem wp_authorization :
    (SessionProg.authorization 0 req.presented).wp (sessionMonitor req)
      (fun r g => Prog.onResult
        (fun user => g = .resolved user.id ∧ ∃ token, req.presented = some token)
        (fun _ => g = .idle ∨ ∃ userId, g = .resolved userId) r) .idle := by
  cases h : req.presented with
  | none =>
      exact Or.inl rfl
  | some token =>
      rw [SessionProg.authorization, Prog.wp_bind]
      refine wp_getUserByToken h (fun user => ?_) (Or.inl rfl)
      rw [Prog.onResult_ok]
      dsimp only
      cases user.privileges with
      | none =>
          exact Or.inr ⟨user.id, rfl⟩
      | some privileges =>
          dsimp only
          split
          · exact Or.inr ⟨user.id, rfl⟩
          · exact ⟨rfl, token, rfl⟩

theorem wp_refreshToken (h : ∃ token, req.presented = some token) :
    (SessionProg.refreshToken userId).wp (sessionMonitor req)
      (fun r g => req.Ends (r.map .token) g) (.resolved userId) := by
  rw [SessionProg.refreshToken, Prog.wp_bind]
  refine Prog.wp_mono _ (wp_refreshUserToken h) ?_
  rintro r g ⟨new, rfl, rfl⟩
  cases new with
  | none => exact Or.inr (Or.inr (Or.inl ⟨userId, rfl⟩))
  | some token => exact ⟨userId, Or.inr (Or.inr rfl)⟩

theorem wp_deleteToken (h : ∃ token, req.presented = some token) :
    (SessionProg.deleteToken userId).wp (sessionMonitor req)
      (fun r g => req.Ends (r.map fun _ => .loggedOut) g) (.resolved userId) := by
  rw [SessionProg.deleteToken, Prog.wp_bind]
  refine Prog.wp_mono _ (wp_deleteTokenRow h) ?_
  rintro r g ⟨deleted, rfl, rfl⟩
  cases deleted with
  | none => exact Or.inr (Or.inr (Or.inl ⟨userId, rfl⟩))
  | some id => exact ⟨userId, rfl⟩

/-- What the endpoint answers is what the domain function ends with. -/
theorem wp_login {body : SessionProg AccessTokenResponse}
    (h : body.wp (sessionMonitor req) (fun r g => req.Ends (r.map .token) g) .idle) :
    (do
      let token ← Prog.tryCatch body fun e => .raise (SessionProg.loginExcept e)
      pure (.token token) : SessionProg SessionResponse).wp (sessionMonitor req) req.Ends .idle := by
  rw [Prog.wp_bind, Prog.wp_tryCatch]
  refine Prog.wp_mono _ h fun r g hr => ?_
  cases r with
  | ok token => exact hr
  | error e => exact hr

/-- A request with a token goes on to its domain function, or ends with nothing written. -/
theorem wp_authorized {rest : User → SessionProg SessionResponse} (hno : req.credentials = none)
    (hrest : ∀ user : User, (∃ token, req.presented = some token) →
      (rest user).wp (sessionMonitor req) req.Ends (.resolved user.id)) :
    (SessionProg.authorization 0 req.presented >>= rest).wp (sessionMonitor req) req.Ends .idle := by
  rw [Prog.wp_bind]
  refine Prog.wp_mono _ wp_authorization fun r g hr => ?_
  cases r with
  | error e =>
      rcases hr with hidle | hresolved
      · exact Or.inl ⟨hidle, hno⟩
      · exact Or.inr (Or.inr (Or.inl hresolved))
  | ok user =>
      obtain ⟨rfl, hpresented⟩ := hr
      exact hrest user hpresented

theorem wp_handler (req : SessionRequest) :
    req.handler.wp (sessionMonitor req) req.Ends .idle := by
  cases req with
  | login data =>
      exact wp_login (wp_tokenFor rfl)
  | docsLogin username password =>
      exact wp_login (wp_tokenFor rfl)
  | refresh token =>
      refine wp_authorized rfl fun user hpresented => ?_
      rw [Prog.wp_bind, Prog.wp_tryCatch]
      refine Prog.wp_mono _ (wp_refreshToken hpresented) fun r g hr => ?_
      cases r with
      | ok token => exact hr
      | error e => exact hr
  | logout token =>
      refine wp_authorized rfl fun user hpresented => ?_
      rw [Prog.wp_bind, Prog.wp_tryCatch, Prog.wp_bind]
      refine Prog.wp_mono _ (wp_deleteToken hpresented) fun r g hr => ?_
      cases r with
      | ok id => exact hr
      | error e => exact hr

theorem SessionRequest.Ends.not_uncommitted {r : Except AuthExc SessionResponse}
    {g : SessionPhase} (h : req.Ends r g) (u : UserId) :
    ¬ g.Uncommitted u := by
  rintro (⟨token, rfl⟩ | ⟨new, rfl⟩)
  · rcases r with e | token' | _ <;> simp [SessionRequest.Ends, SessionPhase.Holds] at h
  · rcases r with e | token' | _ <;> simp [SessionRequest.Ends, SessionPhase.Holds] at h

/-- Every request keeps to the monitor, whatever its statements return. -/
theorem wp_program (req : SessionRequest) :
    req.program.wp (sessionMonitor req) req.Ends .idle := by
  have hclose : ∀ {r : Except AuthExc SessionResponse} {g : SessionPhase}, req.Ends r g →
      (Prog.effect .close : SessionProg Unit).wp (sessionMonitor req)
        (fun r' g' => Prog.onResult (fun _ => req.Ends r g') (fun e => req.Ends (.error e) g') r')
        g := by
    intro r g h
    rw [wp_silent rfl fun f => rfl]
    exact ⟨h.not_uncommitted, h⟩
  rw [SessionRequest.program, SessionProg.getDb, Prog.wp_tryFinally, Prog.wp_tryCatch, Prog.wp_bind]
  refine Prog.wp_mono _ (wp_handler req) fun r g h => ?_
  cases r with
  | error e =>
      rw [Prog.onResult_error, Prog.onResult_error, Prog.wp_bind, wp_silent rfl fun f => rfl]
      exact ⟨h.not_uncommitted, hclose h⟩
  | ok response =>
      rw [Prog.onResult_ok, Prog.wp_bind, wp_silent rfl fun f => rfl]
      refine ⟨?_, ?_⟩
      · cases response with
        | token token => exact h
        | loggedOut => exact h
      · rw [Prog.onResult_ok, Prog.wp_bind, wp_commit,
      SessionPhase.commit_eq_self h.not_uncommitted]
        exact hclose h

end Requests

end SessionPhases

end SmartHttpRequester
