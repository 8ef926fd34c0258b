import SmartHttpRequester.LoginRaces
import SmartHttpRequester.SessionStories
import SmartHttpRequester.TokenExchange

/-!
# The moments of a session request

`AuthRequests` takes every request in one piece, `SessionSystem` statement by
statement.  Each call of a request either leaves the committed tables alone or is the
moment at which the request does something: what it does then, it does as
`authorization` or a request of `AuthRequests` on the committed tables
(`moment_of_call`).

A login has its moment when it fails or finds a row, otherwise at the commit of its
INSERT; a refresh or logout when it finds no row, otherwise at the commit.  An event
takes the time and the UUID of the statement that wrote the row, not of the commit.
-/

namespace SmartHttpRequester

open Foundations Function

section SessionMoments

/-- Something a session request does, with its time and its UUID. -/
structure SessionEvent where
  act : SessionAct
  now : Timestamp
  gen : UUID

variable [PasswordLibraries]

/-- It is done at once, on the committed tables. -/
def SessionEvent.Happens (presented : Option UUID) (e : SessionEvent)
    (before after : AuthDb) : Prop :=
  match e.act with
  | .authorized reply => authorization 0 e.now presented before = reply ∧ after = before
  | .performed request reply =>
      AuthStep.perform ⟨request, e.now, e.gen, 0⟩ before = (reply, after)

/--
A step that does the act, with the time and the UUID of a choice as given; a step
that does nothing leaves the committed tables alone.
-/
def Moment (P : SessionChoice → Prop) (presented : Option UUID) (act : Option SessionAct)
    (before after : AuthDb) : Prop :=
  (act = none ∧ after = before) ∨
  ∃ e : SessionEvent,
    act = some e.act ∧
    e.Happens presented before after ∧
    ∃ c, P c ∧ e.now = c.now ∧ e.gen = c.gen

section Requests

variable {req : SessionRequest} {request : AuthRequest} {username password : String}
variable {db db' : AuthDb} {now : Timestamp} {gen : UUID} {u : UserId} {e : AuthExc}

theorem SessionRequest.exists_asLogin (h : req.credentials = some (username, password)) :
    ∃ request, req.asLogin = some request := by
  cases req with
  | login data => exact ⟨_, rfl⟩
  | docsLogin username password => exact ⟨_, rfl⟩
  | refresh token => cases h
  | logout token => cases h

theorem SessionRequest.LogsInAs.exists_asLogin (h : req.LogsInAs db u) :
    ∃ request, req.asLogin = some request ∧ request.LogsIn db u := by
  obtain ⟨username, password, hcredentials, hverifies⟩ := h
  cases req with
  | login data =>
      cases hcredentials
      exact ⟨_, rfl, hverifies⟩
  | docsLogin username' password' =>
      cases hcredentials
      exact ⟨_, rfl, hverifies⟩
  | refresh token => cases hcredentials
  | logout token => cases hcredentials

theorem SessionRequest.LogsInAs.congr (h : req.LogsInAs db u) (husers : db.users = db'.users) :
    req.LogsInAs db' u := by
  obtain ⟨username, password, hcredentials, hash, hfound, hcheck⟩ := h
  refine ⟨username, password, hcredentials, hash, ?_, hcheck⟩
  rw [← getUserIdPassword_congr husers, hfound]

/-- A login that fails early fails like this on its own, too. -/
theorem tokenFor_of_failure (h : loginFailure password (getUserIdPassword username db) = some e) :
    tokenFor username password now gen db = (.error e, db) := by
  unfold tokenFor
  cases hfound : getUserIdPassword username db with
  | error e' =>
      rw [hfound] at h
      cases h
      rfl
  | ok found =>
      rw [hfound] at h
      cases found with
      | none =>
          cases h
          rfl
      | some idWithHash =>
          cases hcheck : checkPassword password idWithHash.passwordHash with
          | error e' =>
              simp only [loginFailure, hcheck] at h ⊢
              cases h
              rfl
          | ok correct =>
              cases correct with
              | false =>
                  simp only [loginFailure, hcheck] at h ⊢
                  cases h
                  rfl
              | true => simp [loginFailure, hcheck] at h

theorem perform_of_failure (hlogin : req.asLogin = some request)
    (hcredentials : req.credentials = some (username, password))
    (h : loginFailure password (getUserIdPassword username db) = some e) :
    AuthStep.perform ⟨request, now, gen, 0⟩ db = (.error e, db) := by
  cases req with
  | login data =>
      cases hlogin
      cases hcredentials
      simp only [AuthStep.perform, getToken, tokenFor_of_failure h]
      rfl
  | docsLogin username' password' =>
      cases hlogin
      cases hcredentials
      simp only [AuthStep.perform, getTokenForDocs, tokenFor_of_failure h]
      rfl
  | refresh token => cases hlogin
  | logout token => cases hlogin

omit [PasswordLibraries] in
theorem authorization_eq_admission {token : UUID} :
    authorization 0 now (some token) db = admission (getUserByToken now token db) := by
  rw [authorization]
  cases getUserByToken now token db <;> rfl

omit [PasswordLibraries] in
theorem AuthDb.setToken_eq_self {row : Option TokenRow} (hrow : db.tokens u = row)
    (h : row.isSome = true → u ∈ db.users.map UserRow.id) : db.setToken u row h = db := by
  have htokens : update db.tokens u row = db.tokens := update_eq_self_iff.2 hrow.symm
  cases db
  simp only [AuthDb.setToken, AuthDb.mk.injEq, true_and] at htokens ⊢
  exact htokens

theorem perform_refresh_of_none (h : db.tokens u = none) :
    AuthStep.perform ⟨.refresh u, now, gen, 0⟩ db = (.error .userDoesNotExists, db) := by
  simp only [AuthStep.perform, refreshToken, refreshUserToken_of_none h]
  rfl

theorem perform_refresh_of_some {row : TokenRow} (h : db.tokens u = some row)
    (hu : u ∈ db.users.map UserRow.id) :
    AuthStep.perform ⟨.refresh u, now, gen, 0⟩ db =
      (.ok (.token { accessToken := gen }),
        db.setToken u (some ⟨gen, now + tokenLifetime⟩) fun _ => hu) := by
  have hrefreshed : refreshUserToken u now gen db =
      (some gen, db.setToken u (some ⟨gen, now + tokenLifetime⟩) fun _ => hu) := by
    unfold refreshUserToken
    split
    · rename_i hnone
      rw [h] at hnone
      cases hnone
    · rfl
  simp only [AuthStep.perform, refreshToken, hrefreshed]
  rfl

theorem perform_logout_of_none (h : db.tokens u = none) :
    AuthStep.perform ⟨.logout u, now, gen, 0⟩ db = (.error .userDoesNotExists, db) := by
  simp only [AuthStep.perform, deleteToken, deleteTokenRow, h, AuthDb.setToken_eq_self h]
  rfl

theorem perform_logout_of_some {row : TokenRow} (h : db.tokens u = some row) :
    AuthStep.perform ⟨.logout u, now, gen, 0⟩ db =
      (.ok (.loggedOut u), db.setToken u none (by simp)) := by
  simp only [AuthStep.perform, deleteToken, deleteTokenRow, h]
  rfl

end Requests

section Commits

variable {ι : Type} [DecidableEq ι] {w : SessionWorld ι} {i : ι} {u : UserId}
variable {new : Option TokenRow}

omit [PasswordLibraries] in
theorem commit_db (hown : w.pending u = some (i, new))
    (honly : ∀ k new, w.pending k = some (i, new) → k = u)
    (h : new.isSome = true → u ∈ w.db.users.map UserRow.id) :
    (w.commit i).db = w.db.setToken u new h := by
  have htokens := commit_tokens hown honly
  simp only [SessionWorld.commit, SessionWorld.seen, AuthDb.setToken, AuthDb.mk.injEq,
    true_and] at htokens ⊢
  exact htokens

omit [PasswordLibraries] in
/-- A request that has written nothing sees the committed tables. -/
theorem seen_db (h : ∀ k new, w.pending k ≠ some (i, new)) : w.seen i = w.db := by
  have htokens : (fun k => w.row i k) = w.db.tokens :=
    funext fun k => SessionWorld.row_of_not_pending (h k)
  cases hdb : w.db
  simp only [SessionWorld.seen, hdb, AuthDb.mk.injEq, true_and] at htokens ⊢
  exact htokens

end Commits

section Calls

variable {ι : Type} [DecidableEq ι] {req : SessionRequest}
variable {w w' : SessionWorld ι} {g g' : SessionPhase} {phases : ι → SessionPhase} {i : ι}
variable {c : SessionChoice} {o : SessionOp} {r : SessionReply} {db : AuthDb} {u : UserId}

/-- What a login has read of the users is in the tables. -/
def SessionPhase.Verified (req : SessionRequest) (db : AuthDb) : SessionPhase → Prop
  | .lookedUp row =>
      ∃ username password,
        req.credentials = some (username, password) ∧ getUserIdPassword username db = .ok row
  | .absent userId => req.LogsInAs db userId
  | .inserted userId _ => req.LogsInAs db userId
  | _ => True

omit [DecidableEq ι] in
theorem SessionPhase.Verified.congr {db' : AuthDb} (h : g.Verified req db)
    (husers : db.users = db'.users) : g.Verified req db' := by
  cases g with
  | lookedUp row =>
      obtain ⟨username, password, hcredentials, hfound⟩ := h
      exact ⟨username, password, hcredentials, getUserIdPassword_congr husers username ▸ hfound⟩
  | absent userId => exact SessionRequest.LogsInAs.congr h husers
  | inserted userId token => exact SessionRequest.LogsInAs.congr h husers
  | _ => trivial

/-- The row that was looked up verifies, so the request logs the user in. -/
theorem SessionPhase.Verified.logsInAs {row : Option UserIdPassword}
    (h : (SessionPhase.lookedUp row).Verified req db) (hchecks : req.Checks row u) :
    req.LogsInAs db u := by
  obtain ⟨username, password, hcredentials, hfound⟩ := h
  obtain ⟨username', password', hash, hcredentials', rfl, hcheck⟩ := hchecks
  rw [hcredentials] at hcredentials'
  cases hcredentials'
  exact ⟨username, password, hcredentials, hash, hfound, hcheck⟩

theorem SessionPhase.Verified.call (h : g.Verified req w.db) (hallows : req.Allows g o)
    (hcall : sessionCall i c o w = some (r, w')) : (g.next o r).Verified req w.db := by
  cases o with
  | selectUser username =>
      obtain ⟨-, password, hcredentials⟩ := hallows
      cases hcall
      cases hfound : getUserIdPassword username w.db with
      | error e => trivial
      | ok row => exact ⟨username, password, hcredentials, hfound⟩
  | selectToken userId =>
      obtain ⟨row, rfl, hchecks⟩ := hallows
      cases hcall
      cases w.row i userId with
      | none => exact h.logsInAs hchecks
      | some row => trivial
  | insertToken userId =>
      have hphase : g = .absent userId := hallows
      subst hphase
      obtain ⟨-, ⟨-, e, rfl, -⟩ | ⟨-, rfl, -⟩⟩ := insertTokenRow_cases hcall
      · trivial
      · exact h
  | selectByToken token =>
      cases hcall
      cases getUserByToken c.now token (w.seen i) with
      | none => exact h
      | some user => trivial
  | updateToken userId =>
      rcases changeTokenRow_cases hcall with ⟨-, rfl⟩ | ⟨row, -, -, rfl, -⟩
      · exact h
      · trivial
  | deleteToken userId =>
      rcases changeTokenRow_cases hcall with ⟨-, rfl⟩ | ⟨row, -, -, rfl, -⟩
      · exact h
      · trivial
  | commit =>
      cases hcall
      cases g with
      | lookedUp row => exact h
      | absent userId => exact h
      | _ => trivial
  | rollback =>
      cases hcall
      exact h
  | close =>
      cases hcall
      exact h
  | respond response =>
      cases hcall
      exact h

omit [PasswordLibraries] in
theorem changeTokenRow_row {new : Option TokenRow} {returning : Fetched}
    (h : changeTokenRow i u new returning w = some (r, w')) :
    (w.row i u = none ∧ r = .ok {} ∧ w'.db = w.db) ∨
    ((w.row i u).isSome = true ∧ r = .ok returning ∧ w'.db = w.db) := by
  unfold changeTokenRow at h
  split at h
  · rename_i hrow
    split at h
    · cases h
    · cases h
      exact Or.inr ⟨hrow, rfl, rfl⟩
  · rename_i hrow
    cases h
    exact Or.inl ⟨by simpa using hrow, rfl, rfl⟩

theorem Moment.of_choice {P : SessionChoice → Prop} {presented : Option UUID} {act : SessionAct}
    {before after : AuthDb} (hP : P c)
    (h : (⟨act, c.now, c.gen⟩ : SessionEvent).Happens presented before after) :
    Moment P presented (some act) before after :=
  Or.inr ⟨⟨act, c.now, c.gen⟩, rfl, h, c, hP, rfl, rfl⟩

/-- The first SELECT of a login: if it fails, the login fails. -/
theorem moment_of_selectUser {P : SessionChoice → Prop} {username password : String}
    (hcredentials : req.credentials = some (username, password)) (hP : P c) :
    Moment P req.presented
      (req.failsAt ((getUserIdPassword username db).map fun row => { idPassword := row }))
      db db := by
  obtain ⟨request, hlogin⟩ := SessionRequest.exists_asLogin hcredentials
  have hanswer : ((getUserIdPassword username db).map
      fun row => ({ idPassword := row } : Fetched)).map Fetched.idPassword =
        getUserIdPassword username db := by
    cases getUserIdPassword username db <;> rfl
  rw [SessionRequest.failsAt_eq hlogin hcredentials, hanswer]
  cases hfailure : loginFailure password (getUserIdPassword username db) with
  | none => exact Or.inl ⟨rfl, rfl⟩
  | some e => exact .of_choice hP (perform_of_failure hlogin hcredentials hfailure)

/-- The SELECT on `tokens`: a login that finds a row answers its token. -/
theorem moment_of_selectToken {P : SessionChoice → Prop} (hlogs : req.LogsInAs db u) (hP : P c) :
    Moment P req.presented (((db.tokens u).map TokenRow.accessToken).bind req.logsIn) db db := by
  obtain ⟨request, hlogin, hrequest⟩ := SessionRequest.LogsInAs.exists_asLogin hlogs
  cases hrow : db.tokens u with
  | none => exact Or.inl ⟨rfl, rfl⟩
  | some row =>
      rw [Option.map_some, Option.bind_some, SessionRequest.logsIn_eq hlogin]
      refine .of_choice hP ?_
      show AuthStep.perform ⟨request, c.now, c.gen, 0⟩ db = (_, db)
      rw [perform_of_logsIn hrequest, getOrCreateUserToken_of_some hrow]
      rfl

theorem moment_of_selectByToken {P : SessionChoice → Prop} {token : UUID}
    (hpresented : req.presented = some token) (hP : P c) :
    Moment P req.presented (some (.authorized (admission (getUserByToken c.now token db))))
      db db := by
  refine .of_choice hP ⟨?_, rfl⟩
  rw [hpresented, authorization_eq_admission]

/-- What the commit of a request does that has written the row of a user. -/
theorem moment_of_commit {P : SessionChoice → Prop} (hcoupled : RowsCoupled w phases)
    (hverified : (phases i).Verified req w.db)
    (hwritten : ∀ k row, w.pending k = some (i, some row) →
      ∃ c, P c ∧ row = ⟨c.gen, c.now + tokenLifetime⟩)
    (hP : P c) {new : Option TokenRow} (hown : w.pending u = some (i, new)) :
    Moment P req.presented (req.commits (phases i)) w.db (w.commit i).db := by
  have hopen := hcoupled.uncommitted hown
  have honly : ∀ k new', w.pending k = some (i, new') → k = u :=
    fun k new' hk => (hcoupled.uncommitted hk).unique hopen
  rcases hcoupled u i new hown with ⟨row, rfl, hphase, hnone⟩ | ⟨hphase, hsome⟩
  · -- a login has inserted the row, and there is still none in the table
    rw [hphase] at hverified ⊢
    obtain ⟨request, hlogin, hlogs⟩ := SessionRequest.LogsInAs.exists_asLogin hverified
    obtain ⟨c', hc', rfl⟩ := hwritten u row hown
    rw [SessionRequest.commits, SessionRequest.logsIn_eq hlogin]
    refine .of_choice hc' ?_
    show AuthStep.perform ⟨request, c'.now, c'.gen, 0⟩ w.db = (_, (w.commit i).db)
    rw [perform_of_logsIn hlogs, getOrCreateUserToken_of_none hnone hlogs.mem_users,
      commit_db hown honly fun _ => hlogs.mem_users]
    rfl
  · obtain ⟨old, hold⟩ := Option.isSome_iff_exists.1 hsome
    have hu : u ∈ w.db.users.map UserRow.id := w.db.references u hsome
    rw [hphase]
    cases new with
    | none =>
        refine .of_choice hP ?_
        show AuthStep.perform ⟨.logout u, c.now, c.gen, 0⟩ w.db = (_, (w.commit i).db)
        rw [perform_logout_of_some hold, commit_db hown honly]
    | some row =>
        -- the event has the time and the UUID of the UPDATE, not of the commit
        obtain ⟨c', hc', rfl⟩ := hwritten u row hown
        refine .of_choice hc' ?_
        show AuthStep.perform ⟨.refresh u, c'.now, c'.gen, 0⟩ w.db = (_, (w.commit i).db)
        rw [perform_refresh_of_some hold hu, commit_db hown honly fun _ => hu]

/-- Every call of a request is the moment of what it does. -/
theorem moment_of_call {P : SessionChoice → Prop} (hallows : req.Allows (phases i) o)
    (hcoupled : RowsCoupled w phases)
    (hheld : ∀ k, (phases i).Uncommitted k → ∃ new, w.pending k = some (i, new))
    (hverified : (phases i).Verified req w.db)
    (hwritten : ∀ k row, w.pending k = some (i, some row) →
      ∃ c, P c ∧ row = ⟨c.gen, c.now + tokenLifetime⟩)
    (hP : P c) (hcall : sessionCall i c o w = some (r, w')) :
    Moment P req.presented (req.does (phases i) o r) w.db w'.db := by
  cases o with
  | selectUser username =>
      obtain ⟨-, password, hcredentials⟩ := hallows
      cases hcall
      exact moment_of_selectUser hcredentials hP
  | selectToken userId =>
      obtain ⟨row, hphase, hchecks⟩ := hallows
      have hrow : w.row i userId = w.db.tokens userId :=
        hcoupled.row_eq (by simp [hphase, SessionPhase.Uncommitted]) userId
      rw [hphase] at hverified
      cases hcall
      rw [hrow]
      exact moment_of_selectToken (hverified.logsInAs hchecks) hP
  | insertToken userId =>
      obtain ⟨-, ⟨rfl, e, rfl, -⟩ | ⟨-, rfl, hnew, rfl⟩⟩ := insertTokenRow_cases hcall
      · exact Or.inl ⟨rfl, rfl⟩
      · exact Or.inl ⟨rfl, rfl⟩
  | selectByToken token =>
      obtain ⟨hphase, hpresented⟩ := hallows
      have hseen : w.seen i = w.db :=
        seen_db (hcoupled.not_pending (by simp [hphase, SessionPhase.Uncommitted]))
      cases hcall
      rw [hseen]
      exact moment_of_selectByToken hpresented hP
  | updateToken userId =>
      obtain ⟨hphase, -⟩ := hallows
      have hrow : w.row i userId = w.db.tokens userId :=
        hcoupled.row_eq (by simp [hphase, SessionPhase.Uncommitted]) userId
      rcases changeTokenRow_row hcall with ⟨hnone, rfl, hdb⟩ | ⟨-, rfl, hdb⟩
      · rw [hdb]
        exact .of_choice hP (perform_refresh_of_none (hrow ▸ hnone))
      · exact Or.inl ⟨rfl, hdb⟩
  | deleteToken userId =>
      obtain ⟨hphase, -⟩ := hallows
      have hrow : w.row i userId = w.db.tokens userId :=
        hcoupled.row_eq (by simp [hphase, SessionPhase.Uncommitted]) userId
      rcases changeTokenRow_row hcall with ⟨hnone, rfl, hdb⟩ | ⟨-, rfl, hdb⟩
      · rw [hdb]
        exact .of_choice hP (perform_logout_of_none (hrow ▸ hnone))
      · exact Or.inl ⟨rfl, hdb⟩
  | commit =>
      cases hcall
      by_cases hopen : ∃ k, (phases i).Uncommitted k
      · obtain ⟨k, hk⟩ := hopen
        obtain ⟨new, hown⟩ := hheld k hk
        exact moment_of_commit hcoupled hverified hwritten hP hown
      · have hno : ∀ k, ¬ (phases i).Uncommitted k := fun k hk => hopen ⟨k, hk⟩
        exact Or.inl ⟨SessionRequest.commits_eq_none hno, seen_db (hcoupled.not_pending hno)⟩
  | rollback =>
      cases hcall
      exact Or.inl ⟨rfl, rfl⟩
  | close =>
      cases hcall
      exact Or.inl ⟨rfl, rfl⟩
  | respond response =>
      cases hcall
      exact Or.inl ⟨rfl, rfl⟩

omit [PasswordLibraries] in
theorem SessionEffect.users_eq (h : SessionEffect req i c w g o w' g') :
    w'.db.users = w.db.users := by
  rcases h.db_eq with hdb | rfl
  · rw [hdb]
  · rfl

omit [PasswordLibraries] in
/-- A row that is not committed has been written by a call of its request. -/
theorem SessionEffect.written {P : ι → SessionChoice → Prop} {j : ι} {row : TokenRow}
    (h : SessionEffect req i c w g o w' g') (hP : P i c)
    (hwritten : ∀ k j row, w.pending k = some (j, some row) →
      ∃ c, P j c ∧ row = ⟨c.gen, c.now + tokenLifetime⟩)
    (hpending : w'.pending u = some (j, some row)) :
    ∃ c, P j c ∧ row = ⟨c.gen, c.now + tokenLifetime⟩ := by
  have hwrite : ∀ {k : UserId} {new : Option TokenRow},
      (∀ row', new = some row' → row' = ⟨c.gen, c.now + tokenLifetime⟩) →
      update w.pending k (some (i, new)) u = some (j, some row) →
      ∃ c, P j c ∧ row = ⟨c.gen, c.now + tokenLifetime⟩ := by
    intro k new hnew hupdate
    by_cases hk : u = k
    · subst hk
      rw [update_self] at hupdate
      cases hupdate
      exact ⟨c, hP, hnew row rfl⟩
    · rw [update_of_ne hk] at hupdate
      exact hwritten u j row hupdate
  cases h with
  | stays => exact hwritten u j row hpending
  | reads hbefore hafter => exact hwritten u j row hpending
  | inserts hg hfree hrow hnew =>
      exact hwrite (fun row' hrow' => (Option.some.inj hrow').symm) hpending
  | changes ho hg hpresented hfree hrow hgen hnew => exact hwrite hgen hpending
  | commits => exact hwritten u j row (SessionWorld.commit_pending.1 hpending).2
  | rollsBack hbefore => exact hwritten u j row (SessionWorld.rollback_pending.1 hpending).2

end Calls

end SessionMoments

end SmartHttpRequester
