import SmartHttpRequester.Foundations.Interleaving
import SmartHttpRequester.Foundations.ReadCommitted
import SmartHttpRequester.SessionPrograms

/-!
# Sessions under READ COMMITTED

Any number of requests run interleaved, one statement at a time, against the
committed tables and at most one uncommitted version of each row of `tokens`.
An INSERT on a key with a version of another transaction waits, and is refused
once that version is committed.

A step chooses the time and what `gen_random_uuid()` returns.  A request may be
abandoned before any of its statements; the server then rolls it back.

Alone, the statements of a request do what `AuthRequests` says
(`eval_tokenFor`, `eval_refreshToken`, `eval_deleteToken`).
-/

namespace SmartHttpRequester

open Foundations Function

section SessionSystem

/-- The committed tables, and the uncommitted rows of `tokens`; `none` is a deleted row. -/
structure SessionWorld (ι : Type) where
  db : AuthDb
  pending : UserId → Option (ι × Option TokenRow)
  references : ∀ userId i row, pending userId = some (i, some row) →
    userId ∈ db.users.map UserRow.id

/-- The time of a statement, and what `gen_random_uuid()` returns to it. -/
structure SessionChoice where
  now : Timestamp := 0
  gen : UUID := 0

variable {ι : Type}

namespace SessionWorld

/-- The committed and the uncommitted version of the row of a user. -/
def slot (userId : UserId) (w : SessionWorld ι) : Slot ι (Option TokenRow) :=
  ⟨some (w.db.tokens userId), w.pending userId⟩

/-- Nothing is uncommitted. -/
def quiet (ι : Type) (db : AuthDb) : SessionWorld ι where
  db := db
  pending := fun _ => none
  references := by simp

variable [DecidableEq ι]

/-- The row of a user as the statements of request `i` see it. -/
def row (i : ι) (userId : UserId) (w : SessionWorld ι) : Option TokenRow :=
  ((w.slot userId).visible i).join

theorem mem_users_of_row {i : ι} {userId : UserId} {w : SessionWorld ι}
    (h : (w.row i userId).isSome = true) :
    userId ∈ w.db.users.map UserRow.id := by
  obtain ⟨row, hrow⟩ := Option.isSome_iff_exists.1 h
  unfold SessionWorld.row at hrow
  rcases Slot.visible_cases i (w.slot userId) with ⟨v, hv, hvisible⟩ | ⟨-, hvisible⟩
  · rw [hvisible] at hrow
    obtain rfl : v = some row := hrow
    exact w.references userId i row hv
  · rw [hvisible] at hrow
    have hrow : w.db.tokens userId = some row := hrow
    exact w.db.references userId (by simp [hrow])

/-- The tables as the statements of request `i` see them. -/
def seen (i : ι) (w : SessionWorld ι) : AuthDb :=
  { w.db with
    tokens := fun userId => w.row i userId
    references := fun _ h => mem_users_of_row h }

def write (i : ι) (userId : UserId) (new : Option TokenRow) (w : SessionWorld ι)
    (h : new.isSome = true → userId ∈ w.db.users.map UserRow.id) : SessionWorld ι :=
  { w with
    pending := update w.pending userId (some (i, new))
    references := by
      intro k j row hrow
      by_cases hk : k = userId
      · subst hk
        rw [update_self] at hrow
        cases hrow
        exact h rfl
      · rw [update_of_ne hk] at hrow
        exact w.references k j row hrow }

/-- COMMIT. -/
def commit (i : ι) (w : SessionWorld ι) : SessionWorld ι where
  db := w.seen i
  pending userId := ((w.slot userId).commit i).pending
  references := by
    intro userId j row h
    exact w.references userId j row (Slot.commit_pending.1 h).2

/-- ROLLBACK. -/
def rollback (i : ι) (w : SessionWorld ι) : SessionWorld ι :=
  { w with
    pending := fun userId => ((w.slot userId).rollback i).pending
    references := by
      intro userId j row h
      exact w.references userId j row (Slot.rollback_pending.1 h).2 }

end SessionWorld

variable [DecidableEq ι]

abbrev SessionReply := Except AuthExc Fetched

/-- INSERT into `tokens`. -/
def insertTokenRow (i : ι) (userId : UserId) (row : TokenRow) (w : SessionWorld ι) :
    Option (SessionReply × SessionWorld ι) :=
  if (w.slot userId).lockedFor i then none
  else if (w.row i userId).isSome then some (.error (.integrityError true), w)
  else if h : userId ∈ w.db.users.map UserRow.id then
    some (.ok { generated := row.accessToken }, w.write i userId (some row) fun _ => h)
  else some (.error (.integrityError false), w)

/-- UPDATE or DELETE of the row of a user, with what it returns of a row it finds. -/
def changeTokenRow (i : ι) (userId : UserId) (new : Option TokenRow) (returning : Fetched)
    (w : SessionWorld ι) : Option (SessionReply × SessionWorld ι) :=
  if h : (w.row i userId).isSome = true then
    if (w.slot userId).lockedFor i then none
    else some (.ok returning, w.write i userId new fun _ => SessionWorld.mem_users_of_row h)
  else some (.ok {}, w)

/-- One statement; `none` if it waits for a row lock. -/
def sessionCall (i : ι) (c : SessionChoice) (o : SessionOp) (w : SessionWorld ι) :
    Option (SessionReply × SessionWorld ι) :=
  match o with
  | .selectUser username =>
      some ((getUserIdPassword username w.db).map fun row => { idPassword := row }, w)
  | .selectToken userId =>
      some (.ok { token := (w.row i userId).map TokenRow.accessToken }, w)
  | .insertToken userId => insertTokenRow i userId ⟨c.gen, c.now + tokenLifetime⟩ w
  | .selectByToken token =>
      some (.ok { user := getUserByToken c.now token (w.seen i) }, w)
  | .updateToken userId =>
      changeTokenRow i userId (some ⟨c.gen, c.now + tokenLifetime⟩) { token := some c.gen } w
  | .deleteToken userId => changeTokenRow i userId none { userId := some userId } w
  | .commit => some (.ok {}, w.commit i)
  | .rollback | .close => some (.ok {}, w.rollback i)
  | .respond _ => some (.ok {}, w)

/-- The sessions as a machine; nothing happens but what the requests do. -/
def sessionMachine (ι : Type) [DecidableEq ι] :
    Machine ι SessionChoice Empty SessionOp Fetched AuthExc (SessionWorld ι) where
  exec := sessionCall
  env a _ := a.elim
  kill := SessionWorld.rollback
  -- nothing else in these programs raises it
  killed := .unknownException

section Alone

variable {i : ι} {c : SessionChoice} {db : AuthDb} {userId : UserId} {new : Option TokenRow}

theorem rollback_quiet :
    (SessionWorld.quiet ι db).rollback i = SessionWorld.quiet ι db := by
  rfl

/-- A row that is written and committed is the row in the table. -/
theorem commit_write_quiet (h : new.isSome = true → userId ∈ db.users.map UserRow.id) :
    ((SessionWorld.quiet ι db).write i userId new h).commit i =
      SessionWorld.quiet ι (db.setToken userId new h) := by
  have hrow : (fun k => ((SessionWorld.quiet ι db).write i userId new h).row i k) =
      update db.tokens userId new := by
    funext k
    by_cases hk : k = userId
    · subst hk
      simp [SessionWorld.row, SessionWorld.slot, SessionWorld.write, Slot.visible]
    · simp [SessionWorld.row, SessionWorld.slot, SessionWorld.write, Slot.visible,
        SessionWorld.quiet, hk]
  have hpending : (fun k =>
      ((((SessionWorld.quiet ι db).write i userId new h).slot k).commit i).pending) =
        fun _ => none := by
    funext k
    by_cases hk : k = userId
    · subst hk
      simp [SessionWorld.slot, SessionWorld.write, Slot.commit]
    · simp [SessionWorld.slot, SessionWorld.write, Slot.commit, SessionWorld.quiet, hk]
  simp only [SessionWorld.commit, SessionWorld.seen, SessionWorld.quiet, AuthDb.setToken,
    SessionWorld.mk.injEq, AuthDb.mk.injEq]
  exact ⟨⟨rfl, rfl, hrow⟩, hpending⟩

/-- COMMIT, and the end of the session. -/
theorem close_commit_write_quiet (h : new.isSome = true → userId ∈ db.users.map UserRow.id) :
    (((SessionWorld.quiet ι db).write i userId new h).commit i).rollback i =
      SessionWorld.quiet ι (db.setToken userId new h) := by
  rw [commit_write_quiet, rollback_quiet]

/-- A statement that goes through, COMMIT, and the end of the session. -/
theorem eval_withManager_commit {α β : Type} {body : SessionProg α} {f : α → β} {a : α}
    {w w' : SessionWorld ι} (h : body.eval (sessionCall i c) w = some (.ok a, w')) :
    (SessionProg.withManager do
      let x ← body
      Prog.effect .commit
      pure (f x)).eval (sessionCall i c) w = some (.ok (f a), (w'.commit i).rollback i) := by
  rw [SessionProg.withManager, Prog.tryFinally, Prog.eval_handle, Prog.eval_bind_of_ok h]
  rfl

theorem eval_getUserIdPassword {username : String} :
    (SessionProg.getUserIdPassword username).eval (sessionCall i c) (SessionWorld.quiet ι db) =
      some (getUserIdPassword username db, SessionWorld.quiet ι db) := by
  have hcall : sessionCall i c (.selectUser username) (SessionWorld.quiet ι db) =
      some ((getUserIdPassword username db).map fun row => { idPassword := row },
        SessionWorld.quiet ι db) := rfl
  cases h : getUserIdPassword username db with
  | error e =>
      rw [h] at hcall
      simp only [SessionProg.getUserIdPassword, SessionProg.withManager, Prog.tryFinally,
        Prog.eval_handle, Prog.eval_bind_of_error (Prog.eval_perform hcall)]
      rfl
  | ok row =>
      rw [h] at hcall
      simp only [SessionProg.getUserIdPassword, SessionProg.withManager, Prog.tryFinally,
        Prog.eval_handle, Prog.eval_bind_of_ok (Prog.eval_perform hcall)]
      rfl

/-- The SELECT and the INSERT of a login, with nothing in between. -/
theorem eval_getAccessTokenByUserId :
    (SessionProg.getAccessTokenByUserId userId).eval (sessionCall i c)
        (SessionWorld.quiet ι db) =
      some ((getAccessTokenByUserId userId c.now c.gen db).1,
        SessionWorld.quiet ι (getAccessTokenByUserId userId c.now c.gen db).2) := by
  have hselect : sessionCall i c (.selectToken userId) (SessionWorld.quiet ι db) =
      some (.ok { token := (db.tokens userId).map TokenRow.accessToken },
        SessionWorld.quiet ι db) := rfl
  rw [SessionProg.getAccessTokenByUserId, getAccessTokenByUserId]
  cases hrow : db.tokens userId with
  | some row =>
      rw [hrow] at hselect
      have hfound : (SessionProg.getOrCreateUserToken userId).eval (sessionCall i c)
          (SessionWorld.quiet ι db) = some (.ok row.accessToken, SessionWorld.quiet ι db) :=
        Prog.eval_bind_of_ok (Prog.eval_perform hselect)
      rw [getOrCreateUserToken_of_some hrow]
      exact eval_withManager_commit hfound
  | none =>
      rw [hrow] at hselect
      by_cases hu : userId ∈ db.users.map UserRow.id
      · have hinsert : sessionCall i c (.insertToken userId) (SessionWorld.quiet ι db) =
            some (.ok { generated := c.gen }, (SessionWorld.quiet ι db).write i userId
              (some ⟨c.gen, c.now + tokenLifetime⟩) fun _ => hu) := by
          have hnone : (SessionWorld.quiet ι db).row i userId = none := hrow
          have hfree : ((SessionWorld.quiet ι db).slot userId).lockedFor i = false := rfl
          simp only [sessionCall, insertTokenRow, hnone, hfree]
          exact dif_pos hu
        have hfound : (SessionProg.getOrCreateUserToken userId).eval (sessionCall i c)
            (SessionWorld.quiet ι db) = some (.ok c.gen, (SessionWorld.quiet ι db).write i userId
              (some ⟨c.gen, c.now + tokenLifetime⟩) fun _ => hu) := by
          refine (Prog.eval_bind_of_ok (Prog.eval_perform hselect)).trans ?_
          exact Prog.eval_bind_of_ok (Prog.eval_perform hinsert)
        rw [getOrCreateUserToken_of_none hrow hu,
          ← close_commit_write_quiet (i := i) fun _ => hu]
        exact eval_withManager_commit hfound
      · have hinsert : sessionCall i c (.insertToken userId) (SessionWorld.quiet ι db) =
            some (.error (.integrityError false), SessionWorld.quiet ι db) := by
          have hnone : (SessionWorld.quiet ι db).row i userId = none := hrow
          have hfree : ((SessionWorld.quiet ι db).slot userId).lockedFor i = false := rfl
          simp only [sessionCall, insertTokenRow, hnone, hfree]
          exact dif_neg hu
        have hfound : (SessionProg.getOrCreateUserToken userId).eval (sessionCall i c)
            (SessionWorld.quiet ι db) =
              some (.error (.integrityError false), SessionWorld.quiet ι db) := by
          refine (Prog.eval_bind_of_ok (Prog.eval_perform hselect)).trans ?_
          exact Prog.eval_bind_of_error (Prog.eval_perform hinsert)
        have hrefused : getOrCreateUserToken userId c.now c.gen db =
            (.error (.integrityError false), db) := by
          rw [getOrCreateUserToken, hrow]
          exact dif_neg hu
        rw [hrefused, SessionProg.withManager, Prog.tryFinally, Prog.eval_handle,
          Prog.eval_bind_of_error hfound]
        rfl

theorem eval_refreshUserToken :
    (SessionProg.refreshUserToken userId).eval (sessionCall i c) (SessionWorld.quiet ι db) =
      some (.ok (refreshUserToken userId c.now c.gen db).1,
        SessionWorld.quiet ι (refreshUserToken userId c.now c.gen db).2) := by
  rw [SessionProg.refreshUserToken]
  cases hrow : db.tokens userId with
  | none =>
      have hupdate : sessionCall i c (.updateToken userId) (SessionWorld.quiet ι db) =
          some (.ok {}, SessionWorld.quiet ι db) := by
        have hnone : (SessionWorld.quiet ι db).row i userId = none := hrow
        simp [sessionCall, changeTokenRow, hnone]
      rw [refreshUserToken_of_none hrow]
      exact eval_withManager_commit (Prog.eval_perform hupdate)
  | some row =>
      have hu : userId ∈ db.users.map UserRow.id := db.references userId (by simp [hrow])
      have hupdate : sessionCall i c (.updateToken userId) (SessionWorld.quiet ι db) =
          some (.ok { token := some c.gen }, (SessionWorld.quiet ι db).write i userId
            (some ⟨c.gen, c.now + tokenLifetime⟩) fun _ => hu) := by
        have hsome : ((SessionWorld.quiet ι db).row i userId).isSome = true := by
          have hseen : (SessionWorld.quiet ι db).row i userId = some row := hrow
          rw [hseen]
          rfl
        exact dif_pos hsome
      have hrefreshed : refreshUserToken userId c.now c.gen db =
          (some c.gen, db.setToken userId (some ⟨c.gen, c.now + tokenLifetime⟩) fun _ => hu) := by
        unfold refreshUserToken
        split
        · rename_i hnone
          rw [hrow] at hnone
          cases hnone
        · rfl
      rw [hrefreshed, ← close_commit_write_quiet (i := i) fun _ => hu]
      exact eval_withManager_commit (Prog.eval_perform hupdate)

theorem eval_deleteTokenRow :
    (SessionProg.deleteTokenRow userId).eval (sessionCall i c) (SessionWorld.quiet ι db) =
      some (.ok (deleteTokenRow userId db).1,
        SessionWorld.quiet ι (deleteTokenRow userId db).2) := by
  rw [SessionProg.deleteTokenRow]
  cases hrow : db.tokens userId with
  | none =>
      have hdelete : sessionCall i c (.deleteToken userId) (SessionWorld.quiet ι db) =
          some (.ok {}, SessionWorld.quiet ι db) := by
        have hnone : (SessionWorld.quiet ι db).row i userId = none := hrow
        simp [sessionCall, changeTokenRow, hnone]
      have hsame : db.setToken userId none (by simp) = db := by
        have htokens : update db.tokens userId none = db.tokens := by
          rw [← hrow, update_eq_self]
        cases db
        simp only [AuthDb.setToken, AuthDb.mk.injEq, true_and] at htokens ⊢
        exact htokens
      rw [deleteTokenRow, hrow, hsame]
      exact eval_withManager_commit (Prog.eval_perform hdelete)
  | some row =>
      have hdelete : sessionCall i c (.deleteToken userId) (SessionWorld.quiet ι db) =
          some (.ok { userId := some userId },
            (SessionWorld.quiet ι db).write i userId none (by simp)) := by
        have hsome : ((SessionWorld.quiet ι db).row i userId).isSome = true := by
          have hseen : (SessionWorld.quiet ι db).row i userId = some row := hrow
          rw [hseen]
          rfl
        exact dif_pos hsome
      rw [deleteTokenRow, hrow, ← close_commit_write_quiet (i := i) (by simp)]
      exact eval_withManager_commit (Prog.eval_perform hdelete)

theorem eval_getUserByToken {token : UUID} :
    (SessionProg.getUserByToken token).eval (sessionCall i c) (SessionWorld.quiet ι db) =
      some (.ok (getUserByToken c.now token db), SessionWorld.quiet ι db) := by
  rfl

theorem eval_authorization {privileges : Int} {token : Option UUID} :
    (SessionProg.authorization privileges token).eval (sessionCall i c)
        (SessionWorld.quiet ι db) =
      some (authorization privileges c.now token db, SessionWorld.quiet ι db) := by
  cases token with
  | none =>
      rfl
  | some accessToken =>
      rw [SessionProg.authorization, Prog.eval_bind_of_ok eval_getUserByToken]
      simp only [authorization]
      cases getUserByToken c.now accessToken db with
      | none =>
          rfl
      | some user =>
          dsimp only
          cases user.privileges with
          | none =>
              rfl
          | some userPrivileges =>
              by_cases hlow : userPrivileges < privileges
              · simp only [if_pos hlow]
                rfl
              · simp only [if_neg hlow]
                rfl

theorem eval_refreshToken :
    (SessionProg.refreshToken userId).eval (sessionCall i c) (SessionWorld.quiet ι db) =
      some ((refreshToken userId c.now c.gen db).1,
        SessionWorld.quiet ι (refreshToken userId c.now c.gen db).2) := by
  rw [SessionProg.refreshToken, Prog.eval_bind_of_ok eval_refreshUserToken, refreshToken]
  cases (refreshUserToken userId c.now c.gen db).1 <;> rfl

theorem eval_deleteToken :
    (SessionProg.deleteToken userId).eval (sessionCall i c) (SessionWorld.quiet ι db) =
      some ((deleteToken userId db).1, SessionWorld.quiet ι (deleteToken userId db).2) := by
  rw [SessionProg.deleteToken, Prog.eval_bind_of_ok eval_deleteTokenRow, deleteToken]
  cases (deleteTokenRow userId db).1 <;> rfl

theorem eval_tokenFor [PasswordLibraries] {username password : String} :
    (SessionProg.tokenFor username password).eval (sessionCall i c) (SessionWorld.quiet ι db) =
      some ((tokenFor username password c.now c.gen db).1,
        SessionWorld.quiet ι (tokenFor username password c.now c.gen db).2) := by
  rw [SessionProg.tokenFor, tokenFor]
  have hselect : (SessionProg.getUserIdPassword username).eval (sessionCall i c)
      (SessionWorld.quiet ι db) = _ := eval_getUserIdPassword
  cases hfound : getUserIdPassword username db with
  | error e =>
      rw [hfound] at hselect
      exact Prog.eval_bind_of_error hselect
  | ok found =>
      rw [hfound] at hselect
      rw [Prog.eval_bind_of_ok hselect]
      cases found with
      | none =>
          rfl
      | some idWithHash =>
          dsimp only
          cases checkPassword password idWithHash.passwordHash with
          | error e =>
              rfl
          | ok correct =>
              cases correct with
              | false =>
                  rfl
              | true =>
                  dsimp only
                  have htoken : (SessionProg.getAccessTokenByUserId idWithHash.userId).eval
                      (sessionCall i c) (SessionWorld.quiet ι db) = _ :=
                    eval_getAccessTokenByUserId
                  cases hanswer : (getAccessTokenByUserId idWithHash.userId c.now c.gen db).1 with
                  | error e =>
                      rw [hanswer] at htoken
                      exact Prog.eval_bind_of_error htoken
                  | ok token =>
                      rw [hanswer] at htoken
                      exact Prog.eval_bind_of_ok htoken

end Alone

end SessionSystem

end SmartHttpRequester
