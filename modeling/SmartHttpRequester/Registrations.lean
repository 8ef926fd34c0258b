import SmartHttpRequester.AuthRequests
import SmartHttpRequester.Foundations.Interleaving
import SmartHttpRequester.Foundations.UniqueRows

/-!
# Registrations, statement by statement

`create_new_user`, `create_user` and `auth_register` as programs, run by any number
of requests interleaved.  The INSERT casts the username to the type of its column,
then takes the next value of the serial `users.id`, and then comes to the unique
username; there it may have to wait for another transaction.  Every call of the
database may fail before or after it took effect.

Alone and without failures a registration does what `createUser` of `AuthRequests`
says (`eval_createUser`).
-/

namespace SmartHttpRequester

open Foundations Function

section Registrations

inductive RegisterExc
  | auth (e : AuthExc)
  /-- a failure of the database or of the connection -/
  | external
  | cancelledError
deriving DecidableEq

inductive RegisterOp
  /-- `hash_password` -/
  | hashPassword (password : String)
  /-- the values of the INSERT: the username as `varchar(50)`, the default of `users.id` -/
  | nextUserId (username : String)
  /-- `insert into users(username, password_hash, role_id) values (...) returning ...` -/
  | insertUser (id : UserId) (username : String) (passwordHash : ByteArray) (roleId : Int)
  | commit
  | rollback
  | close
  | respond (r : UserRegisterResponse)

/-- What a call returns; each uses the fields it has something for. -/
structure RegisterFetched where
  passwordHash : ByteArray := ByteArray.empty
  userId : UserId := 0
  username : String := ""

abbrev RegisterProg := Prog RegisterOp RegisterFetched RegisterExc

abbrev RegisterReply := Except RegisterExc RegisterFetched

namespace RegisterProg

/-- `async with self.manager as session`. -/
def withManager {α : Type} (body : RegisterProg α) : RegisterProg α :=
  Prog.tryFinally body (Prog.effect .close)

/-- The INSERT of `create_new_user`. -/
def insertUser (username : String) (password : ByteArray) (roleId : Int) :
    RegisterProg UserRegisterResponse :=
  match textParameter username with
  | .error e => .raise (.auth e)
  | .ok text => do
      let next ← Prog.perform (.nextUserId text)
      let row ← Prog.perform (.insertUser next.userId next.username password roleId)
      pure ⟨row.userId, row.username⟩

/-- `AuthRepository.create_new_user`. -/
def createNewUser (username : String) (password : ByteArray) (roleId : Int) :
    RegisterProg UserRegisterResponse :=
  withManager do
    let rawUser ← insertUser username password roleId
    Prog.effect .commit
    pure rawUser

/-- `except IntegrityError` of `create_user`. -/
def createUserExcept (exc : RegisterExc) : RegisterExc :=
  match exc with
  | .auth e => .auth (SmartHttpRequester.createUserExcept e)
  | e => e

/-- `create_user`. -/
def createUser (data : UserCredentials) : RegisterProg UserRegisterResponse := do
  let hashed ← Prog.perform (.hashPassword data.passwordHash)
  Prog.tryCatch (createNewUser data.username hashed.passwordHash 1)
    fun e => .raise (createUserExcept e)

/-- The `except` clauses of `auth_register`. -/
def registerExcept (exc : RegisterExc) : RegisterExc :=
  match exc with
  | .auth .userAlreadyExists => .auth (.httpException 409)
  | .auth .unknownException => .auth (.httpException 500)
  | e => e

/-- `auth_register`. -/
def authRegister (data : UserCredentials) : RegisterProg UserRegisterResponse :=
  Prog.tryCatch (createUser data) fun e => .raise (registerExcept e)

/-- `get_db` around a handler. -/
def getDb (handler : RegisterProg UserRegisterResponse) : RegisterProg UserRegisterResponse :=
  Prog.tryFinally
    (Prog.tryCatch
      (do
        let response ← handler
        Prog.effect (.respond response)
        Prog.effect .commit
        pure response)
      (fun exc => do
        Prog.effect .rollback
        .raise exc))
    (Prog.effect .close)

/-- A POST to `/auth/register`. -/
def register (data : UserCredentials) : RegisterProg UserRegisterResponse :=
  getDb (authRegister data)

end RegisterProg

section System

/-- The primary key and the unique username of `users`. -/
def SameKey (u v : UserRow) : Prop :=
  u.id = v.id ∨ u.username = v.username

instance : DecidableRel SameKey := fun u v =>
  inferInstanceAs (Decidable (u.id = v.id ∨ u.username = v.username))

instance : Std.Symm SameKey :=
  ⟨fun _ _ h => h.imp Eq.symm Eq.symm⟩

structure UsersWorld (ι : Type) where
  users : UniqueRows ι UserRow SameKey
  /-- next value of the serial `users.id` -/
  nextUserId : UserId

/-- The table `users`, with nothing uncommitted. -/
def usersWorldOf (ι : Type) (db : AuthDb) : UsersWorld ι where
  users := UniqueRows.ofCommitted ι db.users (by
    have hids := List.pairwise_map.1 db.ids
    have hnames := List.pairwise_map.1 db.usernames
    exact (hids.and hnames).imp fun h hsame => hsame.elim h.1 h.2)
  nextUserId := db.nextUserId

/-- Whether a call fails, and if so before or after it took effect. -/
inductive RegisterFault
  | none
  | before
  | after
deriving DecidableEq

structure RegisterChoice where
  fault : RegisterFault := .none
  salt : Nat := 0

variable {ι : Type} [DecidableEq ι]

/-- INSERT into `users`; `none` if it waits for the end of another transaction. -/
def insertUserRow (i : ι) (row : UserRow) (w : UsersWorld ι) :
    Option (RegisterReply × UsersWorld ι) :=
  match w.users.insert i row with
  | none => none
  | some none => some (.error (.auth (.integrityError true)), w)
  | some (some users) =>
      if row.roleId ∈ roles.map Prod.fst then
        some (.ok { userId := row.id, username := row.username }, { w with users := users })
      else some (.error (.auth (.integrityError false)), w)

section Calls

variable [PasswordLibraries]

def runRegisterOp (i : ι) (salt : Nat) (o : RegisterOp) (w : UsersWorld ι) :
    Option (RegisterReply × UsersWorld ι) :=
  match o with
  | .hashPassword password =>
      match hashPassword password salt with
      | .error e => some (.error (.auth e), w)
      | .ok hashed => some (.ok { passwordHash := hashed }, w)
  | .nextUserId username =>
      match varchar50 username with
      | none => some (.error (.auth .dataError), w)
      | some stored =>
          some (.ok { userId := w.nextUserId, username := stored },
            { w with nextUserId := w.nextUserId + 1 })
  | .insertUser id username passwordHash roleId =>
      insertUserRow i ⟨id, username, passwordHash, roleId⟩ w
  | .commit => some (.ok {}, { w with users := w.users.commit i })
  | .rollback | .close => some (.ok {}, { w with users := w.users.rollback i })
  | .respond _ => some (.ok {}, w)

/-- What is left of a call that fails before it took effect. -/
def lostRegisterOp (i : ι) (o : RegisterOp) (w : UsersWorld ι) : UsersWorld ι :=
  match o with
  -- the connection is gone, so the server rolls the transaction back
  | .rollback | .close => { w with users := w.users.rollback i }
  | _ => w

/-- These calls stay in the process. -/
def RegisterOp.isLocal : RegisterOp → Bool
  | .hashPassword _ => true
  | _ => false

/-- One call of a request.  A local call has no failure from outside. -/
def registerCall (i : ι) (c : RegisterChoice) (o : RegisterOp) (w : UsersWorld ι) :
    Option (RegisterReply × UsersWorld ι) :=
  match c.fault with
  | .none => runRegisterOp i c.salt o w
  | .before => if o.isLocal then none else some (.error .external, lostRegisterOp i o w)
  | .after =>
      if o.isLocal then none
      else (runRegisterOp i c.salt o w).map fun rw => (.error .external, rw.2)

/-- The registrations as a machine; an abandoned one is rolled back by the server. -/
def registerMachine (ι : Type) [DecidableEq ι] :
    Machine ι RegisterChoice Empty RegisterOp RegisterFetched RegisterExc (UsersWorld ι) where
  exec := registerCall
  env a _ := a.elim
  kill i w := { w with users := w.users.rollback i }
  killed := .cancelledError

end Calls

abbrev RegisterConfig (ι : Type) :=
  Config ι RegisterOp RegisterFetched RegisterExc UserRegisterResponse (UsersWorld ι)

abbrev RegisterLabel (ι : Type) := Label ι RegisterChoice Empty

def startRegistrations {ι : Type} (db : AuthDb) (data : ι → UserCredentials) : RegisterConfig ι :=
  Machine.start (usersWorldOf ι db) fun i => RegisterProg.register (data i)

end System

section Alone

variable {ι : Type} {i : ι} {db db' : AuthDb} {username stored : String} {hash : ByteArray}
variable {roleId : Int} {salt : Nat}

/-- With nothing uncommitted and a new id, the name alone decides. -/
theorem refuses_usersWorldOf :
    (usersWorldOf ι db.skipId).users.Refuses i ⟨db.nextUserId, stored, hash, roleId⟩ ↔
      stored ∈ db.users.map UserRow.username := by
  constructor
  · rintro (⟨u, hu, hsame | hsame⟩ | ⟨p, hp, -⟩)
    · exact absurd hsame (db.idsBelow u hu).ne
    · exact List.mem_map.2 ⟨u, hu, hsame⟩
    · cases hp
  · intro h
    obtain ⟨u, hu, hname⟩ := List.mem_map.1 h
    exact Or.inl ⟨u, hu, Or.inr hname⟩

variable [DecidableEq ι]

theorem insert_usersWorldOf_taken (h : stored ∈ db.users.map UserRow.username) :
    (usersWorldOf ι db.skipId).users.insert i ⟨db.nextUserId, stored, hash, roleId⟩ =
      some none :=
  dif_pos (refuses_usersWorldOf.2 h)

theorem insert_usersWorldOf_free (h : stored ∉ db.users.map UserRow.username) :
    ∃ t, (usersWorldOf ι db.skipId).users.insert i ⟨db.nextUserId, stored, hash, roleId⟩ =
      some (some t) := by
  cases hinsert :
      (usersWorldOf ι db.skipId).users.insert i ⟨db.nextUserId, stored, hash, roleId⟩ with
  | none =>
      obtain ⟨p, hp, -⟩ := UniqueRows.waits_of_insert hinsert
      cases hp
  | some result =>
      cases result with
      | none => exact absurd (refuses_usersWorldOf.1 (UniqueRows.refuses_of_insert hinsert)) h
      | some t => exact ⟨t, rfl⟩

theorem usersWorldOf_addUser {t : UniqueRows ι UserRow SameKey}
    (h : stored ∉ db.users.map UserRow.username) (hrole : roleId ∈ roles.map Prod.fst)
    (hinsert : (usersWorldOf ι db.skipId).users.insert i
      ⟨db.nextUserId, stored, hash, roleId⟩ = some (some t)) :
    ({ users := (t.commit i).rollback i, nextUserId := db.nextUserId + 1 } : UsersWorld ι) =
      usersWorldOf ι (db.addUser stored hash roleId h hrole) := by
  obtain ⟨hcommitted, hpending⟩ := UniqueRows.of_insert hinsert
  have hpending : t.pending = [(i, ⟨db.nextUserId, stored, hash, roleId⟩)] := hpending
  have hcommitted : t.committed = db.users := hcommitted
  simp [usersWorldOf, UniqueRows.ofCommitted, UniqueRows.commit, UniqueRows.rollback,
    AuthDb.addUser, hpending, hcommitted]

variable [PasswordLibraries]

/-- The call for the values of the INSERT. -/
theorem registerCall_nextUserId {text : String} :
    registerCall i ⟨.none, salt⟩ (.nextUserId text) (usersWorldOf ι db) =
      match varchar50 text with
      | none => some (.error (.auth .dataError), usersWorldOf ι db)
      | some stored =>
          some (.ok { userId := db.nextUserId, username := stored }, usersWorldOf ι db.skipId) := by
  rfl

/-- The INSERT, once its values are there. -/
theorem eval_insertUser {r : RegisterReply} {text : String} {w : UsersWorld ι}
    (htext : textParameter username = .ok text) (hstored : varchar50 text = some stored)
    (h : registerCall i ⟨.none, salt⟩ (.insertUser db.nextUserId stored hash roleId)
      (usersWorldOf ι db.skipId) = some (r, w)) :
    (RegisterProg.insertUser username hash roleId).eval (registerCall i ⟨.none, salt⟩)
        (usersWorldOf ι db) =
      some (r.map fun row => ⟨row.userId, row.username⟩, w) := by
  have hnext : registerCall i ⟨.none, salt⟩ (.nextUserId text) (usersWorldOf ι db) =
      some (.ok { userId := db.nextUserId, username := stored }, usersWorldOf ι db.skipId) := by
    rw [registerCall_nextUserId, hstored]
  rw [RegisterProg.insertUser, htext]
  refine (Prog.eval_bind_of_ok (Prog.eval_perform hnext)).trans ?_
  cases r with
  | error e => exact Prog.eval_bind_of_error (Prog.eval_perform h)
  | ok row => exact Prog.eval_bind_of_ok (Prog.eval_perform h)

/-- An INSERT that is refused, and the end of the session. -/
theorem eval_createNewUser_error {e : RegisterExc}
    (h : (RegisterProg.insertUser username hash roleId).eval (registerCall i ⟨.none, salt⟩)
      (usersWorldOf ι db) = some (.error e, usersWorldOf ι db')) :
    (RegisterProg.createNewUser username hash roleId).eval (registerCall i ⟨.none, salt⟩)
        (usersWorldOf ι db) = some (.error e, usersWorldOf ι db') := by
  rw [RegisterProg.createNewUser, RegisterProg.withManager, Prog.tryFinally, Prog.eval_handle,
    Prog.eval_bind_of_error h]
  rfl

/-- Alone, the statements are the method of `AuthStore`. -/
theorem eval_createNewUser :
    (RegisterProg.createNewUser username hash roleId).eval (registerCall i ⟨.none, salt⟩)
        (usersWorldOf ι db) =
      some ((createNewUser username hash roleId db).1.mapError RegisterExc.auth,
        usersWorldOf ι (createNewUser username hash roleId db).2) := by
  cases htext : textParameter username with
  | error e =>
      have hsource : createNewUser username hash roleId db = (.error e, db) := by
        simp only [createNewUser, htext]
      rw [hsource]
      refine eval_createNewUser_error ?_
      rw [RegisterProg.insertUser, htext]
      rfl
  | ok text =>
      cases hstored : varchar50 text with
      | none =>
          have hsource : createNewUser username hash roleId db = (.error .dataError, db) := by
            simp only [createNewUser, htext, hstored]
          have hnext : registerCall i ⟨.none, salt⟩ (.nextUserId text) (usersWorldOf ι db) =
              some (.error (.auth .dataError), usersWorldOf ι db) := by
            rw [registerCall_nextUserId, hstored]
          rw [hsource]
          refine eval_createNewUser_error ?_
          rw [RegisterProg.insertUser, htext]
          exact Prog.eval_bind_of_error (Prog.eval_perform hnext)
      | some stored =>
          have hcall : registerCall i ⟨.none, salt⟩ (.insertUser db.nextUserId stored hash roleId)
              (usersWorldOf ι db.skipId) =
                insertUserRow i ⟨db.nextUserId, stored, hash, roleId⟩
                  (usersWorldOf ι db.skipId) := rfl
          by_cases htaken : stored ∈ db.users.map UserRow.username
          · have hsource : createNewUser username hash roleId db =
                (.error (.integrityError true), db.skipId) := by
              simp only [createNewUser, htext, hstored, dif_pos htaken]
            rw [insertUserRow, insert_usersWorldOf_taken htaken] at hcall
            rw [hsource]
            exact eval_createNewUser_error (eval_insertUser htext hstored hcall)
          · obtain ⟨t, hinsert⟩ := @insert_usersWorldOf_free ι i db stored hash roleId _ htaken
            rw [insertUserRow, hinsert] at hcall
            by_cases hrole : roleId ∈ roles.map Prod.fst
            · have hsource : createNewUser username hash roleId db =
                  (.ok ⟨db.nextUserId, stored⟩,
                    db.addUser stored hash roleId htaken hrole) := by
                simp only [createNewUser, htext, hstored, dif_neg htaken, dif_pos hrole]
              simp only [if_pos hrole] at hcall
              rw [hsource, RegisterProg.createNewUser, RegisterProg.withManager, Prog.tryFinally,
                Prog.eval_handle, Prog.eval_bind_of_ok (eval_insertUser htext hstored hcall),
                ← usersWorldOf_addUser htaken hrole hinsert]
              rfl
            · have hsource : createNewUser username hash roleId db =
                  (.error (.integrityError false), db.skipId) := by
                simp only [createNewUser, htext, hstored, dif_neg htaken, dif_neg hrole]
              simp only [if_neg hrole] at hcall
              rw [hsource]
              exact eval_createNewUser_error (eval_insertUser htext hstored hcall)

/-- Alone, the program is `create_user` of `AuthRequests`. -/
theorem eval_createUser {data : UserCredentials} :
    (RegisterProg.createUser data).eval (registerCall i ⟨.none, salt⟩) (usersWorldOf ι db) =
      some ((createUser data salt db).1.mapError RegisterExc.auth,
        usersWorldOf ι (createUser data salt db).2) := by
  have hcall : registerCall i ⟨.none, salt⟩ (.hashPassword data.passwordHash)
      (usersWorldOf ι db) =
        match hashPassword data.passwordHash salt with
        | .error e => some (.error (.auth e), usersWorldOf ι db)
        | .ok hashed => some (.ok { passwordHash := hashed }, usersWorldOf ι db) := rfl
  unfold RegisterProg.createUser createUser
  cases hhash : hashPassword data.passwordHash salt with
  | error e =>
      rw [hhash] at hcall
      exact Prog.eval_bind_of_error (Prog.eval_perform hcall)
  | ok hashed =>
      rw [hhash] at hcall
      rw [Prog.eval_bind_of_ok (Prog.eval_perform hcall), Prog.tryCatch, Prog.eval_handle,
        eval_createNewUser]
      cases hresult : (createNewUser data.username hashed 1 db).1 with
      | ok user => simp [hresult, Except.mapError, Prog.eval]
      | error e => simp [hresult, Except.mapError, RegisterProg.createUserExcept, Prog.eval]

end Alone

end Registrations

end SmartHttpRequester
