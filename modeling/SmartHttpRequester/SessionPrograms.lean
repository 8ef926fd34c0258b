import SmartHttpRequester.AuthRequests
import SmartHttpRequester.Foundations.ProgramTree

/-!
# Login, refresh and logout, statement by statement

`repository/auth.py`, `domain/auth.py`, `authorization` and the endpoints of
`api/v1/auth.py` once more, now as programs over single SQL statements, commits
and rollbacks.  `AuthStore` and `AuthRequests` run each method in one piece.

The definitions keep the names of the source, in a namespace of their own.  Log
calls and `auth_attempts_total` are left out.
-/

namespace SmartHttpRequester

open Foundations

section SessionPrograms

inductive SessionResponse
  | token (token : AccessTokenResponse)
  | loggedOut
deriving DecidableEq

/-- One statement or command of the authentication code, or the response. -/
inductive SessionOp
  /-- `select id as user_id, password_hash from users where username = :username` -/
  | selectUser (username : String)
  /-- `select access_token from tokens ... into token` of `get_or_create_user_token` -/
  | selectToken (userId : UserId)
  /-- `token = gen_random_uuid(); insert into tokens(...) values (...)` of the same -/
  | insertToken (userId : UserId)
  /-- `select ... where t.access_token = :access_token and t.valid_until > now()` -/
  | selectByToken (token : UUID)
  /-- `update public.tokens set ... where user_id = :user_id returning access_token` -/
  | updateToken (userId : UserId)
  /-- `delete from tokens where user_id = :user_id returning user_id` -/
  | deleteToken (userId : UserId)
  | commit
  | rollback
  | close
  | respond (r : SessionResponse)
deriving DecidableEq

/-- What a statement returns; each uses the fields it has something for. -/
structure Fetched where
  idPassword : Option UserIdPassword := none
  token : Option UUID := none
  /-- what `gen_random_uuid()` has returned -/
  generated : UUID := 0
  user : Option User := none
  userId : Option UserId := none
deriving Inhabited

abbrev SessionProg := Prog SessionOp Fetched AuthExc

namespace SessionProg

section Repository

/-- `async with self.manager as session`. -/
def withManager {α : Type} (body : SessionProg α) : SessionProg α :=
  Prog.tryFinally body (Prog.effect .close)

/-- `AuthRepository.get_user_id_password`. -/
def getUserIdPassword (username : String) : SessionProg (Option UserIdPassword) :=
  withManager do
    let rawData ← Prog.perform (.selectUser username)
    pure rawData.idPassword

/-- `get_or_create_user_token`. -/
def getOrCreateUserToken (userId : UserId) : SessionProg UUID := do
  let found ← Prog.perform (.selectToken userId)
  match found.token with
  | some token => pure token
  | none => do
      let inserted ← Prog.perform (.insertToken userId)
      pure inserted.generated

/-- `AuthRepository.get_access_token_by_user_id`. -/
def getAccessTokenByUserId (userId : UserId) : SessionProg UUID :=
  withManager do
    let token ← getOrCreateUserToken userId
    Prog.effect .commit
    pure token

/-- `AuthRepository.delete_token`. -/
def deleteTokenRow (userId : UserId) : SessionProg (Option UserId) :=
  withManager do
    let query ← Prog.perform (.deleteToken userId)
    Prog.effect .commit
    pure query.userId

/-- `AuthRepository.get_user_by_token`. -/
def getUserByToken (token : UUID) : SessionProg (Option User) :=
  withManager do
    let query ← Prog.perform (.selectByToken token)
    pure query.user

/-- `AuthRepository.refresh_user_token`. -/
def refreshUserToken (userId : UserId) : SessionProg (Option UUID) :=
  withManager do
    let query ← Prog.perform (.updateToken userId)
    Prog.effect .commit
    pure query.token

end Repository

section Domain

/-- `delete_token`. -/
def deleteToken (userId : UserId) : SessionProg UserId := do
  match ← deleteTokenRow userId with
  | none => .raise .userDoesNotExists
  | some deletedId => pure deletedId

/-- `refresh_token`. -/
def refreshToken (userId : UserId) : SessionProg AccessTokenResponse := do
  match ← refreshUserToken userId with
  | none => .raise .userDoesNotExists
  | some token => pure { accessToken := token }

/-- `authorization(privileges)`; the token is `none` if its text is not a UUID. -/
def authorization (privileges : Int) (token : Option UUID) : SessionProg User :=
  match token with
  | none => .raise (.httpException 401)
  | some accessToken => do
      match ← getUserByToken accessToken with
      | none => .raise (.httpException 401)
      | some user =>
          match user.privileges with
          | none => .raise .typeError
          | some userPrivileges =>
              if userPrivileges < privileges then .raise (.httpException 403)
              else pure user

variable [PasswordLibraries]

/-- The part that `get_token` and `get_token_for_docs` share. -/
def tokenFor (username password : String) : SessionProg AccessTokenResponse := do
  match ← getUserIdPassword username with
  | none => .raise .userDoesNotExists
  | some idWithHash =>
      match checkPassword password idWithHash.passwordHash with
      | .error e => .raise e
      | .ok false => .raise .passwordIsIncorrect
      | .ok true => do
          let token ← getAccessTokenByUserId idWithHash.userId
          pure { accessToken := token }

/-- `get_token`. -/
def getToken (data : UserCredentials) : SessionProg AccessTokenResponse :=
  tokenFor data.username data.passwordHash

/-- `get_token_for_docs`. -/
def getTokenForDocs (login password : String) : SessionProg AccessTokenResponse :=
  tokenFor login (PasswordLibraries.sha256Hexdigest password.toUTF8)

end Domain

section Api

/-- The `except` clauses around a login. -/
def loginExcept (exc : AuthExc) : AuthExc :=
  match exc with
  | .passwordIsIncorrect => .httpException 401
  | .userDoesNotExists => .httpException 404
  | e => e

/-- `except UserDoesNotExists` of refresh and logout. -/
def sessionExcept (statusCode : Nat) (exc : AuthExc) : AuthExc :=
  match exc with
  | .userDoesNotExists => .httpException statusCode
  | e => e

/-- `auth_refresh`; the token comes with the request. -/
def authRefresh (token : Option UUID) : SessionProg SessionResponse := do
  let user ← authorization 0 token
  let newToken ← Prog.tryCatch (refreshToken user.id) fun e => .raise (sessionExcept 404 e)
  pure (.token newToken)

/-- `auth_logout`. -/
def authLogout (token : Option UUID) : SessionProg SessionResponse := do
  let user ← authorization 0 token
  Prog.tryCatch
    (do
      let _ ← deleteToken user.id
      pure ())
    fun e => .raise (sessionExcept 400 e)
  pure .loggedOut

variable [PasswordLibraries]

/-- `auth_login`. -/
def authLogin (data : UserCredentials) : SessionProg SessionResponse := do
  let token ← Prog.tryCatch (getToken data) fun e => .raise (loginExcept e)
  pure (.token token)

/-- `token`, the login of the documentation pages. -/
def docsLogin (username password : String) : SessionProg SessionResponse := do
  let token ← Prog.tryCatch (getTokenForDocs username password) fun e => .raise (loginExcept e)
  pure (.token token)

end Api

end SessionProg

/-- A request to the endpoints that create, replace or delete a token. -/
inductive SessionRequest
  | login (data : UserCredentials)
  | docsLogin (username password : String)
  | refresh (token : Option UUID)
  | logout (token : Option UUID)

/-- The token that the request presents. -/
def SessionRequest.presented : SessionRequest → Option UUID
  | .login _ => none
  | .docsLogin _ _ => none
  | .refresh token => token
  | .logout token => token

/-- `get_db` around a handler; it commits once the response is sent. -/
def SessionProg.getDb (handler : SessionProg SessionResponse) : SessionProg SessionResponse :=
  Prog.tryFinally
    (Prog.tryCatch
      (do
        let response ← handler
        Prog.effect (.respond response)
        Prog.effect .commit
        pure response)
      (fun exc => do
        Prog.effect .rollback
        .raise exc))
    (Prog.effect .close)

section Requests

variable [PasswordLibraries]

def SessionRequest.handler : SessionRequest → SessionProg SessionResponse
  | .login data => .authLogin data
  | .docsLogin username password => .docsLogin username password
  | .refresh token => .authRefresh token
  | .logout token => .authLogout token

def SessionRequest.program (req : SessionRequest) : SessionProg SessionResponse :=
  .getDb req.handler

end Requests

end SessionPrograms

end SmartHttpRequester
