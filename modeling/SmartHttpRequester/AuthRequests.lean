import SmartHttpRequester.AuthStore
import SmartHttpRequester.Foundations.Since

/-!
# Authentication requests

`domain/auth.py` and `authorization` of `middleware/auth.py` over the committed
tables, and runs of requests.  A request happens at a time, and brings along the
value that `gen_random_uuid()` returns to it.

Refresh and logout act on the user whom `authorization` has resolved from the
presented token; nothing here depends on when it did, so they are taken for any
user at any time.
-/

namespace SmartHttpRequester

open Foundations Function

section AuthRequests

/-- `AccessTokenResponse`; a UUID stands for its text. -/
structure AccessTokenResponse where
  accessToken : UUID
  tokenType : String := "Bearer"
deriving DecidableEq

section Sessions

/-- `delete_token`. -/
def deleteToken (userId : UserId) (db : AuthDb) : Except AuthExc UserId × AuthDb :=
  let deleted := deleteTokenRow userId db
  match deleted.1 with
  | none => (.error .userDoesNotExists, deleted.2)
  | some deletedId => (.ok deletedId, deleted.2)

/-- `refresh_token`. -/
def refreshToken (userId : UserId) (now : Timestamp) (gen : UUID) (db : AuthDb) :
    Except AuthExc AccessTokenResponse × AuthDb :=
  let refreshed := refreshUserToken userId now gen db
  match refreshed.1 with
  | none => (.error .userDoesNotExists, refreshed.2)
  | some token => (.ok { accessToken := token }, refreshed.2)

/-- `authorization(privileges)`; the token is `none` if its text is not a UUID. -/
def authorization (privileges : Int) (now : Timestamp) (token : Option UUID) (db : AuthDb) :
    Except AuthExc User :=
  match token with
  | none => .error (.httpException 401)
  | some accessToken =>
      match getUserByToken now accessToken db with
      | none => .error (.httpException 401)
      | some user =>
          match user.privileges with
          | none => .error .typeError
          | some userPrivileges =>
              if userPrivileges < privileges then .error (.httpException 403)
              else .ok user

section Rows

variable {userId : UserId} {now : Timestamp} {gen : UUID} {db : AuthDb}

theorem deleteToken_tokens :
    (deleteToken userId db).2.tokens = update db.tokens userId none := by
  unfold deleteToken
  dsimp only
  split <;> rfl

theorem refreshToken_snd :
    (refreshToken userId now gen db).2 = (refreshUserToken userId now gen db).2 := by
  unfold refreshToken
  dsimp only
  split <;> rfl

end Rows

end Sessions

section Registration

/-- The classes that `create_user` tells apart in `e.orig`. -/
inductive Orig
  /-- `AsyncAdapt_asyncpg_dbapi.IntegrityError` -/
  | dialectIntegrityError
  /-- `asyncpg.exceptions.UniqueViolationError` -/
  | uniqueViolationError
deriving DecidableEq

/--
`e.orig`, if `e` is an `IntegrityError`.  SQLAlchemy's dialect raises a class of its
own, whatever asyncpg has raised; asyncpg's exception is only the cause of it.
-/
def AuthExc.orig? : AuthExc → Option Orig
  | .integrityError _ => some .dialectIntegrityError
  | _ => none

/-- `unique_violation_types`; asyncpg has no `UniqueViolation`. -/
def uniqueViolationTypes : List Orig :=
  [.uniqueViolationError]

/-- `except sqlalchemy.exc.IntegrityError` of `create_user`; it never raises `UserAlreadyExists`. -/
def createUserExcept (e : AuthExc) : AuthExc :=
  match e.orig? with
  | none => e
  | some orig =>
      if orig ∈ uniqueViolationTypes then .userAlreadyExists else .unknownException

end Registration

section Logins

variable [PasswordLibraries]

/-- `create_user`. -/
def createUser (data : UserCredentials) (salt : Nat) (db : AuthDb) :
    Except AuthExc UserRegisterResponse × AuthDb :=
  match hashPassword data.passwordHash salt with
  | .error e => (.error e, db)
  | .ok hashed =>
      let created := createNewUser data.username hashed 1 db
      (created.1.mapError createUserExcept, created.2)

/-- The part that `get_token` and `get_token_for_docs` share. -/
def tokenFor (username password : String) (now : Timestamp) (gen : UUID) (db : AuthDb) :
    Except AuthExc AccessTokenResponse × AuthDb :=
  match getUserIdPassword username db with
  | .error e => (.error e, db)
  | .ok none => (.error .userDoesNotExists, db)
  | .ok (some idWithHash) =>
      match checkPassword password idWithHash.passwordHash with
      | .error e => (.error e, db)
      | .ok false => (.error .passwordIsIncorrect, db)
      | .ok true =>
          let token := getAccessTokenByUserId idWithHash.userId now gen db
          (token.1.map fun accessToken => { accessToken := accessToken }, token.2)

/-- `get_token`. -/
def getToken (data : UserCredentials) (now : Timestamp) (gen : UUID) (db : AuthDb) :
    Except AuthExc AccessTokenResponse × AuthDb :=
  tokenFor data.username data.passwordHash now gen db

/-- `get_token_for_docs`. -/
def getTokenForDocs (login password : String) (now : Timestamp) (gen : UUID) (db : AuthDb) :
    Except AuthExc AccessTokenResponse × AuthDb :=
  tokenFor login (PasswordLibraries.sha256Hexdigest password.toUTF8) now gen db

theorem createUser_tokens {data : UserCredentials} {salt : Nat} {db : AuthDb} :
    (createUser data salt db).2.tokens = db.tokens := by
  unfold createUser
  split
  · rfl
  · exact createNewUser_tokens

end Logins

section Runs

/-- A request that changes users or tokens. -/
inductive AuthRequest
  | register (data : UserCredentials)
  | login (data : UserCredentials)
  | loginForDocs (login password : String)
  | refresh (userId : UserId)
  | logout (userId : UserId)

/-- A request, its time, the UUID it is given, and the salt. -/
structure AuthStep where
  request : AuthRequest
  now : Timestamp
  gen : UUID
  salt : Nat := 0

inductive AuthReply
  | registered (user : UserRegisterResponse)
  | token (token : AccessTokenResponse)
  | loggedOut (userId : UserId)

variable [PasswordLibraries]

def AuthStep.perform (step : AuthStep) (db : AuthDb) : Except AuthExc AuthReply × AuthDb :=
  match step.request with
  | .register data =>
      let result := createUser data step.salt db
      (result.1.map .registered, result.2)
  | .login data =>
      let result := getToken data step.now step.gen db
      (result.1.map .token, result.2)
  | .loginForDocs login password =>
      let result := getTokenForDocs login password step.now step.gen db
      (result.1.map .token, result.2)
  | .refresh userId =>
      let result := refreshToken userId step.now step.gen db
      (result.1.map .token, result.2)
  | .logout userId =>
      let result := deleteToken userId db
      (result.1.map .loggedOut, result.2)

def runAuth (db : AuthDb) (steps : List AuthStep) : AuthDb :=
  stateAfter (fun db step => (AuthStep.perform step db).2) db steps

end Runs

section Samples

/-- Hashing that keeps the password. -/
@[reducible] def samplePasswords : PasswordLibraries where
  useArgon := false
  hashpw password _ := some password
  checkpw password hashed := some (password.data.toList = hashed.data.toList)
  hash password _ := some password
  verify hashed password := if hashed = password then .ok () else .error .verifyMismatchError
  sha256Hexdigest _ := ""

def sampleCredentials : UserCredentials where
  username := "user"
  passwordHash := String.ofList (List.replicate 64 'a')
  passwordHash_length := by decide

/-- The user registers, and logs in a moment later. -/
def firstLogin : List AuthStep :=
  [⟨.register sampleCredentials, 0, 1, 0⟩, ⟨.login sampleCredentials, 1, 2, 0⟩]

end Samples

end AuthRequests

end SmartHttpRequester
