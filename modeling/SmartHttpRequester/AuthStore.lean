import SmartHttpRequester.PasswordHashing

/-!
# Users and tokens

The tables `users`, `roles` and `tokens` of the migrations, and
`repository/auth.py` with the function `get_or_create_user_token`.  Each method
is one committed transaction; `now` is its `now()` and `gen` what its
`gen_random_uuid()` returns if it is called.

`tokens` has the user as its key; nothing makes `access_token` unique.
-/

namespace SmartHttpRequester

open Function

section AuthStore

structure UserRow where
  id : UserId
  username : String
  passwordHash : ByteArray
  roleId : Int

/-- What a row of `tokens` has besides its key. -/
structure TokenRow where
  accessToken : UUID
  validUntil : Timestamp
deriving DecidableEq

/-- The rows of `roles`: id, title and permissions. -/
def roles : List (Int × String × Int) :=
  [(1, "user", 31), (2, "moderator", 255), (3, "admin", 2147483647)]

/-- `interval '7d'`, in microseconds. -/
def tokenLifetime : Timestamp :=
  7 * 24 * 60 * 60 * 1000000

theorem tokenLifetime_pos : 0 < tokenLifetime := by
  decide

/-- The committed tables, with their constraints. -/
structure AuthDb where
  users : List UserRow
  /-- next value of the serial `users.id` -/
  nextUserId : UserId
  tokens : UserId → Option TokenRow
  idsBelow : ∀ u ∈ users, u.id < nextUserId
  ids : (users.map UserRow.id).Nodup
  usernames : (users.map UserRow.username).Nodup
  roleIds : ∀ u ∈ users, u.roleId ∈ roles.map Prod.fst
  references : ∀ id, (tokens id).isSome = true → id ∈ users.map UserRow.id

namespace AuthDb

/-- The tables as the migrations leave them. -/
def initial : AuthDb where
  users := []
  nextUserId := 1
  tokens := fun _ => none
  idsBelow := by simp
  ids := List.nodup_nil
  usernames := List.nodup_nil
  roleIds := by simp
  references := by simp

def setToken (userId : UserId) (row : Option TokenRow) (db : AuthDb)
    (h : row.isSome = true → userId ∈ db.users.map UserRow.id) : AuthDb :=
  { db with
    tokens := update db.tokens userId row
    references := by
      intro id hid
      by_cases heq : id = userId
      · subst heq
        exact h (by simpa using hid)
      · exact db.references id (by simpa [heq] using hid) }

def skipId (db : AuthDb) : AuthDb :=
  { db with
    nextUserId := db.nextUserId + 1
    idsBelow := fun u hu => (db.idsBelow u hu).trans (lt_add_one _) }

def addUser (username : String) (passwordHash : ByteArray) (roleId : Int) (db : AuthDb)
    (h : username ∉ db.users.map UserRow.username) (hrole : roleId ∈ roles.map Prod.fst) :
    AuthDb where
  users := db.users ++ [⟨db.nextUserId, username, passwordHash, roleId⟩]
  nextUserId := db.nextUserId + 1
  tokens := db.tokens
  idsBelow := by
    intro u hu
    rcases List.mem_append.1 hu with hu | hu
    · exact (db.idsBelow u hu).trans (lt_add_one _)
    · rw [List.mem_singleton.1 hu]
      exact lt_add_one db.nextUserId
  ids := by
    rw [List.map_append]
    refine db.ids.append (List.nodup_singleton _) fun id hid hnew => ?_
    obtain ⟨u, hu, rfl⟩ := List.mem_map.1 hid
    exact (db.idsBelow u hu).ne (List.mem_singleton.1 hnew)
  usernames := by
    rw [List.map_append]
    refine db.usernames.append (List.nodup_singleton _) fun name hname hnew => ?_
    have heq : name = username := List.mem_singleton.1 hnew
    exact h (heq ▸ hname)
  roleIds := by
    intro u hu
    rcases List.mem_append.1 hu with hu | hu
    · exact db.roleIds u hu
    · rw [List.mem_singleton.1 hu]
      exact hrole
  references := by
    intro id hid
    rw [List.map_append]
    exact List.mem_append_left _ (db.references id hid)

section Updates

variable {db : AuthDb} {userId : UserId} {row : Option TokenRow} {username : String}
variable {passwordHash : ByteArray} {roleId : Int}

@[simp] theorem initial_tokens : initial.tokens userId = none := by
  rfl

@[simp] theorem setToken_tokens (h : row.isSome = true → userId ∈ db.users.map UserRow.id) :
    (db.setToken userId row h).tokens = update db.tokens userId row := by
  rfl

end Updates

end AuthDb

/-- `UserRegisterResponse`. -/
structure UserRegisterResponse where
  userId : UserId
  username : String
deriving DecidableEq

/-- `UserIdPassword`. -/
structure UserIdPassword where
  userId : UserId
  passwordHash : ByteArray

/-- `User`; `privileges` is null where the left join finds no role. -/
structure User where
  id : UserId
  username : String
  privileges : Option Int
deriving DecidableEq

section AuthRepository

/-- A text parameter; the server has no text with a zero character. -/
def textParameter (text : String) : Except AuthExc String :=
  if Char.ofNat 0 ∈ text.toList then .error .dataError else .ok text

/-- A text written to a column of type `varchar(50)`; only blanks are cut off. -/
def varchar50 (text : String) : Option String :=
  if (text.toList.drop 50).all fun c => c = ' ' then some (String.ofList (text.toList.take 50))
  else none

/-- `AuthRepository.create_new_user`. -/
def createNewUser (username : String) (password : ByteArray) (roleId : Int) (db : AuthDb) :
    Except AuthExc UserRegisterResponse × AuthDb :=
  match textParameter username with
  | .error e => (.error e, db)
  | .ok text =>
      -- the value is cast when the statement is planned, before the serial is asked
      match varchar50 text with
      | none => (.error .dataError, db)
      | some stored =>
          -- a row that is refused has used up its value of the serial
          if h : stored ∈ db.users.map UserRow.username then
            (.error (.integrityError true), db.skipId)
          else if hrole : roleId ∈ roles.map Prod.fst then
            (.ok ⟨db.nextUserId, stored⟩, db.addUser stored password roleId h hrole)
          else (.error (.integrityError false), db.skipId)

/-- `AuthRepository.get_user_id_password`. -/
def getUserIdPassword (username : String) (db : AuthDb) : Except AuthExc (Option UserIdPassword) :=
  (textParameter username).map fun text =>
    (db.users.find? fun u => u.username = text).map fun u => ⟨u.id, u.passwordHash⟩

/-- `get_or_create_user_token` of `migrations/0002_token_and_roles.sql`. -/
def getOrCreateUserToken (userId : UserId) (now : Timestamp) (gen : UUID) (db : AuthDb) :
    Except AuthExc UUID × AuthDb :=
  match db.tokens userId with
  | some row => (.ok row.accessToken, db)
  | none =>
      if h : userId ∈ db.users.map UserRow.id then
        (.ok gen, db.setToken userId (some ⟨gen, now + tokenLifetime⟩) fun _ => h)
      else (.error (.integrityError false), db)

/-- `AuthRepository.get_access_token_by_user_id`. -/
def getAccessTokenByUserId (userId : UserId) (now : Timestamp) (gen : UUID) (db : AuthDb) :
    Except AuthExc UUID × AuthDb :=
  getOrCreateUserToken userId now gen db

/-- `AuthRepository.delete_token`. -/
def deleteTokenRow (userId : UserId) (db : AuthDb) : Option UserId × AuthDb :=
  ((db.tokens userId).map fun _ => userId, db.setToken userId none (by simp))

/-- The row of a user matches `access_token = :access_token and valid_until > now()`. -/
def AuthDb.holdsToken (now : Timestamp) (token : UUID) (db : AuthDb) (u : UserRow) : Bool :=
  (db.tokens u.id).any fun t => t.accessToken = token && t.validUntil > now

/-- `AuthRepository.get_user_by_token`. -/
def getUserByToken (now : Timestamp) (token : UUID) (db : AuthDb) : Option User :=
  (db.users.find? (db.holdsToken now token)).map fun u =>
    ⟨u.id, u.username, (roles.find? fun r => r.1 = u.roleId).map fun r => r.2.2⟩

/-- `AuthRepository.refresh_user_token`. -/
def refreshUserToken (userId : UserId) (now : Timestamp) (gen : UUID) (db : AuthDb) :
    Option UUID × AuthDb :=
  match h : db.tokens userId with
  | none => (none, db)
  | some _ =>
      (some gen, db.setToken userId (some ⟨gen, now + tokenLifetime⟩)
        fun _ => db.references userId (by simp [h]))

section Rows

variable {username : String} {hash : ByteArray} {roleId : Int} {now : Timestamp} {gen : UUID}
variable {db : AuthDb} {u : UserId} {row : TokenRow}

theorem createNewUser_tokens :
    (createNewUser username hash roleId db).2.tokens = db.tokens := by
  unfold createNewUser
  split
  · rfl
  · split
    · rfl
    · split
      · rfl
      · split <;> rfl

theorem mem_users_of_getUserIdPassword
    (h : getUserIdPassword username db = .ok (some ⟨u, hash⟩)) :
    u ∈ db.users.map UserRow.id := by
  unfold getUserIdPassword at h
  cases htext : textParameter username with
  | error e =>
      rw [htext] at h
      cases h
  | ok text =>
      rw [htext] at h
      obtain ⟨w, hw, heq⟩ := Option.map_eq_some_iff.1 (Except.ok.inj h)
      cases heq
      exact List.mem_map_of_mem (List.mem_of_find?_eq_some hw)

theorem getOrCreateUserToken_of_some (h : db.tokens u = some row) :
    getOrCreateUserToken u now gen db = (.ok row.accessToken, db) := by
  rw [getOrCreateUserToken, h]

theorem getOrCreateUserToken_of_none (h : db.tokens u = none)
    (hu : u ∈ db.users.map UserRow.id) :
    getOrCreateUserToken u now gen db =
      (.ok gen, db.setToken u (some ⟨gen, now + tokenLifetime⟩) fun _ => hu) := by
  rw [getOrCreateUserToken, h]
  exact dif_pos hu

theorem refreshUserToken_of_none (h : db.tokens u = none) :
    refreshUserToken u now gen db = (none, db) := by
  unfold refreshUserToken
  split
  · rfl
  · rename_i hrow
    rw [h] at hrow
    cases hrow

theorem refreshUserToken_tokens (h : db.tokens u = some row) :
    (refreshUserToken u now gen db).2.tokens =
      update db.tokens u (some ⟨gen, now + tokenLifetime⟩) := by
  unfold refreshUserToken
  split
  · rename_i hrow
    rw [h] at hrow
    cases hrow
  · rfl

end Rows

end AuthRepository

end AuthStore

end SmartHttpRequester
