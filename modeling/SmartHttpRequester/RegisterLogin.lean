import SmartHttpRequester.TokenRows

/-!
# Register, then log in

Four places look at the size of what a user registers with: the validator counts
the characters of `password_hash`, bcrypt its bytes, `varchar(50)` the
characters of the username, and the database knows no zero character.
`create_user` catches `IntegrityError` only, so what one of them refuses
escapes as another exception.

`registersAndLogsIn_iff`: exactly which registrations go through and can be
logged in with afterwards, for an ideal hash.

Texts are Unicode texts.  A Python `str` may also hold a lone surrogate, which
the validators let pass; `.encode()` and asyncpg raise on one, so such a
registration or login fails.  It is not among the texts here.
-/

namespace SmartHttpRequester

open Foundations

section RegisterLogin

variable [PasswordLibraries]

open PasswordLibraries

/--
The libraries as documented, with a hash that tells any two passwords apart:
bcrypt takes up to 72 bytes and raises `ValueError` beyond.
-/
structure IdealHashing : Prop where
  hashpw_isSome : ∀ password salt, (hashpw password salt).isSome = true ↔ password.size ≤ 72
  checkpw_hashpw : ∀ password salt hashed, hashpw password salt = some hashed →
    ∀ q, (q.size ≤ 72 → ∃ correct, checkpw q hashed = some correct ∧
        (correct = true ↔ q = password)) ∧
      (72 < q.size → checkpw q hashed = none)
  hash_isSome : ∀ password salt, (hash password salt).isSome = true
  verify_hash : ∀ password salt hashStr, hash password salt = some hashStr →
    ∀ q, verify hashStr q = if q = password then .ok () else .error .verifyMismatchError

/-- The variant of `hash_password` in use takes the password. -/
def Hashable (password : String) : Prop :=
  useArgon = true ∨ password.toUTF8.size ≤ 72

variable {password : String} {hashed : ByteArray} {salt : Nat}

section Hashing

theorem hashPassword_ok_iff (hideal : IdealHashing) :
    (∃ hashed, hashPassword password salt = .ok hashed) ↔ Hashable password := by
  unfold hashPassword Hashable
  by_cases hargon : useArgon = true
  · obtain ⟨hashStr, hhash⟩ := Option.isSome_iff_exists.1 (hideal.hash_isSome password salt)
    simp [hargon, hhash]
  · rw [if_neg hargon, or_iff_right hargon, ← hideal.hashpw_isSome password.toUTF8 salt]
    cases hashpw password.toUTF8 salt with
    | none => simp
    | some hashed => simp

omit [PasswordLibraries] in
theorem fromUTF8?_toUTF8 (s : String) : String.fromUTF8? s.toUTF8 = some s := by
  have hvalid : s.toUTF8.IsValidUTF8 := s.isValidUTF8
  rw [String.fromUTF8?, dif_pos hvalid]
  rfl

/-- A hash is verified by the password it was made from, and by no other. -/
theorem checkPassword_of_hashPassword (hideal : IdealHashing)
    (h : hashPassword password salt = .ok hashed) (q : String) :
    checkPassword q hashed = .ok (decide (q = password)) := by
  unfold hashPassword at h
  unfold checkPassword
  by_cases hargon : useArgon = true
  · rw [if_pos hargon] at h ⊢
    cases hhash : hash password salt with
    | none =>
        rw [hhash] at h
        cases h
    | some hashStr =>
        rw [hhash] at h
        cases h
        rw [fromUTF8?_toUTF8]
        simp only [hideal.verify_hash password salt hashStr hhash q]
        by_cases hq : q = password <;> simp [hq]
  · rw [if_neg hargon] at h ⊢
    cases hhash : hashpw password.toUTF8 salt with
    | none =>
        rw [hhash] at h
        cases h
    | some hashed' =>
        rw [hhash] at h
        cases h
        have hsome : (hashpw password.toUTF8 salt).isSome = true := hhash ▸ rfl
        have hsize := (hideal.hashpw_isSome password.toUTF8 salt).1 hsome
        obtain ⟨htakes, hrefuses⟩ :=
          hideal.checkpw_hashpw password.toUTF8 salt hashed hhash q.toUTF8
        by_cases hq : q.toUTF8.size ≤ 72
        · obtain ⟨correct, hcheck, hcorrect⟩ := htakes hq
          rw [hcheck]
          refine congrArg Except.ok ?_
          rw [Bool.eq_iff_iff, hcorrect, decide_eq_true_iff]
          exact String.toByteArray_inj
        · have hne : q ≠ password := by
            rintro rfl
            exact hq hsize
          rw [hrefuses (by omega), decide_eq_false hne]

end Hashing

section Users

variable {db : AuthDb} {username : String} {roleId : Int}

omit [PasswordLibraries] in
/-- Registration appends to the users, or leaves them. -/
theorem createNewUser_users :
    db.users <+: (createNewUser username hashed roleId db).2.users := by
  unfold createNewUser
  split
  · exact List.prefix_rfl
  · split
    · exact List.prefix_rfl
    · split
      · exact List.prefix_rfl
      · split
        · exact List.prefix_append _ _
        · exact List.prefix_rfl

omit [PasswordLibraries] in
theorem getOrCreateUserToken_users {userId : UserId} {now : Timestamp} {gen : UUID} :
    (getOrCreateUserToken userId now gen db).2.users = db.users := by
  unfold getOrCreateUserToken
  split
  · rfl
  · split <;> rfl

theorem tokenFor_users {now : Timestamp} {gen : UUID} :
    (tokenFor username password now gen db).2.users = db.users := by
  unfold tokenFor
  split
  · rfl
  · rfl
  · split
    · rfl
    · rfl
    · exact getOrCreateUserToken_users

/-- No request changes or removes a user. -/
theorem perform_users (step : AuthStep) (db : AuthDb) :
    db.users <+: (step.perform db).2.users := by
  obtain ⟨request, now, gen, salt⟩ := step
  cases request with
  | register data =>
      show db.users <+: (createUser data salt db).2.users
      unfold createUser
      split
      · exact List.prefix_rfl
      · exact createNewUser_users
  | login data =>
      show db.users <+: (tokenFor data.username data.passwordHash now gen db).2.users
      rw [tokenFor_users]
  | loginForDocs login password =>
      show db.users <+: (tokenFor login (sha256Hexdigest password.toUTF8) now gen db).2.users
      rw [tokenFor_users]
  | refresh userId =>
      show db.users <+: (refreshToken userId now gen db).2.users
      rw [refreshToken_snd, refreshUserToken]
      split <;> exact List.prefix_rfl
  | logout userId =>
      show db.users <+: (deleteToken userId db).2.users
      unfold deleteToken
      dsimp only
      split <;> exact List.prefix_rfl

theorem runAuth_users (db : AuthDb) (steps : List AuthStep) :
    db.users <+: (runAuth db steps).users := by
  induction steps generalizing db with
  | nil =>
      exact List.prefix_rfl
  | cons step steps ih =>
      exact (perform_users step db).trans (ih _)

end Users

section Registration

variable {d : UserCredentials} {db : AuthDb} {user : UserRegisterResponse}

omit [PasswordLibraries] in
theorem varchar50_of_short {text : String} (h : text.length ≤ 50) :
    varchar50 text = some text := by
  have hlength : text.toList.length ≤ 50 := by rwa [String.length_toList]
  simp [varchar50, List.drop_of_length_le hlength, List.take_of_length_le hlength]

omit [PasswordLibraries] in
theorem varchar50_length {text stored : String} (h : varchar50 text = some stored) :
    stored.length ≤ 50 := by
  unfold varchar50 at h
  split at h
  · cases h
    simp
  · cases h

/-- What a registration that goes through has done. -/
structure Registered (d : UserCredentials) (salt : Nat) (db db' : AuthDb) (stored : String)
    (hashed : ByteArray) : Prop where
  hash : hashPassword d.passwordHash salt = .ok hashed
  noZero : Char.ofNat 0 ∉ d.username.toList
  column : varchar50 d.username = some stored
  users : db'.users = db.users ++ [⟨db.nextUserId, stored, hashed, 1⟩]

theorem registered_of_createUser (h : (createUser d salt db).1 = .ok user) :
    ∃ stored hashed, Registered d salt db (createUser d salt db).2 stored hashed := by
  cases hhash : hashPassword d.passwordHash salt with
  | error e =>
      simp only [createUser, hhash] at h
      cases h
  | ok hashed =>
      by_cases hzero : Char.ofNat 0 ∈ d.username.toList
      · simp [createUser, hhash, createNewUser, textParameter, hzero, Except.mapError] at h
      · cases hcolumn : varchar50 d.username with
        | none =>
            simp [createUser, hhash, createNewUser, textParameter, hzero, hcolumn,
              Except.mapError] at h
        | some stored =>
            by_cases htaken : stored ∈ db.users.map UserRow.username
            · simp only [createUser, hhash, createNewUser, textParameter, if_neg hzero, hcolumn,
                dif_pos htaken] at h
              cases h
            · have hrole : (1 : Int) ∈ roles.map Prod.fst := by decide
              refine ⟨stored, hashed, hhash, hzero, hcolumn, ?_⟩
              simp only [createUser, hhash, createNewUser, textParameter, if_neg hzero, hcolumn,
                dif_neg htaken, dif_pos hrole]
              rfl

theorem createUser_ok (hhash : hashPassword d.passwordHash salt = .ok hashed)
    (hzero : Char.ofNat 0 ∉ d.username.toList) (hshort : d.username.length ≤ 50)
    (hnew : d.username ∉ db.users.map UserRow.username) :
    ∃ user, (createUser d salt db).1 = .ok user := by
  have hrole : (1 : Int) ∈ roles.map Prod.fst := by decide
  refine ⟨⟨db.nextUserId, d.username⟩, ?_⟩
  simp only [createUser, hhash, createNewUser, textParameter, if_neg hzero,
    varchar50_of_short hshort, dif_neg hnew, dif_pos hrole, Except.mapError]

/--
`create_user`, also where the database cannot be reached: the statement then
raises an error of the driver, which is no `IntegrityError`.
-/
def createUserWith (available : Bool) (data : UserCredentials) (salt : Nat) (db : AuthDb) :
    Except AuthExc UserRegisterResponse × AuthDb :=
  if available then createUser data salt db
  else
    match hashPassword data.passwordHash salt with
    | .error e => (.error e, db)
    | .ok _ => (.error .dataError, db)

/-- The answer of `get_token` to a password, after other requests in the meantime. -/
def loginAnswer (username password : String) (hlength : password.length = 64)
    (now : Timestamp) (gen : UUID) (steps : List AuthStep) (db : AuthDb) :
    Except AuthExc AccessTokenResponse :=
  (getToken ⟨username, password, hlength⟩ now gen (runAuth db steps)).1

/-- The registration goes through, and its password, and no other, can then be used. -/
structure RegistersAndLogsIn (available : Bool) (d : UserCredentials) (salt : Nat) (db : AuthDb) :
    Prop where
  answers : (∃ user, (createUserWith available d salt db).1 = .ok user) ∨
    (createUserWith available d salt db).1 = .error .userAlreadyExists ∨
    (createUserWith available d salt db).1 = .error .unknownException
  registers : available = true → ∃ user, (createUserWith available d salt db).1 = .ok user
  logsIn : available = true → ∀ q hlength now gen steps,
    (q = d.passwordHash → ∃ token, loginAnswer d.username q hlength now gen steps
      (createUserWith available d salt db).2 = .ok token) ∧
    (q ≠ d.passwordHash → loginAnswer d.username q hlength now gen steps
      (createUserWith available d salt db).2 = .error .passwordIsIncorrect)

/-- Without the database, the driver's error escapes, or the one of the hash. -/
theorem RegistersAndLogsIn.available_eq_true {available : Bool}
    (h : RegistersAndLogsIn available d salt db) :
    available = true := by
  by_contra hno
  have hanswers := h.answers
  rw [createUserWith, if_neg hno] at hanswers
  cases hhash : hashPassword d.passwordHash salt with
  | error e =>
      rw [hhash] at hanswers
      unfold hashPassword at hhash
      split at hhash
      · split at hhash
        · cases hhash
        · cases hhash
          simp at hanswers
      · split at hhash
        · cases hhash
        · cases hhash
          simp at hanswers
  | ok hashed =>
      rw [hhash] at hanswers
      simp at hanswers

/-- A registered user is found under the stored name by every later request. -/
theorem Registered.found {db' : AuthDb} {stored : String}
    (h : Registered d salt db db' stored hashed) (steps : List AuthStep)
    (hnew : stored ∉ db.users.map UserRow.username) :
    (runAuth db' steps).users.find? (fun u => u.username = stored) =
      some ⟨db.nextUserId, stored, hashed, 1⟩ := by
  have hfound : db'.users.find? (fun u => u.username = stored) =
      some ⟨db.nextUserId, stored, hashed, 1⟩ := by
    have hnone : db.users.find? (fun u => u.username = stored) = none := by
      rw [List.find?_eq_none]
      intro u hu
      have hne : u.username ≠ stored := fun hname => hnew (hname ▸ List.mem_map_of_mem hu)
      simpa using hne
    rw [h.users, List.find?_append, hnone]
    simp
  exact (runAuth_users db' steps).find?_eq_some hfound

/-- A name that was cut off is not found by the name the user registered with. -/
theorem Registered.not_found {db' : AuthDb} {stored : String}
    (h : Registered d salt db db' stored hashed) (hlong : 50 < d.username.length)
    (hnew : d.username ∉ db.users.map UserRow.username) :
    db'.users.find? (fun u => u.username = d.username) = none := by
  have hne : stored ≠ d.username := by
    rintro rfl
    have hshort := varchar50_length h.column
    omega
  rw [h.users, List.find?_eq_none]
  intro u hu
  rcases List.mem_append.1 hu with hu | hu
  · have hother : u.username ≠ d.username := fun hname => hnew (hname ▸ List.mem_map_of_mem hu)
    simpa using hother
  · rw [List.mem_singleton] at hu
    subst hu
    simpa using hne

/-- The user whose name was cut off cannot log in, also with the right password. -/
theorem Registered.loginAnswer_of_long {db' : AuthDb} {stored : String}
    (h : Registered d salt db db' stored hashed) (hlong : 50 < d.username.length)
    (hnew : d.username ∉ db.users.map UserRow.username) {now : Timestamp} {gen : UUID} :
    loginAnswer d.username d.passwordHash d.passwordHash_length now gen [] db' =
      .error .userDoesNotExists := by
  have hrow : getUserIdPassword d.username db' = .ok none := by
    simp [getUserIdPassword, textParameter, h.noZero, h.not_found hlong hnew, Except.map]
  simp [loginAnswer, getToken, tokenFor, runAuth, stateAfter, hrow]

/-- The answer to a login with the right name: the password decides. -/
theorem loginAnswer_of_found (hideal : IdealHashing) {db' : AuthDb} {u : UserRow} {q : String}
    {hlength : q.length = 64} {now : Timestamp} {gen : UUID} {steps : List AuthStep}
    (hhash : hashPassword password salt = .ok u.passwordHash)
    (hzero : Char.ofNat 0 ∉ d.username.toList)
    (hfound : (runAuth db' steps).users.find? (fun u => u.username = d.username) = some u) :
    (q = password → ∃ token, loginAnswer d.username q hlength now gen steps db' = .ok token) ∧
    (q ≠ password → loginAnswer d.username q hlength now gen steps db' =
      .error .passwordIsIncorrect) := by
  have hrow : getUserIdPassword d.username (runAuth db' steps) =
      .ok (some ⟨u.id, u.passwordHash⟩) := by
    simp [getUserIdPassword, textParameter, hzero, hfound, Except.map]
  have hcheck := checkPassword_of_hashPassword hideal hhash q
  constructor
  · rintro rfl
    have hverifies : Verifies d.username q (runAuth db' steps) u.id :=
      ⟨u.passwordHash, hrow, by rw [hcheck, decide_eq_true rfl]⟩
    rw [loginAnswer, getToken, tokenFor_of_verifies hverifies]
    cases htoken : (runAuth db' steps).tokens u.id with
    | some row => exact ⟨_, by rw [getOrCreateUserToken_of_some htoken]; rfl⟩
    | none => exact ⟨_, by rw [getOrCreateUserToken_of_none htoken hverifies.mem_users]; rfl⟩
  · intro hq
    rw [decide_eq_false hq] at hcheck
    simp only [loginAnswer, getToken, tokenFor, hrow, hcheck]

/--
For an ideal hash and a name that is not taken: the registration goes through,
and later logins succeed exactly with its password, if and only if the database
is available, the hash takes the password, and the name fits the column and has
no zero character.
-/
theorem registersAndLogsIn_iff (hideal : IdealHashing) (available : Bool) (d : UserCredentials)
    (salt : Nat) (db : AuthDb) (hnew : d.username ∉ db.users.map UserRow.username) :
    RegistersAndLogsIn available d salt db ↔
      available = true ∧ Hashable d.passwordHash ∧
      d.username.length ≤ 50 ∧ Char.ofNat 0 ∉ d.username.toList := by
  constructor
  · intro h
    obtain rfl := h.available_eq_true
    obtain ⟨user, hok⟩ := h.registers rfl
    have hlogsIn := h.logsIn rfl d.passwordHash d.passwordHash_length 0 0 []
    have hwith : createUserWith true d salt db = createUser d salt db := rfl
    rw [hwith] at hok hlogsIn
    obtain ⟨stored, hashed, hregistered⟩ := registered_of_createUser hok
    have hhashable : Hashable d.passwordHash :=
      (hashPassword_ok_iff hideal).1 ⟨hashed, hregistered.hash⟩
    refine ⟨rfl, hhashable, ?_, hregistered.noZero⟩
    by_contra hlong
    obtain ⟨token, htoken⟩ := hlogsIn.1 rfl
    rw [hregistered.loginAnswer_of_long (by omega) hnew] at htoken
    cases htoken
  · rintro ⟨rfl, hhashable, hshort, hzero⟩
    obtain ⟨hashed, hhash⟩ : ∃ hashed, hashPassword d.passwordHash salt = .ok hashed :=
      (hashPassword_ok_iff hideal).2 hhashable
    obtain ⟨user, hok⟩ := createUser_ok hhash hzero hshort hnew
    have hwith : createUserWith true d salt db = createUser d salt db := rfl
    refine ⟨?_, ?_, ?_⟩
    · exact Or.inl ⟨user, hok⟩
    · exact fun _ => ⟨user, hok⟩
    · intro _ q hlength now gen steps
      rw [hwith]
      obtain ⟨stored, hashed', hregistered⟩ := registered_of_createUser hok
      obtain rfl : d.username = stored :=
        Option.some.inj ((varchar50_of_short hshort).symm.trans hregistered.column)
      exact loginAnswer_of_found hideal hregistered.hash hzero (hregistered.found steps hnew)

end Registration

omit [PasswordLibraries] in
/-- Hashing that keeps the password, with the limit of bcrypt. -/
@[reducible] def limitedPasswords : PasswordLibraries where
  useArgon := false
  hashpw password _ := if password.size ≤ 72 then some password else none
  checkpw password hashed :=
    if password.size ≤ 72 then some (password.data.toList = hashed.data.toList) else none
  hash password _ := some password
  verify hashed password := if password = hashed then .ok () else .error .verifyMismatchError
  sha256Hexdigest _ := ""

omit [PasswordLibraries] in
theorem limitedPasswords_ideal :
    letI := limitedPasswords
    IdealHashing := by
  let := limitedPasswords
  refine ⟨?_, ?_, ?_, ?_⟩
  · intro password salt
    change (if password.size ≤ 72 then some password else none).isSome = true ↔ _
    simp
  · intro password salt hashed h q
    obtain ⟨-, hkept⟩ := Option.ite_none_right_eq_some.1 h
    cases hkept
    constructor
    · intro hq
      refine ⟨_, if_pos hq, ?_⟩
      rw [decide_eq_true_iff, Array.toList_inj, ByteArray.ext_iff]
    · exact fun hq => if_neg (by omega)
  · exact fun password salt => rfl
  · intro password salt hashStr h q
    cases h
    rfl

omit [PasswordLibraries] in
/-- A short name and an ASCII hash go through, on the empty tables. -/
theorem registersAndLogsIn_sample :
    letI := limitedPasswords
    RegistersAndLogsIn true sampleCredentials 0 AuthDb.initial := by
  let := limitedPasswords
  refine (registersAndLogsIn_iff limitedPasswords_ideal true sampleCredentials 0 AuthDb.initial
    (by decide)).2 ⟨rfl, Or.inr ?_, by decide, by decide⟩
  decide

omit [PasswordLibraries] in
/-- 64 times é: as many characters as the validator asks for, but twice as many bytes. -/
def wideCredentials : UserCredentials where
  username := "user"
  passwordHash := String.ofList (List.replicate 64 (Char.ofNat 233))
  passwordHash_length := by rw [String.length_ofList, List.length_replicate]

omit [PasswordLibraries] in
/-- The validator accepts the body, and the `ValueError` of bcrypt escapes. -/
theorem wideCredentials_escape :
    letI := limitedPasswords
    IdealHashing ∧
    wideCredentials.username ∉ AuthDb.initial.users.map UserRow.username ∧
    (createUserWith true wideCredentials 0 AuthDb.initial).1 = .error .valueError ∧
    ¬ RegistersAndLogsIn true wideCredentials 0 AuthDb.initial := by
  let := limitedPasswords
  have hwide : ¬ wideCredentials.passwordHash.toUTF8.size ≤ 72 := by
    decide +kernel
  have hnone : PasswordLibraries.hashpw wideCredentials.passwordHash.toUTF8 0 = none :=
    if_neg hwide
  have hhash : hashPassword wideCredentials.passwordHash 0 = .error .valueError := by
    rw [hashPassword, hnone]
    rfl
  have hanswer : (createUserWith true wideCredentials 0 AuthDb.initial).1 = .error .valueError := by
    simp [createUserWith, createUser, hhash]
  refine ⟨limitedPasswords_ideal, by decide, hanswer, fun h => ?_⟩
  obtain ⟨user, hok⟩ := h.registers rfl
  rw [hanswer] at hok
  cases hok

end RegisterLogin

end SmartHttpRequester
