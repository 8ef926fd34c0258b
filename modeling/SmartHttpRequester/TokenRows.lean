import SmartHttpRequester.AuthRequests

/-!
# What a request does to the table `tokens`

A request generates a token for at most one user: a login whose password
verifies and that finds no row, or a refresh that finds one.  Besides, only a
logout changes the table, and a row is replaced or deleted only by a refresh or
a logout of its user (`perform_token_iff`).

When no UUID is generated twice, no two users hold one token, and
`authorization` resolves a token to the user who holds it
(`getUserByToken_iff`, `authorization_ok_iff`).
-/

namespace SmartHttpRequester

open Foundations Function

section TokenRows

variable [PasswordLibraries]

/-- The credentials verify against the row of the user. -/
def Verifies (username password : String) (db : AuthDb) (userId : UserId) : Prop :=
  ∃ passwordHash,
    getUserIdPassword username db = .ok (some ⟨userId, passwordHash⟩) ∧
    checkPassword password passwordHash = .ok true

/-- The request is a login of the user, with a password that verifies. -/
def AuthRequest.LogsIn (db : AuthDb) (userId : UserId) : AuthRequest → Prop
  | .login data => Verifies data.username data.passwordHash db userId
  | .loginForDocs username password =>
      Verifies username (PasswordLibraries.sha256Hexdigest password.toUTF8) db userId
  | .register _ => False
  | .refresh _ => False
  | .logout _ => False

/-- The request generates a token for the user. -/
def Generates (step : AuthStep) (db : AuthDb) (userId : UserId) : Prop :=
  (step.request.LogsIn db userId ∧ db.tokens userId = none) ∨
    (step.request = .refresh userId ∧ (db.tokens userId).isSome = true)

omit [PasswordLibraries] in
/-- The request is a refresh or a logout of the user; it commits even if it finds no row. -/
def Ends (step : AuthStep) (userId : UserId) : Prop :=
  step.request = .refresh userId ∨ step.request = .logout userId

variable {username password : String} {now t : Timestamp} {gen x : UUID} {db : AuthDb}
variable {u u' : UserId} {row : TokenRow} {step : AuthStep}

section Logins

theorem Verifies.mem_users (h : Verifies username password db u) :
    u ∈ db.users.map UserRow.id := by
  obtain ⟨hash, hfound, -⟩ := h
  exact mem_users_of_getUserIdPassword hfound

theorem Verifies.unique (h : Verifies username password db u)
    (h' : Verifies username password db u') :
    u = u' := by
  obtain ⟨hash, hfound, -⟩ := h
  obtain ⟨hash', hfound', -⟩ := h'
  rw [hfound] at hfound'
  cases hfound'
  rfl

/-- A login with the right credentials answers the token of the user. -/
theorem tokenFor_of_verifies (h : Verifies username password db u) :
    tokenFor username password now gen db =
      ((getOrCreateUserToken u now gen db).1.map fun token => { accessToken := token },
        (getOrCreateUserToken u now gen db).2) := by
  obtain ⟨hash, hfound, hcheck⟩ := h
  simp only [tokenFor, hfound, hcheck, getAccessTokenByUserId]

/-- Any other login fails and changes nothing. -/
theorem tokenFor_of_not_verifies (h : ∀ u, ¬ Verifies username password db u) :
    ∃ e, tokenFor username password now gen db = (.error e, db) := by
  unfold tokenFor
  cases hfound : getUserIdPassword username db with
  | error e => exact ⟨e, rfl⟩
  | ok found =>
      cases found with
      | none => exact ⟨.userDoesNotExists, rfl⟩
      | some idWithHash =>
          cases hcheck : checkPassword password idWithHash.passwordHash with
          | error e => exact ⟨e, by simp only [hcheck]⟩
          | ok correct =>
              cases correct with
              | false => exact ⟨.passwordIsIncorrect, by simp only [hcheck]⟩
              | true => exact absurd ⟨_, hfound, hcheck⟩ (h idWithHash.userId)

theorem AuthRequest.LogsIn.unique {request : AuthRequest} (h : request.LogsIn db u)
    (h' : request.LogsIn db u') :
    u = u' := by
  cases request with
  | login data => exact Verifies.unique h h'
  | loginForDocs username password => exact Verifies.unique h h'
  | register data => cases h
  | refresh userId => cases h
  | logout userId => cases h

theorem AuthRequest.LogsIn.mem_users {request : AuthRequest} (h : request.LogsIn db u) :
    u ∈ db.users.map UserRow.id := by
  cases request with
  | login data => exact Verifies.mem_users h
  | loginForDocs username password => exact Verifies.mem_users h
  | register data => cases h
  | refresh userId => cases h
  | logout userId => cases h

theorem AuthRequest.LogsIn.ne {request : AuthRequest} (h : request.LogsIn db u) (u' : UserId) :
    request ≠ .refresh u' ∧ request ≠ .logout u' := by
  constructor
  · rintro rfl
    cases h
  · rintro rfl
    cases h

/-- A login with the right credentials does what `get_or_create_user_token` does. -/
theorem perform_of_logsIn (h : step.request.LogsIn db u) :
    step.perform db =
      ((getOrCreateUserToken u step.now step.gen db).1.map
          fun token => .token { accessToken := token },
        (getOrCreateUserToken u step.now step.gen db).2) := by
  have hmap : ∀ answer : Except AuthExc UUID,
      (answer.map fun token => AccessTokenResponse.mk token "Bearer").map AuthReply.token =
        answer.map fun token => .token { accessToken := token } := by
    intro answer
    cases answer <;> rfl
  obtain ⟨request, now, gen, salt⟩ := step
  cases request with
  | login data =>
      have hverifies : Verifies data.username data.passwordHash db u := h
      simp only [AuthStep.perform, getToken, tokenFor_of_verifies hverifies, hmap]
  | loginForDocs username password =>
      have hverifies :
          Verifies username (PasswordLibraries.sha256Hexdigest password.toUTF8) db u := h
      simp only [AuthStep.perform, getTokenForDocs, tokenFor_of_verifies hverifies, hmap]
  | register data => cases h
  | refresh userId => cases h
  | logout userId => cases h

end Logins

section Steps

theorem perform_tokens (step : AuthStep) (db : AuthDb) :
    (∃ u, Generates step db u ∧
      (step.perform db).2.tokens =
        update db.tokens u (some ⟨step.gen, step.now + tokenLifetime⟩)) ∨
    (∃ u, step.request = .logout u ∧
      (step.perform db).2.tokens = update db.tokens u none) ∨
    ((∀ u, ¬ Generates step db u) ∧ (∀ u, step.request ≠ .logout u) ∧
      (step.perform db).2.tokens = db.tokens) := by
  by_cases hlogin : ∃ u, step.request.LogsIn db u
  · obtain ⟨u, hu⟩ := hlogin
    rw [perform_of_logsIn hu]
    cases hrow : db.tokens u with
    | none =>
        rw [getOrCreateUserToken_of_none hrow hu.mem_users]
        exact Or.inl ⟨u, Or.inl ⟨hu, hrow⟩, rfl⟩
    | some row =>
        rw [getOrCreateUserToken_of_some hrow]
        refine Or.inr (Or.inr ⟨?_, fun u' => (hu.ne u').2, rfl⟩)
        rintro u' (⟨hlogin, hnone⟩ | ⟨hrefresh, -⟩)
        · obtain rfl := hu.unique hlogin
          rw [hrow] at hnone
          cases hnone
        · exact (hu.ne u').1 hrefresh
  · obtain ⟨request, now, gen, salt⟩ := step
    -- nobody's password verifies, so only a refresh generates
    have hgenerates : (∀ u, request ≠ .refresh u) →
        ∀ u, ¬ Generates ⟨request, now, gen, salt⟩ db u := by
      rintro hother u (⟨hlogs, -⟩ | ⟨hrefresh, -⟩)
      · exact hlogin ⟨u, hlogs⟩
      · exact hother u hrefresh
    cases request with
    | register data =>
        exact Or.inr (Or.inr ⟨hgenerates nofun, nofun, createUser_tokens⟩)
    | login data =>
        obtain ⟨e, he⟩ : ∃ e,
            tokenFor data.username data.passwordHash now gen db = (.error e, db) :=
          tokenFor_of_not_verifies fun u hu => hlogin ⟨u, hu⟩
        exact Or.inr (Or.inr ⟨hgenerates nofun, nofun,
          by simp only [AuthStep.perform, getToken, he]⟩)
    | loginForDocs username password =>
        obtain ⟨e, he⟩ : ∃ e, tokenFor username
            (PasswordLibraries.sha256Hexdigest password.toUTF8) now gen db = (.error e, db) :=
          tokenFor_of_not_verifies fun u hu => hlogin ⟨u, hu⟩
        exact Or.inr (Or.inr ⟨hgenerates nofun, nofun,
          by simp only [AuthStep.perform, getTokenForDocs, he]⟩)
    | refresh userId =>
        cases hrow : db.tokens userId with
        | none =>
            refine Or.inr (Or.inr ⟨?_, nofun, ?_⟩)
            · rintro u (⟨hlogs, -⟩ | ⟨hrefresh, hsome⟩)
              · exact hlogin ⟨u, hlogs⟩
              · cases hrefresh
                simp [hrow] at hsome
            · simp only [AuthStep.perform, refreshToken_snd, refreshUserToken_of_none hrow]
        | some row =>
            refine Or.inl ⟨userId, Or.inr ⟨rfl, by simp [hrow]⟩, ?_⟩
            simp only [AuthStep.perform, refreshToken_snd, refreshUserToken_tokens hrow]
    | logout userId =>
        exact Or.inr (Or.inl ⟨userId, rfl, deleteToken_tokens⟩)

theorem Generates.unique (h : Generates step db u) (h' : Generates step db u') :
    u = u' := by
  rcases h with ⟨hlogin, -⟩ | ⟨hrefresh, -⟩
  · rcases h' with ⟨hlogin', -⟩ | ⟨hrefresh', -⟩
    · exact hlogin.unique hlogin'
    · exact absurd hrefresh' (hlogin.ne u').1
  · rcases h' with ⟨hlogin', -⟩ | ⟨hrefresh', -⟩
    · exact absurd hrefresh (hlogin'.ne u).1
    · exact AuthRequest.refresh.inj (hrefresh.symm.trans hrefresh')

/-- A step that generates a token ends at most the one that it replaces. -/
theorem Generates.of_ends (h : Generates step db u) (hends : Ends step u') :
    u = u' := by
  rcases h with ⟨hlogin, -⟩ | ⟨hrefresh, -⟩
  · rcases hends with hrefresh | hlogout
    · exact absurd hrefresh (hlogin.ne u').1
    · exact absurd hlogout (hlogin.ne u').2
  · rcases hends with hrefresh' | hlogout
    · exact AuthRequest.refresh.inj (hrefresh.symm.trans hrefresh')
    · rw [hrefresh] at hlogout
      cases hlogout

/-- The row of a user after a step is the one generated, or one that the step does not end. -/
theorem perform_token_iff :
    (step.perform db).2.tokens u = some row ↔
      (Generates step db u ∧ row = ⟨step.gen, step.now + tokenLifetime⟩) ∨
        (db.tokens u = some row ∧ ¬ Ends step u) := by
  rcases perform_tokens step db with ⟨u', hgen, htokens⟩ | ⟨u', hlogout, htokens⟩ |
      ⟨hgen, hlogout, htokens⟩
  · rw [htokens]
    by_cases hu : u = u'
    · subst hu
      rw [update_self]
      constructor
      · intro hrow
        cases hrow
        exact Or.inl ⟨hgen, rfl⟩
      · rintro (⟨-, rfl⟩ | ⟨hrow, hkept⟩)
        · rfl
        · rcases hgen with ⟨-, hnone⟩ | ⟨hrefresh, -⟩
          · rw [hnone] at hrow
            cases hrow
          · exact absurd (Or.inl hrefresh) hkept
    · rw [update_of_ne hu]
      constructor
      · exact fun hrow => Or.inr ⟨hrow, fun hends => hu (hgen.of_ends hends).symm⟩
      · rintro (⟨hgen', -⟩ | ⟨hrow, -⟩)
        · exact absurd (hgen'.unique hgen) hu
        · exact hrow
  · have hgen : ¬ Generates step db u := by
      rintro (⟨hlogin, -⟩ | ⟨hrefresh, -⟩)
      · exact (hlogin.ne u').2 hlogout
      · rw [hlogout] at hrefresh
        cases hrefresh
    rw [htokens]
    by_cases hu : u = u'
    · subst hu
      simp [hgen, Ends, hlogout]
    · rw [update_of_ne hu]
      simp [hgen, Ends, hlogout, Ne.symm hu]
  · rw [htokens]
    constructor
    · refine fun hrow => Or.inr ⟨hrow, ?_⟩
      rintro (hrefresh | hlogout')
      · exact hgen u (Or.inr ⟨hrefresh, by simp [hrow]⟩)
      · exact hlogout u hlogout'
    · rintro (⟨hgen', -⟩ | ⟨hrow, -⟩)
      · exact absurd hgen' (hgen u)
      · exact hrow

end Steps

end TokenRows

section Holders

variable {db : AuthDb} {t : Timestamp} {x : UUID} {u : UserId}

/-- The row of the user holds the token, and is valid for longer than the given time. -/
def AuthDb.Holds (db : AuthDb) (t : Timestamp) (x : UUID) (u : UserId) : Prop :=
  ∃ row, db.tokens u = some row ∧ row.accessToken = x ∧ t < row.validUntil

/-- No two users hold one token. -/
def AuthDb.OneHolder (db : AuthDb) : Prop :=
  ∀ ⦃u u' row row'⦄, db.tokens u = some row → db.tokens u' = some row' →
    row.accessToken = row'.accessToken → u = u'

theorem holdsToken_iff {w : UserRow} :
    db.holdsToken t x w = true ↔ db.Holds t x w.id := by
  simp [AuthDb.holdsToken, AuthDb.Holds, Option.any_eq_true]

theorem AuthDb.Holds.mem_users (h : db.Holds t x u) :
    ∃ w ∈ db.users, w.id = u := by
  obtain ⟨row, hrow, -⟩ := h
  exact List.mem_map.1 (db.references u (by simp [hrow]))

/-- Where no two users hold one token, it resolves to the user who holds it. -/
theorem getUserByToken_iff (hone : db.OneHolder) :
    (∃ user, getUserByToken t x db = some user ∧ user.id = u) ↔ db.Holds t x u := by
  constructor
  · rintro ⟨user, huser, rfl⟩
    obtain ⟨w, hw, rfl⟩ := Option.map_eq_some_iff.1 huser
    exact holdsToken_iff.1 (List.find?_some hw)
  · intro hholds
    obtain ⟨w, hmem, rfl⟩ := hholds.mem_users
    have hfound : (db.users.find? (db.holdsToken t x)).isSome = true :=
      List.find?_isSome.2 ⟨w, hmem, holdsToken_iff.2 hholds⟩
    obtain ⟨w', hw'⟩ := Option.isSome_iff_exists.1 hfound
    refine ⟨_, congrArg (Option.map _) hw', ?_⟩
    obtain ⟨row, hrow, hx, -⟩ := hholds
    obtain ⟨row', hrow', hx', -⟩ := holdsToken_iff.1 (List.find?_some hw')
    exact hone hrow' hrow (hx'.trans hx.symm)

/-- A resolved user has the privileges of a role. -/
theorem privileges_of_getUserByToken {user : User} (h : getUserByToken t x db = some user) :
    ∃ privileges, user.privileges = some privileges ∧ 0 ≤ privileges := by
  obtain ⟨w, hw, rfl⟩ := Option.map_eq_some_iff.1 h
  have hrole := db.roleIds w (List.mem_of_find?_eq_some hw)
  simp only [roles, List.map_cons, List.map_nil, List.mem_cons, List.not_mem_nil, or_false] at hrole
  rcases hrole with hrole | hrole | hrole
  · exact ⟨31, by simp [hrole, roles], by omega⟩
  · exact ⟨255, by simp [hrole, roles], by omega⟩
  · exact ⟨2147483647, by simp [hrole, roles], by omega⟩

/-- `authorization` without required privileges accepts every user it resolves. -/
theorem authorization_ok_iff {user : User} :
    authorization 0 t (some x) db = .ok user ↔ getUserByToken t x db = some user := by
  cases hfound : getUserByToken t x db with
  | none => simp [authorization, hfound]
  | some found =>
      obtain ⟨privileges, hprivileges, hpos⟩ := privileges_of_getUserByToken hfound
      simp [authorization, hfound, hprivileges, Int.not_lt.2 hpos]

end Holders

end SmartHttpRequester
