import SmartHttpRequester.TokenAcceptance

/-!
# Sessions that a login yields

A login answers the token in the user's row if there is one, and
`get_or_create_user_token` does not look at `valid_until`; `get_user_by_token`
does.  So a login yields a usable session exactly if the last token generated for
the user is less than seven days old or has been ended by a refresh or a logout
(`yieldsSession_iff`); later it answers a token that is not accepted
(`login_answers_expired`).
-/

namespace SmartHttpRequester

open Foundations Function

section UsableSessions

variable [PasswordLibraries]

/-- The login answers a token that resolves to the user at the time of the login. -/
def YieldsSession (db : AuthDb) (login : AuthStep) (u : UserId) : Prop :=
  ∃ response user,
    (login.perform db).1 = .ok (.token response) ∧
    getUserByToken login.now response.accessToken (login.perform db).2 = some user ∧
    user.id = u

variable {login : AuthStep} {db : AuthDb} {u : UserId}

/-- A login answers the token that the row of the user has afterwards. -/
theorem perform_login (h : login.request.LogsIn db u) :
    ∃ row,
      (login.perform db).1 = .ok (.token { accessToken := row.accessToken }) ∧
      (login.perform db).2.tokens u = some row ∧
      (db.tokens u = some row ∨ (db.tokens u = none ∧
        row.validUntil = login.now + tokenLifetime)) := by
  rw [perform_of_logsIn h]
  cases hrow : db.tokens u with
  | none =>
      refine ⟨⟨login.gen, login.now + tokenLifetime⟩, ?_⟩
      rw [getOrCreateUserToken_of_none hrow h.mem_users]
      exact ⟨rfl, by simp, Or.inr ⟨rfl, rfl⟩⟩
  | some row =>
      refine ⟨row, ?_⟩
      rw [getOrCreateUserToken_of_some hrow]
      exact ⟨rfl, hrow, Or.inl rfl⟩

/-- Where no two users hold one token, a session is usable if the row is valid. -/
theorem yieldsSession_iff_validUntil (h : login.request.LogsIn db u)
    (hone : (login.perform db).2.OneHolder) :
    YieldsSession db login u ↔ ∀ row, db.tokens u = some row → login.now < row.validUntil := by
  obtain ⟨row, hanswer, hrow, hbefore⟩ := perform_login h
  have hresolves :
      YieldsSession db login u ↔ (login.perform db).2.Holds login.now row.accessToken u := by
    rw [← getUserByToken_iff hone]
    constructor
    · rintro ⟨response, user, hresponse, huser⟩
      rw [hanswer] at hresponse
      cases hresponse
      exact ⟨user, huser⟩
    · rintro ⟨user, huser⟩
      exact ⟨_, user, hanswer, huser⟩
  have hvalid :
      (login.perform db).2.Holds login.now row.accessToken u ↔ login.now < row.validUntil := by
    simp [AuthDb.Holds, hrow]
  rw [hresolves, hvalid]
  rcases hbefore with hsame | ⟨hnone, huntil⟩
  · simp [hsame]
  · simp only [hnone, huntil, reduceCtorEq, false_implies, implies_true, iff_true]
    exact Nat.lt_add_of_pos_right tokenLifetime_pos

/-- A token generated for the user before, and not ended since, is less than seven days old. -/
def SessionsFresh (steps : List AuthStep) (t : Timestamp) (u : UserId) : Prop :=
  ∀ x early step between,
    Generation steps x u early step between →
    (∀ later ∈ between, ¬ Ends later u) →
    t < step.now + tokenLifetime

theorem validUntil_iff_sessionsFresh {steps : List AuthStep} {t : Timestamp} :
    (∀ row, (runAuth .initial steps).tokens u = some row → t < row.validUntil) ↔
      SessionsFresh steps t u := by
  constructor
  · intro hvalid x early step between hgen hkept
    exact hvalid ⟨x, step.now + tokenLifetime⟩
      (run_token_iff.2 ⟨early, step, between, hgen, rfl, hkept⟩)
  · intro hfresh row hrow
    obtain ⟨early, step, between, hgen, huntil, hkept⟩ := run_token_iff.1 hrow
    rw [huntil]
    exact hfresh _ early step between hgen hkept

/--
In every run, a login with the right credentials yields a usable session exactly
if no token of the user that is seven days old is still in the table.
-/
theorem yieldsSession_iff (steps : List AuthStep) (hfresh : (steps.map AuthStep.gen).Nodup) :
    ∀ pre login post u, steps = pre ++ login :: post →
      login.request.LogsIn (runAuth .initial pre) u →
      (YieldsSession (runAuth .initial pre) login u ↔ SessionsFresh pre login.now u) := by
  rintro pre login post u rfl hlogin
  have hpre : ((pre ++ [login]).map AuthStep.gen).Nodup := by
    rw [List.append_cons, List.map_append] at hfresh
    exact hfresh.of_append_left
  have hone := run_oneHolder hpre
  rw [runAuth, stateAfter_snoc] at hone
  rw [← validUntil_iff_sessionsFresh]
  exact yieldsSession_iff_validUntil hlogin hone

section Examples

omit [PasswordLibraries]

/-- The first login of a registered user yields a session. -/
theorem yieldsSession_first :
    letI := samplePasswords
    YieldsSession (runAuth .initial (firstLogin.take 1)) ⟨.login sampleCredentials, 1, 2, 0⟩ 1 := by
  let := samplePasswords
  refine (yieldsSession_iff firstLogin (by decide) (firstLogin.take 1)
    ⟨.login sampleCredentials, 1, 2, 0⟩ [] 1 rfl ⟨_, rfl, rfl⟩).2 ?_
  rw [← validUntil_iff_sessionsFresh]
  intro row hrow
  cases hrow

/-- Seven days after the first login, the next one answers a token that has expired. -/
theorem login_answers_expired :
    letI := samplePasswords
    let login : AuthStep := ⟨.login sampleCredentials, 1 + tokenLifetime, 3, 0⟩
    let db := runAuth .initial firstLogin
    ((firstLogin ++ [login]).map AuthStep.gen).Nodup ∧
      login.request.LogsIn db 1 ∧
      (login.perform db).1 = .ok (.token { accessToken := 2 }) ∧
      getUserByToken login.now 2 (login.perform db).2 = none ∧
      ¬ YieldsSession db login 1 := by
  let := samplePasswords
  intro login db
  have hanswer : (login.perform db).1 = .ok (.token { accessToken := 2 }) := by
    rfl
  have hexpired : getUserByToken login.now 2 (login.perform db).2 = none := by
    decide
  refine ⟨by decide, ⟨_, rfl, rfl⟩, hanswer, hexpired, ?_⟩
  rintro ⟨response, user, hresponse, huser, -⟩
  rw [hanswer] at hresponse
  cases hresponse
  rw [hexpired] at huser
  cases huser

end Examples

end UsableSessions

end SmartHttpRequester
