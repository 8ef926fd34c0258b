import SmartHttpRequester.LoginRaces

/-!
# Expired sessions

`get_or_create_user_token` answers the token of a row whatever its `valid_until` is,
and a refresh or a logout needs a token that is still valid.  Nothing else changes or
deletes rows of `tokens`.

`expired_locks_out`: once the row of a user has expired, with no request of the user
under way, no requests of anybody, in any interleaving, ever let the user in again.
The row stays, every login answers its token, and no token is resolved to the user.
-/

namespace SmartHttpRequester

open Foundations Function

section ExpiredSessions

variable {ι : Type} [DecidableEq ι] {u : UserId} {ρ : TokenRow} {w w' : SessionWorld ι} {i j : ι}
variable {g : SessionPhase} {c : SessionChoice} {o : SessionOp} {r : SessionReply}
variable {t₀ : Timestamp} {db : AuthDb}

/-- The row of the user stands, and nobody has written to it. -/
structure Stands (u : UserId) (ρ : TokenRow) (w : SessionWorld ι) : Prop where
  row : w.db.tokens u = some ρ
  pending : w.pending u = none

/-- The request has not got hold of the row of the user, except to read its token. -/
def SessionPhase.KeepsOut (u : UserId) (ρ : TokenRow) : SessionPhase → Prop
  | .found k token => k = u → token = ρ.accessToken
  | .absent k => k ≠ u
  | .inserted k _ => k ≠ u
  | .created k _ => k ≠ u
  | .resolved k => k ≠ u
  | .changed k _ => k ≠ u
  | .replaced k _ => k ≠ u
  | .idle => True
  | .lookedUp _ => True
  | .refused => True

omit [DecidableEq ι] in
theorem Stands.of_db (h : Stands u ρ w) (hdb : w'.db.tokens u = w.db.tokens u)
    (hpending : w'.pending u = w.pending u) : Stands u ρ w' :=
  ⟨hdb.trans h.row, hpending.trans h.pending⟩

theorem Stands.row_eq (h : Stands u ρ w) (i : ι) : w.row i u = some ρ := by
  have hrow := SessionWorld.row_of_not_pending (w := w) (u := u) (i := i) fun new hnew => by
    rw [h.pending] at hnew
    cases hnew
  exact hrow.trans h.row

/-- A token is resolved to somebody else than a user whose row has expired. -/
theorem ne_of_getUserByToken {db : AuthDb} {now : Timestamp} {token : UUID} {user : User}
    (hrow : db.tokens u = some ρ) (hexpired : ρ.validUntil ≤ now)
    (h : getUserByToken now token db = some user) : user.id ≠ u := by
  obtain ⟨v, hv, rfl⟩ := Option.map_eq_some_iff.1 h
  have hholds : db.holdsToken now token v = true := List.find?_some hv
  intro heq
  have heq : v.id = u := heq
  simp only [AuthDb.holdsToken, heq, hrow, Option.any_some, Bool.and_eq_true,
    decide_eq_true_eq] at hholds
  exact absurd hholds.2 (not_lt.2 hexpired)

theorem Stands.commit (h : Stands u ρ w) : Stands u ρ (w.commit i) where
  row := h.row_eq i
  pending := by
    cases hpending : (w.commit i).pending u with
    | none => rfl
    | some p =>
        have hold := (SessionWorld.commit_pending.1 hpending).2
        rw [h.pending] at hold
        cases hold

theorem Stands.rollback (h : Stands u ρ w) : Stands u ρ (w.rollback i) where
  row := h.row
  pending := by
    cases hpending : (w.rollback i).pending u with
    | none => rfl
    | some p =>
        have hold := (SessionWorld.rollback_pending.1 hpending).2
        rw [h.pending] at hold
        cases hold

omit [DecidableEq ι] in
theorem Stands.write (h : Stands u ρ w) {k : UserId} (hk : k ≠ u) {new : Option TokenRow}
    (hnew : new.isSome = true → k ∈ w.db.users.map UserRow.id) :
    Stands u ρ (w.write i k new hnew) :=
  h.of_db rfl (update_of_ne hk.symm ..)

variable [PasswordLibraries] {req : SessionRequest}

/-- No call changes the row, or gets hold of it. -/
theorem Stands.call (h : Stands u ρ w) (hexpired : ρ.validUntil ≤ t₀) (hnow : t₀ ≤ c.now)
    (hg : g.KeepsOut u ρ) (hallows : req.Allows g o)
    (hcall : sessionCall i c o w = some (r, w')) :
    Stands u ρ w' ∧ (g.next o r).KeepsOut u ρ := by
  cases o with
  | selectUser username =>
      cases hcall
      refine ⟨h, ?_⟩
      cases getUserIdPassword username w.db with
      | error e => trivial
      | ok row => trivial
  | selectToken k =>
      cases hcall
      refine ⟨h, ?_⟩
      by_cases hk : k = u
      · subst hk
        rw [h.row_eq i]
        exact fun _ => rfl
      · cases w.row i k with
        | none => exact hk
        | some row => exact fun heq => absurd heq hk
  | insertToken k =>
      have hphase : g = .absent k := hallows
      rw [hphase] at hg
      obtain ⟨-, ⟨rfl, e, rfl, -⟩ | ⟨-, rfl, hnew, rfl⟩⟩ := insertTokenRow_cases hcall
      · exact ⟨h, trivial⟩
      · exact ⟨h.write hg hnew, hg⟩
  | selectByToken token =>
      cases hcall
      refine ⟨h, ?_⟩
      cases hfound : getUserByToken c.now token (w.seen i) with
      | none => exact hg
      | some user =>
          exact ne_of_getUserByToken (h.row_eq i) (hexpired.trans hnow) hfound
  | updateToken k =>
      obtain ⟨hphase, -⟩ := hallows
      rw [hphase] at hg
      rcases changeTokenRow_cases hcall with ⟨rfl, rfl⟩ | ⟨row, -, -, rfl, hnew, rfl⟩
      · rw [hphase]
        exact ⟨h, hg⟩
      · exact ⟨h.write hg hnew, hg⟩
  | deleteToken k =>
      obtain ⟨hphase, -⟩ := hallows
      rw [hphase] at hg
      rcases changeTokenRow_cases hcall with ⟨rfl, rfl⟩ | ⟨row, -, -, rfl, hnew, rfl⟩
      · rw [hphase]
        exact ⟨h, hg⟩
      · exact ⟨h.write hg hnew, hg⟩
  | commit =>
      cases hcall
      refine ⟨h.commit, ?_⟩
      cases g with
      | inserted k token => exact hg
      | changed k new => exact hg
      | _ => exact hg
  | rollback =>
      cases hcall
      exact ⟨h.rollback, hg⟩
  | close =>
      cases hcall
      exact ⟨h.rollback, hg⟩
  | respond response =>
      cases hcall
      exact ⟨h, hg⟩

/-- How far a login of the user can come while the row stands. -/
def SessionPhase.LogsInTo (req : SessionRequest) (u : UserId) : SessionPhase → Prop
  | .idle => True
  | .lookedUp row => req.Checks row u
  | .found k _ => k = u
  | .absent k => k = u
  | .inserted k _ => k = u
  | .created k _ => k = u
  | .refused => False
  | .resolved _ => False
  | .changed _ _ => False
  | .replaced _ _ => False

theorem SessionPhase.LogsInTo.call (hlogin : req.LogsInAs db u) (husers : w.db.users = db.users)
    (hkeeps : g.KeepsOut u ρ) (hg : g.LogsInTo req u) (hallows : req.Allows g o)
    (hcall : sessionCall i c o w = some (r, w')) : (g.next o r).LogsInTo req u := by
  have hpresented := hlogin.presented
  cases o with
  | selectUser username =>
      obtain ⟨hidle, password, hcredentials⟩ := hallows
      obtain ⟨row, hfound, hchecks⟩ := hlogin.selectUser hcredentials husers
      cases hcall
      rw [hfound]
      exact hchecks
  | selectToken k =>
      obtain ⟨row, rfl, hk⟩ := hallows
      obtain rfl := SessionRequest.Checks.unique hg hk
      cases hcall
      cases w.row i k with
      | none => exact (rfl : k = k)
      | some row => exact (rfl : k = k)
  | insertToken k =>
      have hphase : g = .absent k := hallows
      rw [hphase] at hg hkeeps
      exact absurd hg hkeeps
  | selectByToken token =>
      cases hpresented.symm.trans hallows.2
  | updateToken k =>
      obtain ⟨-, token, htoken⟩ := hallows
      cases hpresented.symm.trans htoken
  | deleteToken k =>
      obtain ⟨-, token, htoken⟩ := hallows
      cases hpresented.symm.trans htoken
  | commit =>
      cases hcall
      cases g with
      | inserted k token => exact hg
      | changed k new => exact hg.elim
      | _ => exact hg
  | rollback =>
      cases hcall
      exact hg
  | close =>
      cases hcall
      exact hg
  | respond response =>
      cases hcall
      exact hg

section Runs

variable {reqs : ι → SessionRequest} {s s' : SessionConfig ι} {l : SessionLabel ι}
variable {ls : List (SessionLabel ι)}

/-- No call comes before the row has expired. -/
def After (t₀ : Timestamp) (l : SessionLabel ι) : Prop :=
  ∀ i c, l = .op i c → t₀ ≤ c.now

/-- What has been read for a presented token is not the user. -/
def Unresolved (u : UserId) (s : SessionConfig ι) : Prop :=
  ∀ i token f user, (SessionOp.selectByToken token, .ok f) ∈ s.hist i →
    f.user = some user → user.id ≠ u

structure LockedOut (reqs : ι → SessionRequest) (db : AuthDb) (u : UserId) (ρ : TokenRow)
    (s : SessionConfig ι) : Prop where
  keeps : KeepsTo reqs s
  users : s.world.db.users = db.users
  stands : Stands u ρ s.world
  out : ∀ i, (phase s i).KeepsOut u ρ
  logins : ∀ i, (reqs i).LogsInAs db u → (phase s i).LogsInTo (reqs i) u
  unresolved : Unresolved u s

theorem LockedOut.unresolved_of_step (h : LockedOut reqs db u ρ s) (hexpired : ρ.validUntil ≤ t₀)
    (hl : After t₀ l) (hstep : (sessionMachine ι).step s l = some s') : Unresolved u s' := by
  intro j token f user hmem huser
  rcases Machine.step_hist hstep j with hsame | ⟨c, o, k, r, rfl, hp, hexec, hsnoc⟩
  · rw [hsame] at hmem
    exact h.unresolved j token f user hmem huser
  · rw [hsnoc] at hmem
    rcases List.mem_append.1 hmem with hold | hnew
    · exact h.unresolved j token f user hold huser
    · obtain ⟨rfl, rfl⟩ := Prod.mk.inj (List.mem_singleton.1 hnew)
      have hcall : sessionCall j c (.selectByToken token) s.world = some (.ok f, s'.world) := hexec
      obtain ⟨hf, -⟩ := Prod.mk.inj (Option.some.inj hcall)
      have hfound : getUserByToken c.now token (s.world.seen j) = f.user :=
        congrArg Fetched.user (Except.ok.inj hf)
      exact ne_of_getUserByToken (h.stands.row_eq j) (hexpired.trans (hl j c rfl))
        (hfound.trans huser)

theorem LockedOut.step (h : LockedOut reqs db u ρ s) (hexpired : ρ.validUntil ≤ t₀)
    (hl : After t₀ l) (hstep : (sessionMachine ι).step s l = some s') :
    LockedOut reqs db u ρ s' := by
  have hkeeps : KeepsTo reqs s' := Monitored.step (sessionMachine_meets reqs) h.keeps hstep
  have hunresolved := h.unresolved_of_step hexpired hl hstep
  rcases session_step hstep with ⟨i, c, o, k, r, rfl, hp, hcall, -, hphase⟩ |
      ⟨i, rfl, hworld, -, hphase⟩
  · have hallows : (reqs i).Allows (phase s i) o := h.keeps.allows hp
    obtain ⟨hstands, hout⟩ := h.stands.call hexpired (hl i c rfl) (h.out i) hallows hcall
    refine ⟨hkeeps, ?_, hstands, fun j => ?_, fun j hj => ?_, hunresolved⟩
    · have heffect := sessionCall_effect hallows hcall
      rcases heffect.db_eq with hdb | hcommit
      · rw [hdb]
        exact h.users
      · rw [hcommit]
        exact h.users
    · rw [hphase]
      by_cases hji : j = i
      · subst hji
        rw [update_self]
        exact hout
      · rw [update_of_ne hji]
        exact h.out j
    · rw [hphase]
      by_cases hji : j = i
      · subst hji
        rw [update_self]
        exact (h.logins j hj).call hj h.users (h.out j) hallows hcall
      · rw [update_of_ne hji]
        exact h.logins j hj
  · refine ⟨hkeeps, ?_, ?_, fun j => ?_, fun j hj => ?_, hunresolved⟩
    · rw [hworld]
      exact h.users
    · rw [hworld]
      exact h.stands.rollback
    · rw [hphase]
      exact h.out j
    · rw [hphase]
      exact h.logins j hj

omit [DecidableEq ι] in
theorem startSessions_lockedOut (hrow : db.tokens u = some ρ) :
    LockedOut reqs db u ρ (startSessions db reqs) where
  keeps := (orderly_start db reqs).keeps
  users := rfl
  stands := ⟨hrow, rfl⟩
  out _ := trivial
  logins _ _ := trivial
  unresolved _ _ _ _ hmem := by cases hmem

omit [DecidableEq ι] in
/-- A login of the user answers the token of the row, unless it is abandoned. -/
theorem LockedOut.answer (h : LockedOut reqs db u ρ s) (hlogin : (reqs i).LogsInAs db u)
    {r : Except AuthExc SessionResponse} (hr : (s.prog i).outcome? = some r) :
    r = .error .unknownException ∨ Carries r ρ.accessToken := by
  have hout := h.out i
  have hphase := h.logins i hlogin
  rcases Monitored.outcome h.keeps hr with hkilled | hends
  · exact Or.inl hkilled
  · right
    have hends : (reqs i).Ends r (phase s i) := hends
    rcases r with e | token | _
    · exfalso
      rcases hends with ⟨-, hnone⟩ | hrefused | ⟨k, hresolved⟩ | ⟨row, hlooked, hno⟩
      · obtain ⟨username, password, hcredentials, -⟩ := hlogin
        cases hcredentials.symm.trans hnone
      · rw [hrefused] at hphase
        exact hphase
      · rw [hresolved] at hphase
        exact hphase
      · rw [hlooked] at hphase
        exact hno u hphase
    · obtain ⟨k, hcreated | hfound | hreplaced⟩ := hends
      · rw [hcreated] at hphase hout
        exact absurd hphase hout
      · rw [hfound] at hphase hout
        exact ⟨token, rfl, hout hphase⟩
      · rw [hreplaced] at hphase
        exact hphase.elim
    · obtain ⟨k, hreplaced⟩ := hends
      rw [hreplaced] at hphase
      exact hphase.elim

/--
Once the row of a user has expired, with no request of the user under way, no
requests in any interleaving change it: it stays in the table, no presented token is
resolved to the user, then or later, and every login of the user that is not
abandoned answers the expired token.
-/
theorem expired_locks_out (hrow : db.tokens u = some ρ) (hexpired : ρ.validUntil ≤ t₀)
    (hls : ∀ l ∈ ls, After t₀ l)
    (hrun : (sessionMachine ι).run (startSessions db reqs) ls = some s) :
    s.world.db.tokens u = some ρ ∧
    (∀ i token f user, (SessionOp.selectByToken token, .ok f) ∈ s.hist i →
      f.user = some user → user.id ≠ u) ∧
    (∀ now token user, t₀ ≤ now → getUserByToken now token s.world.db = some user →
      user.id ≠ u) ∧
    ∀ i r, (reqs i).LogsInAs db u → (s.prog i).outcome? = some r →
      r = .error .unknownException ∨ Carries r ρ.accessToken := by
  have h : LockedOut reqs db u ρ s :=
    Machine.invariant_of_labels (LockedOut reqs db u ρ)
      (fun _ _ _ hl h hstep => h.step hexpired hl hstep) hls (startSessions_lockedOut hrow) hrun
  exact ⟨h.stands.row, h.unresolved,
    fun now token user hnow => ne_of_getUserByToken h.stands.row (hexpired.trans hnow),
    fun i r hlogin hr => h.answer hlogin hr⟩

end Runs

section Samples

omit [PasswordLibraries] [DecidableEq ι] in
/-- The user has registered and logged in, and neither refreshed nor logged out. -/
def loggedIn : AuthDb :=
  letI := samplePasswords
  runAuth .initial firstLogin

omit [PasswordLibraries] [DecidableEq ι] in
/-- The user logs in again, and tries to refresh the token of the first login. -/
def loginAndRefresh (i : Bool) : SessionRequest :=
  if i then .refresh (some 2) else .login sampleCredentials

omit [PasswordLibraries] [DecidableEq ι] in
/-- One after the other, when the token of the first login has just expired. -/
def expiredTurns : List (SessionLabel Bool) :=
  (List.replicate 8 false ++ List.replicate 4 true).map fun i =>
    .op i { now := 1 + tokenLifetime, gen := 9 }

omit [PasswordLibraries] [DecidableEq ι] in
theorem expired_locks_out_refresh :
    letI := samplePasswords
    ∃ s, (sessionMachine Bool).run (startSessions loggedIn loginAndRefresh) expiredTurns = some s ∧
      (s.prog false).outcome? = some (.ok (.token { accessToken := 2 })) ∧
      (s.prog true).outcome? = some (.error (.httpException 401)) ∧
      s.world.db.tokens 1 = some ⟨2, 1 + tokenLifetime⟩ ∧
      ∀ now token user, 1 + tokenLifetime ≤ now →
        getUserByToken now token s.world.db = some user → user.id ≠ 1 := by
  let := samplePasswords
  have hrun : ((sessionMachine Bool).run (startSessions loggedIn loginAndRefresh)
      expiredTurns).map (fun s => ((s.prog false).outcome?, (s.prog true).outcome?)) =
        some (some (.ok (.token { accessToken := 2 })), some (.error (.httpException 401))) := by
    rfl
  obtain ⟨s, hs, houtcomes⟩ := Option.map_eq_some_iff.1 hrun
  obtain ⟨hlogin, hrefresh⟩ := Prod.mk.inj houtcomes
  have hrow : loggedIn.tokens 1 = some ⟨2, 1 + tokenLifetime⟩ := rfl
  have hafter : ∀ l ∈ expiredTurns, After (1 + tokenLifetime) l := by
    refine List.forall_mem_map.2 fun i _ j c h => ?_
    cases h
    exact le_rfl
  obtain ⟨hkept, -, hnobody, -⟩ := expired_locks_out hrow le_rfl hafter hs
  exact ⟨s, hs, hlogin, hrefresh, hkept, hnobody⟩

end Samples

end ExpiredSessions

end SmartHttpRequester
