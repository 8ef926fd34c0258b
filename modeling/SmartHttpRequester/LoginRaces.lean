import SmartHttpRequester.SessionRuns
import SmartHttpRequester.TokenRows

/-!
# Concurrent logins of one user

`get_or_create_user_token` reads the row of the user and inserts one if there
is none; the key of `tokens` is the user.  Two logins that both find no row
both insert, and the one that comes second is refused with an `IntegrityError`
that neither `get_token` nor `auth_login` handles.

`concurrentLogins`: all logins answer, and with one token, exactly in the runs
in which no login looks for the row while it is absent and another login has
already found it absent.
-/

namespace SmartHttpRequester

open Foundations Function

section LoginRaces

variable {ι : Type}

/-- The login has found no row, whatever came of it. -/
def SessionPhase.FoundNoRow : SessionPhase → Prop
  | .absent _ => True
  | .inserted _ _ => True
  | .created _ _ => True
  | .refused => True
  | _ => False

/-- The login has inserted the row. -/
def SessionPhase.HasInserted : SessionPhase → Prop
  | .inserted _ _ => True
  | .created _ _ => True
  | _ => False

variable [PasswordLibraries]

/-- A login with the right credentials of the user. -/
def SessionRequest.LogsInAs (req : SessionRequest) (db : AuthDb) (u : UserId) : Prop :=
  ∃ username password,
    req.credentials = some (username, password) ∧ Verifies username password db u

/-- What the phase of a login says about the row of its user. -/
def PhaseFits (req : SessionRequest) (db : AuthDb) (u : UserId) (w : SessionWorld ι) (i : ι) :
    SessionPhase → Prop
  | .idle => True
  | .lookedUp row => req.Checks row u
  | .absent k => k = u ∧ db.tokens u = none
  | .found k token => k = u ∧ ∃ row, w.db.tokens u = some row ∧ row.accessToken = token
  | .inserted k token =>
      k = u ∧ db.tokens u = none ∧
        ∃ row, w.pending u = some (i, some row) ∧ row.accessToken = token
  | .created k token =>
      k = u ∧ db.tokens u = none ∧ ∃ row, w.db.tokens u = some row ∧ row.accessToken = token
  | .refused => db.tokens u = none ∧ (w.db.tokens u).isSome = true
  | .resolved _ => False
  | .changed _ _ => False
  | .replaced _ _ => False

/-- The logins of a user in any state of a run that starts from the tables. -/
structure LoginsFit (reqs : ι → SessionRequest) (db : AuthDb) (u : UserId)
    (w : SessionWorld ι) (g : ι → SessionPhase) : Prop where
  users : w.db.users = db.users
  kept : ∀ row, db.tokens u = some row → w.db.tokens u = some row
  fits : ∀ i, PhaseFits (reqs i) db u w i (g i)
  origin : ∀ row, w.db.tokens u = some row →
    db.tokens u = some row ∨ ∃ i token, g i = .created u token
  one : ∀ i j, (g i).HasInserted → (g j).HasInserted → i = j

variable {reqs : ι → SessionRequest} {req : SessionRequest} {db : AuthDb} {u : UserId}
variable {w w' : SessionWorld ι} {g : ι → SessionPhase} {g' : SessionPhase} {i j : ι}
variable {c : SessionChoice} {o : SessionOp} {r : SessionReply}

section Credentials

theorem SessionRequest.LogsInAs.presented (h : req.LogsInAs db u) :
    req.presented = none := by
  obtain ⟨username, password, hcredentials, -⟩ := h
  cases req with
  | login data => rfl
  | docsLogin username password => rfl
  | refresh token => cases hcredentials
  | logout token => cases hcredentials

omit [PasswordLibraries] in
theorem getUserIdPassword_congr {db db' : AuthDb} (h : db.users = db'.users) (username : String) :
    getUserIdPassword username db = getUserIdPassword username db' := by
  rw [getUserIdPassword, getUserIdPassword, h]

/-- A row belongs to one user. -/
theorem SessionRequest.Checks.unique {row : Option UserIdPassword} {k : UserId}
    (hu : req.Checks row u) (hk : req.Checks row k) :
    k = u := by
  obtain ⟨_, _, hash, -, rfl, -⟩ := hu
  obtain ⟨_, _, hash', -, hrow, -⟩ := hk
  cases hrow
  rfl

/-- The user is found, and the password that comes along verifies. -/
theorem SessionRequest.LogsInAs.selectUser (h : req.LogsInAs db u) {username : String}
    {password : String} (hcredentials : req.credentials = some (username, password))
    (husers : w.db.users = db.users) :
    ∃ row, getUserIdPassword username w.db = .ok row ∧ req.Checks row u := by
  obtain ⟨username', password', hcredentials', hash, hfound, hcheck⟩ := h
  rw [hcredentials] at hcredentials'
  cases hcredentials'
  refine ⟨_, (getUserIdPassword_congr husers username).trans hfound, ?_⟩
  exact ⟨username, password, hash, hcredentials, rfl, hcheck⟩

theorem SessionRequest.LogsInAs.mem_users (h : req.LogsInAs db u) :
    u ∈ db.users.map UserRow.id := by
  obtain ⟨username, password, -, hverifies⟩ := h
  exact hverifies.mem_users

end Credentials

section Effects

/-- A login that has a version of the row has inserted it. -/
theorem LoginsFit.inserted (h : LoginsFit reqs db u w g) (hcoupled : RowsCoupled w g)
    {k : UserId} {new : Option TokenRow} (hpending : w.pending k = some (i, new)) :
    k = u ∧ w.db.tokens u = none ∧
      ∃ row, new = some row ∧ g i = .inserted u row.accessToken := by
  have hfits := h.fits i
  rcases hcoupled k i new hpending with ⟨row, hnew, hphase, hnone⟩ | ⟨hphase, -⟩
  · rw [hphase] at hfits
    obtain ⟨rfl, -⟩ := hfits
    exact ⟨rfl, hnone, row, hnew, hphase⟩
  · rw [hphase] at hfits
    exact hfits.elim

variable [DecidableEq ι]

/-- A committed row of the user stays. -/
theorem LoginsFit.tokens_kept (h : LoginsFit reqs db u w g) (hcoupled : RowsCoupled w g)
    (heffect : SessionEffect req i c w (g i) o w' g') {row : TokenRow}
    (hrow : w.db.tokens u = some row) :
    w'.db.tokens u = some row := by
  rcases heffect.db_eq with hdb | rfl
  · rw [hdb]
    exact hrow
  · refine (SessionWorld.row_of_not_pending fun new hpending => ?_).trans hrow
    have hnone := (h.inserted hcoupled hpending).2.1
    rw [hrow] at hnone
    cases hnone

omit [DecidableEq ι] in
/-- A phase fits as long as the committed row and the login's own version stay. -/
theorem PhaseFits.mono {phase : SessionPhase} (h : PhaseFits req db u w i phase)
    (htokens : ∀ row, w.db.tokens u = some row → w'.db.tokens u = some row)
    (hpending : ∀ new, w.pending u = some (i, new) → w'.pending u = some (i, new)) :
    PhaseFits req db u w' i phase := by
  cases phase with
  | found k token =>
      obtain ⟨hk, row, hrow, htoken⟩ := h
      exact ⟨hk, row, htokens row hrow, htoken⟩
  | inserted k token =>
      obtain ⟨hk, hstart, row, hown, htoken⟩ := h
      exact ⟨hk, hstart, row, hpending _ hown, htoken⟩
  | created k token =>
      obtain ⟨hk, hstart, row, hrow, htoken⟩ := h
      exact ⟨hk, hstart, row, htokens row hrow, htoken⟩
  | refused =>
      obtain ⟨hstart, hsome⟩ := h
      obtain ⟨row, hrow⟩ := Option.isSome_iff_exists.1 hsome
      exact ⟨hstart, by rw [htokens row hrow]; rfl⟩
  | idle => exact h
  | lookedUp row => exact h
  | absent k => exact h
  | resolved k => exact h
  | changed k new => exact h
  | replaced k new => exact h

/-- The phase of the acting login fits what its call has found or done. -/
theorem LoginsFit.fits_self (h : LoginsFit reqs db u w g) (hcoupled : RowsCoupled w g)
    (hlogin : (reqs i).LogsInAs db u) (hallows : (reqs i).Allows (g i) o)
    (hcall : sessionCall i c o w = some (r, w')) :
    PhaseFits (reqs i) db u w' i ((g i).next o r) := by
  have hfits := h.fits i
  have hpresented := hlogin.presented
  cases o with
  | selectUser username =>
      obtain ⟨hidle, password, hcredentials⟩ := hallows
      obtain ⟨row, hfound, hchecks⟩ := hlogin.selectUser hcredentials h.users
      cases hcall
      rw [hfound]
      exact hchecks
  | selectToken k =>
      obtain ⟨row, hphase, hk⟩ := hallows
      rw [hphase] at hfits
      obtain rfl := SessionRequest.Checks.unique hfits hk
      have hrow : w.row i k = w.db.tokens k :=
        hcoupled.row_eq (by simp [hphase, SessionPhase.Uncommitted]) k
      cases hcall
      rw [hrow]
      cases hcommitted : w.db.tokens k with
      | none =>
          refine ⟨rfl, ?_⟩
          cases hstart : db.tokens k with
          | none =>
              rfl
          | some row' =>
              rw [h.kept row' hstart] at hcommitted
              cases hcommitted
      | some row' => exact ⟨rfl, row', hcommitted, rfl⟩
  | insertToken k =>
      have hphase : g i = .absent k := hallows
      rw [hphase] at hfits
      obtain ⟨rfl, hstart⟩ := hfits
      have hrow : w.row i k = w.db.tokens k :=
        hcoupled.row_eq (by simp [hphase, SessionPhase.Uncommitted]) k
      obtain ⟨-, ⟨rfl, e, rfl, hrefused⟩ | ⟨-, rfl, hnew, rfl⟩⟩ := insertTokenRow_cases hcall
      · refine ⟨hstart, ?_⟩
        rcases hrefused with hsome | hmissing
        · rwa [hrow] at hsome
        · rw [h.users] at hmissing
          exact absurd hlogin.mem_users hmissing
      · exact ⟨rfl, hstart, ⟨c.gen, c.now + tokenLifetime⟩, update_self .., rfl⟩
  | selectByToken token =>
      obtain ⟨-, htoken⟩ := hallows
      rw [hpresented] at htoken
      cases htoken
  | updateToken k =>
      obtain ⟨-, token, htoken⟩ := hallows
      rw [hpresented] at htoken
      cases htoken
  | deleteToken k =>
      obtain ⟨-, token, htoken⟩ := hallows
      rw [hpresented] at htoken
      cases htoken
  | commit =>
      cases hcall
      change PhaseFits (reqs i) db u (w.commit i) i (g i).commit
      by_cases hopen : ∃ k, (g i).Uncommitted k
      · obtain ⟨k, ⟨token, hphase⟩ | ⟨new, hphase⟩⟩ := hopen
        · rw [hphase] at hfits ⊢
          obtain ⟨hk, hstart, row, hpending, htoken⟩ := hfits
          exact ⟨hk, hstart, row, SessionWorld.row_of_pending hpending, htoken⟩
        · rw [hphase] at hfits
          exact hfits.elim
      · have hno : ∀ k, ¬ (g i).Uncommitted k := fun k hk => hopen ⟨k, hk⟩
        rw [SessionPhase.commit_eq_self hno]
        refine hfits.mono (fun row => ?_) fun new hnew =>
          absurd hnew (hcoupled.not_pending hno u new)
        have hcommits : SessionEffect (reqs i) i c w (g i) .commit (w.commit i) (g i).commit :=
          .commits
        exact h.tokens_kept hcoupled hcommits
  | rollback =>
      cases hcall
      exact hfits.mono (fun row hrow => hrow)
        fun new hnew => absurd hnew (hcoupled.not_pending hallows u new)
  | close =>
      cases hcall
      exact hfits.mono (fun row hrow => hrow)
        fun new hnew => absurd hnew (hcoupled.not_pending hallows u new)
  | respond response =>
      cases hcall
      exact hfits

omit [PasswordLibraries] in
/-- Only an INSERT that goes through makes a login one that has inserted. -/
theorem SessionEffect.hasInserted {phase : SessionPhase}
    (heffect : SessionEffect req i c w phase o w' g') (h : g'.HasInserted) :
    phase.HasInserted ∨
      ∃ k, phase = .absent k ∧ (w.slot k).lockedFor i = false ∧ w.row i k = none := by
  cases heffect with
  | stays => exact Or.inl h
  | reads hbefore hafter =>
      left
      cases g' with
      | inserted k token => exact hafter.elim
      | created k token => exact hafter.elim
      | _ => exact h.elim
  | inserts hg hfree hrow hnew => exact Or.inr ⟨_, hg, hfree, hrow⟩
  | changes ho hg hpresented hfree hrow hgen hnew => exact h.elim
  | commits =>
      left
      cases phase <;> exact h
  | rollsBack hbefore => exact Or.inl h

/-- The committed row is still the first one, or the one that a login has created. -/
theorem LoginsFit.origin_step (h : LoginsFit reqs db u w g) (hcoupled : RowsCoupled w g)
    (heffect : SessionEffect req i c w (g i) o w' g') (row : TokenRow)
    (hrow : w'.db.tokens u = some row) :
    db.tokens u = some row ∨ ∃ j token, update g i g' j = .created u token := by
  have hsame : w.db.tokens u = some row →
      db.tokens u = some row ∨ ∃ j token, update g i g' j = .created u token := by
    intro hrow
    rcases h.origin row hrow with hstart | ⟨j, token, hcreated⟩
    · exact Or.inl hstart
    · refine Or.inr ⟨j, token, ?_⟩
      by_cases hj : j = i
      · subst hj
        have hdone : (g j).Done := by
          rw [hcreated]
          trivial
        rw [update_self, heffect.eq_of_done hdone, hcreated]
      · rwa [update_of_ne hj]
  cases heffect with
  | commits =>
      by_cases hown : ∃ new, w.pending u = some (i, new)
      · obtain ⟨new, hnew⟩ := hown
        obtain ⟨-, -, row', -, hphase⟩ := h.inserted hcoupled hnew
        refine Or.inr ⟨i, row'.accessToken, ?_⟩
        rw [update_self, hphase]
        rfl
      · have hno : ∀ new, w.pending u ≠ some (i, new) := fun new hnew => hown ⟨new, hnew⟩
        have htokens : w.row i u = some row := hrow
        rw [SessionWorld.row_of_not_pending hno] at htokens
        exact hsame htokens
  | stays => exact hsame hrow
  | reads hbefore hafter => exact hsame hrow
  | inserts hg hfree hnone hnew => exact hsame hrow
  | changes ho hg hpresented hfree hfound hgen hnew => exact hsame hrow
  | rollsBack hbefore => exact hsame hrow

/-- An INSERT goes through only if no login has inserted the row. -/
theorem LoginsFit.one_step (h : LoginsFit reqs db u w g) (hcoupled : RowsCoupled w g)
    (heffect : SessionEffect req i c w (g i) o w' g') (j k : ι)
    (hj : (update g i g' j).HasInserted) (hk : (update g i g' k).HasInserted) :
    j = k := by
  -- who has inserted after the step did before, or is the first and inserts now
  have hbefore : ∀ {j}, (update g i g' j).HasInserted →
      (g j).HasInserted ∨ (j = i ∧ ∀ m, ¬ (g m).HasInserted) := by
    intro j hj
    by_cases hij : j = i
    · subst hij
      rw [update_self] at hj
      rcases heffect.hasInserted hj with hold | ⟨v, hphase, hfree, hrow⟩
      · exact Or.inl hold
      · refine Or.inr ⟨rfl, fun m hinserted => ?_⟩
        have hno : ∀ v, ¬ (g j).Uncommitted v := by simp [hphase, SessionPhase.Uncommitted]
        have hv := h.fits j
        rw [hphase] at hv
        obtain ⟨rfl, -⟩ := hv
        rw [hcoupled.row_eq hno] at hrow
        have hfits := h.fits m
        cases hphase' : g m with
        | inserted k token =>
            rw [hphase'] at hfits
            obtain ⟨-, -, row, hpending, -⟩ := hfits
            rw [hcoupled.pending_eq_none hno hfree] at hpending
            cases hpending
        | created k token =>
            rw [hphase'] at hfits
            obtain ⟨-, -, row, hsome, -⟩ := hfits
            rw [hrow] at hsome
            cases hsome
        | _ =>
            rw [hphase'] at hinserted
            exact hinserted
    · rw [update_of_ne hij] at hj
      exact Or.inl hj
  rcases hbefore hj with hj' | ⟨rfl, hfirst⟩
  · rcases hbefore hk with hk' | ⟨rfl, hfirst⟩
    · exact h.one j k hj' hk'
    · exact absurd hj' (hfirst j)
  · rcases hbefore hk with hk' | ⟨rfl, -⟩
    · exact absurd hk' (hfirst k)
    · rfl

/-- What a step of a login does to the row, and to the phases of all logins. -/
theorem LoginsFit.step (h : LoginsFit reqs db u w g) (hcoupled : RowsCoupled w g)
    (hlogin : (reqs i).LogsInAs db u) (hallows : (reqs i).Allows (g i) o)
    (hcall : sessionCall i c o w = some (r, w')) :
    LoginsFit reqs db u w' (update g i ((g i).next o r)) := by
  have heffect := sessionCall_effect hallows hcall
  have hself := h.fits_self hcoupled hlogin hallows hcall
  refine ⟨?_, ?_, ?_, ?_, ?_⟩
  · rcases heffect.db_eq with hdb | rfl
    · rw [hdb]
      exact h.users
    · exact h.users
  · exact fun row hrow => h.tokens_kept hcoupled heffect (h.kept row hrow)
  · intro j
    by_cases hj : j = i
    · subst hj
      rwa [update_self]
    · rw [update_of_ne hj]
      exact (h.fits j).mono (fun row => h.tokens_kept hcoupled heffect)
        fun new => heffect.pending_kept hj
  · exact h.origin_step hcoupled heffect
  · exact h.one_step hcoupled heffect

omit [DecidableEq ι] in
theorem SessionPhase.FoundNoRow.next {phase : SessionPhase} (hallows : req.Allows phase o)
    (h : phase.FoundNoRow) :
    (phase.next o r).FoundNoRow := by
  cases o with
  | insertToken k => cases r <;> trivial
  | commit =>
      cases r with
      | error e => exact h
      | ok f => cases phase <;> exact h
  | rollback => cases r <;> exact h
  | close => cases r <;> exact h
  | respond response => cases r <;> exact h
  | selectUser username =>
      obtain ⟨rfl, -⟩ := hallows
      exact h.elim
  | selectToken k =>
      obtain ⟨row, rfl, -⟩ := hallows
      exact h.elim
  | selectByToken token =>
      obtain ⟨rfl, -⟩ := hallows
      exact h.elim
  | updateToken k =>
      obtain ⟨rfl, -⟩ := hallows
      exact h.elim
  | deleteToken k =>
      obtain ⟨rfl, -⟩ := hallows
      exact h.elim

/-- A login comes to have found no row by its SELECT, while no row is committed. -/
theorem LoginsFit.foundNoRow_of_next (h : LoginsFit reqs db u w g) (hcoupled : RowsCoupled w g)
    (hlogin : (reqs i).LogsInAs db u) (hallows : (reqs i).Allows (g i) o)
    (hcall : sessionCall i c o w = some (r, w')) (hnext : ((g i).next o r).FoundNoRow) :
    (g i).FoundNoRow ∨ ∃ k, o = .selectToken k ∧ w.db.tokens k = none := by
  cases o with
  | selectToken k =>
      right
      obtain ⟨row, hphase, -⟩ := hallows
      have hrow : w.row i k = w.db.tokens k :=
        hcoupled.row_eq (by simp [hphase, SessionPhase.Uncommitted]) k
      cases hcall
      rw [hrow] at hnext
      cases hcommitted : w.db.tokens k with
      | none => exact ⟨k, rfl, hcommitted⟩
      | some row' =>
          rw [hcommitted] at hnext
          exact hnext.elim
  | selectUser username =>
      obtain ⟨-, password, hcredentials⟩ := hallows
      obtain ⟨row, hfound, -⟩ := hlogin.selectUser hcredentials h.users
      cases hcall
      rw [hfound] at hnext
      exact hnext.elim
  | insertToken k =>
      have hphase : g i = .absent k := hallows
      rw [hphase]
      exact Or.inl trivial
  | commit =>
      cases hcall
      left
      change ((g i).commit).FoundNoRow at hnext
      cases hphase : g i <;> rw [hphase] at hnext <;> exact hnext
  | rollback =>
      cases hcall
      exact Or.inl hnext
  | close =>
      cases hcall
      exact Or.inl hnext
  | respond response =>
      cases hcall
      exact Or.inl hnext
  | selectByToken token =>
      obtain ⟨-, htoken⟩ := hallows
      rw [hlogin.presented] at htoken
      cases htoken
  | updateToken k =>
      obtain ⟨-, token, htoken⟩ := hallows
      rw [hlogin.presented] at htoken
      cases htoken
  | deleteToken k =>
      obtain ⟨-, token, htoken⟩ := hallows
      rw [hlogin.presented] at htoken
      cases htoken

omit [DecidableEq ι] in
/-- An INSERT is refused only because another login has created the row. -/
theorem LoginsFit.created_of_refused (h : LoginsFit reqs db u w g)
    (hrefused : g i = .refused) :
    ∃ j token, g j = .created u token := by
  have hfits := h.fits i
  rw [hrefused] at hfits
  obtain ⟨hstart, hsome⟩ := hfits
  obtain ⟨row, hrow⟩ := Option.isSome_iff_exists.1 hsome
  rcases h.origin row hrow with hfirst | hcreated
  · rw [hstart] at hfirst
    cases hfirst
  · exact hcreated

end Effects

section LoginRuns

variable [DecidableEq ι] {s s' : SessionConfig ι} {schedule : List (ι × SessionChoice)}

omit [PasswordLibraries] [DecidableEq ι] in
/-- The statements of a schedule; nobody is abandoned. -/
def asTurns (schedule : List (ι × SessionChoice)) : List (SessionLabel ι) :=
  schedule.map fun turn => .op turn.1 turn.2

omit [DecidableEq ι] in
/-- A state of a run of logins in which nobody is abandoned. -/
structure LoginState (reqs : ι → SessionRequest) (db : AuthDb) (u : UserId)
    (s : SessionConfig ι) : Prop where
  active : ∀ i, (s.prog i).wp (sessionMonitor (reqs i)) (reqs i).Ends (phase s i)
  coupled : RowsCoupled s.world (phase s)
  fits : LoginsFit reqs db u s.world (phase s)

theorem LoginState.step (hreqs : ∀ i, (reqs i).LogsInAs db u) (h : LoginState reqs db u s)
    (hstep : (sessionMachine ι).step s (.op i c) = some s') :
    ∃ o k r, s.prog i = .op o k ∧ (reqs i).Allows (phase s i) o ∧
      sessionCall i c o s.world = some (r, s'.world) ∧
      phase s' = update (phase s) i ((phase s i).next o r) ∧
      LoginState reqs db u s' := by
  rcases session_step hstep with ⟨i, c, o, k, r, hl, hp, hcall, hprog, hphase⟩ | ⟨i, hl, -⟩
  · cases hl
    have hwp := h.active i
    rw [hp] at hwp
    have hallows : (reqs i).Allows (phase s i) o := hwp.1
    refine ⟨o, k, r, hp, hallows, hcall, hphase, ?_, ?_, ?_⟩
    · intro j
      by_cases hj : j = i
      · subst hj
        rw [hprog, hphase, update_self, update_self]
        exact hwp.2 r (sessionMachine_meets reqs j c o s.world r s'.world hcall)
      · rw [hprog, hphase, update_of_ne hj, update_of_ne hj]
        exact h.active j
    · rw [hphase]
      exact h.coupled.effect (sessionCall_effect hallows hcall)
    · rw [hphase]
      exact h.fits.step h.coupled (hreqs i) hallows hcall
  · cases hl

omit [DecidableEq ι] in
theorem loginState_start :
    LoginState reqs db u (startSessions db reqs) where
  active i := wp_program (reqs i)
  coupled := by
    intro k i new h
    cases h
  fits :=
    { users := rfl
      kept := fun row h => h
      fits := fun i => trivial
      origin := fun row h => Or.inl h
      one := fun i j h => h.elim }

omit [PasswordLibraries] in
/-- What every turn preserves, a schedule preserves. -/
theorem invariant_of_turns (I : SessionConfig ι → Prop)
    (hstep : ∀ s i c s', I s → (sessionMachine ι).step s (.op i c) = some s' → I s')
    (hs : I s) (hrun : (sessionMachine ι).run s (asTurns schedule) = some s') :
    I s' := by
  induction schedule generalizing s with
  | nil =>
      cases hrun
      exact hs
  | cons turn schedule ih =>
      obtain ⟨s₁, h₁, hrest⟩ := Machine.run_cons_eq_some.1 hrun
      exact ih (hstep s turn.1 turn.2 s₁ hs h₁) hrest

theorem loginState_of_run (hreqs : ∀ i, (reqs i).LogsInAs db u) (h : LoginState reqs db u s)
    (hrun : (sessionMachine ι).run s (asTurns schedule) = some s') :
    LoginState reqs db u s' := by
  refine invariant_of_turns (LoginState reqs db u) (fun s i c s' hs hstep => ?_) h hrun
  obtain ⟨o, k, r, -, -, -, -, hs'⟩ := hs.step hreqs hstep
  exact hs'

/-- Once a login has found no row, it has. -/
theorem foundNoRow_of_run (hreqs : ∀ i, (reqs i).LogsInAs db u) (h : LoginState reqs db u s)
    (hrun : (sessionMachine ι).run s (asTurns schedule) = some s')
    (hfound : (phase s j).FoundNoRow) :
    (phase s' j).FoundNoRow := by
  refine (invariant_of_turns (fun s => LoginState reqs db u s ∧ (phase s j).FoundNoRow)
    (fun s i c s' hs hstep => ?_) ⟨h, hfound⟩ hrun).2
  obtain ⟨o, k, r, -, hallows, -, hphase, hs'⟩ := hs.1.step hreqs hstep
  refine ⟨hs', ?_⟩
  rw [hphase]
  by_cases hj : j = i
  · subst hj
    rw [update_self]
    exact hs.2.next hallows
  · rw [update_of_ne hj]
    exact hs.2

omit [PasswordLibraries] in
/-- No login looks for the row while it is absent and another has found it absent. -/
def SelectsAlone (s : SessionConfig ι) (l : SessionLabel ι) : Prop :=
  ∀ i c k, l = .op i c → (s.prog i).next? = some (.selectToken k) →
    s.world.db.tokens k = none → ∀ j, ¬ (phase s j).FoundNoRow

/-- At most one login has found no row. -/
def OneFoundNoRow (s : SessionConfig ι) : Prop :=
  ∀ i j, (phase s i).FoundNoRow → (phase s j).FoundNoRow → i = j

theorem oneFoundNoRow_step (hreqs : ∀ i, (reqs i).LogsInAs db u) (h : LoginState reqs db u s)
    (hone : OneFoundNoRow s) (halone : SelectsAlone s (.op i c))
    (hstep : (sessionMachine ι).step s (.op i c) = some s') :
    OneFoundNoRow s' := by
  obtain ⟨o, k, r, hp, hallows, hcall, hphase, -⟩ := h.step hreqs hstep
  -- whoever has found no row after the step did before, or does now and is alone
  have hbefore : ∀ {j}, (phase s' j).FoundNoRow →
      (phase s j).FoundNoRow ∨ (j = i ∧ ∀ m, ¬ (phase s m).FoundNoRow) := by
    intro j hj
    rw [hphase] at hj
    by_cases hij : j = i
    · subst hij
      rw [update_self] at hj
      rcases h.fits.foundNoRow_of_next h.coupled (hreqs j) hallows hcall hj with
        hold | ⟨m, rfl, hnone⟩
      · exact Or.inl hold
      · exact Or.inr ⟨rfl, halone j c m rfl (by rw [hp]; rfl) hnone⟩
    · rw [update_of_ne hij] at hj
      exact Or.inl hj
  intro j m hj hm
  rcases hbefore hj with hj' | ⟨rfl, halone'⟩
  · rcases hbefore hm with hm' | ⟨rfl, halone'⟩
    · exact hone j m hj' hm'
    · exact absurd hj' (halone' j)
  · rcases hbefore hm with hm' | ⟨rfl, -⟩
    · exact absurd hm' (halone' m)
    · rfl

theorem oneFoundNoRow_of_run (hreqs : ∀ i, (reqs i).LogsInAs db u) (h : LoginState reqs db u s)
    (hone : OneFoundNoRow s)
    (hmeet : (sessionMachine ι).StepsMeet SelectsAlone s (asTurns schedule))
    (hrun : (sessionMachine ι).run s (asTurns schedule) = some s') :
    OneFoundNoRow s' := by
  induction schedule generalizing s with
  | nil =>
      cases hrun
      exact hone
  | cons turn schedule ih =>
      obtain ⟨s₁, h₁, hrest⟩ := Machine.run_cons_eq_some.1 hrun
      obtain ⟨o, k, r, -, -, -, -, hs₁⟩ := h.step hreqs h₁
      exact ih hs₁ (oneFoundNoRow_step hreqs h hone hmeet.1 h₁) (hmeet.2 s₁ h₁) hrest

end LoginRuns

section Answers

variable [DecidableEq ι] {s s' : SessionConfig ι} {schedule : List (ι × SessionChoice)}

omit [PasswordLibraries] [DecidableEq ι] in
/-- The response carries the token. -/
def Carries (r : Except AuthExc SessionResponse) (token : UUID) : Prop :=
  ∃ answer, r = .ok (.token answer) ∧ answer.accessToken = token

omit [DecidableEq ι] in
theorem LoginState.ends (h : LoginState reqs db u s) {r : Except AuthExc SessionResponse}
    (hr : (s.prog i).outcome? = some r) :
    (reqs i).Ends r (phase s i) := by
  have hwp := h.active i
  cases hp : s.prog i with
  | ret a =>
      rw [hp] at hwp hr
      cases hr
      exact hwp
  | raise e =>
      rw [hp] at hwp hr
      cases hr
      exact hwp
  | op o k =>
      rw [hp] at hr
      cases hr

omit [DecidableEq ι] in
/-- A login that has ended answers the token of the row, or was refused. -/
theorem LoginState.answer (hreqs : ∀ i, (reqs i).LogsInAs db u) (h : LoginState reqs db u s)
    {r : Except AuthExc SessionResponse} (hr : (s.prog i).outcome? = some r) :
    (∃ row, s.world.db.tokens u = some row ∧ Carries r row.accessToken ∧
      ((phase s i).FoundNoRow → (phase s i).HasInserted)) ∨
    ((∃ e, r = .error e) ∧ phase s i = .refused) := by
  have hends := h.ends hr
  have hfits := h.fits.fits i
  rcases r with e | token | _
  · right
    refine ⟨⟨e, rfl⟩, ?_⟩
    rcases hends with ⟨-, hnone⟩ | hrefused | ⟨k, hresolved⟩ | ⟨row, hlooked, hno⟩
    · obtain ⟨username, password, hcredentials, -⟩ := hreqs i
      rw [hnone] at hcredentials
      cases hcredentials
    · exact hrefused
    · rw [hresolved] at hfits
      exact hfits.elim
    · rw [hlooked] at hfits
      exact absurd hfits (hno u)
  · left
    obtain ⟨k, hphase | hphase | hphase⟩ := hends
    · rw [hphase] at hfits ⊢
      obtain ⟨-, -, row, hrow, htoken⟩ := hfits
      exact ⟨row, hrow, ⟨token, rfl, htoken.symm⟩, fun _ => trivial⟩
    · rw [hphase] at hfits ⊢
      obtain ⟨-, row, hrow, htoken⟩ := hfits
      exact ⟨row, hrow, ⟨token, rfl, htoken.symm⟩, fun h => h.elim⟩
    · rw [hphase] at hfits
      exact hfits.elim
  · obtain ⟨k, hphase⟩ := hends
    rw [hphase] at hfits
    exact hfits.elim

/-- What waits for a row lock waits for a request that can commit. -/
theorem LoginState.goesOn (h : LoginState reqs db u s)
    (hrunning : (s.prog i).outcome? = none) :
    ∃ j c s', (sessionMachine ι).step s (.op j c) = some s' := by
  cases hp : s.prog i with
  | ret a =>
      rw [hp] at hrunning
      cases hrunning
  | raise e =>
      rw [hp] at hrunning
      cases hrunning
  | op o k =>
      cases hcall : sessionCall i {} o s.world with
      | some rw =>
          obtain ⟨s', hs'⟩ := Machine.exists_step (M := sessionMachine ι) hp hcall
          exact ⟨i, {}, s', hs'⟩
      | none =>
          obtain ⟨m, hlocked⟩ := lockedFor_of_blocked hcall
          obtain ⟨j, new, hpending, -⟩ := SessionWorld.lockedFor_eq_true hlocked
          have hopen : (phase s j).Uncommitted m := h.coupled.uncommitted hpending
          have hwp := h.active j
          obtain ⟨o', k', hpj⟩ := Prog.exists_op_of_wp _ hwp
            fun r hr => hr.not_uncommitted m hopen
          rw [hpj] at hwp
          obtain rfl := SessionRequest.Allows.eq_commit hwp.1 hopen
          obtain ⟨s', hs'⟩ := Machine.exists_step (M := sessionMachine ι) hpj rfl
          exact ⟨j, {}, s', hs'⟩

/-- What the logins of a user have answered, and can still do, after a schedule. -/
structure ConcurrentLogins (reqs : ι → SessionRequest) (db : AuthDb)
    (schedule : List (ι × SessionChoice)) (s : SessionConfig ι) : Prop where
  agree : (sessionMachine ι).StepsMeet SelectsAlone (startSessions db reqs) (asTurns schedule) →
    ∃ token, ∀ i r, (s.prog i).outcome? = some r → Carries r token
  complete_iff : (∀ i, ((s.prog i).outcome?).isSome = true) →
    ((∃ token, ∀ i r, (s.prog i).outcome? = some r → Carries r token) ↔
      (sessionMachine ι).StepsMeet SelectsAlone (startSessions db reqs) (asTurns schedule))
  goesOn : ∀ i, (s.prog i).outcome? = none →
    ∃ j c s', (sessionMachine ι).step s (.op j c) = some s'

omit [DecidableEq ι] in
/-- Where at most one login has found no row, all that have ended answer the one token. -/
theorem LoginState.agree (hreqs : ∀ i, (reqs i).LogsInAs db u) (h : LoginState reqs db u s)
    (hone : OneFoundNoRow s) :
    ∃ token, ∀ i r, (s.prog i).outcome? = some r → Carries r token := by
  refine ⟨((s.world.db.tokens u).map TokenRow.accessToken).getD 0, fun i r hr => ?_⟩
  rcases h.answer hreqs hr with ⟨row, hrow, hcarries, -⟩ | ⟨-, hrefused⟩
  · rw [hrow]
    exact hcarries
  · obtain ⟨j, token, hcreated⟩ := h.fits.created_of_refused hrefused
    obtain rfl := hone i j (by rw [hrefused]; trivial) (by rw [hcreated]; trivial)
    rw [hrefused] at hcreated
    cases hcreated

omit [DecidableEq ι] in
/-- Two logins that have found no row do not both answer a token. -/
theorem LoginState.not_both (hreqs : ∀ i, (reqs i).LogsInAs db u) (h : LoginState reqs db u s)
    (hne : i ≠ j) (hi : (phase s i).FoundNoRow) (hj : (phase s j).FoundNoRow)
    (hended : ∀ i, ((s.prog i).outcome?).isSome = true) :
    ¬ ∃ token, ∀ i r, (s.prog i).outcome? = some r → Carries r token := by
  rintro ⟨token, hcarries⟩
  have hinserted : ∀ m, (phase s m).FoundNoRow → (phase s m).HasInserted := by
    intro m hm
    obtain ⟨r, hr⟩ := Option.isSome_iff_exists.1 (hended m)
    rcases h.answer hreqs hr with ⟨row, -, -, hinserts⟩ | ⟨⟨e, rfl⟩, -⟩
    · exact hinserts hm
    · obtain ⟨answer, hanswer, -⟩ := hcarries m _ hr
      cases hanswer
  exact hne (h.fits.one i j (hinserted i hi) (hinserted j hj))

/-- A login that looks for the absent row after another has found it absent finds it absent. -/
theorem LoginState.foundNoRow_of_select (hreqs : ∀ i, (reqs i).LogsInAs db u)
    (h : LoginState reqs db u s) {k : UserId}
    (hstep : (sessionMachine ι).step s (.op i c) = some s')
    (hnext : (s.prog i).next? = some (.selectToken k)) (hnone : s.world.db.tokens k = none)
    (hfound : (phase s j).FoundNoRow) :
    i ≠ j ∧ (phase s' i).FoundNoRow ∧ (phase s' j).FoundNoRow := by
  obtain ⟨o, m, r, hp, hallows, hcall, hphase, -⟩ := h.step hreqs hstep
  rw [hp] at hnext
  cases hnext
  obtain ⟨row, hlooked, -⟩ := hallows
  have hne : i ≠ j := by
    rintro rfl
    rw [hlooked] at hfound
    exact hfound
  refine ⟨hne, ?_, by rwa [hphase, update_of_ne hne.symm]⟩
  have hrow : s.world.row i k = none :=
    (h.coupled.row_eq (by simp [hlooked, SessionPhase.Uncommitted]) k).trans hnone
  obtain ⟨rfl, -⟩ := Prod.mk.inj (Option.some.inj hcall)
  rw [hphase, update_self, hrow]
  trivial

/--
Concurrent logins of one user, with the right credentials, from any tables: if
no login looks for the row while it is absent and another has found it absent,
then every login that has ended has answered, and all with one token.  When all
have ended, that is also the only way in which they all answer one token.  As
long as a login has not ended, some login can take a step.
-/
theorem concurrentLogins (reqs : ι → SessionRequest) (db : AuthDb) (u : UserId)
    (hreqs : ∀ i, (reqs i).LogsInAs db u) (schedule : List (ι × SessionChoice))
    (s : SessionConfig ι)
    (hrun : (sessionMachine ι).run (startSessions db reqs) (asTurns schedule) = some s) :
    ConcurrentLogins reqs db schedule s := by
  have hstart : LoginState reqs db u (startSessions db reqs) := loginState_start
  have hs := loginState_of_run hreqs hstart hrun
  have hagree : (sessionMachine ι).StepsMeet SelectsAlone (startSessions db reqs)
      (asTurns schedule) → ∃ token, ∀ i r, (s.prog i).outcome? = some r → Carries r token :=
    fun hmeet => hs.agree hreqs
      (oneFoundNoRow_of_run hreqs hstart (fun i j h => h.elim) hmeet hrun)
  refine ⟨hagree, fun hended => ⟨fun hall => ?_, hagree⟩, fun i => hs.goesOn⟩
  refine Machine.stepsMeet_of_run hrun fun pre l post t t' hsplit ht ht' => ?_
  rintro i c k rfl hnext hnone j hfound
  -- both have found no row after this step, and so at the end
  obtain ⟨pre', rest, rfl, rfl, hrest⟩ := List.map_eq_append_iff.1 hsplit
  obtain ⟨turn, post', rfl, hturn, rfl⟩ := List.map_eq_cons_iff.1 hrest
  have hstate := loginState_of_run hreqs hstart ht
  obtain ⟨o, m, r, -, -, -, -, hstate'⟩ := hstate.step hreqs ht'
  obtain ⟨hne, hi, hj⟩ := hstate.foundNoRow_of_select hreqs ht' hnext hnone hfound
  obtain ⟨s₁, hs₁, hrest⟩ := Machine.run_append_eq_some.1 (hsplit ▸ hrun)
  rw [ht] at hs₁
  cases hs₁
  obtain ⟨s₂, hs₂, hrest⟩ := Machine.run_cons_eq_some.1 hrest
  rw [ht'] at hs₂
  cases hs₂
  exact hs.not_both hreqs hne (foundNoRow_of_run hreqs hstate' hrest hi)
    (foundNoRow_of_run hreqs hstate' hrest hj) hended hall

end Answers

section Samples

omit [PasswordLibraries] in
/-- Turns of two requests; `true` is the second, and each has a UUID of its own. -/
def sessionTurns (order : List Bool) : List (Bool × SessionChoice) :=
  order.map fun i => (i, { gen := if i then 3 else 2 })

omit [PasswordLibraries] in
/-- Both look the user up, the first creates the token, and then they go on by turns. -/
def loginsByTurns : List (Bool × SessionChoice) :=
  sessionTurns ([true, false, true, false, false, false, false] ++
    [true, false, true, false, true, false, true, false, true, true])

omit [PasswordLibraries] in
/-- Both SELECTs come before both INSERTs. -/
def loginsAtOnce : List (Bool × SessionChoice) :=
  sessionTurns (List.replicate 3 false ++ List.replicate 3 true ++ List.replicate 6 false ++
    List.replicate 4 true)

omit [PasswordLibraries] in
/-- The user has registered, and has no token yet. -/
def registered : AuthDb :=
  letI := samplePasswords
  runAuth .initial (firstLogin.take 1)

omit [PasswordLibraries] in
def sampleLogins (_ : Bool) : SessionRequest :=
  .login sampleCredentials

omit [PasswordLibraries] in
theorem sampleLogins_logIn (i : Bool) :
    letI := samplePasswords
    (sampleLogins i).LogsInAs registered 1 := by
  let := samplePasswords
  exact ⟨sampleCredentials.username, sampleCredentials.passwordHash, rfl, _, rfl, rfl⟩

omit [PasswordLibraries] in
/-- The second login looks for the row when the first has committed it, and both answer it. -/
theorem concurrentLogins_byTurns :
    letI := samplePasswords
    ∃ s, (sessionMachine Bool).run (startSessions registered sampleLogins)
        (asTurns loginsByTurns) = some s ∧
      (∀ i, (s.prog i).outcome? = some (.ok (.token { accessToken := 2 }))) ∧
      (sessionMachine Bool).StepsMeet SelectsAlone (startSessions registered sampleLogins)
        (asTurns loginsByTurns) := by
  let := samplePasswords
  have hrun : ((sessionMachine Bool).run (startSessions registered sampleLogins)
      (asTurns loginsByTurns)).map (fun s => ((s.prog false).outcome?, (s.prog true).outcome?)) =
        some (some (.ok (.token { accessToken := 2 })),
          some (.ok (.token { accessToken := 2 }))) := by
    rfl
  obtain ⟨s, hs, houtcomes⟩ := Option.map_eq_some_iff.1 hrun
  obtain ⟨hfirst, hsecond⟩ := Prod.mk.inj houtcomes
  have hall : ∀ i, (s.prog i).outcome? = some (.ok (.token { accessToken := 2 }))
    | false => hfirst
    | true => hsecond
  have hlogins := concurrentLogins sampleLogins registered 1 sampleLogins_logIn loginsByTurns s hs
  refine ⟨s, hs, hall, (hlogins.complete_iff fun i => by rw [hall i]; rfl).1 ⟨2, fun i r hr => ?_⟩⟩
  rw [hall i] at hr
  cases hr
  exact ⟨_, rfl, rfl⟩

omit [PasswordLibraries] in
/-- The second INSERT is refused, and nothing handles the error. -/
theorem loginsAtOnce_refused :
    letI := samplePasswords
    ∃ s, (sessionMachine Bool).run (startSessions registered sampleLogins)
        (asTurns loginsAtOnce) = some s ∧
      (∀ i, (sampleLogins i).LogsInAs registered 1) ∧
      (s.prog false).outcome? = some (.ok (.token { accessToken := 2 })) ∧
      (s.prog true).outcome? = some (.error (.integrityError true)) ∧
      ¬ ∃ token, ∀ i r, (s.prog i).outcome? = some r → Carries r token := by
  let := samplePasswords
  have hrun : ((sessionMachine Bool).run (startSessions registered sampleLogins)
      (asTurns loginsAtOnce)).map (fun s => ((s.prog false).outcome?, (s.prog true).outcome?)) =
        some (some (.ok (.token { accessToken := 2 })),
          some (.error (.integrityError true))) := by
    rfl
  obtain ⟨s, hs, houtcomes⟩ := Option.map_eq_some_iff.1 hrun
  obtain ⟨hfirst, hsecond⟩ := Prod.mk.inj houtcomes
  refine ⟨s, hs, sampleLogins_logIn, hfirst, hsecond, ?_⟩
  rintro ⟨token, hcarries⟩
  obtain ⟨answer, hanswer, -⟩ := hcarries true _ hsecond
  cases hanswer

end Samples

end LoginRaces

end SmartHttpRequester
