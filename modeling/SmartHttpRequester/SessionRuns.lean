import SmartHttpRequester.SessionPhases

/-!
# Runs of sessions

The phases of the requests and the uncommitted rows of `tokens` fit together in
every state of a run (`RowsCoupled`): an uncommitted row belongs to a request that
has just written it, an inserted one to a user without a committed row, a
changed one to a user with one.

`session_step` says what a step does to the tables and to the phases.
-/

namespace SmartHttpRequester

open Foundations Function

section SessionRuns

variable {ι : Type} [DecidableEq ι]

namespace SessionWorld

variable {w : SessionWorld ι} {i j : ι} {u : UserId} {new : Option TokenRow}

theorem row_of_pending (h : w.pending u = some (i, new)) :
    w.row i u = new := by
  have hslot : (w.slot u).pending = some (i, new) := h
  rw [row, Slot.visible_eq_of_pending hslot]
  rfl

theorem row_of_not_pending (h : ∀ new, w.pending u ≠ some (i, new)) :
    w.row i u = w.db.tokens u := by
  have hslot : ∀ new, (w.slot u).pending ≠ some (i, new) := h
  rw [row, Slot.visible_eq_committed hslot]
  rfl

omit [DecidableEq ι] in
theorem lockedFor_eq_false [DecidableEq ι] (h : (w.slot u).lockedFor i = false)
    (hpending : w.pending u = some (j, new)) :
    j = i := by
  simpa [Slot.lockedFor, slot, hpending] using h

theorem lockedFor_eq_true (h : (w.slot u).lockedFor i = true) :
    ∃ j new, w.pending u = some (j, new) ∧ j ≠ i := by
  cases hpending : w.pending u with
  | none => simp [Slot.lockedFor, slot, hpending] at h
  | some jnew =>
      obtain ⟨j, new⟩ := jnew
      exact ⟨j, new, rfl, by simpa [Slot.lockedFor, slot, hpending] using h⟩

theorem commit_pending :
    (w.commit i).pending u = some (j, new) ↔ j ≠ i ∧ w.pending u = some (j, new) :=
  Slot.commit_pending

theorem rollback_pending :
    (w.rollback i).pending u = some (j, new) ↔ j ≠ i ∧ w.pending u = some (j, new) :=
  Slot.rollback_pending

end SessionWorld

abbrev SessionConfig (ι : Type) :=
  Config ι SessionOp Fetched AuthExc SessionResponse (SessionWorld ι)

abbrev SessionLabel (ι : Type) := Label ι SessionChoice Empty

/-- The phase of a request, from its calls so far. -/
def phase (s : SessionConfig ι) (i : ι) : SessionPhase :=
  (s.hist i).foldl (fun g e => g.next e.1 e.2) .idle

def startSessions [PasswordLibraries] (db : AuthDb) (reqs : ι → SessionRequest) : SessionConfig ι :=
  Machine.start (SessionWorld.quiet ι db) fun i => (reqs i).program

/-- Every request is abandoned, or keeps to its monitor. -/
def KeepsTo [PasswordLibraries] (reqs : ι → SessionRequest) (s : SessionConfig ι) : Prop :=
  Monitored (fun i => sessionMonitor (reqs i)) (fun _ => .idle) (fun i => (reqs i).Ends)
    .unknownException s

section Calls

variable {i : ι} {c : SessionChoice} {u : UserId} {w w' : SessionWorld ι} {r : SessionReply}
variable {row : TokenRow} {new : Option TokenRow} {returning : Fetched} {req : SessionRequest}

theorem insertTokenRow_cases (h : insertTokenRow i u row w = some (r, w')) :
    (w.slot u).lockedFor i = false ∧
    ((w' = w ∧ ∃ e, r = .error e ∧
        ((w.row i u).isSome = true ∨ u ∉ w.db.users.map UserRow.id)) ∨
      (w.row i u = none ∧ r = .ok { generated := row.accessToken } ∧
        ∃ hnew, w' = w.write i u (some row) hnew)) := by
  unfold insertTokenRow at h
  split at h
  · cases h
  · rename_i hfree
    refine ⟨by simpa using hfree, ?_⟩
    split at h
    · rename_i hrow
      cases h
      exact Or.inl ⟨rfl, _, rfl, Or.inl hrow⟩
    · rename_i hrow
      split at h
      · cases h
        exact Or.inr ⟨by simpa using hrow, rfl, _, rfl⟩
      · rename_i hu
        cases h
        exact Or.inl ⟨rfl, _, rfl, Or.inr hu⟩

theorem changeTokenRow_cases (h : changeTokenRow i u new returning w = some (r, w')) :
    (w' = w ∧ r = .ok {}) ∨
    (∃ row, w.row i u = some row ∧ (w.slot u).lockedFor i = false ∧
      r = .ok returning ∧ ∃ hnew, w' = w.write i u new hnew) := by
  unfold changeTokenRow at h
  split at h
  · rename_i hrow
    split at h
    · cases h
    · rename_i hfree
      cases h
      obtain ⟨row, hrow⟩ := Option.isSome_iff_exists.1 hrow
      exact Or.inr ⟨row, hrow, by simpa using hfree, rfl, _, rfl⟩
  · cases h
    exact Or.inl ⟨rfl, rfl⟩

/-- A statement waits only for a row that another request has written. -/
theorem lockedFor_of_blocked {o : SessionOp} (h : sessionCall i c o w = none) :
    ∃ k, (w.slot k).lockedFor i = true := by
  have hchange : ∀ {k new returning}, changeTokenRow i k new returning w = none →
      ∃ k, (w.slot k).lockedFor i = true := by
    intro k new returning hnone
    unfold changeTokenRow at hnone
    split at hnone
    · split at hnone
      · rename_i hlocked
        exact ⟨k, hlocked⟩
      · cases hnone
    · cases hnone
  cases o with
  | insertToken k =>
      have hnone : insertTokenRow i k _ w = none := h
      unfold insertTokenRow at hnone
      split at hnone
      · rename_i hlocked
        exact ⟨k, hlocked⟩
      · split at hnone
        · cases hnone
        · split at hnone <;> cases hnone
  | updateToken k => exact hchange h
  | deleteToken k => exact hchange h
  | _ => cases h

theorem sessionMachine_meets [PasswordLibraries] (reqs : ι → SessionRequest) :
    (sessionMachine ι).Meets fun i => sessionMonitor (reqs i) := by
  intro i c o w r w' h
  have hchange : ∀ {u new returning}, changeTokenRow i u new returning w = some (r, w') →
      ∃ f, r = .ok f := by
    intro u new returning h
    rcases changeTokenRow_cases h with ⟨-, hr⟩ | ⟨row, -, -, hr, -⟩
    · exact ⟨_, hr⟩
    · exact ⟨_, hr⟩
  cases o with
  | selectUser username => exact Or.inl rfl
  | insertToken userId => exact Or.inl rfl
  | updateToken userId => exact Or.inr (hchange h)
  | deleteToken userId => exact Or.inr (hchange h)
  | _ =>
      cases h
      exact Or.inr ⟨_, rfl⟩

/-- What a call in order does to the world and to the phase of its request. -/
inductive SessionEffect (req : SessionRequest) (i : ι) (c : SessionChoice)
    (w : SessionWorld ι) (g : SessionPhase) :
    SessionOp → SessionWorld ι → SessionPhase → Prop
  | stays
      {o : SessionOp} :
      SessionEffect req i c w g o w g
  | reads
      {o : SessionOp}
      {g' : SessionPhase}
      (hbefore : g.Reading)
      (hafter : g'.Reading) :
      SessionEffect req i c w g o w g'
  | inserts
      {u : UserId}
      (hg : g = .absent u)
      (hfree : (w.slot u).lockedFor i = false)
      (hrow : w.row i u = none)
      (hnew : _) :
      SessionEffect req i c w g (.insertToken u)
        (w.write i u (some ⟨c.gen, c.now + tokenLifetime⟩) hnew) (.inserted u c.gen)
  | changes
      {o : SessionOp}
      {u : UserId}
      {row : TokenRow}
      {new : Option TokenRow}
      (ho : o = .updateToken u ∨ o = .deleteToken u)
      (hg : g = .resolved u)
      (hpresented : ∃ token, req.presented = some token)
      (hfree : (w.slot u).lockedFor i = false)
      (hrow : w.row i u = some row)
      (hgen : ∀ row', new = some row' → row' = ⟨c.gen, c.now + tokenLifetime⟩)
      (hnew : _) :
      SessionEffect req i c w g o (w.write i u new hnew)
        (.changed u (new.map TokenRow.accessToken))
  | commits :
      SessionEffect req i c w g .commit (w.commit i) g.commit
  | rollsBack
      {o : SessionOp}
      (hbefore : ∀ u, ¬ g.Uncommitted u) :
      SessionEffect req i c w g o (w.rollback i) g

theorem sessionCall_effect [PasswordLibraries] {g : SessionPhase} {o : SessionOp}
    (hallows : req.Allows g o)
    (h : sessionCall i c o w = some (r, w')) :
    SessionEffect req i c w g o w' (g.next o r) := by
  cases o with
  | selectUser username =>
      obtain ⟨rfl, -⟩ := hallows
      cases h
      cases getUserIdPassword username w.db with
      | error e =>
          exact .reads trivial trivial
      | ok row =>
          exact .reads trivial trivial
  | selectToken userId =>
      obtain ⟨row, rfl, -⟩ := hallows
      cases h
      cases hrow : w.row i userId with
      | none =>
          exact .reads trivial trivial
      | some row =>
          exact .reads trivial trivial
  | insertToken userId =>
      have hg : g = .absent userId := hallows
      obtain ⟨hfree, ⟨rfl, e, rfl, -⟩ | ⟨hrow, rfl, hnew, rfl⟩⟩ := insertTokenRow_cases h
      · exact .reads (by rw [hg]; trivial) trivial
      · exact .inserts hg hfree hrow hnew
  | selectByToken token =>
      obtain ⟨rfl, -⟩ := hallows
      cases h
      cases hfound : getUserByToken c.now token (w.seen i) with
      | none =>
          exact .stays
      | some user =>
          exact .reads trivial trivial
  | updateToken userId =>
      obtain ⟨hg, hpresented⟩ := hallows
      rcases changeTokenRow_cases h with ⟨rfl, rfl⟩ | ⟨row, hrow, hfree, rfl, hnew, rfl⟩
      · exact .stays
      · exact .changes (Or.inl rfl) hg hpresented hfree hrow
          (fun row' h' => (Option.some.inj h').symm) hnew
  | deleteToken userId =>
      obtain ⟨hg, hpresented⟩ := hallows
      rcases changeTokenRow_cases h with ⟨rfl, rfl⟩ | ⟨row, hrow, hfree, rfl, hnew, rfl⟩
      · exact .stays
      · exact .changes (Or.inr rfl) hg hpresented hfree hrow (by simp) hnew
  | commit =>
      cases h
      exact .commits
  | rollback =>
      cases h
      exact .rollsBack hallows
  | close =>
      cases h
      exact .rollsBack hallows
  | respond response =>
      cases h
      exact .stays

end Calls

section Coupling

/-- The uncommitted rows belong to requests that have just written them. -/
def RowsCoupled (w : SessionWorld ι) (g : ι → SessionPhase) : Prop :=
  ∀ u i new, w.pending u = some (i, new) →
    (∃ row, new = some row ∧ g i = .inserted u row.accessToken ∧ w.db.tokens u = none) ∨
    (g i = .changed u (new.map TokenRow.accessToken) ∧ (w.db.tokens u).isSome = true)

variable {w w' : SessionWorld ι} {g : ι → SessionPhase} {g' : SessionPhase} {i : ι}
variable {u : UserId} {new : Option TokenRow} {req : SessionRequest} {c : SessionChoice}
variable {o : SessionOp}

omit [DecidableEq ι] in
theorem RowsCoupled.uncommitted (h : RowsCoupled w g) (hpending : w.pending u = some (i, new)) :
    (g i).Uncommitted u := by
  rcases h u i new hpending with ⟨row, -, hphase, -⟩ | ⟨hphase, -⟩
  · exact Or.inl ⟨_, hphase⟩
  · exact Or.inr ⟨_, hphase⟩

omit [DecidableEq ι] in
theorem RowsCoupled.not_pending (h : RowsCoupled w g) (hno : ∀ u, ¬ (g i).Uncommitted u) (u : UserId)
    (new : Option TokenRow) :
    w.pending u ≠ some (i, new) :=
  fun hpending => hno u (h.uncommitted hpending)

/-- A row that no other request has written is not written at all. -/
theorem RowsCoupled.pending_eq_none (h : RowsCoupled w g) (hno : ∀ u, ¬ (g i).Uncommitted u)
    (hfree : (w.slot u).lockedFor i = false) :
    w.pending u = none := by
  cases hpending : w.pending u with
  | none =>
      rfl
  | some jnew =>
      obtain ⟨j, new⟩ := jnew
      obtain rfl := SessionWorld.lockedFor_eq_false hfree hpending
      exact absurd (h.uncommitted hpending) (hno u)

theorem RowsCoupled.row_eq (h : RowsCoupled w g) (hno : ∀ u, ¬ (g i).Uncommitted u) (u : UserId) :
    w.row i u = w.db.tokens u :=
  SessionWorld.row_of_not_pending (h.not_pending hno u)

/-- The phase of a request that has nothing uncommitted can change. -/
theorem RowsCoupled.update_phase (h : RowsCoupled w g) (hno : ∀ u, ¬ (g i).Uncommitted u) :
    RowsCoupled w (update g i g') := by
  intro u j new hpending
  have hj : j ≠ i := by
    rintro rfl
    exact hno u (h.uncommitted hpending)
  rw [update_of_ne hj]
  exact h u j new hpending

theorem RowsCoupled.rollback (h : RowsCoupled w g) :
    RowsCoupled (w.rollback i) g :=
  fun u j new hpending => h u j new (SessionWorld.rollback_pending.1 hpending).2

/-- A request writes a row that nobody else has written. -/
theorem RowsCoupled.write (h : RowsCoupled w g) (hno : ∀ u, ¬ (g i).Uncommitted u)
    (hnew : new.isSome = true → u ∈ w.db.users.map UserRow.id)
    (hphase : (∃ row, new = some row ∧ g' = .inserted u row.accessToken ∧ w.db.tokens u = none) ∨
      (g' = .changed u (new.map TokenRow.accessToken) ∧ (w.db.tokens u).isSome = true)) :
    RowsCoupled (w.write i u new hnew) (update g i g') := by
  intro u' j new' hpending
  by_cases hu : u' = u
  · subst hu
    have hsame : update w.pending u' (some (i, new)) u' = some (j, new') := hpending
    rw [update_self] at hsame
    cases hsame
    rw [update_self]
    exact hphase
  · have hold : update w.pending u (some (i, new)) u' = some (j, new') := hpending
    rw [update_of_ne hu] at hold
    have hj : j ≠ i := by
      rintro rfl
      exact hno u' (h.uncommitted hold)
    rw [update_of_ne hj]
    exact h u' j new' hold

/-- A commit leaves the committed rows that others are about to replace. -/
theorem RowsCoupled.commit (h : RowsCoupled w g) :
    RowsCoupled (w.commit i) (update g i (g i).commit) := by
  intro u j new hpending
  obtain ⟨hj, hpending⟩ := SessionWorld.commit_pending.1 hpending
  have hrow : (w.commit i).db.tokens u = w.db.tokens u := by
    refine SessionWorld.row_of_not_pending fun new' hown => ?_
    rw [hpending] at hown
    cases hown
    exact hj rfl
  rw [update_of_ne hj, hrow]
  exact h u j new hpending

theorem RowsCoupled.effect (h : RowsCoupled w g) (heffect : SessionEffect req i c w (g i) o w' g') :
    RowsCoupled w' (update g i g') := by
  cases heffect with
  | stays =>
      rwa [update_eq_self]
  | reads hbefore hafter =>
      exact h.update_phase hbefore.not_uncommitted
  | @inserts u hg hfree hrow hnew =>
      have hno : ∀ k, ¬ (g i).Uncommitted k := by simp [hg, SessionPhase.Uncommitted]
      rw [h.row_eq hno] at hrow
      exact h.write hno hnew (Or.inl ⟨_, rfl, rfl, hrow⟩)
  | changes ho hg hpresented hfree hrow hgen hnew =>
      have hno : ∀ k, ¬ (g i).Uncommitted k := by simp [hg, SessionPhase.Uncommitted]
      rw [h.row_eq hno] at hrow
      exact h.write hno hnew (Or.inr ⟨rfl, by simp [hrow]⟩)
  | commits =>
      exact h.commit
  | rollsBack hbefore =>
      rw [update_eq_self]
      exact h.rollback

/-- What other requests have not committed stays as it is. -/
theorem SessionEffect.pending_kept {g : SessionPhase} {j : ι}
    (heffect : SessionEffect req i c w g o w' g') (hj : j ≠ i)
    (h : w.pending u = some (j, new)) :
    w'.pending u = some (j, new) := by
  have hwrite : ∀ {k new' hnew}, (w.slot k).lockedFor i = false →
      (w.write i k new' hnew).pending u = some (j, new) := by
    intro k new' hnew hfree
    have hk : u ≠ k := by
      rintro rfl
      exact hj (SessionWorld.lockedFor_eq_false hfree h)
    change update w.pending k (some (i, new')) u = some (j, new)
    rwa [update_of_ne hk]
  cases heffect with
  | stays => exact h
  | reads hbefore hafter => exact h
  | inserts hg hfree hrow hnew => exact hwrite hfree
  | changes ho hg hpresented hfree hrow hgen hnew => exact hwrite hfree
  | commits => exact SessionWorld.commit_pending.2 ⟨hj, h⟩
  | rollsBack hbefore => exact SessionWorld.rollback_pending.2 ⟨hj, h⟩

/-- A request that has committed a row stays in its phase. -/
theorem SessionEffect.eq_of_done {g : SessionPhase} (heffect : SessionEffect req i c w g o w' g')
    (h : g.Done) :
    g' = g := by
  cases heffect with
  | stays => rfl
  | reads hbefore hafter => exact absurd h hbefore.not_done
  | inserts hg hfree hrow hnew =>
      rw [hg] at h
      exact h.elim
  | changes ho hg hpresented hfree hrow hgen hnew =>
      rw [hg] at h
      exact h.elim
  | commits => exact SessionPhase.commit_eq_self h.not_uncommitted
  | rollsBack hbefore => rfl

/-- What a request has written it holds until it ends the transaction. -/
theorem SessionEffect.held {g : SessionPhase} (heffect : SessionEffect req i c w g o w' g')
    (h : ∀ u, g.Uncommitted u → ∃ new, w.pending u = some (i, new)) (u : UserId)
    (hopen : g'.Uncommitted u) :
    ∃ new, w'.pending u = some (i, new) := by
  cases heffect with
  | stays =>
      exact h u hopen
  | reads hbefore hafter =>
      exact absurd hopen (hafter.not_uncommitted u)
  | inserts hg hfree hrow hnew =>
      obtain rfl := SessionPhase.Uncommitted.unique hopen (Or.inl ⟨_, rfl⟩)
      exact ⟨_, update_self ..⟩
  | changes ho hg hpresented hfree hrow hgen hnew =>
      obtain rfl := SessionPhase.Uncommitted.unique hopen (Or.inr ⟨_, rfl⟩)
      exact ⟨_, update_self ..⟩
  | commits =>
      exact absurd hopen (SessionPhase.commit_not_uncommitted g u)
  | rollsBack hbefore =>
      exact absurd hopen (hbefore u)

/-- Only a commit changes the tables. -/
theorem SessionEffect.db_eq {g : SessionPhase} (heffect : SessionEffect req i c w g o w' g') :
    w'.db = w.db ∨ w' = w.commit i := by
  cases heffect with
  | commits => exact Or.inr rfl
  | _ => exact Or.inl rfl

end Coupling

section Steps

variable {s s' : SessionConfig ι} {l : SessionLabel ι}

/-- A step is a call of a request, or abandons one. -/
theorem session_step (h : (sessionMachine ι).step s l = some s') :
    (∃ i c o k r,
        l = .op i c ∧
        s.prog i = .op o k ∧
        sessionCall i c o s.world = some (r, s'.world) ∧
        s'.prog = update s.prog i (k r) ∧
        phase s' = update (phase s) i ((phase s i).next o r)) ∨
    (∃ i, l = .kill i ∧
        s'.world = s.world.rollback i ∧
        s'.prog = update s.prog i (.raise .unknownException) ∧
        phase s' = phase s) := by
  obtain ⟨i, c, o, k, r, w, rfl, hp, hexec, rfl⟩ | ⟨a, -⟩ | ⟨i, o, k, rfl, hp, rfl⟩ :=
    Machine.step_cases h
  · refine Or.inl ⟨i, c, o, k, r, rfl, hp, hexec, rfl, ?_⟩
    funext j
    by_cases hj : j = i
    · subst hj
      simp [phase, List.foldl_append]
    · simp [phase, hj]
  · exact a.elim
  · exact Or.inr ⟨i, rfl, rfl, rfl, rfl⟩

variable [PasswordLibraries] {reqs : ι → SessionRequest}

/-- What holds in every state of a run: the programs keep to their monitors, the rows to the
phases, and what a request has written it holds as long as it has not ended. -/
structure Orderly (reqs : ι → SessionRequest) (s : SessionConfig ι) : Prop where
  keeps : KeepsTo reqs s
  coupled : RowsCoupled s.world (phase s)
  held : ∀ i o k, s.prog i = .op o k → ∀ u, (phase s i).Uncommitted u →
    ∃ new, s.world.pending u = some (i, new)

/-- The same step as an effect on the world and on the phase of the acting request. -/
theorem Orderly.effect (horderly : Orderly reqs s) (h : (sessionMachine ι).step s l = some s') :
    (∃ i c o k r,
        l = .op i c ∧
        s.prog i = .op o k ∧
        SessionEffect (reqs i) i c s.world (phase s i) o s'.world ((phase s i).next o r) ∧
        s'.prog = update s.prog i (k r) ∧
        phase s' = update (phase s) i ((phase s i).next o r)) ∨
    (∃ i, l = .kill i ∧
        s'.world = s.world.rollback i ∧
        s'.prog = update s.prog i (.raise .unknownException) ∧
        phase s' = phase s) := by
  rcases session_step h with ⟨i, c, o, k, r, hl, hp, hcall, hprog, hphase⟩ | hkill
  · exact Or.inl ⟨i, c, o, k, r, hl, hp,
      sessionCall_effect (horderly.keeps.allows hp) hcall, hprog, hphase⟩
  · exact Or.inr hkill

theorem Orderly.step (horderly : Orderly reqs s) (h : (sessionMachine ι).step s l = some s') :
    Orderly reqs s' := by
  refine ⟨Monitored.step (sessionMachine_meets reqs) horderly.keeps h, ?_, ?_⟩
  · rcases horderly.effect h with ⟨i, c, o, k, r, -, -, heffect, -, hphase⟩ |
        ⟨i, -, hworld, -, hphase⟩
    · rw [hphase]
      exact horderly.coupled.effect heffect
    · rw [hworld, hphase]
      exact horderly.coupled.rollback
  · intro j o' k' hp' u hopen
    rcases horderly.effect h with ⟨i, c, o, k, r, -, hp, heffect, hprog, hphase⟩ |
        ⟨i, -, hworld, hprog, hphase⟩
    · rw [hphase] at hopen
      by_cases hj : j = i
      · subst hj
        rw [update_self] at hopen
        exact heffect.held (horderly.held j o k hp) u hopen
      · rw [update_of_ne hj] at hopen
        rw [hprog, update_of_ne hj] at hp'
        obtain ⟨new, hnew⟩ := horderly.held j o' k' hp' u hopen
        exact ⟨new, heffect.pending_kept hj hnew⟩
    · have hj : j ≠ i := by
        rintro rfl
        rw [hprog, update_self] at hp'
        cases hp'
      rw [hphase] at hopen
      rw [hprog, update_of_ne hj] at hp'
      obtain ⟨new, hnew⟩ := horderly.held j o' k' hp' u hopen
      exact ⟨new, by rw [hworld]; exact SessionWorld.rollback_pending.2 ⟨hj, hnew⟩⟩

omit [DecidableEq ι] in
theorem orderly_start (db : AuthDb) (reqs : ι → SessionRequest) :
    Orderly reqs (startSessions db reqs) where
  keeps := Monitored.start fun i => wp_program (reqs i)
  coupled := by
    intro u i new h
    cases h
  held := by
    rintro i o k - u (⟨token, hphase⟩ | ⟨new, hphase⟩)
    · cases hphase
    · cases hphase

end Steps

end SessionRuns

end SmartHttpRequester
