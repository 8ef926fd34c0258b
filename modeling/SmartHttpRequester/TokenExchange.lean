import SmartHttpRequester.Foundations.HeldValues
import SmartHttpRequester.SessionRuns
import SmartHttpRequester.TokenAcceptance

/-!
# A session is ended through itself

Refresh and logout resolve the token they present in one transaction, and
change the row of its user in a later one, whatever token is in it by then.  A
request that has been overtaken so ends a session that it has not presented,
and two refreshes can exchange one token.

`sessions_kept`: in a run in which every UPDATE and DELETE finds the token that
its request presented, a token that was handed out stays accepted until it
expires or a request that presented it commits, and every token is exchanged at
most once.
-/

namespace SmartHttpRequester

open Foundations Function

section TokenExchange

/-- The row that a step generates, if it generates one. -/
def SessionChoice.row (c : SessionChoice) : TokenRow :=
  ⟨c.gen, c.now + tokenLifetime⟩

/-- Where a row of `tokens` can be. -/
inductive TokenPlace
  | committed (userId : UserId)
  | uncommitted (userId : UserId)
deriving DecidableEq

variable {ι : Type}

/-- The row at a place. -/
def SessionWorld.rowAt (w : SessionWorld ι) : TokenPlace → Option TokenRow
  | .committed userId => w.db.tokens userId
  | .uncommitted userId => (w.pending userId).bind fun version => version.2

section Places

variable {w : SessionWorld ι} {i : ι} {u : UserId} {new : Option TokenRow}

theorem rowAt_of_pending (h : w.pending u = some (i, new)) :
    w.rowAt (.uncommitted u) = new := by
  simp [SessionWorld.rowAt, h]

theorem rowAt_write (hnew : new.isSome = true → u ∈ w.db.users.map UserRow.id) :
    (w.write i u new hnew).rowAt = update w.rowAt (.uncommitted u) new := by
  funext p
  cases p with
  | committed k =>
      rfl
  | uncommitted k =>
      by_cases hk : k = u
      · subst hk
        simp [SessionWorld.rowAt, SessionWorld.write]
      · simp [SessionWorld.rowAt, SessionWorld.write, hk]

variable [DecidableEq ι]

theorem rowAt_rollback {p : TokenPlace} {row : TokenRow}
    (h : (w.rollback i).rowAt p = some row) :
    w.rowAt p = some row := by
  cases p with
  | committed k =>
      exact h
  | uncommitted k =>
      obtain ⟨⟨j, new⟩, hpending, rfl⟩ := Option.bind_eq_some_iff.1 h
      exact rowAt_of_pending (SessionWorld.rollback_pending.1 hpending).2

/-- A commit of a request that has written one row moves the row. -/
theorem rowAt_commit (hown : w.pending u = some (i, new))
    (honly : ∀ k new, w.pending k = some (i, new) → k = u) :
    (w.commit i).rowAt = moveTo (.uncommitted u) (.committed u) w.rowAt := by
  have hother : ∀ k, k ≠ u → ∀ new, w.pending k ≠ some (i, new) :=
    fun k hk new hpending => hk (honly k new hpending)
  funext p
  unfold moveTo
  cases p with
  | committed k =>
      rw [update_of_ne (by simp)]
      by_cases hk : k = u
      · subst hk
        rw [update_self, rowAt_of_pending hown]
        exact SessionWorld.row_of_pending hown
      · rw [update_of_ne (by simpa using hk)]
        exact SessionWorld.row_of_not_pending (hother k hk)
  | uncommitted k =>
      by_cases hk : k = u
      · subst hk
        rw [update_self]
        have hslot : (w.slot k).pending = some (i, new) := hown
        have hnone : (w.commit i).pending k = none := by
          change ((w.slot k).commit i).pending = none
          rw [Slot.commit_of_pending hslot]
        simp [SessionWorld.rowAt, hnone]
      · rw [update_of_ne (by simpa using hk), update_of_ne (by simp)]
        have hsame : (w.commit i).pending k = w.pending k := by
          change ((w.slot k).commit i).pending = (w.slot k).pending
          rw [Slot.commit_eq_self (hother k hk)]
        simp [SessionWorld.rowAt, hsame]

/-- A commit of a request that has written nothing changes nothing. -/
theorem rowAt_commit_of_not_pending (h : ∀ k new, w.pending k ≠ some (i, new)) :
    (w.commit i).rowAt = w.rowAt := by
  funext p
  cases p with
  | committed k =>
      exact SessionWorld.row_of_not_pending (h k)
  | uncommitted k =>
      have hsame : (w.commit i).pending k = w.pending k := by
        change ((w.slot k).commit i).pending = (w.slot k).pending
        rw [Slot.commit_eq_self (h k)]
      simp [SessionWorld.rowAt, hsame]

end Places

/-- The request has committed a row with the token. -/
def SessionPhase.Issues (phase : SessionPhase) (u : UserId) (x : UUID) : Prop :=
  phase = .created u x ∨ phase = .replaced u (some x)

/-- A request that presented the token has replaced or deleted a row. -/
def Spends (reqs : ι → SessionRequest) (g : ι → SessionPhase) (i : ι) (x : UUID) : Prop :=
  (reqs i).presented = some x ∧ ∃ u new, g i = .replaced u new

/-- Tokens and requests, when every change finds the token that was presented. -/
structure TokensFit (reqs : ι → SessionRequest) (known : List TokenRow) (w : SessionWorld ι)
    (g : ι → SessionPhase) : Prop where
  apart : Apart TokenRow.accessToken w.rowAt
  within : Every (· ∈ known) w.rowAt
  own : ∀ i u new n, w.pending u = some (i, new) → g i = .changed u n →
    ∃ row, w.db.tokens u = some row ∧ (reqs i).presented = some row.accessToken
  spent : ∀ i x, Spends reqs g i x →
    (∃ row ∈ known, row.accessToken = x) ∧ Every (fun row => row.accessToken ≠ x) w.rowAt
  once : ∀ i j x, Spends reqs g i x → Spends reqs g j x → i = j
  kept : ∀ i u x, (g i).Issues u x →
    (∃ row, w.db.tokens u = some row ∧ row.accessToken = x) ∨
      ∃ j new, (reqs j).presented = some x ∧ g j = .replaced u new

section Effects

variable {reqs : ι → SessionRequest} {known known' : List TokenRow} {w w' : SessionWorld ι}
variable {g : ι → SessionPhase} {g' : SessionPhase} {i : ι} {u : UserId} {x : UUID}
variable {new : Option TokenRow} {row : TokenRow} {c : SessionChoice} {o : SessionOp}

theorem TokensFit.mono (h : TokensFit reqs known w g) (hsub : known ⊆ known') :
    TokensFit reqs known' w g where
  apart := h.apart
  within := h.within.mono fun row hrow => hsub hrow
  own := h.own
  spent := by
    intro i x hspends
    obtain ⟨⟨row, hrow, htoken⟩, hnowhere⟩ := h.spent i x hspends
    exact ⟨⟨row, hsub hrow, htoken⟩, hnowhere⟩
  once := h.once
  kept := h.kept

/-- Uncommitted rows can be dropped. -/
theorem TokensFit.restrict (h : TokensFit reqs known w g)
    (htokens : w'.db.tokens = w.db.tokens)
    (hrows : ∀ p row, w'.rowAt p = some row → w.rowAt p = some row)
    (hpending : ∀ u j new, w'.pending u = some (j, new) → w.pending u = some (j, new)) :
    TokensFit reqs known w' g where
  apart := h.apart.of_sub hrows
  within := h.within.of_sub hrows
  own := by
    intro i u new n hown hphase
    rw [htokens]
    exact h.own i u new n (hpending u i new hown) hphase
  spent := by
    intro i x hspends
    obtain ⟨hknown, hnowhere⟩ := h.spent i x hspends
    exact ⟨hknown, hnowhere.of_sub hrows⟩
  once := h.once
  kept := by
    intro i u x hissues
    rw [htokens]
    exact h.kept i u x hissues

variable [DecidableEq ι]

/-- A request that has committed nothing comes to a phase in which it has committed nothing. -/
theorem TokensFit.update_phase (h : TokensFit reqs known w g) (hbefore : ¬ (g i).Done)
    (hafter : ¬ g'.Done)
    (hown : ∀ u new n, w.pending u = some (i, new) → g' = .changed u n →
      ∃ row, w.db.tokens u = some row ∧ (reqs i).presented = some row.accessToken) :
    TokensFit reqs known w (update g i g') := by
  have hdone : ∀ {j phase}, phase.Done → (update g i g' j = phase ↔ g j = phase) := by
    intro j phase hphase
    by_cases hj : j = i
    · subst hj
      rw [update_self]
      constructor
      · rintro rfl
        exact absurd hphase hafter
      · rintro rfl
        exact absurd hphase hbefore
    · rw [update_of_ne hj]
  have hreplaced : ∀ {j u new}, update g i g' j = .replaced u new ↔ g j = .replaced u new :=
    fun {j u new} => hdone (show SessionPhase.Done (.replaced u new) from trivial)
  have hcreated : ∀ {j u x}, update g i g' j = .created u x ↔ g j = .created u x :=
    fun {j u x} => hdone (show SessionPhase.Done (.created u x) from trivial)
  have hspends : ∀ {j x}, Spends reqs (update g i g') j x → Spends reqs g j x := by
    rintro j x ⟨hpresented, u, new, hphase⟩
    exact ⟨hpresented, u, new, hreplaced.1 hphase⟩
  refine ⟨h.apart, h.within, ?_, ?_, ?_, ?_⟩
  · intro j u new n hpending hphase
    by_cases hj : j = i
    · subst hj
      rw [update_self] at hphase
      exact hown u new n hpending hphase
    · rw [update_of_ne hj] at hphase
      exact h.own j u new n hpending hphase
  · exact fun j x hj => h.spent j x (hspends hj)
  · exact fun j k x hj hk => h.once j k x (hspends hj) (hspends hk)
  · intro j u x hissues
    have hissues : (g j).Issues u x := by
      rcases hissues with hphase | hphase
      · exact Or.inl (hcreated.1 hphase)
      · exact Or.inr (hreplaced.1 hphase)
    rcases h.kept j u x hissues with hrow | ⟨k, new, hpresented, hphase⟩
    · exact Or.inl hrow
    · exact Or.inr ⟨k, new, hpresented, hreplaced.2 hphase⟩

omit [DecidableEq ι] in
/-- A row with a new token is written, or a row is marked deleted. -/
theorem TokensFit.write (h : TokensFit reqs known w g)
    (hnew : new.isSome = true → u ∈ w.db.users.map UserRow.id)
    (hphase : ∀ n, g i ≠ .changed u n)
    (hfresh : ∀ known', known' ∈ known → known'.accessToken ≠ row.accessToken)
    (hgen : ∀ row', new = some row' → row' = row) :
    TokensFit reqs (known ++ [row]) (w.write i u new hnew) g := by
  have hevery : ∀ {Q : TokenRow → Prop}, Every Q w.rowAt → Q row →
      Every Q (w.write i u new hnew).rowAt := by
    intro Q hQ hrow
    rw [rowAt_write]
    cases new with
    | none => exact hQ.of_sub fun p row => sub_of_clear
    | some row' =>
        obtain rfl := hgen row' rfl
        exact hQ.put hrow
  refine ⟨?_, ?_, ?_, ?_, h.once, h.kept⟩
  · rw [rowAt_write]
    cases new with
    | none => exact h.apart.of_sub fun p row => sub_of_clear
    | some row' =>
        obtain rfl := hgen row' rfl
        exact h.apart.put (h.within.mono fun known' hknown' => hfresh known' hknown')
  · exact hevery (h.within.mono fun row hrow => List.mem_append_left _ hrow) (by simp)
  · intro j k new' n hpending hchanged
    change update w.pending u (some (i, new)) k = some (j, new') at hpending
    by_cases hk : k = u
    · subst hk
      rw [update_self] at hpending
      cases hpending
      exact absurd hchanged (hphase n)
    · rw [update_of_ne hk] at hpending
      exact h.own j k new' n hpending hchanged
  · intro j x hspends
    obtain ⟨⟨row', hrow', rfl⟩, hnowhere⟩ := h.spent j x hspends
    exact ⟨⟨row', List.mem_append_left _ hrow', rfl⟩,
      hevery hnowhere fun heq => hfresh row' hrow' heq.symm⟩

/-- Where the committed row of a user is after a commit by a request that wrote one row. -/
theorem commit_tokens (hown : w.pending u = some (i, new))
    (honly : ∀ k new, w.pending k = some (i, new) → k = u) :
    (w.commit i).db.tokens = update w.db.tokens u new := by
  funext k
  by_cases hk : k = u
  · subst hk
    rw [update_self]
    exact SessionWorld.row_of_pending hown
  · rw [update_of_ne hk]
    exact SessionWorld.row_of_not_pending fun new' hpending => hk (honly k new' hpending)

/-- The rows of other requests are still over the committed rows that they were over. -/
theorem TokensFit.own_commit (h : TokensFit reqs known w g) (hown : w.pending u = some (i, new))
    (honly : ∀ k new, w.pending k = some (i, new) → k = u) (j : ι) (k : UserId)
    (new' : Option TokenRow) (n : Option UUID)
    (hpending : (w.commit i).pending k = some (j, new'))
    (hphase : update g i g' j = .changed k n) :
    ∃ row, (w.commit i).db.tokens k = some row ∧ (reqs j).presented = some row.accessToken := by
  obtain ⟨hj, hpending⟩ := SessionWorld.commit_pending.1 hpending
  have hk : k ≠ u := by
    rintro rfl
    rw [hown] at hpending
    cases hpending
    exact hj rfl
  rw [update_of_ne hj] at hphase
  rw [commit_tokens hown honly, update_of_ne hk]
  exact h.own j k new' n hpending hphase

/-- A commit of a row that was inserted. -/
theorem TokensFit.commit_inserted (h : TokensFit reqs known w g)
    (hown : w.pending u = some (i, some row))
    (honly : ∀ k new, w.pending k = some (i, new) → k = u)
    (hphase : g i = .inserted u row.accessToken) (hnone : w.db.tokens u = none) :
    TokensFit reqs known (w.commit i) (update g i (.created u row.accessToken)) := by
  have hspends : ∀ {j x}, Spends reqs (update g i (.created u row.accessToken)) j x →
      Spends reqs g j x := by
    rintro j x ⟨hpresented, k, n, hreplaced⟩
    by_cases hj : j = i
    · subst hj
      rw [update_self] at hreplaced
      cases hreplaced
    · rw [update_of_ne hj] at hreplaced
      exact ⟨hpresented, k, n, hreplaced⟩
  refine ⟨?_, ?_, h.own_commit hown honly, ?_, ?_, ?_⟩
  · rw [rowAt_commit hown honly]
    exact h.apart.moveTo
  · rw [rowAt_commit hown honly]
    exact h.within.moveTo
  · intro j x hj
    obtain ⟨hknown, hnowhere⟩ := h.spent j x (hspends hj)
    rw [rowAt_commit hown honly]
    exact ⟨hknown, hnowhere.moveTo⟩
  · exact fun j k x hj hk => h.once j k x (hspends hj) (hspends hk)
  · intro j v x hissues
    rw [commit_tokens hown honly]
    by_cases hj : j = i
    · subst hj
      rw [update_self] at hissues
      rcases hissues with hcreated | hreplaced
      · cases hcreated
        exact Or.inl ⟨row, update_self .., rfl⟩
      · cases hreplaced
    · rw [update_of_ne hj] at hissues
      rcases h.kept j v x hissues with ⟨row', hrow', htoken⟩ | ⟨k, n, hpresented, hk⟩
      · have hv : v ≠ u := by
          rintro rfl
          rw [hnone] at hrow'
          cases hrow'
        exact Or.inl ⟨row', by rwa [update_of_ne hv], htoken⟩
      · have hki : k ≠ i := by
          rintro rfl
          rw [hphase] at hk
          cases hk
        exact Or.inr ⟨k, n, hpresented, by rwa [update_of_ne hki]⟩

/-- A commit of a row that was changed: the token that was presented is spent. -/
theorem TokensFit.commit_changed (h : TokensFit reqs known w g)
    (hown : w.pending u = some (i, new))
    (honly : ∀ k new, w.pending k = some (i, new) → k = u)
    (hphase : g i = .changed u (new.map TokenRow.accessToken)) :
    TokensFit reqs known (w.commit i)
      (update g i (.replaced u (new.map TokenRow.accessToken))) := by
  obtain ⟨old, hold, hpresented⟩ := h.own i u new _ hown hphase
  have hspends : ∀ {j x}, j ≠ i →
      Spends reqs (update g i (.replaced u (new.map TokenRow.accessToken))) j x →
        Spends reqs g j x := by
    rintro j x hj ⟨hpresented, k, n, hreplaced⟩
    rw [update_of_ne hj] at hreplaced
    exact ⟨hpresented, k, n, hreplaced⟩
  -- the token was in the table, so nobody has spent it before
  have hunspent : ∀ {j}, ¬ Spends reqs g j old.accessToken :=
    fun {j} hj => (h.spent j _ hj).2 (.committed u) old hold rfl
  refine ⟨?_, ?_, h.own_commit hown honly, ?_, ?_, ?_⟩
  · rw [rowAt_commit hown honly]
    exact h.apart.moveTo
  · rw [rowAt_commit hown honly]
    exact h.within.moveTo
  · intro j x hj
    rw [rowAt_commit hown honly]
    by_cases hji : j = i
    · subst hji
      obtain rfl : old.accessToken = x := Option.some.inj (hpresented.symm.trans hj.1)
      exact ⟨⟨old, h.within (.committed u) old hold, rfl⟩,
        h.apart.every_of_moveTo (by simp) hold⟩
    · obtain ⟨hknown, hnowhere⟩ := h.spent j x (hspends hji hj)
      exact ⟨hknown, hnowhere.moveTo⟩
  · intro j k x hj hk
    by_cases hji : j = i
    · by_cases hki : k = i
      · exact hji.trans hki.symm
      · subst hji
        obtain rfl : old.accessToken = x := Option.some.inj (hpresented.symm.trans hj.1)
        exact absurd (hspends hki hk) hunspent
    · by_cases hki : k = i
      · subst hki
        obtain rfl : old.accessToken = x := Option.some.inj (hpresented.symm.trans hk.1)
        exact absurd (hspends hji hj) hunspent
      · exact h.once j k x (hspends hji hj) (hspends hki hk)
  · intro j v x hissues
    rw [commit_tokens hown honly]
    by_cases hj : j = i
    · subst hj
      rw [update_self] at hissues
      rcases hissues with hcreated | hreplaced
      · cases hcreated
      · obtain ⟨rfl, hnew⟩ := SessionPhase.replaced.inj hreplaced
        obtain ⟨row', rfl, htoken⟩ := Option.map_eq_some_iff.1 hnew
        exact Or.inl ⟨row', update_self .., htoken⟩
    · rw [update_of_ne hj] at hissues
      rcases h.kept j v x hissues with ⟨row', hrow', rfl⟩ | ⟨k, n, hpresented', hk⟩
      · by_cases hv : v = u
        · subst hv
          rw [hold] at hrow'
          cases hrow'
          exact Or.inr ⟨i, _, hpresented, update_self ..⟩
        · exact Or.inl ⟨row', by rwa [update_of_ne hv], rfl⟩
      · have hki : k ≠ i := by
          rintro rfl
          rw [hphase] at hk
          cases hk
        exact Or.inr ⟨k, n, hpresented', by rwa [update_of_ne hki]⟩

theorem TokensFit.rollback (h : TokensFit reqs known w g) :
    TokensFit reqs known (w.rollback i) g :=
  h.restrict rfl (fun _ _ => rowAt_rollback)
    fun _ _ _ hpending => (SessionWorld.rollback_pending.1 hpending).2

theorem TokensFit.commit (h : TokensFit reqs known w g) (hcoupled : RowsCoupled w g)
    (hheld : ∀ u, (g i).Uncommitted u → ∃ new, w.pending u = some (i, new)) :
    TokensFit reqs known (w.commit i) (update g i (g i).commit) := by
  by_cases hopen : ∃ u, (g i).Uncommitted u
  · obtain ⟨u, hu⟩ := hopen
    obtain ⟨new, hown⟩ := hheld u hu
    have honly : ∀ k new, w.pending k = some (i, new) → k = u :=
      fun k new hpending => (hcoupled.uncommitted hpending).unique hu
    rcases hcoupled u i new hown with ⟨row, rfl, hphase, hnone⟩ | ⟨hphase, -⟩
    · rw [hphase]
      exact h.commit_inserted hown honly hphase hnone
    · rw [hphase]
      exact h.commit_changed hown honly hphase
  · have hno : ∀ u, ¬ (g i).Uncommitted u := fun u hu => hopen ⟨u, hu⟩
    have hown : ∀ k new, w.pending k ≠ some (i, new) := hcoupled.not_pending hno
    rw [SessionPhase.commit_eq_self hno, update_eq_self]
    refine h.restrict (funext fun k => SessionWorld.row_of_not_pending (hown k)) ?_ ?_
    · rw [rowAt_commit_of_not_pending hown]
      exact fun p row hrow => hrow
    · exact fun k j new hpending => (SessionWorld.commit_pending.1 hpending).2

theorem TokensFit.effect (h : TokensFit reqs known w g) (hcoupled : RowsCoupled w g)
    (hheld : ∀ u, (g i).Uncommitted u → ∃ new, w.pending u = some (i, new))
    (hfresh : ∀ row ∈ known, row.accessToken ≠ c.gen)
    (hfinds : ∀ u row, o = .updateToken u ∨ o = .deleteToken u →
      w.db.tokens u = some row → (reqs i).presented = some row.accessToken)
    (heffect : SessionEffect (reqs i) i c w (g i) o w' g') :
    TokensFit reqs (known ++ [c.row]) w' (update g i g') := by
  cases heffect with
  | stays =>
      rw [update_eq_self]
      exact h.mono (List.subset_append_left _ _)
  | reads hbefore hafter =>
      refine (h.mono (List.subset_append_left _ _)).update_phase hbefore.not_done
        hafter.not_done fun u new n hpending hphase => ?_
      exact absurd (Or.inr ⟨n, hphase⟩) (hafter.not_uncommitted u)
  | @inserts u hg hfree hrow hnew =>
      have hwrite : TokensFit reqs (known ++ [c.row]) (w.write i u (some c.row) hnew) g :=
        h.write hnew (by simp [hg]) hfresh fun row' hrow' => (Option.some.inj hrow').symm
      refine hwrite.update_phase (by simp [hg, SessionPhase.Done]) (by simp [SessionPhase.Done]) ?_
      intro k new n hpending hphase
      cases hphase
  | @changes o u old new ho hg hpresented hfree hrow hgen hnew =>
      have hread : (g i).Reading := by
        rw [hg]
        trivial
      rw [hcoupled.row_eq hread.not_uncommitted] at hrow
      have hwrite : TokensFit reqs (known ++ [c.row]) (w.write i u new hnew) g :=
        h.write hnew (by simp [hg]) hfresh hgen
      refine hwrite.update_phase hread.not_done (by simp [SessionPhase.Done]) ?_
      intro k new n hpending hphase
      cases hphase
      exact ⟨_, hrow, hfinds _ _ ho hrow⟩
  | commits =>
      exact (h.commit hcoupled hheld).mono (List.subset_append_left _ _)
  | rollsBack hbefore =>
      rw [update_eq_self]
      exact h.rollback.mono (List.subset_append_left _ _)

end Effects

section Runs

/-- The row that a step of the schedule can generate. -/
def stepRows : SessionLabel ι → List TokenRow
  | .op _ c => [c.row]
  | .env _ => []
  | .kill _ => []

def generatedRows (ls : List (SessionLabel ι)) : List TokenRow :=
  ls.flatMap stepRows

/-- The rows that the requests before the sessions have generated. -/
def rowsBefore (steps : List AuthStep) : List TokenRow :=
  steps.map fun step => ⟨step.gen, step.now + tokenLifetime⟩

/-- The request that runs its UPDATE or DELETE, and the user of the row. -/
def changing (s : SessionConfig ι) : SessionLabel ι → Option (ι × UserId)
  | .op i _ =>
      match (s.prog i).next? with
      | some (.updateToken u) => some (i, u)
      | some (.deleteToken u) => some (i, u)
      | _ => none
  | _ => none

/-- An UPDATE or DELETE finds the token that its request presented. -/
def FindsPresented (reqs : ι → SessionRequest) (s : SessionConfig ι) (l : SessionLabel ι) : Prop :=
  ∀ change ∈ changing s l, ∀ row ∈ s.world.db.tokens change.2,
    (reqs change.1).presented = some row.accessToken

instance (reqs : ι → SessionRequest) (s : SessionConfig ι) (l : SessionLabel ι) :
    Decidable (FindsPresented reqs s l) :=
  inferInstanceAs (Decidable (∀ change ∈ changing s l, ∀ row ∈ s.world.db.tokens change.2,
    (reqs change.1).presented = some row.accessToken))

/-- The tokens that have been sent to the client of the request. -/
def sent (s : SessionConfig ι) (i : ι) : List UUID :=
  (s.hist i).filterMap fun call =>
    match call.1 with
    | .respond (.token answer) => some answer.accessToken
    | _ => none

/--
A token that a login or a refresh has put into a row and sent is accepted until
its row expires, or until a request that presented it has replaced or deleted
the row; and no token is exchanged twice.
-/
structure SessionsKept (reqs : ι → SessionRequest) (rows : List TokenRow)
    (s : SessionConfig ι) : Prop where
  accepted : ∀ i u x, x ∈ sent s i → (phase s i).Issues u x →
    (∃ j new, (reqs j).presented = some x ∧ phase s j = .replaced u new) ∨
    ∃ row ∈ rows, row.accessToken = x ∧ ∀ t, t < row.validUntil →
      ∃ user, authorization 0 t (some x) s.world.db = .ok user ∧ user.id = u
  exchangedOnce : ∀ i j x u u' y y', (reqs i).presented = some x → (reqs j).presented = some x →
    phase s i = .replaced u (some y) → phase s j = .replaced u' (some y') → i = j

variable [DecidableEq ι] [PasswordLibraries]
variable {reqs : ι → SessionRequest} {known : List TokenRow} {s s' : SessionConfig ι}
variable {l : SessionLabel ι} {ls : List (SessionLabel ι)} {steps : List AuthStep}

/-- A state of a run in which every change finds the token that was presented. -/
structure ExchangeState (reqs : ι → SessionRequest) (known : List TokenRow)
    (s : SessionConfig ι) : Prop where
  orderly : Orderly reqs s
  fits : TokensFit reqs known s.world (phase s)

theorem ExchangeState.step (h : ExchangeState reqs known s)
    (hfresh : ((known ++ stepRows l).map TokenRow.accessToken).Nodup)
    (hfinds : FindsPresented reqs s l) (hstep : (sessionMachine ι).step s l = some s') :
    ExchangeState reqs (known ++ stepRows l) s' := by
  refine ⟨h.orderly.step hstep, ?_⟩
  rcases h.orderly.effect hstep with ⟨i, c, o, k, r, rfl, hp, heffect, -, hphase⟩ |
      ⟨i, rfl, hworld, -, hphase⟩
  · rw [hphase]
    refine h.fits.effect h.orderly.coupled (h.orderly.held i o k hp) ?_ ?_ heffect
    · intro row hrow heq
      rw [List.map_append] at hfresh
      exact hfresh.disjoint (List.mem_map_of_mem hrow) (by simp [stepRows, SessionChoice.row, heq])
    · intro u row ho hrow
      have hchanging : changing s (.op i c) = some (i, u) := by
        rcases ho with rfl | rfl <;> simp [changing, hp, Prog.next?]
      exact hfinds (i, u) hchanging row hrow
  · rw [hphase, hworld]
    exact h.fits.rollback.mono (List.subset_append_left _ _)

theorem exchangeState_of_run (h : ExchangeState reqs known s)
    (hfresh : ((known ++ generatedRows ls).map TokenRow.accessToken).Nodup)
    (hmeet : (sessionMachine ι).StepsMeet (FindsPresented reqs) s ls)
    (hrun : (sessionMachine ι).run s ls = some s') :
    ExchangeState reqs (known ++ generatedRows ls) s' := by
  induction ls generalizing s known with
  | nil =>
      cases hrun
      rwa [generatedRows, List.flatMap_nil, List.append_nil]
  | cons l ls ih =>
      obtain ⟨s₁, h₁, hrest⟩ := Machine.run_cons_eq_some.1 hrun
      have hsplit : known ++ generatedRows (l :: ls) =
          (known ++ stepRows l) ++ generatedRows ls := by
        simp [generatedRows]
      rw [hsplit] at hfresh ⊢
      refine ih (h.step ?_ hmeet.1 h₁) hfresh (hmeet.2 s₁ h₁) hrest
      rw [List.map_append] at hfresh
      exact hfresh.of_append_left

omit [DecidableEq ι] in
theorem exchangeState_start (reqs : ι → SessionRequest)
    (hfresh : ((rowsBefore steps).map TokenRow.accessToken).Nodup) :
    ExchangeState reqs (rowsBefore steps) (startSessions (runAuth .initial steps) reqs) := by
  have hgens : (steps.map AuthStep.gen).Nodup := by
    rwa [rowsBefore, List.map_map] at hfresh
  refine ⟨orderly_start _ _, ?_, ?_, ?_, ?_, ?_, ?_⟩
  · intro p q row row' hrow hrow' hsame
    cases p with
    | uncommitted u => cases hrow
    | committed u =>
        cases q with
        | uncommitted u' => cases hrow'
        | committed u' => exact congrArg _ (run_oneHolder hgens hrow hrow' hsame)
  · intro p row hrow
    cases p with
    | uncommitted u => cases hrow
    | committed u =>
        obtain ⟨pre, step, post, hgen, hvalid, -⟩ := run_token_iff.1 hrow
        refine List.mem_map.2 ⟨step, by rw [hgen.split]; simp, ?_⟩
        rw [hgen.token, ← hvalid]
  · intro i u new n hpending
    cases hpending
  · rintro i x ⟨-, u, new, hphase⟩
    cases hphase
  · rintro i j x ⟨-, u, new, hphase⟩
    cases hphase
  · rintro i u x (hphase | hphase)
    · cases hphase
    · cases hphase

omit [DecidableEq ι] in
/-- No two users hold one token. -/
theorem ExchangeState.oneHolder (h : ExchangeState reqs known s) :
    s.world.db.OneHolder := by
  intro u u' row row' hrow hrow' hsame
  exact TokenPlace.committed.inj (h.fits.apart (.committed u) (.committed u') row row'
    hrow hrow' hsame)

/--
In every run of logins, refreshes and logouts in which every UPDATE and DELETE
finds the token that its request presented, sessions are ended only through
themselves, and no token is exchanged twice.
-/
theorem sessions_kept (steps : List AuthStep) (reqs : ι → SessionRequest)
    (ls : List (SessionLabel ι)) (s : SessionConfig ι)
    (hfresh : ((rowsBefore steps ++ generatedRows ls).map TokenRow.accessToken).Nodup)
    (hmeet : (sessionMachine ι).StepsMeet (FindsPresented reqs)
      (startSessions (runAuth .initial steps) reqs) ls)
    (hrun : (sessionMachine ι).run (startSessions (runAuth .initial steps) reqs) ls = some s) :
    SessionsKept reqs (rowsBefore steps ++ generatedRows ls) s := by
  have hbefore : ((rowsBefore steps).map TokenRow.accessToken).Nodup := by
    rw [List.map_append] at hfresh
    exact hfresh.of_append_left
  have hs := exchangeState_of_run (exchangeState_start reqs hbefore) hfresh hmeet hrun
  constructor
  · intro i u x _ hissues
    rcases hs.fits.kept i u x hissues with ⟨row, hrow, htoken⟩ | hended
    · right
      refine ⟨row, hs.fits.within (.committed u) row hrow, htoken, fun t ht => ?_⟩
      obtain ⟨user, huser, hid⟩ := (getUserByToken_iff hs.oneHolder).2 ⟨row, hrow, htoken, ht⟩
      exact ⟨user, authorization_ok_iff.2 huser, hid⟩
    · exact Or.inl hended
  · intro i j x u u' y y' hi hj hphase hphase'
    exact hs.fits.once i j x ⟨hi, u, _, hphase⟩ ⟨hj, u', _, hphase'⟩

end Runs

section Samples

/-- Two requests step by step; a UUID, and a time, for each step. -/
def exchangeTurns (order : List Bool) : List (SessionLabel Bool) :=
  order.zipIdx.map fun turn => .op turn.1 { now := turn.2, gen := turn.2 + 10 }

/-- The first request presents the token of the login, the second what it is exchanged for. -/
def refreshChain (i : Bool) : SessionRequest :=
  .refresh (some (if i then 12 else 2))

/-- Both requests present the token of the login. -/
def refreshTwice (_ : Bool) : SessionRequest :=
  .refresh (some 2)

/-- One refresh after the other. -/
def refreshesInTurn : List (SessionLabel Bool) :=
  exchangeTurns (List.replicate 8 false ++ List.replicate 8 true)

/-- Both tokens are resolved before either is exchanged. -/
def refreshesAtOnce : List (SessionLabel Bool) :=
  exchangeTurns ([false, false, true, true] ++ List.replicate 6 false ++ List.replicate 6 true)

/-- Each refresh exchanges the token that it has presented. -/
theorem sessions_kept_inTurn :
    letI := samplePasswords
    ∃ s, (sessionMachine Bool).run (startSessions (runAuth .initial firstLogin) refreshChain)
        refreshesInTurn = some s ∧
      sent s false = [12] ∧ sent s true = [20] ∧
      SessionsKept refreshChain (rowsBefore firstLogin ++ generatedRows refreshesInTurn) s := by
  let := samplePasswords
  have hrun : ((sessionMachine Bool).run (startSessions (runAuth .initial firstLogin) refreshChain)
      refreshesInTurn).map (fun s => (sent s false, sent s true)) = some ([12], [20]) := by
    rfl
  have hmeet : (sessionMachine Bool).StepsMeet (FindsPresented refreshChain)
      (startSessions (runAuth .initial firstLogin) refreshChain) refreshesInTurn := by
    decide
  obtain ⟨s, hs, hsent⟩ := Option.map_eq_some_iff.1 hrun
  obtain ⟨hfirst, hsecond⟩ := Prod.mk.inj hsent
  exact ⟨s, hs, hfirst, hsecond,
    sessions_kept firstLogin refreshChain refreshesInTurn s (by decide) hmeet hs⟩

/-- The token sent to the first client is not accepted, and nobody has presented it. -/
theorem refreshesAtOnce_replace :
    letI := samplePasswords
    ∃ s, (sessionMachine Bool).run (startSessions (runAuth .initial firstLogin) refreshTwice)
        refreshesAtOnce = some s ∧
      ((rowsBefore firstLogin ++ generatedRows refreshesAtOnce).map TokenRow.accessToken).Nodup ∧
      sent s false = [14] ∧ sent s true = [20] ∧
      authorization 0 16 (some 14) s.world.db = .error (.httpException 401) ∧
      ¬ SessionsKept refreshTwice (rowsBefore firstLogin ++ generatedRows refreshesAtOnce) s := by
  let := samplePasswords
  have hrun : ((sessionMachine Bool).run (startSessions (runAuth .initial firstLogin) refreshTwice)
      refreshesAtOnce).map (fun s => (sent s false, sent s true,
        authorization 0 16 (some 14) s.world.db, phase s false, phase s true)) =
      some ([14], [20], .error (.httpException 401), .replaced 1 (some 14),
        .replaced 1 (some 20)) := by
    rfl
  obtain ⟨s, hs, hfinal⟩ := Option.map_eq_some_iff.1 hrun
  simp only [Prod.mk.injEq] at hfinal
  obtain ⟨hfirst, hsecond, hrejected, hphase, hphase'⟩ := hfinal
  refine ⟨s, hs, by decide, hfirst, hsecond, hrejected, fun hkept => ?_⟩
  have hsame := hkept.exchangedOnce false true 2 1 1 14 20 rfl rfl hphase hphase'
  cases hsame

end Samples

end TokenExchange

end SmartHttpRequester
