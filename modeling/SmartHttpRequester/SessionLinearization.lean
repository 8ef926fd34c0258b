import SmartHttpRequester.Foundations.Linearization
import SmartHttpRequester.SessionMoments

/-!
# Sessions are linearizable

The interleaved sessions refine the requests of `AuthRequests`: a run is a sequence of
events, each at one step of the request it belongs to (`sessions_linearize`).

So what is known of sequences of requests holds of interleaved ones.
`accepted_iff_generated` says which tokens are accepted after an interleaved run.
-/

namespace SmartHttpRequester

open Foundations Function

section SessionLinearization

variable [PasswordLibraries]

section Runs

variable {ι : Type} [DecidableEq ι] {P : ι → SessionChoice → Prop} {req : SessionRequest}
variable {reqs : ι → SessionRequest} {db : AuthDb} {s s' : SessionConfig ι} {l : SessionLabel ι}
variable {ls : List (SessionLabel ι)} {es : List (ι × SessionEvent)}

/-- The story of a request, from its calls. -/
def sessionStory (req : SessionRequest) (hist : List (SessionOp × SessionReply)) : SessionStory :=
  (sessionStoryMonitor req).after {} hist

theorem sessionStory_snoc (req : SessionRequest) (hist : List (SessionOp × SessionReply))
    (o : SessionOp) (r : SessionReply) :
    sessionStory req (hist ++ [(o, r)]) = (sessionStory req hist).next req o r :=
  Prog.Monitor.after_snoc ..

theorem sessionStory_phase (req : SessionRequest) (hist : List (SessionOp × SessionReply)) :
    (sessionStory req hist).phase = hist.foldl (fun g e => g.next e.1 e.2) .idle := by
  induction hist using List.reverseRecOn with
  | nil =>
      rfl
  | append_singleton hist e ih =>
      obtain ⟨o, r⟩ := e
      rw [sessionStory_snoc, List.foldl_append, ← ih]
      rfl

/-- From where its program stands, a request can still come to a conclusion. -/
theorem mayConclude_of_wp {p : SessionProg SessionResponse} {g : SessionStory}
    (h : p.wp (sessionStoryMonitor req) (fun r g => req.Concludes g.acts r) g) :
    req.MayConclude g.acts := by
  have hreply : ∀ o : SessionOp, ∃ r, (sessionStoryMonitor req).expects o r := by
    intro o
    refine ⟨.ok {}, Or.inr ⟨{}, rfl⟩, fun userId e _ herror => ?_⟩
    cases herror
  have hnext : ∀ (g : SessionStory) o r, g.acts <+: (g.next req o r).acts :=
    fun g o r => List.prefix_append ..
  obtain ⟨response, g', ⟨rest, hrest⟩, hconcludes⟩ :=
    @Prog.exists_end_of_wp _ _ _ _ _ (sessionStoryMonitor req)
      (fun a b : SessionStory => a.acts <+: b.acts) (fun g => List.prefix_refl g.acts)
      (fun hab hbc => List.IsPrefix.trans hab hbc) hreply hnext _ _ _ h
  exact ⟨rest, response, hrest ▸ hconcludes⟩

theorem sessionMachine_refuses (reqs : ι → SessionRequest) :
    (sessionMachine ι).Meets fun i => sessionStoryMonitor (reqs i) := by
  intro i c o w r w' h
  refine ⟨sessionMachine_meets reqs i c o w r w' h, ?_⟩
  rintro userId e rfl rfl
  have hinsert : insertTokenRow i userId _ w = some (.error e, w') := h
  unfold insertTokenRow at hinsert
  split at hinsert
  · cases hinsert
  · split at hinsert
    · cases hinsert
      exact ⟨true, rfl⟩
    · split at hinsert
      · cases hinsert
      · cases hinsert
        exact ⟨false, rfl⟩

/-- The tables of a run are those after what its requests have done. -/
structure SessionsTold (P : ι → SessionChoice → Prop) (db : AuthDb) (reqs : ι → SessionRequest)
    (s : SessionConfig ι) (es : List (ι × SessionEvent)) : Prop where
  orderly : Orderly reqs s
  telling : Monitored (fun i => sessionStoryMonitor (reqs i)) (fun _ => {})
    (fun i r g => (reqs i).Concludes g.acts r) .unknownException s
  verified : ∀ i, (phase s i).Verified (reqs i) s.world.db
  written : ∀ u i row, s.world.pending u = some (i, some row) →
    ∃ c, P i c ∧ row = ⟨c.gen, c.now + tokenLifetime⟩
  tables :
    ActionRun (fun i (e : SessionEvent) before after => e.Happens (reqs i).presented before after)
      db es s.world.db
  acts : ∀ i, (actionsOf i es).map SessionEvent.act = (sessionStory (reqs i) (s.hist i)).acts
  may : ∀ i, (reqs i).MayConclude (sessionStory (reqs i) (s.hist i)).acts
  taken : ∀ p ∈ es, ∃ c, P p.1 c ∧ p.2.now = c.now ∧ p.2.gen = c.gen

theorem startSessions_told (P : ι → SessionChoice → Prop) (db : AuthDb)
    (reqs : ι → SessionRequest) : SessionsTold P db reqs (startSessions db reqs) [] where
  orderly := orderly_start db reqs
  telling := Monitored.start fun i => (reqs i).concludes
  verified i := trivial
  written u i row h := by cases h
  tables := .nil
  acts i := rfl
  may i := mayConclude_of_wp (reqs i).concludes
  taken p hp := by cases hp

/-- A call is written down together with what it does. -/
theorem SessionsTold.acts_call (h : SessionsTold P db reqs s es) {i : ι} {o : SessionOp}
    {r : SessionReply} {after : AuthDb}
    (hmoment : Moment (P i) (reqs i).presented ((reqs i).does (phase s i) o r) s.world.db after) :
    ∃ e : Option (ι × SessionEvent),
      (∀ p, e = some p → p.1 = i) ∧
      ActionRun
        (fun i (e : SessionEvent) before after => e.Happens (reqs i).presented before after)
        db (es ++ e.toList) after ∧
      (∀ j, (actionsOf j (es ++ e.toList)).map SessionEvent.act =
        (sessionStory (reqs j) (update s.hist i (s.hist i ++ [(o, r)]) j)).acts) ∧
      ∀ p ∈ es ++ e.toList, ∃ c, P p.1 c ∧ p.2.now = c.now ∧ p.2.gen = c.gen := by
  have hstory : (sessionStory (reqs i) (s.hist i ++ [(o, r)])).acts =
      (sessionStory (reqs i) (s.hist i)).acts ++ ((reqs i).does (phase s i) o r).toList := by
    rw [sessionStory_snoc, SessionStory.next, sessionStory_phase]
    rfl
  obtain ⟨hnone, hsame⟩ | ⟨e, hdoes, hhappens, htaken⟩ := hmoment
  · refine ⟨none, by simp, ?_, fun j => ?_, ?_⟩
    · rw [Option.toList_none, List.append_nil, hsame]
      exact h.tables
    · rw [Option.toList_none, List.append_nil, h.acts j]
      by_cases hj : j = i
      · subst hj
        rw [update_self, hstory, hnone, Option.toList_none, List.append_nil]
      · rw [update_of_ne hj]
    · rw [Option.toList_none, List.append_nil]
      exact h.taken
  · refine ⟨some (i, e), fun p hp => by cases hp; rfl, .snoc h.tables hhappens, fun j => ?_, ?_⟩
    · rw [Option.toList_some]
      by_cases hj : j = i
      · subst hj
        rw [update_self, hstory, hdoes, actionsOf_snoc_self, List.map_append, h.acts j]
        rfl
      · rw [update_of_ne hj, actionsOf_snoc_of_ne (Ne.symm hj), h.acts j]
    · intro p hp
      rcases List.mem_append.1 hp with hold | hnew
      · exact h.taken p hold
      · cases List.mem_singleton.1 hnew
        exact htaken

theorem SessionsTold.step (h : SessionsTold P db reqs s es) (hP : ∀ i c, l = .op i c → P i c)
    (hstep : (sessionMachine ι).step s l = some s') :
    ∃ e : Option (ι × SessionEvent),
      (∀ p, e = some p → l.actor = some p.1) ∧ SessionsTold P db reqs s' (es ++ e.toList) := by
  have horderly := h.orderly.step hstep
  have htelling := Monitored.step (sessionMachine_refuses reqs) h.telling hstep
  obtain ⟨i, c, o, k, r, w, rfl, hp, hexec, rfl⟩ | ⟨a, -⟩ | ⟨i, o, k, rfl, hp, rfl⟩ :=
    Machine.step_cases hstep
  · have hcall : sessionCall i c o s.world = some (r, w) := hexec
    have hallows : (reqs i).Allows (phase s i) o := h.orderly.keeps.allows hp
    have heffect : SessionEffect (reqs i) i c s.world (phase s i) o w ((phase s i).next o r) :=
      sessionCall_effect hallows hcall
    have hmoment := moment_of_call hallows h.orderly.coupled (h.orderly.held i o k hp)
      (h.verified i) (fun k row hrow => h.written k i row hrow) (hP i c rfl) hcall
    obtain ⟨e, hby, htables, hacts, htaken⟩ := h.acts_call hmoment
    refine ⟨e, fun p hp => congrArg some (hby p hp).symm, horderly, htelling, fun j => ?_, ?_,
      htables, hacts, fun j => ?_, htaken⟩
    · have husers : s.world.db.users = w.db.users := heffect.users_eq.symm
      by_cases hj : j = i
      · subst hj
        have hnext := (SessionPhase.Verified.call (h.verified j) hallows hcall).congr husers
        simpa [phase, List.foldl_append] using hnext
      · simpa [phase, hj] using (h.verified j).congr husers
    · intro u j row hpending
      exact heffect.written (P := P) (hP i c rfl) h.written hpending
    · by_cases hj : j = i
      · subst hj
        have hrest := Monitored.after_call (sessionMachine_refuses reqs) h.telling hp hexec
        simpa [sessionStory] using mayConclude_of_wp hrest
      · simpa [hj] using h.may j
  · exact a.elim
  · refine ⟨none, by simp, ?_⟩
    rw [Option.toList_none, List.append_nil]
    exact ⟨horderly, htelling, h.verified, fun u j row hpending =>
      h.written u j row (SessionWorld.rollback_pending.1 hpending).2, h.tables, h.acts, h.may,
      h.taken⟩

/-- A run is a sequence of events, each at one step of the request it belongs to. -/
theorem sessions_told_of_run
    (hrun : (sessionMachine ι).run (startSessions db reqs) ls = some s) :
    ∃ entries : List (Option (ι × SessionEvent)),
      List.Forall₂ (fun l e => ∀ p, e = some p → l.actor = some p.1) ls entries ∧
      SessionsTold (fun i c => .op i c ∈ ls) db reqs s entries.reduceOption := by
  obtain ⟨entries, hentries, hplaces⟩ :=
    @exists_entries _ _ ι SessionEvent _ (fun l i => l.actor = some i) (· ∈ ls)
      (SessionsTold (fun i c => .op i c ∈ ls) db reqs)
      (fun hl h hstep => h.step (fun _ _ hop => hop ▸ hl) hstep) _ _ [] ls (fun _ hl => hl)
      (startSessions_told _ db reqs) (Machine.run_eq.symm.trans hrun)
  refine ⟨entries, hentries, ?_⟩
  rw [← actionsUpTo_length hentries]
  exact hplaces ls [] s (List.append_nil ls).symm (Machine.run_eq.symm.trans hrun)

theorem SessionsTold.mayConclude (h : SessionsTold P db reqs s es) (i : ι) :
    (reqs i).MayConclude ((actionsOf i es).map SessionEvent.act) :=
  h.acts i ▸ h.may i

/-- A request that has ended without being abandoned has done what its answer says. -/
theorem SessionsTold.concludes (h : SessionsTold P db reqs s es) {i : ι}
    {response : Except AuthExc SessionResponse} (hend : (s.prog i).outcome? = some response) :
    response = .error .unknownException ∨
      (reqs i).Concludes ((actionsOf i es).map SessionEvent.act) response :=
  h.acts i ▸ h.telling.outcome hend

/--
Sessions are linearizable.  The steps of a run are those of a sequence of events on
the committed tables: each is at one step of the request it belongs to, and takes its
time and its UUID from a statement of the request.  What a request has done is a
beginning of what it does, and what its answer says once it has ended.
-/
theorem sessions_linearize
    (hrun : (sessionMachine ι).run (startSessions db reqs) ls = some s) :
    ∃ entries : List (Option (ι × SessionEvent)),
      List.Forall₂ (fun l e => ∀ p, e = some p → l.actor = some p.1) ls entries ∧
      ActionRun
        (fun i (e : SessionEvent) before after => e.Happens (reqs i).presented before after)
        db entries.reduceOption s.world.db ∧
      (∀ p ∈ entries.reduceOption, ∃ c, .op p.1 c ∈ ls ∧ p.2.now = c.now ∧ p.2.gen = c.gen) ∧
      (∀ i, (reqs i).MayConclude ((actionsOf i entries.reduceOption).map SessionEvent.act)) ∧
      ∀ i response, (s.prog i).outcome? = some response →
        response = .error .unknownException ∨
        (reqs i).Concludes ((actionsOf i entries.reduceOption).map SessionEvent.act) response := by
  obtain ⟨entries, hentries, htold⟩ := sessions_told_of_run hrun
  exact ⟨entries, hentries, htold.tables, htold.taken, htold.mayConclude,
    fun i response hend => htold.concludes hend⟩

omit [PasswordLibraries] [DecidableEq ι] in
/-- A refresh that answers a token has had its own resolved, and has been performed. -/
theorem SessionRequest.Concludes.of_refresh {presented : Option UUID} {acts : List SessionAct}
    {token : AccessTokenResponse}
    (h : (SessionRequest.refresh presented).Concludes acts (.ok (.token token))) :
    ∃ user : User,
      acts = [.authorized (.ok user), .performed (.refresh user.id) (.ok (.token token))] := by
  cases h with
  | authorized hpresented hrequest hanswer =>
      cases hrequest
      cases hanswer
      exact ⟨_, rfl⟩
  | login hlogin hanswer => cases hlogin

omit [PasswordLibraries] in
/-- Two refreshes that both have the one token resolved first: one follows the other. -/
theorem sessions_linearize_refreshes :
    letI := samplePasswords
    ∃ (s : SessionConfig Bool) (entries : List (Option (Bool × SessionEvent))),
      (sessionMachine Bool).run (startSessions (runAuth .initial firstLogin) refreshTwice)
        refreshesAtOnce = some s ∧
      ActionRun
        (fun i (e : SessionEvent) before after =>
          e.Happens (refreshTwice i).presented before after)
        (runAuth .initial firstLogin) entries.reduceOption s.world.db ∧
      ∀ i, ∃ (user : User) (token : AccessTokenResponse),
        (actionsOf i entries.reduceOption).map SessionEvent.act =
          [.authorized (.ok user), .performed (.refresh user.id) (.ok (.token token))] := by
  let := samplePasswords
  have hrun : ((sessionMachine Bool).run (startSessions (runAuth .initial firstLogin) refreshTwice)
      refreshesAtOnce).map (fun s => ((s.prog false).outcome?, (s.prog true).outcome?)) =
      some (some (.ok (.token { accessToken := 14 })),
        some (.ok (.token { accessToken := 20 }))) := by
    rfl
  obtain ⟨s, hs, hends⟩ := Option.map_eq_some_iff.1 hrun
  obtain ⟨hfirst, hsecond⟩ := Prod.mk.inj hends
  obtain ⟨entries, -, htables, -, -, hconcludes⟩ := sessions_linearize hs
  refine ⟨s, entries, hs, htables, fun i => ?_⟩
  have hend : ∃ token, (s.prog i).outcome? = some (.ok (.token token)) := by
    cases i with
    | false => exact ⟨_, hfirst⟩
    | true => exact ⟨_, hsecond⟩
  obtain ⟨token, hend⟩ := hend
  rcases hconcludes i _ hend with hkilled | hdone
  · cases hkilled
  · obtain ⟨user, hacts⟩ := SessionRequest.Concludes.of_refresh hdone
    exact ⟨user, token, hacts⟩

end Runs

section Acceptance

variable {ι : Type} {reqs : ι → SessionRequest} {req : SessionRequest} {db db' : AuthDb}
variable {es : List (ι × SessionEvent)} {acts : List SessionAct}
variable {ls : List (SessionLabel ι)} {before : List AuthStep} {s : SessionConfig ι}

omit [PasswordLibraries] in
/-- The event as a step of `AuthRequests`, if it is one. -/
def SessionEvent.step? (e : SessionEvent) : Option AuthStep :=
  match e.act with
  | .authorized _ => none
  | .performed request _ => some ⟨request, e.now, e.gen, 0⟩

/-- The steps of `AuthRequests` in a sequence of events. -/
def authSteps (es : List (ι × SessionEvent)) : List AuthStep :=
  es.filterMap fun p => p.2.step?

/-- On the tables, a sequence of events is a run of `AuthRequests`. -/
theorem runAuth_of_actionRun
    (h : ActionRun
      (fun i (e : SessionEvent) before after => e.Happens (reqs i).presented before after)
      db es db') :
    runAuth db (authSteps es) = db' := by
  induction h with
  | nil => rfl
  | @snoc t₁ t₂ es i e h ha ih =>
      obtain ⟨act, now, gen⟩ := e
      rw [authSteps, List.filterMap_append]
      cases act with
      | authorized reply =>
          obtain ⟨-, rfl⟩ := ha
          simpa [SessionEvent.step?, authSteps] using ih
      | performed request reply =>
          have hperform : AuthStep.perform ⟨request, now, gen, 0⟩ t₁ = (reply, t₂) := ha
          have hlast : runAuth db (authSteps es ++ [⟨request, now, gen, 0⟩]) = t₂ := by
            rw [runAuth, stateAfter_snoc]
            have ih : stateAfter (fun db step => (AuthStep.perform step db).2) db (authSteps es) =
                t₁ := ih
            rw [ih, hperform]
          exact hlast

omit [PasswordLibraries] in
/-- No request performs two steps. -/
theorem SessionRequest.Concludes.not_twice {response : Except AuthExc SessionResponse}
    (h : req.Concludes acts response) {a a' : AuthRequest}
    {reply reply' : Except AuthExc AuthReply} :
    ¬ List.Sublist [.performed a reply, .performed a' reply'] acts := by
  intro htwo
  have hlength := htwo.length_le
  cases h with
  | unreadable hlogin hpresented => simp at hlength
  | unauthorized hpresented => simp at hlength
  | authorized hpresented hrequest hanswer => cases htwo.eq_of_length rfl
  | login hlogin hanswer => simp at hlength
  | outrun hlogin => simp at hlength

omit [PasswordLibraries] in
theorem SessionEvent.of_step? {e : SessionEvent} {step : AuthStep} (h : e.step? = some step) :
    step.gen = e.gen ∧ ∃ request reply, e.act = .performed request reply := by
  obtain ⟨act, now, gen⟩ := e
  cases act with
  | authorized reply => cases h
  | performed request reply =>
      cases h
      exact ⟨rfl, request, reply, rfl⟩

omit [PasswordLibraries] in
/-- Calls of different requests have different UUIDs. -/
theorem gen_ne_of_mem (hfresh : ((generatedRows ls).map TokenRow.accessToken).Nodup) {i j : ι}
    {c c' : SessionChoice} (hij : i ≠ j) (hi : .op i c ∈ ls) (hj : .op j c' ∈ ls) :
    c.gen ≠ c'.gen := by
  rw [generatedRows, List.map_flatMap, List.nodup_flatMap] at hfresh
  have hne : (.op i c : SessionLabel ι) ≠ .op j c' := by
    intro heq
    cases heq
    exact hij rfl
  have hsymm : Std.Symm
      (List.Disjoint on fun l : SessionLabel ι => (stepRows l).map TokenRow.accessToken) :=
    ⟨fun _ _ h => h.symm⟩
  have hdisjoint := hfresh.2.forall hi hj hne
  intro hgen
  exact hdisjoint (a := c.gen) (by simp [stepRows, SessionChoice.row])
    (by simp [stepRows, SessionChoice.row, hgen])

omit [PasswordLibraries] in
/-- The steps that the requests perform have different UUIDs, for none performs two. -/
theorem authSteps_fresh [DecidableEq ι]
    (htaken : ∀ p ∈ es, ∃ c, .op p.1 c ∈ ls ∧ p.2.now = c.now ∧ p.2.gen = c.gen)
    (hmay : ∀ i, (reqs i).MayConclude ((actionsOf i es).map SessionEvent.act))
    (hfresh : ((generatedRows ls).map TokenRow.accessToken).Nodup) :
    ((authSteps es).map AuthStep.gen).Nodup := by
  rw [authSteps, List.Nodup, List.pairwise_map, List.pairwise_filterMap,
    List.pairwise_iff_forall_sublist]
  intro p q hsub a ha b hb
  obtain ⟨hgen, request, reply, hact⟩ := SessionEvent.of_step? ha
  obtain ⟨hgen', request', reply', hact'⟩ := SessionEvent.of_step? hb
  have hne : p.1 ≠ q.1 := by
    -- else one request would have performed both
    intro heq
    obtain ⟨rest, response, hconcludes⟩ := hmay p.1
    have hboth : List.Sublist [.performed request reply, .performed request' reply']
        ((actionsOf p.1 es).map SessionEvent.act) := by
      have hacts := (hsub.filterMap fun e => if e.1 = p.1 then some e.2 else none).map
        SessionEvent.act
      simpa [heq, hact, hact', actionsOf] using hacts
    exact hconcludes.not_twice (hboth.trans (List.sublist_append_left _ rest))
  obtain ⟨c, hc, -, hcgen⟩ := htaken p (hsub.subset (by simp))
  obtain ⟨c', hc', -, hcgen'⟩ := htaken q (hsub.subset (by simp))
  rw [hgen, hgen', hcgen, hcgen']
  exact gen_ne_of_mem hfresh hne hc hc'

/--
After an interleaved run a token is accepted as a user exactly if a login or a refresh
has generated it for the user, it is younger than its lifetime, and no refresh or
logout of the user comes after it in the order in which the requests took effect, which
is that of the steps of the run at which they did.
-/
theorem accepted_iff_generated [DecidableEq ι]
    (hfresh : ((rowsBefore before ++ generatedRows ls).map TokenRow.accessToken).Nodup)
    (hrun : (sessionMachine ι).run (startSessions (runAuth .initial before) reqs) ls = some s) :
    ∃ entries : List (Option (ι × SessionEvent)),
      List.Forall₂ (fun l e => ∀ p, e = some p → l.actor = some p.1) ls entries ∧
      ActionRun
        (fun i (e : SessionEvent) before after => e.Happens (reqs i).presented before after)
        (runAuth .initial before) entries.reduceOption s.world.db ∧
      (∀ p ∈ entries.reduceOption, ∃ c, .op p.1 c ∈ ls ∧ p.2.now = c.now ∧ p.2.gen = c.gen) ∧
      (∀ i, (reqs i).MayConclude ((actionsOf i entries.reduceOption).map SessionEvent.act)) ∧
      (∀ i response, (s.prog i).outcome? = some response →
        response = .error .unknownException ∨
        (reqs i).Concludes ((actionsOf i entries.reduceOption).map SessionEvent.act) response) ∧
      ∀ t x u,
        (∃ user, authorization 0 t (some x) s.world.db = .ok user ∧ user.id = u) ↔
        ∃ pre step post,
          Generation (before ++ authSteps entries.reduceOption) x u pre step post ∧
          t < step.now + tokenLifetime ∧
          ∀ later ∈ post, ¬ Ends later u := by
  obtain ⟨entries, hentries, htold⟩ := sessions_told_of_run hrun
  have hdb : runAuth .initial (before ++ authSteps entries.reduceOption) = s.world.db := by
    have happend : runAuth .initial (before ++ authSteps entries.reduceOption) =
        runAuth (runAuth .initial before) (authSteps entries.reduceOption) :=
      List.foldl_append
    rw [happend]
    exact runAuth_of_actionRun htold.tables
  have hgens : ((before ++ authSteps entries.reduceOption).map AuthStep.gen).Nodup := by
    rw [List.map_append, rowsBefore, List.map_map] at hfresh
    rw [List.map_append]
    refine List.Nodup.append hfresh.of_append_left
      (authSteps_fresh htold.taken htold.mayConclude hfresh.of_append_right) fun x hold hnew => ?_
    obtain ⟨step, hstep, rfl⟩ := List.mem_map.1 hnew
    obtain ⟨p, hp, hevent⟩ := List.mem_filterMap.1 hstep
    obtain ⟨c, hc, -, hgen⟩ := htold.taken p hp
    refine hfresh.disjoint hold (List.mem_map.2 ⟨c.row, ?_, ?_⟩)
    · exact List.mem_flatMap.2 ⟨_, hc, List.mem_singleton_self _⟩
    · rw [(SessionEvent.of_step? hevent).1, hgen]
      rfl
  refine ⟨entries, hentries, htold.tables, htold.taken, htold.mayConclude,
    fun i response hend => htold.concludes hend, fun t x u => ?_⟩
  rw [← hdb]
  exact accepts_iff hgens

omit [PasswordLibraries] in
/-- Of the tokens of two refreshes at once, the one that is accepted has been generated. -/
theorem accepted_iff_generated_refreshes :
    letI := samplePasswords
    ∃ (s : SessionConfig Bool) (entries : List (Option (Bool × SessionEvent))),
      (sessionMachine Bool).run (startSessions (runAuth .initial firstLogin) refreshTwice)
        refreshesAtOnce = some s ∧
      List.Forall₂ (fun l e => ∀ p, e = some p → l.actor = some p.1) refreshesAtOnce entries ∧
      ActionRun
        (fun i (e : SessionEvent) before after =>
          e.Happens (refreshTwice i).presented before after)
        (runAuth .initial firstLogin) entries.reduceOption s.world.db ∧
      ∃ pre step post,
        Generation (firstLogin ++ authSteps entries.reduceOption) 20 1 pre step post ∧
        ∀ later ∈ post, ¬ Ends later 1 := by
  let := samplePasswords
  have hrun : ((sessionMachine Bool).run (startSessions (runAuth .initial firstLogin) refreshTwice)
      refreshesAtOnce).map (fun s => authorization 0 21 (some 20) s.world.db) =
      some (.ok ⟨1, "user", some 31⟩) := by
    rfl
  obtain ⟨s, hs, haccepted⟩ := Option.map_eq_some_iff.1 hrun
  have hfresh : ((rowsBefore firstLogin ++ generatedRows refreshesAtOnce).map
      TokenRow.accessToken).Nodup := by
    decide
  obtain ⟨entries, hentries, htables, -, -, -, hiff⟩ := accepted_iff_generated hfresh hs
  obtain ⟨pre, step, post, hgeneration, -, hkept⟩ := (hiff 21 20 1).1 ⟨_, haccepted, rfl⟩
  exact ⟨s, entries, hs, hentries, htables, pre, step, post, hgeneration, hkept⟩

end Acceptance

end SessionLinearization

end SmartHttpRequester
