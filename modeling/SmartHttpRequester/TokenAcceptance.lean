import SmartHttpRequester.TokenRows

/-!
# Which tokens are accepted

The row of a user at the end of a run is the one generated for the user last,
unless a refresh or a logout has come since (`run_token_iff`).  When no UUID is
generated twice, this says exactly which tokens `authorization` accepts, and as
whom (`token_acceptance`); in particular one token is never accepted as two
users, and not again once it has been replaced or deleted.
-/

namespace SmartHttpRequester

open Foundations

section TokenAcceptance

variable [PasswordLibraries]

/-- The token is generated for the user by the step between the two parts of the run. -/
structure Generation (steps : List AuthStep) (x : UUID) (u : UserId)
    (pre : List AuthStep) (step : AuthStep) (post : List AuthStep) : Prop where
  split : steps = pre ++ step :: post
  generates : Generates step (runAuth .initial pre) u
  token : step.gen = x

/-- After the steps, `authorization()` accepts the token at the time as the user. -/
def Accepts (steps : List AuthStep) (t : Timestamp) (x : UUID) (u : UserId) : Prop :=
  ∃ user, authorization 0 t (some x) (runAuth .initial steps) = .ok user ∧ user.id = u

/-- Exact acceptance in a run, and what follows for any two points of it. -/
structure ExactAcceptance (steps : List AuthStep) : Prop where
  accepts_iff : ∀ t x u, Accepts steps t x u ↔
    ∃ pre step post,
      Generation steps x u pre step post ∧
      t < step.now + tokenLifetime ∧
      ∀ later ∈ post, ¬ Ends later u
  oneUser : ∀ pre pre' t t' x u u', pre <+: steps → pre' <+: steps →
    Accepts pre t x u → Accepts pre' t' x u' → u = u'
  revoked : ∀ pre step post u row, steps = pre ++ step :: post →
    Ends step u → (runAuth .initial pre).tokens u = some row →
    ∀ mid, mid <+: post → ∀ t u', ¬ Accepts (pre ++ step :: mid) t row.accessToken u'

variable {steps pre pre' post post' more : List AuthStep} {step step' : AuthStep}
variable {t t' : Timestamp} {x : UUID} {u u' : UserId} {row : TokenRow}

/-- A row is the one generated last for its user, with nothing that ends it since. -/
theorem run_token_iff :
    (runAuth .initial steps).tokens u = some row ↔
      ∃ pre step post,
        Generation steps row.accessToken u pre step post ∧
        row.validUntil = step.now + tokenLifetime ∧
        ∀ later ∈ post, ¬ Ends later u := by
  have hset :
      (runAuth .initial steps).tokens u = some row ↔
        SetSince (fun db step => (AuthStep.perform step db).2)
          (fun db step => Generates step db u ∧ row = ⟨step.gen, step.now + tokenLifetime⟩)
          (fun _ step => Ends step u) .initial steps :=
    holds_iff_setSince (P := fun db : AuthDb => db.tokens u = some row) (by simp)
      (fun _ _ => perform_token_iff) steps
  rw [hset, setSince_const]
  constructor
  · rintro ⟨pre, step, post, hsplit, ⟨hgen, rfl⟩, hkept⟩
    exact ⟨pre, step, post, ⟨hsplit, hgen, rfl⟩, rfl, hkept⟩
  · rintro ⟨pre, step, post, ⟨hsplit, hgen, htoken⟩, hvalid, hkept⟩
    refine ⟨pre, step, post, hsplit, ⟨hgen, ?_⟩, hkept⟩
    rw [htoken, ← hvalid]

theorem Generation.append (h : Generation steps x u pre step post) (more : List AuthStep) :
    Generation (steps ++ more) x u pre step (post ++ more) where
  split := by rw [h.split, List.append_assoc, List.cons_append]
  generates := h.generates
  token := h.token

/-- With fresh UUIDs, a token is generated by one step and for one user. -/
theorem Generation.unique (hfresh : (steps.map AuthStep.gen).Nodup)
    (h : Generation steps x u pre step post) (h' : Generation steps x u' pre' step' post') :
    pre = pre' ∧ step = step' ∧ post = post' ∧ u = u' := by
  have hsplit : pre ++ step :: post = pre' ++ step' :: post' := h.split.symm.trans h'.split
  rw [h.split] at hfresh
  obtain ⟨rfl, rfl, rfl⟩ := split_unique hfresh hsplit (h.token.trans h'.token.symm)
  exact ⟨rfl, rfl, rfl, h.generates.unique h'.generates⟩

theorem run_oneHolder (hfresh : (steps.map AuthStep.gen).Nodup) :
    (runAuth .initial steps).OneHolder := by
  intro u u' row row' hrow hrow' hsame
  obtain ⟨pre, step, post, hgen, -⟩ := run_token_iff.1 hrow
  obtain ⟨pre', step', post', hgen', -⟩ := run_token_iff.1 hrow'
  rw [hsame] at hgen
  exact (hgen.unique hfresh hgen').2.2.2

theorem accepts_iff_holds (hfresh : (steps.map AuthStep.gen).Nodup) :
    Accepts steps t x u ↔ (runAuth .initial steps).Holds t x u := by
  rw [← getUserByToken_iff (run_oneHolder hfresh)]
  simp only [Accepts, authorization_ok_iff]

theorem accepts_iff (hfresh : (steps.map AuthStep.gen).Nodup) :
    Accepts steps t x u ↔
      ∃ pre step post,
        Generation steps x u pre step post ∧
        t < step.now + tokenLifetime ∧
        ∀ later ∈ post, ¬ Ends later u := by
  rw [accepts_iff_holds hfresh]
  constructor
  · rintro ⟨row, hrow, rfl, hvalid⟩
    obtain ⟨pre, step, post, hgen, huntil, hkept⟩ := run_token_iff.1 hrow
    exact ⟨pre, step, post, hgen, huntil ▸ hvalid, hkept⟩
  · rintro ⟨pre, step, post, hgen, hvalid, hkept⟩
    refine ⟨⟨x, step.now + tokenLifetime⟩, ?_, rfl, hvalid⟩
    exact run_token_iff.2 ⟨pre, step, post, hgen, rfl, hkept⟩

/-- What is accepted has been generated, for the user it is accepted as. -/
theorem Accepts.generation (hfresh : ((steps ++ more).map AuthStep.gen).Nodup)
    (h : Accepts steps t x u) :
    ∃ pre step post,
      Generation (steps ++ more) x u pre step (post ++ more) ∧
      ∀ later ∈ post, ¬ Ends later u := by
  rw [List.map_append] at hfresh
  obtain ⟨pre, step, post, hgen, -, hkept⟩ := (accepts_iff hfresh.of_append_left).1 h
  exact ⟨pre, step, post, hgen.append more, hkept⟩

/-- A token that a step has replaced or deleted is not accepted again. -/
theorem not_accepts_of_ends {mid : List AuthStep}
    (hfresh : ((pre ++ step :: mid).map AuthStep.gen).Nodup) (hends : Ends step u)
    (hrow : (runAuth .initial pre).tokens u = some row) :
    ¬ Accepts (pre ++ step :: mid) t row.accessToken u' := by
  intro haccepts
  obtain ⟨early, g, between, hgen, -⟩ := run_token_iff.1 hrow
  obtain ⟨early', g', after, hgen', -, hkept⟩ := (accepts_iff hfresh).1 haccepts
  obtain ⟨rfl, rfl, rfl, rfl⟩ := (hgen.append (step :: mid)).unique hfresh hgen'
  exact hkept step (by simp) hends

/-- `authorization()` accepts exactly the tokens generated, still valid and not revoked. -/
theorem token_acceptance (steps : List AuthStep) (hfresh : (steps.map AuthStep.gen).Nodup) :
    ExactAcceptance steps where
  accepts_iff t x u := accepts_iff hfresh
  oneUser := by
    rintro pre pre' t t' x u u' ⟨more, rfl⟩ ⟨more', hmore⟩ h h'
    obtain ⟨_, _, _, hgen, -⟩ := h.generation hfresh
    obtain ⟨_, _, _, hgen', -⟩ := h'.generation (hmore ▸ hfresh)
    rw [hmore] at hgen'
    exact (hgen.unique hfresh hgen').2.2.2
  revoked := by
    rintro pre step post u row rfl hends hrow mid ⟨more, rfl⟩ t u'
    refine not_accepts_of_ends ?_ hends hrow
    rw [← List.cons_append, ← List.append_assoc, List.map_append] at hfresh
    exact hfresh.of_append_left

omit [PasswordLibraries] in
/-- A session that is refreshed: the second token is accepted, the first no more. -/
theorem token_acceptance_refreshed :
    letI := samplePasswords
    let refreshed := firstLogin ++ [⟨.refresh 1, 5, 3, 0⟩]
    ExactAcceptance refreshed ∧
      Accepts firstLogin 4 2 1 ∧
      Accepts refreshed 6 3 1 ∧
      ¬ Accepts refreshed 6 2 1 := by
  let := samplePasswords
  have hexact := token_acceptance (firstLogin ++ [⟨.refresh 1, 5, 3, 0⟩]) (by decide)
  refine ⟨hexact, ⟨⟨1, "user", some 31⟩, by decide, rfl⟩, ⟨⟨1, "user", some 31⟩, by decide, rfl⟩, ?_⟩
  exact hexact.revoked firstLogin _ [] 1 ⟨2, 1 + tokenLifetime⟩ rfl (Or.inl rfl) (by decide) []
    List.nil_prefix 6 1

end TokenAcceptance

end SmartHttpRequester
