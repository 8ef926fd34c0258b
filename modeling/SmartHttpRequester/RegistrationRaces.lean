import SmartHttpRequester.Foundations.Progress
import SmartHttpRequester.RegistrationDiscipline

/-!
# Registrations at the same time

Nothing in `create_user` looks whether a name is taken: the unique constraint and
the `except` clauses have to see to it, whoever waits for whom and whatever fails.
The clause for a taken name asks for a class that `e.orig` never has, so what
refuses the name ends in the 500 of an unknown exception.

`registrations_exclusive`: in every interleaving a request that has answered has a
row of its own with its name, its hash and the plain role; no two have answered
with one name or one id; the only HTTP error is 500, and it is sent only where the
name is taken, and not by the request itself; a request that has ended has left
nothing uncommitted; and while requests run, one of them can go on.

`registrations_decided`: where nothing fails, of the requests for a free name
exactly one is answered, and all others get a 500.
-/

namespace SmartHttpRequester

open Foundations Function

section RegistrationRaces

section Races

variable {ι : Type} [DecidableEq ι] {i j : ι} {db : AuthDb} {data : ι → UserCredentials}
variable {o : RegisterOp} {r : RegisterReply} {w w' : UsersWorld ι} {g : RegisterGhost}
variable {γ : ι → RegisterGhost} {u : UserRow} {credentials : UserCredentials}

/-- The row that a request has asked for. -/
structure Authored (credentials : UserCredentials) (g : RegisterGhost) (u : UserRow) : Prop where
  tried : g.tried = true
  id : g.id = some u.id
  hash : g.passwordHash = some u.passwordHash
  name : varchar50 credentials.username = some u.username
  role : u.roleId = 1

theorem Authored.next (h : Authored credentials g u) (hallows : g.Allows credentials o) :
    Authored credentials (g.next o r) u := by
  have hnot : ¬ g.tried = false := by simp [h.tried]
  cases r with
  | ok f =>
      cases o with
      | hashPassword password => exact absurd hallows.1 hnot
      | nextUserId username => exact absurd hallows.1 hnot
      | insertUser id username hash roleId => exact absurd hallows.1 hnot
      | commit => exact ⟨h.tried, h.id, h.hash, h.name, h.role⟩
      | rollback => exact ⟨h.tried, h.id, h.hash, h.name, h.role⟩
      | close => exact ⟨h.tried, h.id, h.hash, h.name, h.role⟩
      | respond response => exact h
  | error e =>
      cases o with
      | insertUser id username hash roleId => exact absurd hallows.1 hnot
      | _ => exact ⟨h.tried, h.id, h.hash, h.name, h.role⟩

/-- What holds of one request, whatever the others do. -/
structure Entrant (db : AuthDb) (w : UsersWorld ι) (credentials : UserCredentials)
    (g : RegisterGhost) (dead : Prop) (i : ι) : Prop where
  ids : ∀ x, g.id = some x → db.nextUserId ≤ x ∧ x < w.nextUserId
  pending : ∀ u, (i, u) ∈ w.users.pending →
    g.unsettled = true ∧ ¬ dead ∧ Authored credentials g u
  standing : ¬ dead → ∀ response, g.standing = some response →
    ∃ u, (i, u) ∈ w.users.pending ∧ u.id = response.userId ∧ u.username = response.username
  saved : ∀ response, g.saved = some response →
    ∃ u ∈ w.users.committed,
      u.id = response.userId ∧ u.username = response.username ∧ Authored credentials g u
  refused : g.refused = true →
    g.tried = true ∧
    (∃ u ∈ w.users.committed, varchar50 credentials.username = some u.username) ∧
    ∀ u ∈ w.users.rows, g.id ≠ some u.id

/-- The table and the requests. -/
structure Racing (db : AuthDb) (data : ι → UserCredentials) (w : UsersWorld ι)
    (γ : ι → RegisterGhost) (dead : ι → Prop) : Prop where
  grown : db.users <+: w.users.committed
  serial : db.nextUserId ≤ w.nextUserId
  rows : ∀ u ∈ w.users.rows, u ∈ db.users ∨ ∃ i, Authored (data i) (γ i) u
  distinct : ∀ i j x, (γ i).id = some x → (γ j).id = some x → i = j
  entrants : ∀ i, Entrant db w (data i) (γ i) (dead i) i

omit [DecidableEq ι] in
theorem Racing.start : Racing db data (usersWorldOf ι db) (fun _ => {}) fun _ => False where
  grown := List.prefix_rfl
  serial := le_rfl
  rows u hu := by
    rcases UniqueRows.mem_rows.1 hu with hu | ⟨i, hu⟩
    · exact Or.inl hu
    · cases hu
  distinct _ _ _ h := by cases h
  entrants i :=
    { ids := fun x h => by cases h
      pending := fun u h => by cases h
      standing := fun _ response h => by cases h
      saved := fun response h => by cases h
      refused := fun h => by cases h }

/-- What a step of request `j` may do to the table, as the others see it. -/
structure Advances (j : ι) (g : RegisterGhost) (w w' : UsersWorld ι) : Prop where
  grown : w.users.committed <+: w'.users.committed
  serial : w.nextUserId ≤ w'.nextUserId
  pending : ∀ i u, i ≠ j → ((i, u) ∈ w'.users.pending ↔ (i, u) ∈ w.users.pending)
  rows : ∀ u ∈ w'.users.rows, u ∈ w.users.rows ∨
    (g.id = some u.id ∧ (j, u) ∈ w'.users.pending)

omit [DecidableEq ι] in
theorem Entrant.other {dead : Prop} (h : Entrant db w credentials g dead i) {g' : RegisterGhost}
    (hij : i ≠ j) (hadvances : Advances j g' w w') (hid : ∀ x, g.id = some x → g'.id ≠ some x) :
    Entrant db w' credentials g dead i where
  ids x hx := ⟨(h.ids x hx).1, (h.ids x hx).2.trans_le hadvances.serial⟩
  pending u hu := h.pending u ((hadvances.pending i u hij).1 hu)
  standing hdead response hresponse := by
    obtain ⟨u, hu, hsame⟩ := h.standing hdead response hresponse
    exact ⟨u, (hadvances.pending i u hij).2 hu, hsame⟩
  saved response hresponse := by
    obtain ⟨u, hu, hsame⟩ := h.saved response hresponse
    exact ⟨u, hadvances.grown.subset hu, hsame⟩
  refused hrefused := by
    obtain ⟨htried, ⟨u, hu, hname⟩, hnone⟩ := h.refused hrefused
    refine ⟨htried, ⟨u, hadvances.grown.subset hu, hname⟩, fun v hv hv' => ?_⟩
    rcases hadvances.rows v hv with hold | hnew
    · exact hnone v hold hv'
    · exact hid _ hv' hnew.1

theorem RegisterEffect.advances (h : RegisterEffect j w o r w') (hallows : g.Allows credentials o) :
    Advances j g w w' := by
  cases h with
  | unchanged h => exact ⟨List.prefix_rfl, le_rfl, fun _ _ _ => Iff.rfl, fun u hu => Or.inl hu⟩
  | refused h => exact ⟨List.prefix_rfl, le_rfl, fun _ _ _ => Iff.rfl, fun u hu => Or.inl hu⟩
  | numbered h =>
      exact ⟨List.prefix_rfl, (lt_add_one _).le, fun _ _ _ => Iff.rfl, fun u hu => Or.inl hu⟩
  | inserted h hok hnot =>
      obtain ⟨hcommitted, hpending⟩ := UniqueRows.of_insert h
      refine ⟨?_, le_rfl, fun i u hij => ?_, fun u hu => ?_⟩
      · rw [hcommitted]
      · simp only [hpending, List.mem_append, List.mem_singleton, Prod.mk.injEq, hij, false_and,
          or_false]
      · rcases UniqueRows.mem_rows.1 hu with hu | ⟨i, hu⟩
        · rw [hcommitted] at hu
          exact Or.inl (UniqueRows.mem_rows_of_committed hu)
        · rw [hpending] at hu
          rcases List.mem_append.1 hu with hu | hu
          · exact Or.inl (UniqueRows.mem_rows_of_pending hu)
          · obtain ⟨-, rfl⟩ := Prod.mk.inj (List.mem_singleton.1 hu)
            refine Or.inr ⟨hallows.2.1, ?_⟩
            show _ ∈ UniqueRows.pending _
            rw [hpending]
            simp
  | committed =>
      exact ⟨UniqueRows.committed_prefix_commit, le_rfl,
        fun i u hij => UniqueRows.mem_commit_pending.trans (and_iff_left hij),
        fun u hu => Or.inl (UniqueRows.mem_rows_of_commit hu)⟩
  | rolledBack ho =>
      exact ⟨List.prefix_rfl, le_rfl,
        fun i u hij => UniqueRows.mem_rollback_pending.trans (and_iff_left hij),
        fun u hu => Or.inl (UniqueRows.mem_rows_of_rollback hu)⟩

omit [DecidableEq ι] in
/-- A request that has not sent its INSERT has no row. -/
theorem Entrant.untried {dead : Prop} (h : Entrant db w credentials g dead i) (hlive : ¬ dead)
    (htried : g.tried = false) :
    (∀ u, (i, u) ∉ w.users.pending) ∧ g.standing = none ∧ g.saved = none ∧ g.refused = false := by
  have hnot : ¬ g.tried = true := by simp [htried]
  have hpending : ∀ u, (i, u) ∉ w.users.pending := fun u hu => hnot (h.pending u hu).2.2.tried
  refine ⟨hpending, ?_, ?_, ?_⟩
  · cases hstanding : g.standing with
    | none => rfl
    | some response =>
        obtain ⟨u, hu, -⟩ := h.standing hlive response hstanding
        exact absurd hu (hpending u)
  · cases hsaved : g.saved with
    | none => rfl
    | some response =>
        obtain ⟨u, -, -, -, hu⟩ := h.saved response hsaved
        exact absurd hu.tried hnot
  · cases hrefused : g.refused with
    | false => rfl
    | true => exact absurd (h.refused hrefused).1 hnot

omit [DecidableEq ι] in
/-- A request without a row. -/
theorem Entrant.fresh {dead : Prop}
    (hids : ∀ x, g.id = some x → db.nextUserId ≤ x ∧ x < w.nextUserId)
    (hpending : ∀ u, (i, u) ∉ w.users.pending) (hstanding : g.standing = none)
    (hsaved : g.saved = none) (hrefused : g.refused = false) :
    Entrant db w credentials g dead i where
  ids := hids
  pending u hu := absurd hu (hpending u)
  standing _ response h := by
    rw [hstanding] at h
    cases h
  saved response h := by
    rw [hsaved] at h
    cases h
  refused h := by
    rw [hrefused] at h
    cases h

omit [DecidableEq ι] in
/-- What changes neither the table nor the row of the request. -/
theorem Entrant.keep {dead dead' : Prop} {g' : RegisterGhost}
    (h : Entrant db w credentials g dead i) (hlive : ¬ dead) (hid : g'.id = g.id)
    (htried : g'.tried = g.tried) (hrefused : g'.refused = g.refused)
    (hsaved : g'.saved = g.saved) (hunsettled : g'.unsettled = g.unsettled)
    (hstanding : ∀ response, g'.standing = some response → g.standing = some response)
    (hauthored : ∀ u, Authored credentials g u → Authored credentials g' u)
    (hended : dead' → g'.unsettled = false) :
    Entrant db w credentials g' dead' i where
  ids x hx := h.ids x (hid.symm.trans hx)
  pending u hu := by
    obtain ⟨hopen, -, hu⟩ := h.pending u hu
    have hopen' : g'.unsettled = true := hunsettled.trans hopen
    exact ⟨hopen', fun hdead => by simp [hended hdead] at hopen', hauthored u hu⟩
  standing _ response hresponse := h.standing hlive response (hstanding response hresponse)
  saved response hresponse := by
    obtain ⟨u, hu, hsameId, hsameName, hauthor⟩ := h.saved response (hsaved.symm.trans hresponse)
    exact ⟨u, hu, hsameId, hsameName, hauthored u hauthor⟩
  refused h' := by
    obtain ⟨hold, htaken, hnone⟩ := h.refused (hrefused.symm.trans h')
    exact ⟨htried.trans hold, htaken, fun u hu => hid ▸ hnone u hu⟩

variable {dead : ι → Prop}

omit [DecidableEq ι] in
/-- The serial gives each request a new id. -/
theorem Racing.id_unused (h : Racing db data w γ dead) (htried : (γ j).tried = false) {x : UserId}
    (hid : (γ j).id = some x) (hu : u ∈ w.users.rows) : u.id ≠ x := by
  rintro rfl
  rcases h.rows u hu with hold | ⟨i, hauthored⟩
  · exact absurd (db.idsBelow u hold) (not_lt.2 ((h.entrants j).ids _ hid).1)
  · obtain rfl := h.distinct i j _ hauthored.id hid
    exact absurd hauthored.tried (by simp [htried])

omit [DecidableEq ι] in
theorem Racing.self_unchanged (h : Racing db data w γ dead) (hlive : ¬ dead j)
    (hallows : (γ j).Allows (data j) o) (ho : o.Unaffecting r) {dead' : Prop}
    (hended : dead' → ((γ j).next o r).unsettled = false) :
    Entrant db w (data j) ((γ j).next o r) dead' j := by
  have hself := h.entrants j
  cases o with
  | hashPassword password =>
      obtain ⟨hpending, hstanding, hsaved, hrefused⟩ := hself.untried hlive hallows.1
      cases r with
      | ok f => exact Entrant.fresh hself.ids hpending hstanding hsaved hrefused
      | error e => exact Entrant.fresh hself.ids hpending hstanding hsaved hrefused
  | nextUserId username =>
      obtain ⟨hpending, hstanding, hsaved, hrefused⟩ := hself.untried hlive hallows.1
      cases r with
      | ok f => exact absurd ho id
      | error e => exact Entrant.fresh hself.ids hpending hstanding hsaved hrefused
  | insertUser id username hash roleId =>
      obtain ⟨hpending, hstanding, hsaved, hrefused⟩ := hself.untried hlive hallows.1
      cases r with
      | ok f => exact absurd ho (fun h => h)
      | error e =>
          have hghost : (γ j).next (.insertUser id username hash roleId) (.error e) =
              { γ j with tried := true, unsettled := true, failed := true } := if_neg ho
          rw [hghost]
          exact Entrant.fresh hself.ids hpending hstanding hsaved hrefused
  | respond response =>
      cases r with
      | ok f =>
          exact hself.keep hlive rfl rfl rfl rfl rfl (fun _ hx => hx)
            (fun u hu => hu.next hallows) hended
      | error e =>
          exact hself.keep hlive rfl rfl rfl rfl rfl (fun _ hx => hx)
            (fun u hu => hu.next hallows) hended
  | commit =>
      cases r with
      | ok f => exact absurd ho id
      | error e =>
          exact hself.keep hlive rfl rfl rfl rfl rfl (fun _ hx => by cases hx)
            (fun u hu => hu.next hallows) hended
  | rollback => cases r <;> exact absurd ho id
  | close => cases r <;> exact absurd ho id

omit [DecidableEq ι] in
/-- A constraint refuses only a name that is taken. -/
theorem Racing.self_refused (h : Racing db data w γ dead) (hlive : ¬ dead j) {id : UserId}
    {username : String} {hash : ByteArray} {roleId : Int}
    (hallows : (γ j).Allows (data j) (.insertUser id username hash roleId))
    (hrefuses : w.users.Refuses j ⟨id, username, hash, roleId⟩) {dead' : Prop} :
    Entrant db w (data j) ((γ j).next (.insertUser id username hash roleId)
      (.error (.auth (.integrityError true)))) dead' j := by
  have hself := h.entrants j
  obtain ⟨htried, hid, hstored, -, -⟩ := hallows
  obtain ⟨hpending, hstanding, hsaved, -⟩ := hself.untried hlive htried
  refine ⟨hself.ids, fun u hu => absurd hu (hpending u), fun _ response hresponse => ?_,
    fun response hresponse => ?_, fun _ => ⟨rfl, ?_, fun u hu hu' => ?_⟩⟩
  · cases hstanding.symm.trans hresponse
  · cases hsaved.symm.trans hresponse
  · rcases hrefuses with ⟨u, hu, hsame | hsame⟩ | ⟨⟨i, u⟩, hu, rfl, -⟩
    · exact absurd hsame (h.id_unused htried hid (UniqueRows.mem_rows_of_committed hu))
    · exact ⟨u, hu, hsame ▸ hstored⟩
    · exact absurd hu (hpending u)
  · exact h.id_unused htried hu' hu rfl

theorem Racing.self_inserted (h : Racing db data w γ dead) (hlive : ¬ dead j) {id : UserId}
    {username : String} {hash : ByteArray} {roleId : Int}
    {t : UniqueRows ι UserRow SameKey}
    (hallows : (γ j).Allows (data j) (.insertUser id username hash roleId))
    (hinsert : w.users.insert j ⟨id, username, hash, roleId⟩ = some (some t))
    (hok : ∀ f, r = .ok f → f.userId = id ∧ f.username = username)
    (hnot : r ≠ .error (.auth (.integrityError true))) {dead' : Prop}
    (hended : dead' → ((γ j).next (.insertUser id username hash roleId) r).unsettled = false) :
    Entrant db { w with users := t } (data j)
      ((γ j).next (.insertUser id username hash roleId) r) dead' j := by
  have hself := h.entrants j
  obtain ⟨htried, hid, hstored, hhash, rfl⟩ := hallows
  obtain ⟨hpending, hstanding, hsaved, hrefused⟩ := hself.untried hlive htried
  obtain ⟨-, hnew⟩ := UniqueRows.of_insert hinsert
  have hown : ∀ u, (j, u) ∈ t.pending ↔ u = ⟨id, username, hash, 1⟩ := by
    intro u
    simp [hnew, hpending u]
  cases r with
  | ok f =>
      refine ⟨hself.ids, fun u hu => ⟨rfl, fun hdead => ?_, ?_⟩,
        fun _ response hresponse => ?_, fun response hresponse => ?_, fun hrefused' => ?_⟩
      · cases hended hdead
      · obtain rfl := (hown u).1 hu
        exact ⟨rfl, hid, hhash, hstored, rfl⟩
      · cases hresponse
        obtain ⟨hsameId, hsameName⟩ := hok f rfl
        exact ⟨_, (hown _).2 rfl, hsameId.symm, hsameName.symm⟩
      · cases hsaved.symm.trans hresponse
      · cases hrefused.symm.trans hrefused'
  | error e =>
      have hne : e ≠ .auth (.integrityError true) := fun heq => hnot (congrArg _ heq)
      have hghost : (γ j).next (.insertUser id username hash 1) (.error e) =
          { γ j with tried := true, unsettled := true, failed := true } := if_neg hne
      rw [hghost] at hended ⊢
      refine ⟨hself.ids, fun u hu => ⟨rfl, fun hdead => ?_, ?_⟩,
        fun _ response hresponse => ?_, fun response hresponse => ?_, fun hrefused' => ?_⟩
      · cases hended hdead
      · obtain rfl := (hown u).1 hu
        exact ⟨rfl, hid, hhash, hstored, rfl⟩
      · cases hstanding.symm.trans hresponse
      · cases hsaved.symm.trans hresponse
      · cases hrefused.symm.trans hrefused'

theorem Racing.self_committed (h : Racing db data w γ dead) (hlive : ¬ dead j) {dead' : Prop} :
    Entrant db { w with users := w.users.commit j } (data j) ((γ j).next .commit r) dead' j := by
  have hself := h.entrants j
  have hnone : ∀ u, (j, u) ∉ (w.users.commit j).pending := fun u hu =>
    (UniqueRows.mem_commit_pending.1 hu).2 rfl
  have hrefused : (γ j).refused = true →
      (γ j).tried = true ∧
      (∃ u ∈ (w.users.commit j).committed, varchar50 (data j).username = some u.username) ∧
      ∀ u ∈ (w.users.commit j).rows, (γ j).id ≠ some u.id := by
    intro hrefused
    obtain ⟨htried, ⟨u, hu, hname⟩, hunused⟩ := hself.refused hrefused
    exact ⟨htried, ⟨u, UniqueRows.mem_commit_committed.2 (Or.inl hu), hname⟩,
      fun v hv => hunused v (UniqueRows.mem_rows_of_commit hv)⟩
  have hsaved : ∀ response, (γ j).saved = some response →
      ∃ u ∈ (w.users.commit j).committed, u.id = response.userId ∧
        u.username = response.username ∧ Authored (data j) (γ j) u := by
    intro response hresponse
    obtain ⟨u, hu, hsame⟩ := hself.saved response hresponse
    exact ⟨u, UniqueRows.mem_commit_committed.2 (Or.inl hu), hsame⟩
  have hauthored : ∀ u, Authored (data j) (γ j) u → Authored (data j) ((γ j).next .commit r) u :=
    fun u hu => hu.next trivial
  cases r with
  | error e =>
      refine ⟨hself.ids, fun u hu => absurd hu (hnone u), fun _ response hresponse => ?_,
        fun response hresponse => ?_, hrefused⟩
      · cases hresponse
      · obtain ⟨u, hu, hsameId, hsameName, hauthor⟩ := hsaved response hresponse
        exact ⟨u, hu, hsameId, hsameName, hauthored u hauthor⟩
  | ok f =>
      refine ⟨hself.ids, fun u hu => absurd hu (hnone u), fun _ response hresponse => ?_,
        fun response hresponse => ?_, hrefused⟩
      · cases hresponse
      · cases hstanding : (γ j).standing with
        | none =>
            have hold : (γ j).saved = some response := by
              simpa [RegisterGhost.next, RegisterGhost.succeed, hstanding] using hresponse
            obtain ⟨u, hu, hsameId, hsameName, hauthor⟩ := hsaved response hold
            exact ⟨u, hu, hsameId, hsameName, hauthored u hauthor⟩
        | some response' =>
            obtain rfl : response' = response := by
              simpa [RegisterGhost.next, RegisterGhost.succeed, hstanding] using hresponse
            obtain ⟨u, hu, hsameId, hsameName⟩ := hself.standing hlive _ hstanding
            exact ⟨u, UniqueRows.mem_commit_committed.2 (Or.inr hu), hsameId, hsameName,
              hauthored u (hself.pending u hu).2.2⟩

/-- The end of a transaction that has not been committed. -/
theorem Entrant.rolledBack {dead dead' : Prop} {g' : RegisterGhost}
    (h : Entrant db w credentials g dead j) (hid : g'.id = g.id)
    (hauthored : ∀ u, Authored credentials g u → Authored credentials g' u)
    (htried : g.tried = true → g'.tried = true)
    (hrefused : g'.refused = true → g.refused = true)
    (hsaved : ∀ response, g'.saved = some response → g.saved = some response)
    (hstanding : ¬ dead' → g'.standing = none) :
    Entrant db { w with users := w.users.rollback j } credentials g' dead' j where
  ids x hx := h.ids x (hid ▸ hx)
  pending u hu := absurd rfl (UniqueRows.mem_rollback_pending.1 hu).2
  standing hlive response hresponse := by cases (hstanding hlive).symm.trans hresponse
  saved response hresponse := by
    obtain ⟨u, hu, hsameId, hsameName, hauthor⟩ := h.saved response (hsaved response hresponse)
    exact ⟨u, hu, hsameId, hsameName, hauthored u hauthor⟩
  refused h' := by
    obtain ⟨hold, htaken, hnone⟩ := h.refused (hrefused h')
    exact ⟨htried hold, htaken, fun u hu => hid ▸ hnone u (UniqueRows.mem_rows_of_rollback hu)⟩

theorem Racing.self (h : Racing db data w γ dead) (hlive : ¬ dead j)
    (hallows : (γ j).Allows (data j) o) (heffect : RegisterEffect j w o r w') {dead' : Prop}
    (hended : dead' → ((γ j).next o r).unsettled = false) :
    Entrant db w' (data j) ((γ j).next o r) dead' j := by
  have hself := h.entrants j
  cases heffect with
  | unchanged ho => exact h.self_unchanged hlive hallows ho hended
  | refused hrefuses => exact h.self_refused hlive hallows hrefuses
  | inserted hinsert hok hnot => exact h.self_inserted hlive hallows hinsert hok hnot hended
  | committed => exact h.self_committed hlive
  | numbered hnumber =>
      obtain ⟨hpending, hstanding, hsaved, hrefused⟩ := hself.untried hlive hallows.1
      refine Entrant.fresh (fun x hx => ?_) hpending ?_ ?_ ?_
      · cases r with
        | ok f =>
            obtain rfl : w.nextUserId = x := (hnumber f rfl).symm.trans (Option.some.inj hx)
            exact ⟨h.serial, lt_add_one _⟩
        | error e => exact ⟨(hself.ids x hx).1, (hself.ids x hx).2.trans (lt_add_one _)⟩
      all_goals cases r <;> assumption
  | rolledBack ho =>
      rcases ho with rfl | rfl <;> cases r <;>
        exact hself.rolledBack rfl (fun u hu => hu.next hallows) id id (fun _ => id) fun _ => rfl

theorem RegisterEffect.next_id (h : RegisterEffect j w o r w') :
    (g.next o r).id = g.id ∨ (g.next o r).id = some w.nextUserId := by
  cases r with
  | error e =>
      left
      cases o with
      | insertUser id username hash roleId =>
          simp only [RegisterGhost.next, RegisterGhost.fail]
          split <;> rfl
      | _ => rfl
  | ok f =>
      cases h with
      | numbered hnumber => exact Or.inr (congrArg some (hnumber f rfl))
      | unchanged ho => cases o <;> first | exact Or.inl rfl | exact absurd ho id
      | inserted => exact Or.inl rfl
      | committed => exact Or.inl rfl
      | rolledBack ho => rcases ho with rfl | rfl <;> exact Or.inl rfl

theorem Racing.step (h : Racing db data w γ dead) (hlive : ¬ dead j)
    (hallows : (γ j).Allows (data j) o) (heffect : RegisterEffect j w o r w')
    {dead' : ι → Prop} (hothers : ∀ i, i ≠ j → dead' i = dead i)
    (hended : dead' j → ((γ j).next o r).unsettled = false) :
    Racing db data w' (update γ j ((γ j).next o r)) dead' := by
  have hadvances : Advances j (γ j) w w' := heffect.advances hallows
  have hself := h.self hlive hallows heffect hended
  have hbelow : ∀ i, (γ i).id ≠ some w.nextUserId := fun i hi =>
    absurd ((h.entrants i).ids _ hi).2 (lt_irrefl _)
  refine ⟨h.grown.trans hadvances.grown, h.serial.trans hadvances.serial, ?_, ?_, ?_⟩
  · intro u hu
    rcases hadvances.rows u hu with hold | ⟨-, hnew⟩
    · rcases h.rows u hold with hdb | ⟨i, hi⟩
      · exact Or.inl hdb
      · refine Or.inr ⟨i, ?_⟩
        by_cases hij : i = j
        · subst hij
          rw [update_self]
          exact hi.next hallows
        · rw [update_of_ne hij]
          exact hi
    · refine Or.inr ⟨j, ?_⟩
      rw [update_self]
      exact (hself.pending u hnew).2.2
  · have hother : ∀ i x, i ≠ j → (γ i).id = some x → ((γ j).next o r).id ≠ some x := by
      intro i x hij hi hj
      rcases heffect.next_id (g := γ j) with hsame | hnew
      · exact hij (h.distinct i j x hi (hsame ▸ hj))
      · obtain rfl : w.nextUserId = x := Option.some.inj (hnew.symm.trans hj)
        exact hbelow i hi
    intro i k x hi hk
    by_cases hij : i = j
    · by_cases hkj : k = j
      · rw [hij, hkj]
      · subst hij
        rw [update_self] at hi
        rw [update_of_ne hkj] at hk
        exact absurd hi (hother k x hkj hk)
    · rw [update_of_ne hij] at hi
      by_cases hkj : k = j
      · subst hkj
        rw [update_self] at hk
        exact absurd hk (hother i x hij hi)
      · rw [update_of_ne hkj] at hk
        exact h.distinct i k x hi hk
  · intro i
    by_cases hij : i = j
    · subst hij
      rw [update_self]
      exact hself
    · rw [update_of_ne hij, hothers i hij]
      exact (h.entrants i).other hij hadvances fun x hi hj => hij (h.distinct i j x hi hj)

/-- A request is abandoned. -/
theorem Racing.kill (h : Racing db data w γ dead) {dead' : ι → Prop}
    (hothers : ∀ i, i ≠ j → dead' i = dead i) (hdead : dead' j) :
    Racing db data { w with users := w.users.rollback j } γ dead' := by
  have hadvances : Advances j (γ j) w { w with users := w.users.rollback j } :=
    ⟨List.prefix_rfl, le_rfl, fun i u hij => UniqueRows.mem_rollback_pending.trans (and_iff_left hij),
      fun u hu => Or.inl (UniqueRows.mem_rows_of_rollback hu)⟩
  refine ⟨h.grown, h.serial, fun u hu => h.rows u (UniqueRows.mem_rows_of_rollback hu), h.distinct,
    fun i => ?_⟩
  by_cases hij : i = j
  · subst hij
    exact (h.entrants i).rolledBack rfl (fun _ => id) id id (fun _ => id)
      fun hlive => absurd hdead hlive
  · rw [hothers i hij]
    exact (h.entrants i).other hij hadvances fun x hi hj => hij (h.distinct i j x hi hj)

end Races

section Runs

variable [PasswordLibraries] {ι : Type} [DecidableEq ι] {i j : ι} {db : AuthDb}
variable {data : ι → UserCredentials} {s s' : RegisterConfig ι} {l : RegisterLabel ι}
variable {ls : List (RegisterLabel ι)}

/-- What a request has done so far. -/
def registrationOf (hist : List (RegisterOp × RegisterReply)) : RegisterGhost :=
  hist.foldl (fun g e => g.next e.1 e.2) {}

omit [PasswordLibraries] [DecidableEq ι] in
theorem registrationOf_snoc (hist : List (RegisterOp × RegisterReply)) (o : RegisterOp)
    (r : RegisterReply) :
    registrationOf (hist ++ [(o, r)]) = (registrationOf hist).next o r := by
  simp [registrationOf, List.foldl_append]

abbrev RegistersInOrder (data : ι → UserCredentials) (s : RegisterConfig ι) : Prop :=
  Monitored (fun i => registerMonitor (data i)) (fun _ => {}) (fun i => RegisterEnds (data i))
    .cancelledError s

theorem registerMachine_meets :
    (registerMachine ι).Meets fun i => registerMonitor (data i) :=
  fun _ _ _ _ _ _ h => registerCall_expects h

/-- The hash is one of the password that was sent. -/
def HashOf (credentials : UserCredentials) (hash : ByteArray) : Prop :=
  ∃ salt, hashPassword credentials.passwordHash salt = .ok hash

theorem hashOf_of_call {c : RegisterChoice} {password : String} {f : RegisterFetched}
    {w w' : UsersWorld ι} (h : registerCall i c (.hashPassword password) w = some (.ok f, w')) :
    hashPassword password c.salt = .ok f.passwordHash := by
  obtain ⟨fault, salt⟩ := c
  cases fault with
  | none =>
      simp only [registerCall, runRegisterOp] at h
      split at h <;> cases h
      assumption
  | before => cases h
  | after => cases h

omit [PasswordLibraries] in
theorem RegisterGhost.next_passwordHash {g : RegisterGhost} {o : RegisterOp} {r : RegisterReply}
    {hash : ByteArray} (h : (g.next o r).passwordHash = some hash) :
    g.passwordHash = some hash ∨
    ∃ password f, o = .hashPassword password ∧ r = .ok f ∧ f.passwordHash = hash := by
  cases r with
  | ok f =>
      cases o with
      | hashPassword password => exact Or.inr ⟨password, f, rfl, rfl, Option.some.inj h⟩
      | _ => exact Or.inl h
  | error e =>
      cases o with
      | insertUser id username hash roleId =>
          left
          simp only [RegisterGhost.next, RegisterGhost.fail] at h
          split at h <;> exact h
      | _ => exact Or.inl h

/-- Everything that is kept in a run. -/
structure RegistrationState (db : AuthDb) (data : ι → UserCredentials) (s : RegisterConfig ι) :
    Prop where
  racing : Racing db data s.world (fun i => registrationOf (s.hist i))
    fun i => s.prog i = .raise .cancelledError
  disciplined : RegistersInOrder data s
  hashed : ∀ i hash, (registrationOf (s.hist i)).passwordHash = some hash → HashOf (data i) hash
  told : ∀ i response reply, (RegisterOp.respond response, reply) ∈ s.hist i →
    ∃ u ∈ s.world.users.committed, u.id = response.userId ∧ u.username = response.username ∧
      Authored (data i) (registrationOf (s.hist i)) u

omit [DecidableEq ι] in
theorem startRegistrations_state : RegistrationState db data (startRegistrations db data) where
  racing := by
    have hdead : (fun i => (startRegistrations db data).prog i = .raise .cancelledError) =
        fun _ => False := by
      funext i
      refine eq_false fun h => ?_
      cases h
    rw [hdead]
    exact Racing.start
  disciplined := Monitored.start fun _ => register_disciplined
  hashed _ _ h := by cases h
  told _ _ _ h := by cases h

theorem RegistrationState.racing_of_step (h : RegistrationState db data s)
    (hstep : (registerMachine ι).step s l = some s') :
    Racing db data s'.world (fun i => registrationOf (s'.hist i))
      fun i => s'.prog i = .raise .cancelledError := by
  obtain ⟨j, c, o, k, r, w, rfl, hp, hexec, rfl⟩ | ⟨a, w, rfl, henv, rfl⟩ |
      ⟨j, o, k, rfl, hp, rfl⟩ := Machine.step_cases hstep
  · have hlive : ¬ s.prog j = .raise .cancelledError := by
      rw [hp]
      simp
    have hghost : (fun i => registrationOf (update s.hist j (s.hist j ++ [(o, r)]) i)) =
        update (fun i => registrationOf (s.hist i)) j ((registrationOf (s.hist j)).next o r) := by
      funext i
      by_cases hij : i = j
      · subst hij
        simp only [update_self, registrationOf_snoc]
      · simp only [update_of_ne hij]
    rw [hghost]
    refine h.racing.step hlive (Monitored.allows h.disciplined hp) (registerCall_effect hexec)
      (fun i hij => by simp only [update_of_ne hij]) fun hdead => ?_
    have hends := Monitored.after_call registerMachine_meets h.disciplined hp hexec
    simp only [update_self] at hdead
    rw [hdead] at hends
    exact RegisterEnds.settled hends
  · exact a.elim
  · exact h.racing.kill (fun i hij => by simp only [update_of_ne hij])
      (by simp only [update_self]; rfl)

/-- A row that is committed stays. -/
theorem RegistrationState.grown (h : RegistrationState db data s)
    (hstep : (registerMachine ι).step s l = some s') :
    s.world.users.committed <+: s'.world.users.committed := by
  obtain ⟨j, c, o, k, r, w, rfl, hp, hexec, rfl⟩ | ⟨a, w, rfl, henv, rfl⟩ |
      ⟨j, o, k, rfl, hp, rfl⟩ := Machine.step_cases hstep
  · exact ((registerCall_effect hexec).advances (Monitored.allows h.disciplined hp)).grown
  · exact a.elim
  · exact List.prefix_rfl

theorem RegistrationState.step (h : RegistrationState db data s)
    (hstep : (registerMachine ι).step s l = some s') : RegistrationState db data s' where
  racing := h.racing_of_step hstep
  disciplined := Monitored.step registerMachine_meets h.disciplined hstep
  hashed j hash hhash := by
    rcases Machine.step_hist hstep j with hsame | ⟨c, o, k, r, rfl, hp, hexec, hsnoc⟩
    · rw [hsame] at hhash
      exact h.hashed j hash hhash
    · rw [hsnoc, registrationOf_snoc] at hhash
      rcases RegisterGhost.next_passwordHash hhash with hold | ⟨password, f, rfl, rfl, rfl⟩
      · exact h.hashed j hash hold
      · obtain ⟨-, rfl⟩ := Monitored.allows h.disciplined hp
        exact ⟨c.salt, hashOf_of_call hexec⟩
  told j response reply hmem := by
    have hgrown := h.grown hstep
    rcases Machine.step_hist hstep j with hsame | ⟨c, o, k, r, rfl, hp, hexec, hsnoc⟩
    · rw [hsame] at hmem ⊢
      obtain ⟨u, hu, hauthored⟩ := h.told j response reply hmem
      exact ⟨u, hgrown.subset hu, hauthored⟩
    · have hallows : RegisterGhost.Allows (data j) (registrationOf (s.hist j)) o :=
        Monitored.allows h.disciplined hp
      rw [hsnoc] at hmem
      rw [hsnoc, registrationOf_snoc]
      have hrow : ∃ u ∈ s.world.users.committed, u.id = response.userId ∧
          u.username = response.username ∧
          Authored (data j) (registrationOf (s.hist j)) u := by
        rcases List.mem_append.1 hmem with hold | hnew
        · exact h.told j response reply hold
        · obtain ⟨rfl, rfl⟩ := Prod.mk.inj (List.mem_singleton.1 hnew)
          exact (h.racing.entrants j).saved response hallows
      obtain ⟨u, hu, hid, hname, hauthored⟩ := hrow
      exact ⟨u, hgrown.subset hu, hid, hname, hauthored.next hallows⟩

theorem registrationState_of_run
    (hrun : (registerMachine ι).run (startRegistrations db data) ls = some s) :
    RegistrationState db data s :=
  Machine.invariant_of_run (RegistrationState db data) (fun _ _ _ h hstep => h.step hstep)
    startRegistrations_state hrun

section Safety

/-- A request has sent its answer. -/
def Answered (s : RegisterConfig ι) (i : ι) (response : UserRegisterResponse) : Prop :=
  ∃ reply, (RegisterOp.respond response, reply) ∈ s.hist i

omit [PasswordLibraries] [DecidableEq ι] in
/-- Rows with one name or one id are one row, of one request. -/
theorem Racing.author_unique {w : UsersWorld ι} {γ : ι → RegisterGhost} {dead : ι → Prop}
    {u v : UserRow} (h : Racing db data w γ dead) (hu : u ∈ w.users.rows) (hv : v ∈ w.users.rows)
    (hsame : SameKey u v) (hi : Authored (data i) (γ i) u) (hj : Authored (data j) (γ j) v) :
    i = j := by
  obtain rfl := UniqueRows.eq_of_conflict hu hv hsame
  exact h.distinct i j u.id hi.id hj.id

omit [PasswordLibraries] [DecidableEq ι] in
/-- The rows of the requests have other ids than those that were there. -/
theorem Racing.not_old {w : UsersWorld ι} {γ : ι → RegisterGhost} {dead : ι → Prop} {u : UserRow}
    (h : Racing db data w γ dead) (hi : Authored (data i) (γ i) u) : u ∉ db.users :=
  fun hu => absurd (db.idsBelow u hu) (not_lt.2 ((h.entrants i).ids u.id hi.id).1)

/-- Only an INSERT waits, and only for a row that is not committed. -/
theorem waits_of_registerCall {o : RegisterOp} {w : UsersWorld ι} (h : registerCall i {} o w = none) :
    ∃ id username hash roleId, o = .insertUser id username hash roleId ∧
      ∃ row, w.users.Waits i row := by
  cases o with
  | insertUser id username hash roleId =>
      refine ⟨id, username, hash, roleId, rfl, ?_⟩
      simp only [registerCall, runRegisterOp, insertUserRow] at h
      split at h
      · exact ⟨_, UniqueRows.waits_of_insert (by assumption)⟩
      · cases h
      · split at h <;> cases h
  | hashPassword password =>
      simp only [registerCall, runRegisterOp] at h
      split at h <;> cases h
  | nextUserId username =>
      simp only [registerCall, runRegisterOp] at h
      split at h <;> cases h
  | _ => cases h

omit [DecidableEq ι] in
/-- A request that has ended has left nothing uncommitted. -/
theorem RegistrationState.nothing_pending (h : RegistrationState db data s)
    (hended : (s.prog i).Ended) (u : UserRow) : (i, u) ∉ s.world.users.pending := by
  intro hu
  obtain ⟨hopen, hlive, -⟩ := (h.racing.entrants i).pending u hu
  rcases h.disciplined i with hkilled | hends
  · exact hlive hkilled
  · have hsettled : (registrationOf (s.hist i)).unsettled = false := by
      cases hp : s.prog i with
      | ret a =>
          rw [hp] at hends
          exact RegisterEnds.settled hends
      | raise e =>
          rw [hp] at hends
          exact RegisterEnds.settled hends
      | op o k =>
          rw [hp] at hended
          cases hended
    rw [hsettled] at hopen
    cases hopen

/-- Somebody can go on: who waits, waits for a request that can. -/
theorem RegistrationState.goes_on (h : RegistrationState db data s)
    (hi : ¬ (s.prog i).Ended) :
    ∃ j s', (registerMachine ι).step s (.op j {}) = some s' := by
  have hstep : ∀ {j : ι} {o : RegisterOp} {k : RegisterReply → RegisterProg UserRegisterResponse},
      s.prog j = .op o k → registerCall j {} o s.world ≠ none →
      ∃ j s', (registerMachine ι).step s (.op j {}) = some s' := by
    intro j o k hp hcall
    obtain ⟨⟨r, w⟩, hexec⟩ := Option.ne_none_iff_exists'.1 hcall
    exact ⟨j, Machine.exists_step hp hexec⟩
  obtain ⟨o, k, hp⟩ := Prog.exists_op_of_not_ended hi
  by_cases hcall : registerCall i {} o s.world = none
  · obtain ⟨-, -, -, -, -, row, ⟨j, u⟩, hu, -, -⟩ := waits_of_registerCall hcall
    obtain ⟨-, -, hauthored⟩ := (h.racing.entrants j).pending u hu
    -- the holder has sent its INSERT, so it will not wait
    obtain ⟨o', k', hp'⟩ := Prog.exists_op_of_not_ended fun hended =>
      h.nothing_pending hended u hu
    refine hstep hp' fun hcall' => ?_
    obtain ⟨id, username, hash, roleId, rfl, -⟩ := waits_of_registerCall hcall'
    have huntried : (registrationOf (s.hist j)).tried = false :=
      (Monitored.allows h.disciplined hp' : RegisterGhost.Allows _ _ _).1
    rw [hauthored.tried] at huntried
    cases huntried
  · exact hstep hp hcall

/--
In every interleaving of registrations, with failures and abandoned requests: a
request that has answered has a row of its own, with its name, a hash of its password
and the plain role; no two requests have answered with one name or one id; the only
HTTP error is a 500, sent only where another row has the name, and not by who has a
row; who has ended has left nothing uncommitted; and while some request has not
ended, some request can go on.
-/
theorem registrations_exclusive
    (hrun : (registerMachine ι).run (startRegistrations db data) ls = some s) :
    (∀ i response, Answered s i response →
      ∃ u ∈ s.world.users.committed, u ∉ db.users ∧
        u.id = response.userId ∧ u.username = response.username ∧
        varchar50 (data i).username = some u.username ∧ HashOf (data i) u.passwordHash ∧
        u.roleId = 1) ∧
    (∀ i j response response', Answered s i response → Answered s j response' → i ≠ j →
      response.userId ≠ response'.userId ∧ response.username ≠ response'.username) ∧
    (∀ i n, (s.prog i).outcome? = some (.error (.auth (.httpException n))) →
      n = 500 ∧
      (∀ response, ¬ Answered s i response) ∧
      ∃ u ∈ s.world.users.committed, varchar50 (data i).username = some u.username ∧
        (u ∈ db.users ∨ ∃ j, j ≠ i ∧ varchar50 (data j).username = some u.username ∧
          HashOf (data j) u.passwordHash)) ∧
    (∀ i, (s.prog i).Ended → ∀ u, (i, u) ∉ s.world.users.pending) ∧
    ∀ i, ¬ (s.prog i).Ended → ∃ j s', (registerMachine ι).step s (.op j {}) = some s' := by
  have h := registrationState_of_run hrun
  refine ⟨fun i response hanswered => ?_, fun i j response response' hi hj hij => ?_,
    fun i n hfails => ?_, fun i hended => h.nothing_pending hended, fun i hi => h.goes_on hi⟩
  · obtain ⟨reply, hmem⟩ := hanswered
    obtain ⟨u, hu, hid, hname, hauthored⟩ := h.told i response reply hmem
    exact ⟨u, hu, h.racing.not_old hauthored, hid, hname, hauthored.name,
      h.hashed i _ hauthored.hash, hauthored.role⟩
  · obtain ⟨reply, hmem⟩ := hi
    obtain ⟨reply', hmem'⟩ := hj
    obtain ⟨u, hu, hid, hname, hauthored⟩ := h.told i response reply hmem
    obtain ⟨v, hv, hid', hname', hauthored'⟩ := h.told j response' reply' hmem'
    have hu := UniqueRows.mem_rows_of_committed hu
    have hv := UniqueRows.mem_rows_of_committed hv
    refine ⟨fun hsame => hij ?_, fun hsame => hij ?_⟩
    · exact h.racing.author_unique hu hv (Or.inl (by rw [hid, hid', hsame])) hauthored hauthored'
    · exact h.racing.author_unique hu hv (Or.inr (by rw [hname, hname', hsame])) hauthored
        hauthored'
  · obtain ⟨rfl, hrefused⟩ : n = 500 ∧ (registrationOf (s.hist i)).refused = true := by
      rcases Monitored.outcome h.disciplined hfails with hkilled | hends
      · cases hkilled
      · exact RegisterEnds.refused hends n rfl
    obtain ⟨-, ⟨u, hu, hname⟩, hnone⟩ := (h.racing.entrants i).refused hrefused
    have hnot : ∀ v ∈ s.world.users.rows, ¬ Authored (data i) (registrationOf (s.hist i)) v :=
      fun v hv hauthored => hnone v hv hauthored.id
    refine ⟨rfl, ?_, u, hu, hname, ?_⟩
    · rintro response ⟨reply, hmem⟩
      obtain ⟨v, hv, -, -, hauthored⟩ := h.told i response reply hmem
      exact hnot v (UniqueRows.mem_rows_of_committed hv) hauthored
    · have hu := UniqueRows.mem_rows_of_committed hu
      rcases h.racing.rows u hu with hold | ⟨j, hj⟩
      · exact Or.inl hold
      · refine Or.inr ⟨j, ?_, hj.name, h.hashed j _ hj.hash⟩
        rintro rfl
        exact hnot u hu hj

/-- Calls without failures, in this order. -/
def registerTurns {ι : Type} (order : List ι) : List (RegisterLabel ι) :=
  order.map fun i => .op i {}

/-- The second request waits for the first one to commit. -/
def waitingTurns {ι : Type} (first second : ι) : List ι :=
  [first, first, first, second, second, first, second, first, first, first, first,
    second, second, second]

omit [PasswordLibraries] in
theorem registrations_exclusive_waiting :
    letI := samplePasswords
    ∃ s : RegisterConfig (Fin 2),
      (registerMachine (Fin 2)).run
        (startRegistrations AuthDb.initial fun _ => sampleCredentials)
        (registerTurns (waitingTurns 0 1)) = some s ∧
      (s.prog 1).outcome? = some (.error (.auth (.httpException 500))) ∧
      (∀ response, ¬ Answered s 1 response) ∧
      ∃ u ∈ s.world.users.committed, varchar50 sampleCredentials.username = some u.username := by
  let := samplePasswords
  have hrefused : ((registerMachine (Fin 2)).run
      (startRegistrations AuthDb.initial fun _ => sampleCredentials)
      (registerTurns (waitingTurns 0 1))).bind (fun s => (s.prog 1).outcome?) =
        some (.error (.auth (.httpException 500))) := by
    decide
  obtain ⟨s, hrun, houtcome⟩ := Option.bind_eq_some_iff.1 hrefused
  obtain ⟨-, -, hfails, -, -⟩ := registrations_exclusive hrun
  obtain ⟨-, hnot, u, hu, hname, -⟩ := hfails 1 500 houtcome
  exact ⟨s, hrun, houtcome, hnot, u, hu, hname⟩

end Safety

section Decisions

/-- The database takes the name, and the library the password. -/
structure Registrable (credentials : UserCredentials) : Prop where
  text : textParameter credentials.username = .ok credentials.username
  stored : (varchar50 credentials.username).isSome = true
  hash : ∀ salt, ∃ hash, hashPassword credentials.passwordHash salt = .ok hash

/-- A step of a request in which nothing fails. -/
def Undisturbed (l : RegisterLabel ι) : Prop :=
  ∃ i c, l = .op i c ∧ c.fault = .none

/-- No request has been abandoned, and none has seen a failure. -/
def Unfailing (data : ι → UserCredentials) (s : RegisterConfig ι) : Prop :=
  ∀ i, (registrationOf (s.hist i)).failed = false ∧
    (s.prog i).wp (registerMonitor (data i)) (RegisterEnds (data i)) (registrationOf (s.hist i))

theorem next_failed {g : RegisterGhost} {o : RegisterOp} {r : RegisterReply}
    {credentials : UserCredentials} {salt : Nat} {w w' : UsersWorld ι}
    (hcredentials : Registrable credentials) (hfailed : g.failed = false)
    (hallows : g.Allows credentials o) (h : runRegisterOp i salt o w = some (r, w')) :
    (g.next o r).failed = false := by
  cases r with
  | ok f => cases o <;> exact hfailed
  | error e =>
      cases o with
      | hashPassword password =>
          obtain ⟨-, rfl⟩ := hallows
          obtain ⟨hash, hhash⟩ := hcredentials.hash salt
          simp only [runRegisterOp, hhash] at h
          cases h
      | insertUser id username hash roleId =>
          obtain ⟨-, -, -, -, rfl⟩ := hallows
          have he : e = .auth (.integrityError true) := by
            simp only [runRegisterOp, insertUserRow] at h
            split at h
            · cases h
            · cases h
              rfl
            · simp [roles] at h
          subst he
          exact hfailed
      | nextUserId username =>
          obtain ⟨-, rfl⟩ := hallows
          obtain ⟨stored, hstored⟩ := Option.isSome_iff_exists.1 hcredentials.stored
          simp only [runRegisterOp, hstored] at h
          cases h
      | _ => cases h

theorem Unfailing.step (h : Unfailing data s) (hdata : ∀ i, Registrable (data i))
    (hl : Undisturbed l) (hstep : (registerMachine ι).step s l = some s') : Unfailing data s' := by
  obtain ⟨j, ⟨fault, salt⟩, rfl, rfl⟩ := hl
  obtain ⟨j', c, o, k, r, w, hj, hp, hexec, rfl⟩ | ⟨a, w, hl, -, -⟩ | ⟨j', o, k, hl, -, -⟩ :=
    Machine.step_cases hstep
  · cases hj
    intro i
    by_cases hij : i = j
    · subst hij
      obtain ⟨hfailed, hwp⟩ := h i
      rw [hp] at hwp
      simp only [update_self, registrationOf_snoc]
      have hcall : registerCall i ⟨.none, salt⟩ o s.world = some (r, w) := hexec
      exact ⟨next_failed (hdata i) hfailed hwp.1 hcall, hwp.2 r (registerCall_expects hcall)⟩
    · simp only [update_of_ne hij]
      exact h i
  · cases hl
  · cases hl

omit [DecidableEq ι] in
/-- Requests in which nothing failed have answered or met a name that was taken. -/
theorem Unfailing.outcome (h : Unfailing data s) (hdata : ∀ i, Registrable (data i))
    (hended : (s.prog i).Ended) :
    (∃ response, (s.prog i).outcome? = some (.ok response) ∧
      (registrationOf (s.hist i)).saved = some response) ∨
    ((s.prog i).outcome? = some (.error (.auth (.httpException 500))) ∧
      (registrationOf (s.hist i)).refused = true) := by
  obtain ⟨hfailed, hwp⟩ := h i
  cases hp : s.prog i with
  | ret response =>
      rw [hp] at hwp
      exact Or.inl ⟨response, rfl, RegisterEnds.saved hwp response rfl⟩
  | raise e =>
      rw [hp] at hwp
      rcases RegisterEnds.reason hwp e rfl with rfl | hfail | ⟨x, hx⟩
      · exact Or.inr ⟨rfl, (RegisterEnds.refused hwp 500 rfl).2⟩
      · cases hfailed.symm.trans hfail
      · cases (hdata i).text.symm.trans hx
  | op o k =>
      rw [hp] at hended
      cases hended

/--
Where nothing fails and no request is abandoned, all that can be registered is decided
by the names: a request for a name that was taken before gets a 500; of the requests
for any other name exactly one is answered, and the others get a 500.
-/
theorem registrations_decided (hdata : ∀ i, Registrable (data i))
    (hls : ∀ l ∈ ls, Undisturbed l)
    (hrun : (registerMachine ι).run (startRegistrations db data) ls = some s)
    (hended : ∀ i, (s.prog i).Ended) :
    (∀ i, (∃ response, (s.prog i).outcome? = some (.ok response)) ∨
      (s.prog i).outcome? = some (.error (.auth (.httpException 500)))) ∧
    (∀ i u, u ∈ db.users → varchar50 (data i).username = some u.username →
      (s.prog i).outcome? = some (.error (.auth (.httpException 500)))) ∧
    ∀ i, (∀ u ∈ db.users, varchar50 (data i).username ≠ some u.username) →
      ∃! j, varchar50 (data j).username = varchar50 (data i).username ∧
        ∃ response, (s.prog j).outcome? = some (.ok response) := by
  have h := registrationState_of_run hrun
  have hunfailing : Unfailing data s :=
    Machine.invariant_of_labels (Unfailing data)
      (fun _ _ _ hl h hstep => h.step hdata hl hstep) hls
      (fun i => ⟨rfl, register_disciplined⟩) hrun
  have hdecided := fun i => hunfailing.outcome hdata (hended i)
  -- who has answered has a row
  have hrow : ∀ i response, (s.prog i).outcome? = some (.ok response) →
      ∃ u ∈ s.world.users.rows, Authored (data i) (registrationOf (s.hist i)) u := by
    intro i response hi
    rcases hdecided i with ⟨response', -, hsaved⟩ | ⟨hrefusal, -⟩
    · obtain ⟨u, hu, -, -, hauthored⟩ := (h.racing.entrants i).saved response' hsaved
      exact ⟨u, UniqueRows.mem_rows_of_committed hu, hauthored⟩
    · cases hi.symm.trans hrefusal
  have hold : ∀ u ∈ db.users, u ∈ s.world.users.rows := fun u hu =>
    UniqueRows.mem_rows_of_committed (h.racing.grown.subset hu)
  refine ⟨fun i => ?_, fun i u hu hname => ?_, fun i hfree => ?_⟩
  · rcases hdecided i with ⟨response, hok, -⟩ | ⟨hrefusal, -⟩
    · exact Or.inl ⟨response, hok⟩
    · exact Or.inr hrefusal
  · rcases hdecided i with ⟨response, hok, -⟩ | ⟨hrefusal, -⟩
    · obtain ⟨v, hv, hauthored⟩ := hrow i response hok
      have hsame : v = u := UniqueRows.eq_of_conflict hv (hold u hu)
        (Or.inr (Option.some.inj (hauthored.name.symm.trans hname)))
      exact absurd hu (hsame ▸ h.racing.not_old hauthored)
    · exact hrefusal
  · have hexists : ∃ j, varchar50 (data j).username = varchar50 (data i).username ∧
        ∃ response, (s.prog j).outcome? = some (.ok response) := by
      rcases hdecided i with ⟨response, hok, -⟩ | ⟨-, hrefused⟩
      · exact ⟨i, rfl, response, hok⟩
      · obtain ⟨-, ⟨u, hu, hname⟩, -⟩ := (h.racing.entrants i).refused hrefused
        have hu := UniqueRows.mem_rows_of_committed hu
        rcases h.racing.rows u hu with hdb | ⟨j, hj⟩
        · exact absurd hname (hfree u hdb)
        · refine ⟨j, hj.name.trans hname.symm, ?_⟩
          -- a request that has a row has not been refused
          rcases hdecided j with ⟨response, hok, -⟩ | ⟨-, hrefused'⟩
          · exact ⟨response, hok⟩
          · exact absurd hj.id (((h.racing.entrants j).refused hrefused').2.2 u hu)
    obtain ⟨j, hname, response, hok⟩ := hexists
    refine ⟨j, ⟨hname, response, hok⟩, ?_⟩
    rintro k ⟨hname', response', hok'⟩
    obtain ⟨u, hu, hauthored⟩ := hrow j response hok
    obtain ⟨v, hv, hauthored'⟩ := hrow k response' hok'
    have hsame : v.username = u.username := Option.some.inj
      (hauthored'.name.symm.trans ((hname'.trans hname.symm).trans hauthored.name))
    exact h.racing.author_unique hv hu (Or.inr hsame) hauthored' hauthored

omit [PasswordLibraries] in
theorem registrations_decided_waiting :
    letI := samplePasswords
    ∃ s : RegisterConfig (Fin 2),
      (registerMachine (Fin 2)).run
        (startRegistrations AuthDb.initial fun _ => sampleCredentials)
        (registerTurns (waitingTurns 0 1)) = some s ∧
      ∃! j, varchar50 sampleCredentials.username = varchar50 sampleCredentials.username ∧
        ∃ response, (s.prog j).outcome? = some (.ok response) := by
  let := samplePasswords
  have hends : ((registerMachine (Fin 2)).run
      (startRegistrations AuthDb.initial fun _ => sampleCredentials)
      (registerTurns (waitingTurns 0 1))).map
        (fun s => ((s.prog 0).next?.isNone, (s.prog 1).next?.isNone)) = some (true, true) := by
    decide
  obtain ⟨s, hrun, hnone⟩ := Option.map_eq_some_iff.1 hends
  obtain ⟨h0, h1⟩ := Prod.mk.inj hnone
  have hdata : Registrable sampleCredentials :=
    ⟨by rfl, by decide, fun salt => ⟨sampleCredentials.passwordHash.toUTF8, rfl⟩⟩
  have hcalls : ∀ l ∈ registerTurns (waitingTurns (0 : Fin 2) 1), Undisturbed l :=
    List.forall_mem_map.2 fun i _ => ⟨i, {}, rfl, rfl⟩
  obtain ⟨-, -, hone⟩ := registrations_decided (fun _ => hdata) hcalls hrun
    (Fin.forall_fin_two.2 ⟨Option.isNone_iff_eq_none.1 h0, Option.isNone_iff_eq_none.1 h1⟩)
  exact ⟨s, hrun, hone 0 fun u hu => by cases hu⟩

end Decisions

end Runs

end RegistrationRaces

end SmartHttpRequester
