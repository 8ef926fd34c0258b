import SmartHttpRequester.Registrations

/-!
# What a registration does, and what its calls do

`register_disciplined`: a registration sends one INSERT, of what it was asked for,
answers only with the row of a COMMIT that went through, and of all HTTP errors ends
with a 500 only, and only if its INSERT was refused.  The 409 that `auth_register` has
for a name that is taken is never sent.  `registerCall_effect`: what each call does to
the table.
-/

namespace SmartHttpRequester

open Foundations

section RegistrationDiscipline

section Discipline

/-- What a registration has done so far. -/
structure RegisterGhost where
  passwordHash : Option ByteArray := none
  /-- the value of the serial -/
  id : Option UserId := none
  /-- the INSERT has been sent -/
  tried : Bool := false
  /-- the INSERT has been refused, by a unique constraint -/
  refused : Bool := false
  /-- a transaction with the INSERT has not ended -/
  unsettled : Bool := false
  /-- the row of the INSERT, before the COMMIT -/
  standing : Option UserRegisterResponse := none
  /-- and after it -/
  saved : Option UserRegisterResponse := none
  /-- a call has failed otherwise -/
  failed : Bool := false

namespace RegisterGhost

def succeed (g : RegisterGhost) (f : RegisterFetched) : RegisterOp → RegisterGhost
  | .hashPassword _ => { g with passwordHash := some f.passwordHash }
  | .nextUserId _ => { g with id := some f.userId }
  | .insertUser _ _ _ _ =>
      { g with tried := true, unsettled := true, standing := some ⟨f.userId, f.username⟩ }
  | .commit =>
      { g with unsettled := false, standing := none, saved := g.standing <|> g.saved }
  | .rollback | .close => { g with unsettled := false, standing := none }
  | .respond _ => g

def fail (g : RegisterGhost) (e : RegisterExc) : RegisterOp → RegisterGhost
  | .insertUser _ _ _ _ =>
      if e = .auth (.integrityError true) then { g with tried := true, refused := true }
      else { g with tried := true, unsettled := true, failed := true }
  | .commit => { g with standing := none, failed := true }
  | .rollback | .close => { g with unsettled := false, standing := none, failed := true }
  | _ => { g with failed := true }

def next (g : RegisterGhost) (o : RegisterOp) : RegisterReply → RegisterGhost
  | .ok f => g.succeed f o
  | .error e => g.fail e o

/-- One INSERT, of what the request asks for; the answer is the committed row. -/
def Allows (data : UserCredentials) (g : RegisterGhost) : RegisterOp → Prop
  | .hashPassword password => g.tried = false ∧ password = data.passwordHash
  | .nextUserId username => g.tried = false ∧ username = data.username
  | .insertUser id username passwordHash roleId =>
      g.tried = false ∧ g.id = some id ∧ varchar50 data.username = some username ∧
        g.passwordHash = some passwordHash ∧ roleId = 1
  | .respond r => g.saved = some r
  | _ => True

end RegisterGhost

/-- What is refused by a constraint: a taken key, or a role that there is not. -/
def RegisterOp.Refused (o : RegisterOp) (unique : Bool) : Prop :=
  ∃ id username hash roleId,
    o = .insertUser id username hash roleId ∧ (unique = false → roleId ∉ roles.map Prod.fst)

/--
Only the INSERT meets a constraint, and no call raises what the code itself raises.
The text of the column is the one that was asked for.
-/
structure RegisterOp.Expects (o : RegisterOp) (r : RegisterReply) : Prop where
  refused : ∀ unique, r = .error (.auth (.integrityError unique)) → o.Refused unique
  raised : ∀ e, r = .error e →
    e ≠ .auth .userAlreadyExists ∧ e ≠ .auth .unknownException ∧ ∀ n, e ≠ .auth (.httpException n)
  stored : ∀ text f, o = .nextUserId text → r = .ok f → varchar50 text = some f.username

def registerMonitor (data : UserCredentials) :
    Prog.Monitor RegisterOp RegisterFetched RegisterExc RegisterGhost where
  allows := RegisterGhost.Allows data
  expects := RegisterOp.Expects
  next := RegisterGhost.next

/-- How a registration can end. -/
structure RegisterEnds (data : UserCredentials) (r : Except RegisterExc UserRegisterResponse)
    (g : RegisterGhost) : Prop where
  settled : g.unsettled = false
  saved : ∀ response, r = .ok response → g.saved = some response
  refused : ∀ n, r = .error (.auth (.httpException n)) → n = 500 ∧ g.refused = true
  reason : ∀ e, r = .error e → e = .auth (.httpException 500) ∨ g.failed = true ∨
    ∃ x, textParameter data.username = .error x

variable {data : UserCredentials} {g : RegisterGhost}

/-- The exceptions between the database and the `except` clauses. -/
structure CreateFails (data : UserCredentials) (e : RegisterExc) (g : RegisterGhost) : Prop where
  refused : ∀ unique, e = .auth (.integrityError unique) → g.refused = true
  reason : (∃ unique, e = .auth (.integrityError unique)) ∨ g.failed = true ∨
    ∃ x, textParameter data.username = .error x
  raised : e ≠ .auth .userAlreadyExists ∧ e ≠ .auth .unknownException ∧
    ∀ n, e ≠ .auth (.httpException n)

theorem textParameter_error {text : String} {x : AuthExc} (h : textParameter text = .error x) :
    x = .dataError := by
  unfold textParameter at h
  split at h <;> cases h
  rfl

theorem textParameter_ok {text text' : String} (h : textParameter text = .ok text') :
    text' = text := by
  unfold textParameter at h
  split at h <;> cases h
  rfl

/-- A call that fails with something from outside. -/
theorem CreateFails.of_fail {o : RegisterOp} {e : RegisterExc}
    (hexpects : o.Expects (.error e)) (ho : ∀ id username hash roleId,
      o ≠ .insertUser id username hash roleId) :
    CreateFails data e (g.next o (.error e)) ∧ ∀ unique, e ≠ .auth (.integrityError unique) := by
  have hother : ∀ unique, e ≠ .auth (.integrityError unique) := by
    intro unique hunique
    obtain ⟨id, username, hash, roleId, heq, -⟩ := hexpects.refused unique (congrArg _ hunique)
    exact ho id username hash roleId heq
  refine ⟨⟨fun unique h => absurd h (hother unique), Or.inr (Or.inl ?_), hexpects.raised e rfl⟩,
    hother⟩
  cases o with
  | insertUser id username hash roleId => exact absurd rfl (ho id username hash roleId)
  | _ => rfl

/-- The INSERT fails; the plain role is there, so only the name can be refused. -/
theorem CreateFails.of_insert {id : UserId} {username : String} {hash : ByteArray}
    {e : RegisterExc} (hexpects : (RegisterOp.insertUser id username hash 1).Expects (.error e)) :
    CreateFails data e (g.next (.insertUser id username hash 1) (.error e)) := by
  by_cases hunique : e = .auth (.integrityError true)
  · subst hunique
    exact ⟨fun _ _ => rfl, Or.inl ⟨true, rfl⟩, hexpects.raised _ rfl⟩
  · refine ⟨fun unique h => ?_, Or.inr (Or.inl ?_), hexpects.raised e rfl⟩
    · subst h
      cases unique with
      | true => exact absurd rfl hunique
      | false =>
          obtain ⟨id', username', hash', roleId, heq, hrole⟩ := hexpects.refused false rfl
          cases heq
          exact absurd (by decide) (hrole rfl)
    · simp [RegisterGhost.next, RegisterGhost.fail, hunique]

theorem insertUser_disciplined {hash : ByteArray} (htried : g.tried = false)
    (hhash : g.passwordHash = some hash) :
    (RegisterProg.insertUser data.username hash 1).wp (registerMonitor data)
      (fun r g' => Prog.onResult (fun row => g'.standing = some row)
        (fun e => CreateFails data e g') r) g := by
  unfold RegisterProg.insertUser
  cases htext : textParameter data.username with
  | error x =>
      refine ⟨fun unique h => ?_, Or.inr (Or.inr ⟨x, htext⟩), ?_⟩
      · rw [textParameter_error htext] at h
        cases h
      · rw [textParameter_error htext]
        simp
  | ok text =>
      obtain rfl := textParameter_ok htext
      refine (Prog.wp_bind _ _ _ _ _).2 ((Prog.wp_perform _ _ _ _).2 ⟨⟨htried, rfl⟩,
        fun f hf => ?_, fun e he => (CreateFails.of_fail he (by simp)).1⟩)
      have hstored : varchar50 data.username = some f.username :=
        hf.stored data.username f rfl rfl
      exact (Prog.wp_bind _ _ _ _ _).2 ((Prog.wp_perform _ _ _ _).2
        ⟨⟨htried, rfl, hstored, hhash, rfl⟩, fun row _ => rfl, fun e he => CreateFails.of_insert he⟩)

/-- How `create_new_user` ends: its session is closed. -/
structure Created (data : UserCredentials) (r : Except RegisterExc UserRegisterResponse)
    (g : RegisterGhost) : Prop where
  settled : g.unsettled = false ∧ g.standing = none
  saved : ∀ response, r = .ok response → g.saved = some response
  fails : ∀ e, r = .error e → CreateFails data e g

theorem CreateFails.closed {e : RegisterExc} (h : CreateFails data e g) :
    CreateFails data e { g with unsettled := false, standing := none } :=
  ⟨h.refused, h.reason, h.raised⟩

theorem createNewUser_disciplined {hash : ByteArray} (htried : g.tried = false)
    (hhash : g.passwordHash = some hash) :
    (RegisterProg.createNewUser data.username hash 1).wp (registerMonitor data)
      (Created data) g := by
  have hclose : ∀ (r : Except RegisterExc UserRegisterResponse) (g : RegisterGhost),
      (∀ response, r = .ok response → g.saved = some response) →
      (∀ e, r = .error e → CreateFails data e g) →
      (Prog.effect .close : RegisterProg Unit).wp (registerMonitor data)
        (fun r' g' => Prog.onResult (fun _ => Created data r g')
          (fun e => Created data (.error e) g') r') g := by
    intro r g hsaved hfails
    refine (Prog.wp_effect _ _ _ _).2 ⟨trivial, fun _ _ => ?_, fun e he => ?_⟩
    · exact ⟨⟨rfl, rfl⟩, hsaved, fun e he => (hfails e he).closed⟩
    · refine ⟨⟨rfl, rfl⟩, fun response h => (by cases h), fun e' he' => ?_⟩
      cases he'
      exact (CreateFails.of_fail he (by simp)).1
  refine (Prog.wp_tryFinally _ _ _ _ _).2 ((Prog.wp_bind _ _ _ _ _).2 ?_)
  refine Prog.wp_mono _ (insertUser_disciplined htried hhash) ?_
  rintro (e | row) g' hg
  · exact hclose _ _ (fun response h => by cases h) fun e' he' => by cases he'; exact hg
  · refine (Prog.wp_bind _ _ _ _ _).2 ((Prog.wp_effect _ _ _ _).2
      ⟨trivial, fun _ _ => ?_, fun e he => ?_⟩)
    · refine hclose _ _ (fun response h => ?_) fun e he => by cases he
      cases h
      have hstanding : g'.standing = some row := hg
      simp [registerMonitor, RegisterGhost.next, RegisterGhost.succeed, hstanding]
    · refine hclose _ _ (fun response h => by cases h) fun e' he' => ?_
      cases he'
      exact (CreateFails.of_fail he (by simp)).1

/-- What the `except` clauses make of an exception. -/
structure RegisterFails (data : UserCredentials) (e : RegisterExc) (g : RegisterGhost) : Prop where
  refused : ∀ n, e = .auth (.httpException n) → n = 500 ∧ g.refused = true
  reason : e = .auth (.httpException 500) ∨ g.failed = true ∨
    ∃ x, textParameter data.username = .error x

/-- Whatever constraint it was, `create_user` makes an `UnknownException` of it. -/
theorem CreateFails.translated {e : RegisterExc} (h : CreateFails data e g) :
    RegisterFails data (RegisterProg.registerExcept (RegisterProg.createUserExcept e)) g := by
  obtain ⟨hrefused, hreason, hraised⟩ := h
  cases e with
  | external =>
      exact ⟨fun n h => (by cases h), hreason.imp_left fun ⟨_, h⟩ => by cases h⟩
  | cancelledError =>
      exact ⟨fun n h => (by cases h), hreason.imp_left fun ⟨_, h⟩ => by cases h⟩
  | auth x =>
      cases x with
      | integrityError unique =>
          exact ⟨fun n h => ⟨by cases h; rfl, hrefused unique rfl⟩, Or.inl rfl⟩
      | userAlreadyExists => exact absurd rfl hraised.1
      | unknownException => exact absurd rfl hraised.2.1
      | httpException statusCode => exact absurd rfl (hraised.2.2 statusCode)
      | _ => exact ⟨fun n h => (by cases h), hreason.imp_left fun ⟨_, h⟩ => by cases h⟩

/-- How `auth_register` ends. -/
structure Registers (data : UserCredentials) (r : Except RegisterExc UserRegisterResponse)
    (g : RegisterGhost) : Prop where
  settled : g.unsettled = false ∧ g.standing = none
  saved : ∀ response, r = .ok response → g.saved = some response
  fails : ∀ e, r = .error e → RegisterFails data e g

theorem authRegister_disciplined :
    (RegisterProg.authRegister data).wp (registerMonitor data) (Registers data) {} := by
  refine (Prog.wp_tryCatch _ _ _ _ _).2 ((Prog.wp_bind _ _ _ _ _).2 ?_)
  refine (Prog.wp_perform _ _ _ _).2 ⟨⟨rfl, rfl⟩, fun f _ => ?_, fun e he => ?_⟩
  · refine (Prog.wp_tryCatch _ _ _ _ _).2 ?_
    refine Prog.wp_mono _ (createNewUser_disciplined rfl rfl) ?_
    rintro (e | row) g hg
    · refine ⟨hg.settled, fun response h => (by cases h), fun e' he' => ?_⟩
      cases he'
      exact (hg.fails e rfl).translated
    · exact ⟨hg.settled, hg.saved, fun e he => by cases he⟩
  · obtain ⟨hfails, hother⟩ := @CreateFails.of_fail data {} _ e he (by simp)
    have hsame : RegisterProg.createUserExcept e = e := by
      cases e with
      | auth x =>
          cases x with
          | integrityError unique => exact absurd rfl (hother unique)
          | _ => rfl
      | _ => rfl
    have htranslated := hfails.translated
    rw [hsame] at htranslated
    refine ⟨⟨rfl, rfl⟩, fun response h => (by cases h), fun e' he' => ?_⟩
    cases he'
    exact htranslated

/-- A registration keeps to its order, whatever its calls answer. -/
theorem register_disciplined :
    (RegisterProg.register data).wp (registerMonitor data) (RegisterEnds data) {} := by
  have hclose : ∀ (r : Except RegisterExc UserRegisterResponse) (g : RegisterGhost),
      (∀ response, r = .ok response → g.saved = some response) →
      (∀ e, r = .error e → RegisterFails data e g) →
      (Prog.effect .close : RegisterProg Unit).wp (registerMonitor data)
        (fun r' g' => Prog.onResult (fun _ => RegisterEnds data r g')
          (fun e => RegisterEnds data (.error e) g') r') g := by
    intro r g hsaved hfails
    refine (Prog.wp_effect _ _ _ _).2 ⟨trivial, fun _ _ => ?_, fun e he => ?_⟩
    · exact ⟨rfl, hsaved, fun n h => (hfails _ h).refused n rfl, fun e h => (hfails e h).reason⟩
    · refine ⟨rfl, fun response h => (by cases h), fun n h => ?_, fun e' he' => Or.inr (Or.inl rfl)⟩
      cases h
      exact absurd rfl ((he.raised _ rfl).2.2 n)
  have hfailed : ∀ {o : RegisterOp} {e : RegisterExc} {g : RegisterGhost},
      o.Expects (.error e) → (g.next o (.error e)).failed = true →
      RegisterFails data e (g.next o (.error e)) := by
    intro o e g he hfailed
    refine ⟨fun n h => ?_, Or.inr (Or.inl hfailed)⟩
    subst h
    exact absurd rfl ((he.raised _ rfl).2.2 n)
  have hrollback : ∀ (e : RegisterExc) (g : RegisterGhost), RegisterFails data e g →
      ((do
        Prog.effect .rollback
        .raise e) : RegisterProg UserRegisterResponse).wp (registerMonitor data)
        (fun r g' => (Prog.effect .close : RegisterProg Unit).wp (registerMonitor data)
          (fun r' g'' => Prog.onResult (fun _ => RegisterEnds data r g'')
            (fun e => RegisterEnds data (.error e) g'') r') g') g := by
    intro e g hfails
    refine (Prog.wp_bind _ _ _ _ _).2 ((Prog.wp_effect _ _ _ _).2
      ⟨trivial, fun _ _ => ?_, fun e' he' => ?_⟩)
    · refine hclose _ _ (fun response h => by cases h) fun e' he' => ?_
      cases he'
      exact ⟨hfails.refused, hfails.reason⟩
    · refine hclose _ _ (fun response h => by cases h) fun e'' he'' => ?_
      cases he''
      exact hfailed he' rfl
  refine (Prog.wp_tryFinally _ _ _ _ _).2 ((Prog.wp_tryCatch _ _ _ _ _).2 ?_)
  refine (Prog.wp_bind _ _ _ _ _).2 (Prog.wp_mono _ authRegister_disciplined ?_)
  rintro (e | response) g hg
  · exact hrollback e g (hg.fails e rfl)
  · have hsaved := hg.saved response rfl
    refine (Prog.wp_bind _ _ _ _ _).2 ((Prog.wp_effect _ _ _ _).2
      ⟨hsaved, fun _ _ => ?_, fun e he => hrollback e _ (hfailed he rfl)⟩)
    refine (Prog.wp_bind _ _ _ _ _).2 ((Prog.wp_effect _ _ _ _).2
      ⟨trivial, fun _ _ => ?_, fun e he => hrollback e _ (hfailed he rfl)⟩)
    refine hclose _ _ (fun response' h => ?_) fun e he => by cases he
    cases h
    simp [registerMonitor, RegisterGhost.next, RegisterGhost.succeed, hg.settled.2, hsaved]

end Discipline

section Effects

variable [PasswordLibraries] {ι : Type} [DecidableEq ι] {i : ι} {c : RegisterChoice}
variable {o : RegisterOp} {r : RegisterReply} {w w' : UsersWorld ι}

/-- These answers leave the table as it was, and say nothing about it. -/
def RegisterOp.Unaffecting : RegisterOp → RegisterReply → Prop
  | .hashPassword _, _ => True
  | .respond _, _ => True
  | .nextUserId _, .error _ => True
  | .commit, .error _ => True
  | .insertUser _ _ _ _, .error e => e ≠ .auth (.integrityError true)
  | _, _ => False

/-- What a call does to the table, and how its answer depends on it. -/
inductive RegisterEffect (i : ι) (w : UsersWorld ι) :
    RegisterOp → RegisterReply → UsersWorld ι → Prop
  | unchanged {o : RegisterOp} {r : RegisterReply} (h : o.Unaffecting r) :
      RegisterEffect i w o r w
  | refused {id : UserId} {username : String} {hash : ByteArray} {roleId : Int}
      (h : w.users.Refuses i ⟨id, username, hash, roleId⟩) :
      RegisterEffect i w (.insertUser id username hash roleId)
        (.error (.auth (.integrityError true))) w
  | numbered {username : String} {r : RegisterReply}
      (h : ∀ f, r = .ok f → f.userId = w.nextUserId) :
      RegisterEffect i w (.nextUserId username) r { w with nextUserId := w.nextUserId + 1 }
  | inserted {id : UserId} {username : String} {hash : ByteArray} {roleId : Int}
      {t : UniqueRows ι UserRow SameKey} {r : RegisterReply}
      (h : w.users.insert i ⟨id, username, hash, roleId⟩ = some (some t))
      (hok : ∀ f, r = .ok f → f.userId = id ∧ f.username = username)
      (hnot : r ≠ .error (.auth (.integrityError true))) :
      RegisterEffect i w (.insertUser id username hash roleId) r { w with users := t }
  | committed {r : RegisterReply} :
      RegisterEffect i w .commit r { w with users := w.users.commit i }
  | rolledBack {o : RegisterOp} {r : RegisterReply} (ho : o = .rollback ∨ o = .close) :
      RegisterEffect i w o r { w with users := w.users.rollback i }

omit [PasswordLibraries] in
theorem insertUserRow_effect {id : UserId} {username : String} {hash : ByteArray} {roleId : Int}
    (h : insertUserRow i ⟨id, username, hash, roleId⟩ w = some (r, w')) :
    RegisterEffect i w (.insertUser id username hash roleId) r w' := by
  unfold insertUserRow at h
  cases hinsert : w.users.insert i ⟨id, username, hash, roleId⟩ with
  | none => simp [hinsert] at h
  | some result =>
      cases result with
      | none =>
          simp only [hinsert, Option.some.injEq, Prod.mk.injEq] at h
          obtain ⟨rfl, rfl⟩ := h
          exact .refused (UniqueRows.refuses_of_insert hinsert)
      | some t =>
          simp only [hinsert] at h
          split at h
          · simp only [Option.some.injEq, Prod.mk.injEq] at h
            obtain ⟨rfl, rfl⟩ := h
            exact .inserted hinsert (fun f hf => by cases hf; exact ⟨rfl, rfl⟩) (by simp)
          · simp only [Option.some.injEq, Prod.mk.injEq] at h
            obtain ⟨rfl, rfl⟩ := h
            refine .unchanged ?_
            show RegisterExc.auth (.integrityError false) ≠ .auth (.integrityError true)
            simp

theorem runRegisterOp_effect {salt : Nat} (h : runRegisterOp i salt o w = some (r, w')) :
    RegisterEffect i w o r w' := by
  cases o with
  | hashPassword password =>
      simp only [runRegisterOp] at h
      split at h <;> cases h <;> exact .unchanged trivial
  | nextUserId username =>
      simp only [runRegisterOp] at h
      split at h
      · cases h
        exact .unchanged trivial
      · cases h
        exact .numbered fun f hf => by cases hf; rfl
  | insertUser id username hash roleId => exact insertUserRow_effect h
  | commit =>
      cases h
      exact .committed
  | rollback =>
      cases h
      exact .rolledBack (Or.inl rfl)
  | close =>
      cases h
      exact .rolledBack (Or.inr rfl)
  | respond response =>
      cases h
      exact .unchanged trivial

omit [PasswordLibraries] in
/-- A failure afterwards hides the answer. -/
theorem RegisterEffect.hidden (h : RegisterEffect i w o r w') :
    RegisterEffect i w o (.error .external) w' := by
  cases h with
  | unchanged h =>
      refine .unchanged ?_
      cases o with
      | insertUser id username hash roleId => exact fun h => by cases h
      | rollback => exact h
      | close => exact h
      | _ => trivial
  | refused h => exact .unchanged fun h => by cases h
  | numbered h => exact .numbered fun f hf => by cases hf
  | inserted h hok hnot => exact .inserted h (fun f hf => by cases hf) (by simp)
  | committed => exact .committed
  | rolledBack ho => exact .rolledBack ho

theorem registerCall_effect (h : registerCall i c o w = some (r, w')) :
    RegisterEffect i w o r w' := by
  obtain ⟨fault, salt⟩ := c
  cases fault with
  | none => exact runRegisterOp_effect h
  | before =>
      simp only [registerCall] at h
      split at h
      · cases h
      · simp only [Option.some.injEq, Prod.mk.injEq] at h
        obtain ⟨rfl, rfl⟩ := h
        cases o with
        | rollback => exact .rolledBack (Or.inl rfl)
        | close => exact .rolledBack (Or.inr rfl)
        | insertUser id username hash roleId => exact .unchanged fun h => by cases h
        | _ => exact .unchanged trivial
  | after =>
      simp only [registerCall] at h
      split at h
      · cases h
      · obtain ⟨⟨r', w₁⟩, hrun, heq⟩ := Option.map_eq_some_iff.1 h
        obtain ⟨rfl, rfl⟩ := Prod.mk.inj heq
        exact (runRegisterOp_effect hrun).hidden

theorem hashPassword_error {password : String} {salt : Nat} {e : AuthExc}
    (h : hashPassword password salt = .error e) : e = .hashingError ∨ e = .valueError := by
  unfold hashPassword at h
  split at h <;> split at h <;> cases h
  · exact Or.inl rfl
  · exact Or.inr rfl

omit [PasswordLibraries] in
theorem expects_ok {f : RegisterFetched} (ho : ∀ text, o ≠ .nextUserId text) :
    o.Expects (.ok f) :=
  ⟨fun unique he => (by cases he), fun e he => (by cases he), fun text f h => absurd h (ho text)⟩

omit [PasswordLibraries] in
theorem expects_external : o.Expects (.error .external) :=
  ⟨fun unique h => (by cases h), fun e he => by cases he; simp, fun text f ho h => by cases h⟩

omit [PasswordLibraries] in
theorem insertUserRow_expects {id : UserId} {username : String} {hash : ByteArray} {roleId : Int}
    (h : insertUserRow i ⟨id, username, hash, roleId⟩ w = some (r, w')) :
    (RegisterOp.insertUser id username hash roleId).Expects r := by
  have hrefused : ∀ unique, (unique = false → roleId ∉ roles.map Prod.fst) →
      (RegisterOp.insertUser id username hash roleId).Expects
        (.error (.auth (.integrityError unique))) := by
    intro unique hrole
    refine ⟨fun unique' he => ⟨id, username, hash, roleId, rfl, ?_⟩, fun e he => ?_,
      fun text f ho h => by cases h⟩
    · cases he
      exact hrole
    · cases he
      simp
  unfold insertUserRow at h
  split at h
  · cases h
  · cases h
    exact hrefused true fun hfalse => by cases hfalse
  · split at h
    · cases h
      exact expects_ok (by simp)
    · rename_i hrole
      cases h
      exact hrefused false fun _ => hrole

theorem runRegisterOp_expects {salt : Nat} (h : runRegisterOp i salt o w = some (r, w')) :
    o.Expects r := by
  cases o with
  | hashPassword password =>
      simp only [runRegisterOp] at h
      split at h
      · rename_i x hhash
        cases h
        refine ⟨fun unique he => ?_, fun e he => ?_, fun text f ho => by cases ho⟩
        · cases he
          rcases hashPassword_error hhash with hx | hx <;> cases hx
        · cases he
          rcases hashPassword_error hhash with rfl | rfl <;> simp
      · cases h
        exact expects_ok (by simp)
  | nextUserId username =>
      simp only [runRegisterOp] at h
      split at h
      · cases h
        exact ⟨fun unique he => (by cases he), fun e he => by cases he; simp,
          fun text f ho hf => by cases hf⟩
      · rename_i stored hstored
        cases h
        refine ⟨fun unique he => (by cases he), fun e he => (by cases he), fun text f ho hf => ?_⟩
        cases ho
        cases hf
        exact hstored
  | insertUser id username hash roleId => exact insertUserRow_expects h
  | _ =>
      cases h
      exact expects_ok (by simp)

theorem registerCall_expects (h : registerCall i c o w = some (r, w')) : o.Expects r := by
  obtain ⟨fault, salt⟩ := c
  cases fault with
  | none => exact runRegisterOp_expects h
  | before =>
      simp only [registerCall] at h
      split at h <;> cases h
      exact expects_external
  | after =>
      simp only [registerCall] at h
      split at h
      · cases h
      · obtain ⟨⟨r', w₁⟩, -, heq⟩ := Option.map_eq_some_iff.1 h
        obtain ⟨rfl, rfl⟩ := Prod.mk.inj heq
        exact expects_external

end Effects

end RegistrationDiscipline

end SmartHttpRequester
