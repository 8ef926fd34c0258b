import SmartHttpRequester.SequentialRequests

/-!
# What a user learns of the tasks of others

PUT and DELETE write a row before they look at its owner, and the response of a
refused request is decided by what they have read.  `requests_confidential`: in two
tables that agree on the user's own rows and on which tasks exist, every request of
the user gets the same response and leaves the user's rows the same.
-/

namespace SmartHttpRequester

open Foundations Function

section Confidentiality

/-- The tables agree on the rows of the user, and on which ids are in use. -/
structure AgreeFor (user : UserId) (rows rows' : Rows) : Prop where
  existing : ∀ id, (rows' id).isSome = (rows id).isSome
  owned : ∀ id row, row.userId = user → (rows' id = some row ↔ rows id = some row)

/-- Two worlds that a user may not tell apart. -/
structure SameFor {ι : Type} (user : UserId) (w w' : World ι) : Prop where
  clock : w'.clock = w.clock
  keys : w'.tasks.keys.Perm w.tasks.keys
  rows : AgreeFor user w.tasks.committed w'.tasks.committed

variable [UrlValidator]

def Rows.Validate (rows : Rows) : Prop :=
  ∀ id row, rows id = some row → (TaskResponse.modelValidate row).isSome = true

variable {user : UserId} {rows rows' : Rows} {taskId : UUID}

theorem modelValidate_isSome (row : TaskRow) :
    (TaskResponse.modelValidate row).isSome = (UrlValidator.validate row.url).isSome := by
  simp [TaskResponse.modelValidate]

omit [UrlValidator] in
/-- A task is nobody's, the user's own and the same in both tables, or another user's in both. -/
theorem AgreeFor.cases (h : AgreeFor user rows rows') (id : UUID) :
    (rows id = none ∧ rows' id = none) ∨
    (∃ row, row.userId = user ∧ rows id = some row ∧ rows' id = some row) ∨
    (∃ row row', row.userId ≠ user ∧ row'.userId ≠ user ∧
      rows id = some row ∧ rows' id = some row') := by
  cases hrow : rows id with
  | none =>
      have hnone := h.existing id
      rw [hrow] at hnone
      exact Or.inl ⟨rfl, by simpa using hnone⟩
  | some row =>
      by_cases howner : row.userId = user
      · exact Or.inr (Or.inl ⟨row, howner, rfl, (h.owned id row howner).2 hrow⟩)
      · have hsome := h.existing id
        rw [hrow] at hsome
        obtain ⟨row', hrow'⟩ := Option.isSome_iff_exists.1 hsome
        refine Or.inr (Or.inr ⟨row, row', howner, fun howner' => ?_, rfl, hrow'⟩)
        have hboth := (h.owned id row' howner').1 hrow'
        rw [hrow] at hboth
        cases hboth
        exact howner howner'

/-- The same response, and tables that still agree on the user's rows. -/
structure SameOutcome (user : UserId) (out out' : Outcome) : Prop where
  response : out'.1 = out.1
  owned : ∀ id row, row.userId = user → (out'.2 id = some row ↔ out.2 id = some row)

omit [UrlValidator] in
theorem AgreeFor.refused (h : AgreeFor user rows rows') (e : Exc) :
    SameOutcome user (.error e, rows) (.error e, rows') :=
  ⟨rfl, h.owned⟩

theorem AgreeFor.infoOutcome (h : AgreeFor user rows rows') (hvalid : rows.Validate)
    (hvalid' : rows'.Validate) :
    SameOutcome user (infoOutcome user taskId rows) (infoOutcome user taskId rows') := by
  rcases h.cases taskId with ⟨hrow, hrow'⟩ | ⟨row, howner, hrow, hrow'⟩ |
      ⟨row, row', howner, howner', hrow, hrow'⟩
  · simp only [SmartHttpRequester.infoOutcome, hrow, hrow']
    exact h.refused _
  · simp only [SmartHttpRequester.infoOutcome, hrow, hrow']
    cases TaskResponse.modelValidate row with
    | none => exact h.refused _
    | some task => simpa [howner] using ⟨rfl, h.owned⟩
  · obtain ⟨task, htask⟩ := Option.isSome_iff_exists.1 (hvalid taskId row hrow)
    obtain ⟨task', htask'⟩ := Option.isSome_iff_exists.1 (hvalid' taskId row' hrow')
    simp only [SmartHttpRequester.infoOutcome, hrow, hrow', htask, htask', if_pos howner,
      if_pos howner']
    exact h.refused _

/-- Nothing of another user's row decides whether the row that is written validates. -/
theorem AgreeFor.writeOutcome (h : AgreeFor user rows rows') {past : String}
    {written : TaskRow → TaskRow}
    (hwritten : ∀ row row', rows taskId = some row → rows' taskId = some row' →
      ((TaskResponse.modelValidate (written row)).isSome = true ∧
        (TaskResponse.modelValidate (written row')).isSome = true) ∨
      (written row').url = (written row).url) :
    SameOutcome user (writeOutcome user taskId past written rows)
      (writeOutcome user taskId past written rows') := by
  rcases h.cases taskId with ⟨hrow, hrow'⟩ | ⟨row, howner, hrow, hrow'⟩ |
      ⟨row, row', howner, howner', hrow, hrow'⟩
  · simp only [SmartHttpRequester.writeOutcome, hrow, hrow']
    exact h.refused _
  · simp only [SmartHttpRequester.writeOutcome, hrow, hrow']
    cases TaskResponse.modelValidate (written row) with
    | none => exact h.refused _
    | some task =>
        by_cases hpending : row.status = .pending
        · simp only [howner, hpending, ne_eq, not_true_eq_false, if_false]
          refine ⟨rfl, fun id r hr => ?_⟩
          by_cases hid : id = taskId
          · subst hid
            simp
          · simpa [hid] using h.owned id r hr
        · simpa [howner, hpending] using ⟨rfl, h.owned⟩
  · have hsame := hwritten row row' hrow hrow'
    simp only [SmartHttpRequester.writeOutcome, hrow, hrow']
    cases htask : TaskResponse.modelValidate (written row) with
    | none =>
        rw [htask] at hsame
        have hurl : (written row').url = (written row).url := hsame.resolve_left (by simp)
        have hnone : TaskResponse.modelValidate (written row') = none := by
          rw [← Option.isNone_iff_eq_none, ← Option.not_isSome, modelValidate_isSome, hurl,
            ← modelValidate_isSome, htask]
          rfl
        simp only [hnone, TaskRow.errorText, hurl]
        exact h.refused _
    | some task =>
        have hvalid : (TaskResponse.modelValidate (written row')).isSome = true := by
          rcases hsame with ⟨-, hvalid⟩ | hurl
          · exact hvalid
          · rw [modelValidate_isSome, hurl, ← modelValidate_isSome, htask]
            rfl
        obtain ⟨task', htask'⟩ := Option.isSome_iff_exists.1 hvalid
        simp only [htask', if_pos howner, if_pos howner']
        exact h.refused _

omit [UrlValidator] in
theorem AgreeFor.userPage (h : AgreeFor user rows rows') (skip limit : Nat)
    (order : List UUID) :
    userPage user skip limit (order.filterMap rows') =
      userPage user skip limit (order.filterMap rows) := by
  have hown : ((order.filterMap rows').filter fun row => row.userId = user) =
      (order.filterMap rows).filter fun row => row.userId = user := by
    induction order with
    | nil =>
        rfl
    | cons id order ih =>
        rcases h.cases id with ⟨hrow, hrow'⟩ | ⟨row, howner, hrow, hrow'⟩ |
            ⟨row, row', howner, howner', hrow, hrow'⟩
        · simpa [hrow, hrow'] using ih
        · simpa [hrow, hrow', howner] using ih
        · simpa [hrow, hrow', howner, howner'] using ih
  rw [SmartHttpRequester.userPage, hown, SmartHttpRequester.userPage]

theorem AgreeFor.outcome (h : AgreeFor user rows rows') (hvalid : rows.Validate)
    (hvalid' : rows'.Validate) {req : TaskRequest} (huser : req.user = user)
    (hreq : ¬ req.Creates) (now : Timestamp) (order : List UUID) :
    ∃ out out', req.outcome now order rows = some out ∧
      req.outcome now order rows' = some out' ∧ SameOutcome user out out' := by
  cases req with
  | info requester taskId =>
      obtain rfl : requester = user := huser
      exact ⟨_, _, rfl, rfl, h.infoOutcome hvalid hvalid'⟩
  | userTasks requester skip limit =>
      obtain rfl : requester = user := huser
      refine ⟨_, _, rfl, rfl, ⟨?_, h.owned⟩⟩
      simp only [userTasksOutcome, h.userPage]
  | delete requester taskId =>
      obtain rfl : requester = user := huser
      refine ⟨_, _, rfl, rfl, h.writeOutcome fun row row' hrow hrow' => ?_⟩
      have hurl : ∀ r, (TaskResponse.modelValidate (canceledIfPending now r)).isSome =
          (TaskResponse.modelValidate r).isSome := by
        intro r
        rw [modelValidate_isSome, modelValidate_isSome, canceledIfPending]
        split <;> rfl
      exact Or.inl ⟨(hurl row).trans (hvalid taskId row hrow),
        (hurl row').trans (hvalid' taskId row' hrow')⟩
  | update requester taskId taskData =>
      obtain rfl : requester = user := huser
      exact ⟨_, _, rfl, rfl, h.writeOutcome fun _ _ _ _ => Or.inr rfl⟩
  | create requester taskData => exact absurd trivial hreq
  | createBatch requester tasksData => exact absurd trivial hreq

variable {ι : Type} [DecidableEq ι]

/--
Two runs of a request of `user`, in worlds that agree on what is the user's: the
responses are equal, and so are the user's rows afterwards.
-/
theorem requests_confidential (i : ι) {req : TaskRequest} (huser : req.user = user)
    (hreq : ¬ req.Creates) {w w' : World ι} (hw : w.Quiet) (hw' : w'.Quiet)
    (hvalid : Rows.Validate w.tasks.committed) (hvalid' : Rows.Validate w'.tasks.committed)
    (hsame : SameFor user w w') {order : List UUID} (horder : order.Perm w.tasks.keys) :
    ∃ r v v',
      req.program.eval (callOp i { order := order }) w = some (r, v) ∧
      req.program.eval (callOp i { order := order }) w' = some (r, v') ∧
      ∀ id row, row.userId = user →
        (v'.tasks.committed id = some row ↔ v.tasks.committed id = some row) := by
  obtain ⟨out, out', hout, hout', hresponse, howned⟩ :=
    hsame.rows.outcome hvalid hvalid' huser hreq w.clock order
  obtain ⟨v, heval, hrows⟩ := request_outcome (i := i) hw horder hout
  obtain ⟨v', heval', hrows'⟩ := request_outcome (i := i) hw' (horder.trans hsame.keys.symm)
    (hsame.clock ▸ hout')
  refine ⟨out.1, v, v', heval, hresponse ▸ heval', fun id row hrow => ?_⟩
  rw [hrows, hrows']
  exact howned id row hrow

section Sample

/-- A task of user 1, and one of user 2 with the given status and body. -/
def foreignTasks (status : TaskStatus) (body : Option String) : List TaskRow :=
  [samplePending, { samplePending with id := 8, userId := 2, status := status, body := body }]

omit [UrlValidator] in
theorem committed_foreignTasks {status : TaskStatus} {body : Option String} {id : UUID}
    {row : TaskRow}
    (h : (worldOf Unit (foreignTasks status body)).tasks.committed id = some row) :
    (id = 7 ∧ row = samplePending) ∨
    (id = 8 ∧ row.userId = 2 ∧ row.url = samplePending.url) := by
  have hfind : (foreignTasks status body).find? (fun row => row.id = id) = some row := h
  have hid : row.id = id := by simpa using List.find?_some hfind
  have hmem := List.mem_of_find?_eq_some hfind
  simp only [foreignTasks, List.mem_cons, List.not_mem_nil, or_false] at hmem
  rcases hmem with rfl | rfl
  · exact Or.inl ⟨hid.symm, rfl⟩
  · exact Or.inr ⟨hid.symm, rfl, rfl⟩

omit [UrlValidator] in
theorem agreeFor_foreignTasks (status status' : TaskStatus) (body body' : Option String) :
    AgreeFor 1 (worldOf Unit (foreignTasks status body)).tasks.committed
      (worldOf Unit (foreignTasks status' body')).tasks.committed where
  existing id := by
    have hfound : ∀ (status : TaskStatus) (body : Option String),
        ((worldOf Unit (foreignTasks status body)).tasks.committed id).isSome =
          decide (7 = id ∨ 8 = id) := by
      intro status body
      have hfind : (worldOf Unit (foreignTasks status body)).tasks.committed id =
        (foreignTasks status body).find? (fun row => row.id = id) := rfl
      rw [hfind, Bool.eq_iff_iff, List.find?_isSome]
      simp [foreignTasks, samplePending]
    rw [hfound, hfound]
  owned id row howner := by
    have hown : ∀ {status : TaskStatus} {body : Option String},
        (worldOf Unit (foreignTasks status body)).tasks.committed id = some row ↔
          id = 7 ∧ row = samplePending := by
      intro status body
      constructor
      · intro h
        rcases committed_foreignTasks h with hown | ⟨-, hforeign, -⟩
        · exact hown
        · rw [howner] at hforeign
          cases hforeign
      · rintro ⟨rfl, rfl⟩
        rfl
    exact hown.trans hown.symm

omit [UrlValidator] in
/-- User 1 cancels a task of user 2 that is pending, or canceled and with another body. -/
theorem delete_confidential :
    letI := sampleUrls
    ∃ r v v',
      (TaskRequest.delete 1 8).program.eval (callOp () { order := [7, 8] })
        (worldOf Unit (foreignTasks .pending none)) = some (r, v) ∧
      (TaskRequest.delete 1 8).program.eval (callOp () { order := [7, 8] })
        (worldOf Unit (foreignTasks .canceled (some "secret"))) = some (r, v') ∧
      ∀ id row, row.userId = 1 →
        (v'.tasks.committed id = some row ↔ v.tasks.committed id = some row) := by
  let := sampleUrls
  have hvalid : ∀ status body,
      Rows.Validate (worldOf Unit (foreignTasks status body)).tasks.committed := by
    intro status body id row h
    rw [modelValidate_isSome]
    rcases committed_foreignTasks h with ⟨-, rfl⟩ | ⟨-, -, hurl⟩
    · decide
    · rw [hurl]
      decide
  have huser : (TaskRequest.delete 1 8).user = 1 := rfl
  have hreq : ¬ (TaskRequest.delete 1 8).Creates := id
  have hsame : SameFor 1 (worldOf Unit (foreignTasks .pending none))
      (worldOf Unit (foreignTasks .canceled (some "secret"))) :=
    ⟨rfl, List.Perm.refl _, agreeFor_foreignTasks _ _ _ _⟩
  have horder : [7, 8].Perm (worldOf Unit (foreignTasks .pending none)).tasks.keys := by
    decide
  exact requests_confidential () huser hreq (worldOf_quiet _) (worldOf_quiet _)
    (hvalid _ _) (hvalid _ _) hsame horder

end Sample

end Confidentiality

end SmartHttpRequester
