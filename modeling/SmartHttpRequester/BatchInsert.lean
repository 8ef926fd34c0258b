import Mathlib
import SmartHttpRequester.TaskDiscipline

/-!
# The INSERT of the batch path

`create_tasks_batch` builds its VALUES rows and bind parameters in a loop, under
numbered names.  The names are all different, so the statement evaluates to one
task for each element, in order (`batchRows_eval`).
-/

namespace SmartHttpRequester

open Foundations

section Names

def numberedFields : List String :=
  ["url", "method", "headers", "body", "max_attempts"]

theorem toList_numbered (field : String) (idx : Nat) :
    (numbered field idx).toList = field.toList ++ '_' :: (toString idx).toList := by
  simp [numbered]

/-- The first two letters of a numbered name tell the field. -/
theorem numbered_inj {field field' : String} {idx idx' : Nat}
    (hfield : field ∈ numberedFields) (hfield' : field' ∈ numberedFields)
    (h : numbered field idx = numbered field' idx') :
    field = field' ∧ idx = idx' := by
  have hchars := congrArg String.toList h
  rw [toList_numbered, toList_numbered] at hchars
  have htwo : ∀ f ∈ numberedFields, ∀ rest : List Char,
      (f.toList ++ rest).take 2 = f.toList.take 2 := by
    intro f hf rest
    refine List.take_append_of_le_length ?_
    revert f
    decide
  have hprefix : field.toList.take 2 = field'.toList.take 2 := by
    rw [← htwo field hfield, hchars, htwo field' hfield']
  have hfields : ∀ f ∈ numberedFields, ∀ f' ∈ numberedFields,
      f.toList.take 2 = f'.toList.take 2 → f = f' := by
    decide
  obtain rfl := hfields field hfield field' hfield' hprefix
  refine ⟨rfl, ?_⟩
  have hdigits := List.append_cancel_left hchars
  rw [List.cons.injEq] at hdigits
  exact Nat.repr_injective (String.toList_inj.1 hdigits.2)

theorem numbered_ne_user_id {field : String} {idx : Nat} (hfield : field ∈ numberedFields) :
    numbered field idx ≠ "user_id" := by
  intro h
  have hchars := congrArg (fun s => s.toList.take 2) h
  simp only [toList_numbered] at hchars
  revert hchars
  revert field
  simp [numberedFields]

end Names

section BatchInsert

variable {user : UserId} {tasksData : List TaskCreate}

def newTask (user : UserId) (taskData : TaskCreate) (status : TaskStatus) : NewTask where
  userId := user
  url := taskData.url.str
  method := taskData.method
  headers := taskData.headers
  body := taskData.body
  maxAttempts := taskData.maxAttempts
  status := status
  attemptCount := 0

def batchBindparams (user : UserId) (tasksData : List TaskCreate) : List BindParameter :=
  ⟨"user_id", .int user, .Integer⟩ ::
    (tasksData.zipIdx 0).flatMap fun p => batchParams p.2 p.1

theorem batchInsert_eq (user : UserId) (tasksData : List TaskCreate) :
    batchInsert user tasksData =
      .insertTasks ((List.range' 0 tasksData.length).map batchRow)
        (batchBindparams user tasksData) := by
  simp [batchInsert, batchLoop_eq, batchBindparams]

theorem name_of_mem_batchParams {idx : Nat} {task : TaskCreate} {p : BindParameter}
    (hp : p ∈ batchParams idx task) :
    ∃ field ∈ numberedFields, p.name = numbered field idx := by
  simp only [batchParams, List.mem_cons, List.not_mem_nil, or_false] at hp
  rcases hp with rfl | rfl | rfl | rfl | rfl <;> simp [numberedFields]

theorem eq_of_name_eq_of_mem_batchParams {idx : Nat} {task : TaskCreate} {p q : BindParameter}
    (hp : p ∈ batchParams idx task) (hq : q ∈ batchParams idx task) (h : q.name = p.name) :
    q = p := by
  have hfield : ∀ {f f' : String}, f ∈ numberedFields → f' ∈ numberedFields →
      numbered f idx = numbered f' idx → f = f' :=
    fun hf hf' hname => (numbered_inj hf hf' hname).1
  simp only [batchParams, List.mem_cons, List.not_mem_nil, or_false] at hp hq
  rcases hp with rfl | rfl | rfl | rfl | rfl <;> rcases hq with rfl | rfl | rfl | rfl | rfl <;>
    first
    | rfl
    | exact absurd (hfield (by decide) (by decide) h) (by decide)

/-- The names of the batch INSERT are all different. -/
theorem batchBindparams_unique {p q : BindParameter}
    (hp : p ∈ batchBindparams user tasksData) (hq : q ∈ batchBindparams user tasksData)
    (h : q.name = p.name) :
    q = p := by
  simp only [batchBindparams, List.mem_cons, List.mem_flatMap, Prod.exists,
    List.mem_zipIdx_iff_getElem?] at hp hq
  rcases hp with rfl | ⟨t, i, hi, hp⟩ <;> rcases hq with rfl | ⟨t', j, hj, hq⟩
  · rfl
  · obtain ⟨f, hf, hname⟩ := name_of_mem_batchParams hq
    exact absurd (hname.symm.trans h) (numbered_ne_user_id hf)
  · obtain ⟨f, hf, hname⟩ := name_of_mem_batchParams hp
    exact absurd (hname.symm.trans h.symm) (numbered_ne_user_id hf)
  · obtain ⟨f, hf, hname⟩ := name_of_mem_batchParams hp
    obtain ⟨f', hf', hname'⟩ := name_of_mem_batchParams hq
    obtain ⟨-, rfl⟩ := numbered_inj hf' hf ((hname'.symm.trans h).trans hname)
    rw [hi] at hj
    cases hj
    exact eq_of_name_eq_of_mem_batchParams hp hq h

theorem eval_param {p : BindParameter} (hp : p ∈ batchBindparams user tasksData) :
    (SqlExpr.param p.name).eval (batchBindparams user tasksData) = some p.value := by
  have hfind : ((batchBindparams user tasksData).find? fun q => q.name = p.name) = some p := by
    cases hq : (batchBindparams user tasksData).find? fun q => q.name = p.name with
    | none =>
        exact absurd (List.find?_eq_none.1 hq p hp) (by simp)
    | some q =>
        have hname : q.name = p.name := by simpa using List.find?_some hq
        rw [batchBindparams_unique hp (List.mem_of_find?_eq_some hq) hname]
  rw [SqlExpr.eval, hfind]
  rfl

theorem batchRow_eval_getElem {idx : Nat} {task : TaskCreate}
    (h : tasksData[idx]? = some task) :
    (batchRow idx).eval (batchBindparams user tasksData) = some (newTask user task .pending) := by
  have hmem : ∀ p ∈ batchParams idx task, p ∈ batchBindparams user tasksData := by
    intro p hp
    simp only [batchBindparams, List.mem_cons, List.mem_flatMap, Prod.exists,
      List.mem_zipIdx_iff_getElem?]
    exact Or.inr ⟨task, idx, h, hp⟩
  have hvalue : ∀ {α : Type} {field : String} {v : PyValue} {t : SqlType}
      (column : PyValue → Option α), ⟨numbered field idx, v, t⟩ ∈ batchParams idx task →
      (SqlExpr.param (numbered field idx)).evalAs (batchBindparams user tasksData) column =
        column v := by
    intro α field v t column hp
    rw [SqlExpr.evalAs, eval_param (hmem _ hp)]
    rfl
  refine InsertRow.eval_eq_some.2 ⟨rfl, ?_, ?_, ?_, ?_, ?_, rfl, rfl⟩
  · exact hvalue (v := .url task.url) (t := .TEXT) _ (by simp [batchParams])
  · exact hvalue (v := .method task.method) (t := .TEXT) _ (by simp [batchParams])
  · refine (hvalue (v := pyHeaders task.headers) (t := .JSONB) _ (by simp [batchParams])).trans ?_
    cases h : task.headers <;> simp [newTask, pyHeaders, PyValue.asJson, h]
  · refine (hvalue (v := pyText task.body) (t := .TEXT) _ (by simp [batchParams])).trans ?_
    cases h : task.body <;> simp [newTask, pyText, PyValue.asNullableText, PyValue.asText, h]
  · exact hvalue (v := .int task.maxAttempts) (t := .Integer) _ (by simp [batchParams])

/-- The batch INSERT evaluates to one task for each element, in order. -/
theorem batchRows_eval (user : UserId) (tasksData : List TaskCreate) :
    ((List.range' 0 tasksData.length).map batchRow).mapM
        (InsertRow.eval (batchBindparams user tasksData)) =
      some (tasksData.map fun t => newTask user t .pending) := by
  refine mapM_eq_some_iff.2 (List.ext_getElem? fun idx => ?_)
  simp only [List.map_map, List.getElem?_map]
  cases h : tasksData[idx]? with
  | none =>
      simp [List.getElem?_eq_none_iff.1 h]
  | some task =>
      obtain ⟨hlt, -⟩ := List.getElem?_eq_some_iff.1 h
      simp [hlt, batchRow_eval_getElem h]

end BatchInsert

end SmartHttpRequester
