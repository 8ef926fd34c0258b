import SmartHttpRequester.Foundations.SortedPages
import SmartHttpRequester.TaskSystem

/-!
# Pages of a user's tasks

`get_user_tasks` orders by `COALESCE(updated_at, created_at)` alone and leaves the
order of rows with equal times to PostgreSQL, which may choose another one for
every query.  Two tasks created in one microsecond have equal times.

`coversOnce_iff`: a client that asks for page after page until one is empty gets
each of the user's tasks exactly once if and only if no page boundary falls
between two rows of equal time (and all the rows validate).
-/

namespace SmartHttpRequester

open Foundations

section Pagination

section Listing

/-- The user's rows as a query lists them that finds rows in the given order. -/
def listing (rows : List TaskRow) (user : UserId) (order : List UUID) : List TaskRow :=
  (((worldOf Unit rows).tasks.rows () order).filter fun row => row.userId = user).insertionSort
    fun a b => b.modifiedAt ≤ a.modifiedAt

/-- The times of the user's rows, the latest first. -/
def listedTimes (rows : List TaskRow) (user : UserId) : List Timestamp :=
  ((rows.filter fun row => row.userId = user).map TaskRow.modifiedAt).insertionSort (· ≥ ·)

variable {rows found : List TaskRow} {user : UserId} {order : List UUID}

theorem listing_sorted (rows : List TaskRow) (user : UserId) (order : List UUID) :
    SortedBy TaskRow.modifiedAt (listing rows user order) := by
  have htotal : Std.Total fun a b : TaskRow => b.modifiedAt ≤ a.modifiedAt :=
    ⟨fun a b => le_total b.modifiedAt a.modifiedAt⟩
  have htrans : IsTrans TaskRow fun a b => b.modifiedAt ≤ a.modifiedAt :=
    ⟨fun a b c hab hbc => le_trans hbc hab⟩
  exact List.pairwise_insertionSort _ _

/-- With ids that are unique, a row is found by its id. -/
theorem find?_of_mem {row : TaskRow} (hids : (rows.map TaskRow.id).Nodup) (h : row ∈ rows) :
    (rows.find? fun r => r.id = row.id) = some row := by
  induction rows with
  | nil =>
      cases h
  | cons first rows ih =>
      rw [List.map_cons, List.nodup_cons] at hids
      rcases List.mem_cons.1 h with rfl | h
      · simp
      · have hne : first.id ≠ row.id := fun heq => hids.1 (heq ▸ List.mem_map_of_mem h)
        rw [List.find?_cons_of_neg (by simpa using hne)]
        exact ih hids.2 h

theorem rows_map_id (hids : (rows.map TaskRow.id).Nodup) (h : found ⊆ rows) :
    (worldOf Unit rows).tasks.rows () (found.map TaskRow.id) = found := by
  induction found with
  | nil =>
      rfl
  | cons row found ih =>
      rw [List.cons_subset] at h
      have hrow : ((worldOf Unit rows).tasks.slot row.id).visible () = some row :=
        find?_of_mem hids h.1
      simp only [Table.rows, List.map_cons, List.filterMap_cons, hrow]
      exact congrArg (List.cons row) (ih h.2)

theorem listing_perm (hids : (rows.map TaskRow.id).Nodup)
    (horder : order.Perm (rows.map TaskRow.id)) :
    (listing rows user order).Perm (rows.filter fun row => row.userId = user) := by
  have hrows := rows_map_id hids (List.Subset.refl rows)
  refine (List.perm_insertionSort _ _).trans (List.Perm.filter _ ?_)
  refine (horder.filterMap _).trans ?_
  exact List.Perm.of_eq hrows

theorem map_modifiedAt_listing (hids : (rows.map TaskRow.id).Nodup)
    (horder : order.Perm (rows.map TaskRow.id)) :
    (listing rows user order).map TaskRow.modifiedAt = listedTimes rows user := by
  have hperm : ((listing rows user order).map TaskRow.modifiedAt).Perm (listedTimes rows user) :=
    ((listing_perm hids horder).map _).trans (List.perm_insertionSort _ _).symm
  refine hperm.eq_of_pairwise (fun a b _ _ hab hba => le_antisymm hba hab)
    (List.pairwise_map.2 (listing_sorted rows user order)) ?_
  exact List.pairwise_insertionSort _ _

/-- PostgreSQL may list the rows in any order that is sorted by time. -/
theorem exists_listing_eq (hids : (rows.map TaskRow.id).Nodup)
    (hperm : found.Perm (rows.filter fun row => row.userId = user))
    (hsorted : SortedBy TaskRow.modifiedAt found) :
    ∃ order, order.Perm (rows.map TaskRow.id) ∧ listing rows user order = found := by
  have hsplit : (found ++ rows.filter fun row => ¬ row.userId = user).Perm rows := by
    refine (hperm.append_right _).trans ?_
    simpa using List.filter_append_perm (fun row : TaskRow => row.userId = user) rows
  refine ⟨(found ++ rows.filter fun row => ¬ row.userId = user).map TaskRow.id,
    hsplit.map _, ?_⟩
  rw [listing, rows_map_id hids hsplit.subset, List.filter_append]
  have hown : found.filter (fun row => row.userId = user) = found := by
    refine List.filter_eq_self.2 fun row hrow => ?_
    exact (List.mem_filter.1 (hperm.mem_iff.1 hrow)).2
  have hothers : (rows.filter fun row => ¬ row.userId = user).filter
      (fun row => row.userId = user) = [] := by
    refine List.filter_eq_nil_iff.2 fun row hrow => ?_
    simpa using (List.mem_filter.1 hrow).2
  rw [hown, hothers, List.append_nil]
  exact List.Pairwise.insertionSort_eq hsorted

end Listing

section Requests

variable [UrlValidator]

/-- `get_user_request_tasks` in a session of its own. -/
def getPage (rows : List TaskRow) (order : List UUID) (user : UserId) (skip limit : Nat) :
    Option (Except Exc (List TaskResponse)) :=
  ((getUserRequestTasks user skip limit).eval (callOp () { order := order })
    (worldOf Unit rows)).map Prod.fst

/-- `[TaskResponse.model_validate(task) for task in raw_tasks]`, with what it raises. -/
def validated : List TaskRow → Except Exc (List TaskResponse)
  | [] => .ok []
  | rawTask :: rest =>
      match TaskResponse.modelValidate rawTask with
      | none => .error (.validationError rawTask.errorText)
      | some task => (validated rest).map (task :: ·)

/--
A client that asks for page `n` and the following ones until a page is empty, and
what it has then; it stops at an error.
-/
inductive Browses (rows : List TaskRow) (orders : Nat → List UUID) (user : UserId)
    (limit : Nat) : Nat → Except Exc (List TaskResponse) → Prop
  | done {n : Nat}
      (h : getPage rows (orders n) user (n * limit) limit = some (.ok [])) :
      Browses rows orders user limit n (.ok [])
  | failed {n : Nat} {e : Exc}
      (h : getPage rows (orders n) user (n * limit) limit = some (.error e)) :
      Browses rows orders user limit n (.error e)
  | more {n : Nat} {tasks : List TaskResponse} {r : Except Exc (List TaskResponse)}
      (h : getPage rows (orders n) user (n * limit) limit = some (.ok tasks))
      (htasks : tasks ≠ [])
      (hrest : Browses rows orders user limit (n + 1) r) :
      Browses rows orders user limit n (r.map fun rest => tasks ++ rest)

/-- Whatever order PostgreSQL chooses for each query, the client gets each task exactly once. -/
def CoversOnce (rows : List TaskRow) (user : UserId) (limit : Nat) : Prop :=
  ∀ orders : Nat → List UUID, (∀ n, (orders n).Perm (rows.map TaskRow.id)) →
    ∃ tasks, Browses rows orders user limit 0 (.ok tasks) ∧
      (tasks.map some).Perm
        ((rows.filter fun row => row.userId = user).map TaskResponse.modelValidate)

variable {rows rawTasks : List TaskRow} {user : UserId} {order : List UUID} {limit n : Nat}
variable {orders : Nat → List UUID} {tasks : List TaskResponse}

theorem validated_eq_ok : validated rawTasks = .ok tasks ↔
    rawTasks.map TaskResponse.modelValidate = tasks.map some := by
  induction rawTasks generalizing tasks with
  | nil =>
      cases tasks <;> simp [validated]
  | cons rawTask rest ih =>
      rw [validated]
      cases hfirst : TaskResponse.modelValidate rawTask with
      | none => cases tasks <;> simp [hfirst]
      | some task =>
          cases hrest : validated rest with
          | error e =>
              have hnot : ∀ tasks : List TaskResponse,
                  rest.map TaskResponse.modelValidate ≠ tasks.map some := by
                intro tasks heq
                cases hrest.symm.trans (ih.2 heq)
              cases tasks with
              | nil => simp [Except.map]
              | cons task' tasks => simp [Except.map, hnot tasks]
          | ok tasks' =>
              have hrest := ih.1 hrest
              cases tasks with
              | nil => simp [Except.map]
              | cons task' tasks =>
                  have hinj := List.map_injective_iff.2 (Option.some_injective TaskResponse)
                  simp [Except.map, hfirst, hrest, hinj.eq_iff]

theorem eval_modelValidate {W : Type} (answer : TaskOp → W → Option (Reply × W)) (w : W)
    (row : TaskRow) :
    (modelValidate row).eval answer w =
      some ((TaskResponse.modelValidate row).elim (.error (.validationError row.errorText)) .ok,
        w) := by
  unfold modelValidate
  cases TaskResponse.modelValidate row <;> rfl

theorem eval_validateAll {W : Type} (answer : TaskOp → W → Option (Reply × W)) (w : W)
    (rawTasks : List TaskRow) :
    (validateAll rawTasks).eval answer w = some (validated rawTasks, w) := by
  induction rawTasks with
  | nil =>
      rfl
  | cons row rest ih =>
      have hfirst := eval_modelValidate answer w row
      cases hrow : TaskResponse.modelValidate row with
      | none =>
          rw [hrow] at hfirst
          rw [validateAll, Prog.eval_bind_of_error hfirst]
          simp [validated, hrow]
      | some task =>
          rw [hrow] at hfirst
          rw [validateAll, Prog.eval_bind_of_ok hfirst, validated, hrow]
          cases hrest : validated rest with
          | error e =>
              rw [hrest] at ih
              exact Prog.eval_bind_of_error ih
          | ok tasks =>
              rw [hrest] at ih
              exact Prog.eval_bind_of_ok ih

theorem getPage_eq (hids : (rows.map TaskRow.id).Nodup)
    (horder : order.Perm (rows.map TaskRow.id)) :
    getPage rows order user (n * limit) limit =
      some (validated (page limit n (listing rows user order))) := by
  have hkeys : order.Perm (worldOf Unit rows).tasks.keys := by
    show order.Perm (rows.map TaskRow.id).dedup
    rwa [hids.dedup]
  have hquery : callOp () { order := order } (.execute (.selectUserTasks user (n * limit) limit))
      (worldOf Unit rows) =
      some (.ok (page limit n (listing rows user order)), (worldOf Unit rows).begin ()) :=
    if_pos hkeys
  have heval := Prog.eval_perform hquery
  rw [getPage, getUserRequestTasks, getUserTasks, execute, Prog.eval_bind_of_ok heval,
    eval_validateAll]
  rfl

theorem getPage_eq_ok (hids : (rows.map TaskRow.id).Nodup)
    (horder : order.Perm (rows.map TaskRow.id)) :
    getPage rows order user (n * limit) limit = some (.ok tasks) ↔
      (page limit n (listing rows user order)).map TaskResponse.modelValidate =
        tasks.map some := by
  rw [getPage_eq hids horder, Option.some.injEq, validated_eq_ok]

theorem exists_map_eq_some {l : List TaskRow}
    (h : ∀ row ∈ l, (TaskResponse.modelValidate row).isSome = true) :
    ∃ tasks : List TaskResponse, l.map TaskResponse.modelValidate = tasks.map some := by
  induction l with
  | nil =>
      exact ⟨[], rfl⟩
  | cons row l ih =>
      obtain ⟨task, htask⟩ := Option.isSome_iff_exists.1 (h row (by simp))
      obtain ⟨tasks, htasks⟩ := ih fun row' hrow' => h row' (List.mem_cons_of_mem row hrow')
      exact ⟨task :: tasks, by simp [htask, htasks]⟩

/-- If all rows of the user validate, the client comes to the end of the list. -/
theorem exists_browses (hids : (rows.map TaskRow.id).Nodup)
    (horders : ∀ n, (orders n).Perm (rows.map TaskRow.id))
    (hvalid : ∀ row ∈ rows, row.userId = user →
      (TaskResponse.modelValidate row).isSome = true)
    {c : Nat} (hc : (rows.filter fun row => row.userId = user).length ≤ (n + c) * limit) :
    ∃ tasks, Browses rows orders user limit n (.ok tasks) := by
  have hpage : ∀ i, ∃ tasks, getPage rows (orders i) user (i * limit) limit =
      some (.ok tasks) := by
    intro i
    have hpageValid : ∀ row ∈ page limit i (listing rows user (orders i)),
        (TaskResponse.modelValidate row).isSome = true := by
      intro row hrow
      have hmem := (listing_perm hids (horders i)).subset
        (List.mem_of_mem_drop (List.mem_of_mem_take hrow))
      obtain ⟨hrows, huser⟩ := List.mem_filter.1 hmem
      exact hvalid row hrows (by simpa using huser)
    obtain ⟨tasks, htasks⟩ := exists_map_eq_some hpageValid
    exact ⟨tasks, (getPage_eq_ok hids (horders i)).2 htasks⟩
  induction c generalizing n with
  | zero =>
      refine ⟨[], .done ((getPage_eq_ok hids (horders n)).2 ?_)⟩
      rw [page_eq_nil ((listing_perm hids (horders n)).length_eq ▸ hc)]
      rfl
  | succ c ih =>
      obtain ⟨tasks, htasks⟩ := hpage n
      cases tasks with
      | nil => exact ⟨[], .done htasks⟩
      | cons task tasks =>
          rw [show n + (c + 1) = n + 1 + c by omega] at hc
          obtain ⟨rest, hrest⟩ := ih hc
          exact ⟨_, .more htasks (by simp) hrest⟩

/-- What a client has got are the pages up to the end of the list. -/
theorem Browses.pages (hids : (rows.map TaskRow.id).Nodup)
    (horders : ∀ n, (orders n).Perm (rows.map TaskRow.id)) (hlimit : 0 < limit)
    {r : Except Exc (List TaskResponse)} (h : Browses rows orders user limit n r)
    (hr : r = .ok tasks) :
    ∃ c, (rows.filter fun row => row.userId = user).length ≤ (n + c) * limit ∧
      (pagesFrom limit (fun i => listing rows user (orders i)) n c).map
        TaskResponse.modelValidate = tasks.map some := by
  induction h generalizing tasks with
  | @done n h =>
      cases hr
      have hpage := (getPage_eq_ok hids (horders n)).1 h
      have hlength := length_le_of_page_eq_nil hlimit (List.map_eq_nil_iff.1 hpage)
      rw [(listing_perm hids (horders n)).length_eq] at hlength
      exact ⟨0, hlength, rfl⟩
  | failed h =>
      cases hr
  | @more n found r h htasks hrest ih =>
      cases r with
      | error e => cases hr
      | ok rest =>
          cases hr
          obtain ⟨c, hc, hpages⟩ := ih rfl
          refine ⟨c + 1, by rwa [show n + (c + 1) = n + 1 + c by omega], ?_⟩
          rw [pagesFrom, List.map_append, hpages, (getPage_eq_ok hids (horders n)).1 h,
            List.map_append]

/-- No page boundary falls between two of the user's rows with equal times. -/
def NoTieAcrossPages (rows : List TaskRow) (user : UserId) (limit : Nat) : Prop :=
  ∀ k, 0 < k → CutsNoTie (listedTimes rows user) (k * limit)

/-- Two rows of equal time on the two sides of a boundary can both take the first place. -/
theorem not_coversOnce_of_tie (hids : (rows.map TaskRow.id).Nodup) (hlimit : 0 < limit)
    (htie : ¬ NoTieAcrossPages rows user limit) :
    ¬ CoversOnce rows user limit := by
  intro hcovers
  simp only [NoTieAcrossPages, not_forall] at htie
  obtain ⟨k, hk, htie⟩ := htie
  rw [← map_modifiedAt_listing hids (List.Perm.refl _)] at htie
  obtain ⟨found, hfound, hsorted, hrepeated⟩ :=
    exists_repeated_item (listing_sorted rows user _) hk htie hlimit
  obtain ⟨order, horder, hlisting⟩ :=
    exists_listing_eq hids (hfound.trans (listing_perm hids (List.Perm.refl _))) hsorted
  have horders : ∀ n, (if n < k then rows.map TaskRow.id else order).Perm
      (rows.map TaskRow.id) := by
    intro n
    split
    · exact List.Perm.refl _
    · exact horder
  obtain ⟨tasks, hbrowses, hperm⟩ := hcovers _ horders
  obtain ⟨c, hc, hpages⟩ := hbrowses.pages hids horders hlimit rfl
  rw [← (listing_perm hids (List.Perm.refl _)).length_eq, Nat.zero_add] at hc
  refine hrepeated c hc (List.Nodup.of_map TaskResponse.modelValidate ?_)
  have hsame : (fun i => listing rows user (if i < k then rows.map TaskRow.id else order)) =
      fun i => if i < k then listing rows user (rows.map TaskRow.id) else found := by
    funext i
    split
    · rfl
    · exact hlisting
  rw [← hsame, hpages, hperm.nodup_iff]
  refine List.Nodup.map_on ?_ (hids.of_map.filter _)
  -- rows that validate to the same response have the same id
  intro row hrow row' hrow' heq
  have hmem : TaskResponse.modelValidate row ∈ tasks.map some :=
    hperm.mem_iff.2 (List.mem_map_of_mem hrow)
  obtain ⟨task, -, htask⟩ := List.mem_map.1 hmem
  have hid := (TaskResponse.modelValidate_eq_some htask.symm).2.1
  have hid' := (TaskResponse.modelValidate_eq_some (heq ▸ htask.symm)).2.1
  exact List.inj_on_of_nodup_map hids (List.mem_of_mem_filter hrow) (List.mem_of_mem_filter hrow')
    (hid.symm.trans hid')

/--
Exactly when pagination gives each task once: all rows of the user validate, and
no two with equal times are on the two sides of a page boundary.
-/
theorem coversOnce_iff (hids : (rows.map TaskRow.id).Nodup) (hlimit : 0 < limit) :
    CoversOnce rows user limit ↔
      (∀ row ∈ rows, row.userId = user → (TaskResponse.modelValidate row).isSome = true) ∧
        NoTieAcrossPages rows user limit := by
  constructor
  · intro hcovers
    refine ⟨fun row hrow huser => ?_, ?_⟩
    · obtain ⟨tasks, -, hperm⟩ := hcovers (fun _ => rows.map TaskRow.id) fun _ => List.Perm.refl _
      have hmem : TaskResponse.modelValidate row ∈ tasks.map some :=
        hperm.mem_iff.2 (List.mem_map_of_mem (List.mem_filter.2 ⟨hrow, by simpa using huser⟩))
      obtain ⟨task, -, htask⟩ := List.mem_map.1 hmem
      rw [← htask]
      rfl
    · by_contra htie
      exact not_coversOnce_of_tie hids hlimit htie hcovers
  · rintro ⟨hvalid, hties⟩ orders horders
    have hlength : (rows.filter fun row => row.userId = user).length ≤
        (0 + (rows.filter fun row => row.userId = user).length) * limit := by
      rw [Nat.zero_add]
      exact Nat.le_mul_of_pos_right _ hlimit
    obtain ⟨tasks, hbrowses⟩ := exists_browses hids horders hvalid hlength
    obtain ⟨c, hc, hpages⟩ := hbrowses.pages hids horders hlimit rfl
    have hown : (listing rows user (rows.map TaskRow.id)).Perm
        (rows.filter fun row => row.userId = user) := listing_perm hids (List.Perm.refl _)
    have hperm := pagesFrom_perm (listing_sorted rows user (rows.map TaskRow.id))
      (fun i => listing_sorted rows user (orders i))
      (fun i => (listing_perm hids (horders i)).trans hown.symm)
      (fun k hk => by rw [map_modifiedAt_listing hids (List.Perm.refl _)]; exact hties k hk) 0 c
    rw [Nat.zero_mul, List.take_zero, List.nil_append,
      List.take_of_length_le (hown.length_eq ▸ hc)] at hperm
    refine ⟨tasks, hbrowses, ?_⟩
    rw [← hpages]
    exact (hperm.trans hown).map _

end Requests

section Samples

/-- Two tasks of user 1, the second one created at the given time. -/
def sampleTasks (createdAt : Timestamp) : List TaskRow :=
  [samplePending, { samplePending with id := 8, createdAt := createdAt }]

/-- Tasks of different times come one on each page, whatever PostgreSQL does. -/
theorem coversOnce_sampleTasks :
    letI := sampleUrls
    CoversOnce (sampleTasks 5) 1 1 := by
  let := sampleUrls
  refine (coversOnce_iff (by decide) (by decide)).2 ⟨by decide, fun k hk t ht hnext => ?_⟩
  have htimes : listedTimes (sampleTasks 5) 1 = [5, 0] := by decide
  rw [htimes, Nat.mul_one] at ht hnext
  have hlt : k < 2 := (List.getElem?_eq_some_iff.1 hnext).1
  obtain rfl : k = 1 := by omega
  cases ht
  cases hnext

/-- Two creations with one `NOW()`: the second query finds them the other way round. -/
theorem pages_repeat_tied_task :
    letI := sampleUrls
    getPage (sampleTasks 0) [7, 8] 1 0 1 = getPage (sampleTasks 0) [8, 7] 1 1 1 ∧
    (getPage (sampleTasks 0) [7, 8] 1 0 1).map (Except.map (List.map TaskResponse.id)) =
      some (.ok [7]) ∧
    ¬ CoversOnce (sampleTasks 0) 1 1 := by
  let := sampleUrls
  refine ⟨by decide, by decide, not_coversOnce_of_tie (by decide) (by decide) fun hties => ?_⟩
  exact hties 1 (by decide) 0 (by decide) (by decide)

end Samples

end Pagination

end SmartHttpRequester
