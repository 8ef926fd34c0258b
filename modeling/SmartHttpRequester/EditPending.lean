import SmartHttpRequester.StaleReads

/-!
# Edits of tasks that are no longer pending

A successful PUT has found its task pending, but its UPDATE has no condition on
the status.  If a cancellation commits between the two, the PUT rewrites a
canceled task and reports success (`edits_canceled_task`).

`editsPending_of_noOvertaking`: when that does not happen, every successful PUT
has written while the committed status was pending, and no PUT ever changes a
canceled row.
-/

namespace SmartHttpRequester

open Foundations Function

section EditPending

variable {ι : Type} [DecidableEq ι]

/-- Only pending tasks are edited, in a run from `s₀` to `s`. -/
structure EditsPending (reqs : ι → TaskRequest) (s₀ : TaskConfig ι) (ls : List (TaskLabel ι))
    (s : TaskConfig ι) : Prop where
  /-- A successful PUT applied its UPDATE while the committed status was pending. -/
  applied : ∀ pre i c post t id url method headers body k,
    ls = pre ++ .op i c :: post →
    (taskMachine ι).run s₀ pre = some t →
    t.prog i = .op (.execute (.updateTask id url method headers body)) k →
    Succeeds s i →
    ∃ row, committedTask t id = some row ∧ row.status = .pending
  /-- No step of a PUT changes a row whose committed status is canceled. -/
  frozen : ∀ pre i c post t t' id taskId row,
    ls = pre ++ .op i c :: post →
    (taskMachine ι).run s₀ pre = some t →
    (taskMachine ι).step t (.op i c) = some t' →
    (reqs i).Edits taskId →
    committedTask t id = some row →
    row.status = .canceled →
    committedTask t' id = some row

variable {reqs : ι → TaskRequest} {s s' t : TaskConfig ι} {w : World ι}
variable {ls : List (TaskLabel ι)}

theorem Timely.update_pending (h : Timely reqs TaskRequest.Edits t)
    {post : List (TaskLabel ι)} (hearned : Earned reqs s)
    (hrun : (taskMachine ι).run t post = some s) {i : ι} {id : UUID} {url : String}
    {method : HttpMethod} {headers : Option Headers} {body : Option String}
    {k : Reply → TaskProg Response}
    (hp : t.prog i = .op (.execute (.updateTask id url method headers body)) k)
    (hsucceeds : Succeeds s i) :
    ∃ row, committedTask t id = some row ∧ row.status = .pending := by
  obtain ⟨hedits, -, hsent, found, hfound⟩ := h.sound.disciplined.permits hp
  -- what was found then is what the success rests on
  obtain ⟨found', hfound', howner, hpending⟩ := (hearned i id hsucceeds).1 hedits
  have hlater := found_of_run hrun hfound
  rw [hlater] at hfound'
  cases hfound'
  obtain ⟨row, hrow, hmoved⟩ := h.sound.coupled.found hfound
  refine ⟨row, hrow, h.upToDate.reading hedits ⟨⟨found, hfound, hpending⟩, hsent, ?_⟩ hrow ?_⟩
  · simp [hp, Prog.next?]
  · exact hmoved.userId.trans howner

theorem Timely.canceled_kept (h : Timely reqs TaskRequest.Edits t) {i : ι} {c : Choice}
    (hstep : (taskMachine ι).step t (.op i c) = some s') {id taskId : UUID} {row : TaskRow}
    (hedits : (reqs i).Edits taskId) (hrow : committedTask t id = some row)
    (hcanceled : row.status = .canceled) :
    committedTask s' id = some row := by
  rcases step_committed hstep id with hsame | ⟨j, c', k, new, hl, hp, hnew, -⟩
  · exact hsame.trans hrow
  · exfalso
    cases hl
    obtain ⟨u, hu⟩ := h.sound.coupled.updated hnew hrow
    have hsettled := (h.sound.disciplined.permits hp).1.of_wrote hu.wrote
    have hid := hu.taskId
    have hwrote := hu.wrote
    cases u with
    | cancel taskId' =>
        exact TaskRequest.not_cancels_of_edits hedits hsettled.2.1
    | data taskId' =>
        obtain rfl : taskId' = id := hid
        have hstatus := h.upToDate.writing (u := .data taskId') hsettled.2.1 hp hwrote trivial
          hsettled.1 hsettled.2.2 hrow
        rw [hcanceled] at hstatus
        cases hstatus
    | confirm taskId' =>
        exact TaskRequest.not_single_of_onTask (TaskRequest.onTask_of_edits hedits) hsettled.2.1

/--
In every run in which no cancellation commits between the read and the write of
a PUT by the task's owner, only pending tasks are edited.
-/
theorem editsPending_of_noOvertaking [UrlValidator] (hw : w.Quiet)
    (hmeet : (taskMachine ι).StepsMeet (NoOvertaking reqs TaskRequest.Edits)
      (startTasks w reqs) ls)
    (hrun : (taskMachine ι).run (startTasks w reqs) ls = some s) :
    EditsPending reqs (startTasks w reqs) ls s := by
  have htimely : (taskMachine ι).Always (Timely reqs TaskRequest.Edits) (startTasks w reqs) ls :=
    Machine.always_of_stepsMeet _ (fun _ _ _ ht hno hstep => ht.step hno hstep)
      (startTasks_timely hw reqs _) hmeet
  have hlast := htimely ls [] s (List.append_nil ls).symm hrun
  constructor
  · intro pre i c post t id url method headers body k hls ht hp hsucceeds
    rw [hls] at hrun
    obtain ⟨t', ht', hrest⟩ := Machine.run_append_eq_some.1 hrun
    rw [ht] at ht'
    cases ht'
    exact (htimely pre _ t hls ht).update_pending hlast.earned hrest hp hsucceeds
  · intro pre i c post t t' id taskId row hls ht hstep hedits hrow hcanceled
    exact (htimely pre _ t hls ht).canceled_kept hstep hedits hrow hcanceled

/-- The PUT and the DELETE of one owner. -/
def editAndDelete : Fin 2 → TaskRequest :=
  ![sampleEdit 1, sampleDelete]

/-- The PUT, and after it the DELETE. -/
def editThenDelete : List (TaskLabel (Fin 2)) :=
  turns (List.replicate 6 false ++ List.replicate 7 true)

/-- A PUT that a DELETE follows edits a pending task. -/
theorem editsPending_inTurn :
    letI := sampleUrls
    let start := startTasks (worldOf (Fin 2) [samplePending]) editAndDelete
    ∃ s : TaskConfig (Fin 2),
      (taskMachine (Fin 2)).run start editThenDelete = some s ∧
      Succeeds s 0 ∧ Succeeds s 1 ∧
      EditsPending editAndDelete start editThenDelete s := by
  let := sampleUrls
  have hfinal : ((taskMachine (Fin 2)).run (startTasks (worldOf (Fin 2) [samplePending])
      editAndDelete) editThenDelete).map (fun s => responds s 0 && responds s 1) = some true := by
    decide
  obtain ⟨s, hs, hboth⟩ := Option.map_eq_some_iff.1 hfinal
  obtain ⟨hput, hdelete⟩ := Bool.and_eq_true_iff.1 hboth
  have hquiet := worldOf_quiet (ι := Fin 2) [samplePending]
  have haside : (taskMachine (Fin 2)).StepsMeet OthersAside
      (startTasks (worldOf (Fin 2) [samplePending]) editAndDelete) editThenDelete := by
    decide
  have hmeet : (taskMachine (Fin 2)).StepsMeet (NoOvertaking editAndDelete TaskRequest.Edits)
      (startTasks (worldOf (Fin 2) [samplePending]) editAndDelete) editThenDelete :=
    haside.imp (Sound editAndDelete) (fun _ _ _ h hstep => h.step hstep)
      (fun _ _ hsound hothers => hsound.noOvertaking_of_othersAside hothers)
      (sound_of_run hquiet Machine.run_nil)
  exact ⟨s, hs, succeeds_of_responds hput, succeeds_of_responds hdelete,
    editsPending_of_noOvertaking hquiet hmeet hs⟩

/-- The PUT reads; the whole DELETE runs; the PUT goes on up to its commit. -/
def overtakenPrefix : List (TaskLabel (Fin 2)) :=
  turns (false :: List.replicate 7 true ++ List.replicate 4 false)

/-- The canceled row after the DELETE, and after the PUT. -/
def sampleCanceled : TaskRow :=
  { samplePending with status := .canceled, updatedAt := some 0 }

/-- The PUT succeeds on a canceled task and changes its data. -/
theorem edits_canceled_task :
    letI := sampleUrls
    ∃ s : TaskConfig (Fin 2),
      (taskMachine (Fin 2)).run (startTasks (worldOf (Fin 2) [samplePending]) editAndDelete)
        (overtakenPrefix ++ callOf 0 :: [callOf 0]) = some s ∧
      (s.prog 0).outcome?.isSome = true ∧
      committedTask s 7 = some { sampleCanceled with method := .POST } ∧
      ¬ EditsPending editAndDelete
        (startTasks (worldOf (Fin 2) [samplePending]) editAndDelete)
        (overtakenPrefix ++ callOf 0 :: [callOf 0]) s := by
  let := sampleUrls
  obtain ⟨t, t', s, ht, hstep, hlast⟩ := Machine.exists_of_run_isSome
    (show ((taskMachine (Fin 2)).run
      (startTasks (worldOf (Fin 2) [samplePending]) editAndDelete)
      (overtakenPrefix ++ callOf 0 :: [callOf 0])).isSome = true by decide)
  have hs : (taskMachine (Fin 2)).run
      (startTasks (worldOf (Fin 2) [samplePending]) editAndDelete)
      (overtakenPrefix ++ callOf 0 :: [callOf 0]) = some s :=
    Machine.run_append_eq_some.2 ⟨t, ht, Machine.run_cons_eq_some.2 ⟨t', hstep, hlast⟩⟩
  have hbefore : ((taskMachine (Fin 2)).run
      (startTasks (worldOf (Fin 2) [samplePending]) editAndDelete) overtakenPrefix).bind
      (committedTask · 7) = some sampleCanceled := by
    decide
  have hafter : ((taskMachine (Fin 2)).run
      (startTasks (worldOf (Fin 2) [samplePending]) editAndDelete)
      (overtakenPrefix ++ [callOf 0])).bind (committedTask · 7) =
      some { sampleCanceled with method := .POST } := by
    decide
  have hfinal : ((taskMachine (Fin 2)).run
      (startTasks (worldOf (Fin 2) [samplePending]) editAndDelete)
      (overtakenPrefix ++ callOf 0 :: [callOf 0])).map
      (fun s => ((s.prog 0).outcome?.isSome, committedTask s 7)) =
      some (true, some { sampleCanceled with method := .POST }) := by
    decide
  rw [ht] at hbefore
  rw [Machine.run_append_eq_some.2 ⟨t, ht, Machine.run_cons_eq_some.2 ⟨t', hstep, rfl⟩⟩] at hafter
  rw [hs] at hfinal
  simp only [Option.map_some, Option.some.injEq, Prod.mk.injEq] at hfinal
  refine ⟨s, hs, hfinal.1, hfinal.2, fun hpending => ?_⟩
  have hfrozen := hpending.frozen overtakenPrefix 0 {} [callOf 0] t t' 7 7 sampleCanceled rfl ht
    hstep rfl hbefore rfl
  have hsame : some sampleCanceled = some { sampleCanceled with method := .POST } :=
    hfrozen.symm.trans hafter
  exact absurd hsame (by decide)

end EditPending

end SmartHttpRequester
