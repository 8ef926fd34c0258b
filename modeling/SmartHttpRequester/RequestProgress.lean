import SmartHttpRequester.Foundations.Progress
import SmartHttpRequester.SingleClient
import SmartHttpRequester.StatusNotices

/-!
# Requests do not wait for each other for ever

A request waits when it is about to UPDATE a row of which another request holds
an uncommitted version.  Every request writes at most one row before it commits,
so the other request does not wait for anybody (`no_deadlock`).  A request that
has ended holds nothing, however it ended (`quiet_of_ended`).

`requests_come_to_rest` puts both together: in every infinite run that does not
pass over the requests for ever, all of them end, and from some moment on no
lock is held and no transaction is open.
-/

namespace SmartHttpRequester

open Foundations Function

section RequestProgress

variable {ι : Type} [DecidableEq ι]
variable {reqs : ι → TaskRequest} {s s' : TaskConfig ι} {l : TaskLabel ι} {w w' : World ι}
variable {ls : List (TaskLabel ι)}

section Waiting

/-- Fewer ids are unused than the request is about to insert rows. -/
def LacksIds (s : TaskConfig ι) (i : ι) : Prop :=
  ∃ values bindparams k,
    s.prog i = .op (.execute (.insertTasks values bindparams)) k ∧
    2 ^ 128 < s.world.tasks.keys.length + values.length

/-- A call that does not fail, unless it inserts more rows than there are ids left. -/
def GoesThrough (s : TaskConfig ι) : TaskLabel ι → Prop
  | .op i c => c.fault = .none ∨ LacksIds s i
  | .env _ => False
  | .kill _ => False

/-- Request `i` is about to UPDATE a row of which request `j` holds a version. -/
def WaitsFor (s : TaskConfig ι) (i j : ι) : Prop :=
  ∃ st u k row,
    s.prog i = .op (.execute st) k ∧
    st.write? = some u ∧
    (s.world.tasks.slot u.taskId).pending = some (j, row) ∧
    j ≠ i

/-- The call of request `i` goes through. -/
def CanCall (s : TaskConfig ι) (i : ι) : Prop :=
  ∃ c s', (taskMachine ι).step s (.op i c) = some s' ∧ GoesThrough s (.op i c)

/-- As long as there are ids left, new ones can be chosen. -/
theorem exists_unused_ids {keys : List UUID} {n : ℕ} (h : keys.length + n ≤ 2 ^ 128) :
    ∃ ids : List UUID, ids.length = n ∧ ids.Nodup ∧ ∀ id ∈ ids, id ∉ keys := by
  -- the ids as the numbers they are
  have hunused : n ≤ (Finset.range (2 ^ 128) \ (keys.map BitVec.toNat).toFinset).card := by
    have hkeys := (keys.map BitVec.toNat).toFinset_card_le
    have hdiff := Finset.le_card_sdiff (keys.map BitVec.toNat).toFinset (Finset.range (2 ^ 128))
    rw [Finset.card_range] at hdiff
    rw [List.length_map] at hkeys
    omega
  obtain ⟨numbers, hsub, hcard⟩ := Finset.exists_subset_card_eq hunused
  have hnumber : ∀ m ∈ numbers, m < 2 ^ 128 ∧ ∀ id ∈ keys, id.toNat ≠ m := by
    intro m hm
    simpa using hsub hm
  refine ⟨numbers.toList.map (BitVec.ofNat 128), by simpa using hcard, ?_, ?_⟩
  · refine numbers.nodup_toList.map_on fun m hm m' hm' heq => ?_
    have hlt := (hnumber m (Finset.mem_toList.1 hm)).1
    have hlt' := (hnumber m' (Finset.mem_toList.1 hm')).1
    have hnat := congrArg BitVec.toNat heq
    rwa [BitVec.toNat_ofNat, BitVec.toNat_ofNat, Nat.mod_eq_of_lt hlt, Nat.mod_eq_of_lt hlt']
      at hnat
  · intro id hid hkey
    obtain ⟨m, hm, rfl⟩ := List.mem_map.1 hid
    obtain ⟨hlt, hno⟩ := hnumber m (Finset.mem_toList.1 hm)
    exact hno _ hkey (by rw [BitVec.toNat_ofNat, Nat.mod_eq_of_lt hlt])

/-- An INSERT goes through if there are ids for its rows. -/
theorem exists_callOp_insert {i : ι} {values : List InsertRow} {bindparams : List BindParameter}
    (h : w.tasks.keys.length + values.length ≤ 2 ^ 128) :
    ∃ c : Choice,
      c.fault = .none ∧
      (callOp i c (.execute (.insertTasks values bindparams)) w).isSome = true := by
  cases hnews : values.mapM (InsertRow.eval bindparams) with
  | none =>
      exact ⟨{}, rfl, by simp [callOp, runOp, runStmt, hnews]⟩
  | some news =>
      have hlength : news.length = values.length := by
        simpa using (congrArg List.length (mapM_eq_some_iff.1 hnews)).symm
      obtain ⟨ids, hids, hnodup, hunused⟩ := exists_unused_ids h
      have hmap : ((List.zipWith (NewTask.toRow ((w.begin i).now i)) ids news).map
          fun row => (row.id, row)).map Prod.fst = ids :=
        map_id_zipWith_toRow _ ids news (by omega)
      rw [← hmap] at hnodup
      obtain ⟨t, ht⟩ := Table.exists_insertAll_eq_some (i := i) (t := w.tasks) hnodup
        fun kv hkv => w.tasks.support _ (hunused _ (hmap ▸ List.mem_map_of_mem hkv))
      have htasks : (w.begin i).tasks = w.tasks := rfl
      refine ⟨{ ids := ids }, rfl, ?_⟩
      simp only [callOp, runOp, runStmt, hnews, hids, hlength, if_true, insertRows, htasks, ht,
        Option.map_some, Option.isSome_some]

/-- An UPDATE goes through if nobody else holds a version of the row. -/
theorem exists_callOp_update {i : ι} {st : Stmt} {u : RowWrite} (hu : st.write? = some u)
    (hfree : (w.tasks.slot u.taskId).lockedFor i = false) :
    (callOp i {} (.execute st) w).isSome = true := by
  have hrow : ∀ f, (updateRow i u.taskId f (w.begin i)).isSome = true := by
    intro f
    have hfree' : ((w.begin i).tasks.slot u.taskId).lockedFor i = false := hfree
    have hmodify : ∃ t, (w.begin i).tasks.modify i u.taskId f = some t := by
      unfold Table.modify
      split
      · exact ⟨_, rfl⟩
      · split
        · exact ⟨_, rfl⟩
        · rw [hfree', if_neg (by simp)]
          exact ⟨_, rfl⟩
    obtain ⟨t, ht⟩ := hmodify
    rw [updateRow, ht]
    rfl
  cases st with
  | cancelTask taskId =>
      cases hu
      exact hrow (setCanceled ((w.begin i).now i))
  | updateTask taskId url method headers body =>
      cases hu
      exact hrow (setData url method headers body ((w.begin i).now i))
  | confirmTask taskId =>
      cases hu
      exact hrow setPending
  | _ => cases hu

/-- Every other call goes through. -/
theorem exists_callOp {i : ι} {o : TaskOp}
    (hinsert : ∀ values bindparams, o ≠ .execute (.insertTasks values bindparams))
    (hupdate : ∀ st, o = .execute st → st.write? = none) :
    ∃ c : Choice, c.fault = .none ∧ (callOp i c o w).isSome = true := by
  cases o with
  | execute st =>
      cases st with
      | insertTasks values bindparams => exact absurd rfl (hinsert values bindparams)
      | selectUserTasks userId skip limit =>
          have hperm : w.tasks.keys.Perm (w.begin i).tasks.keys := List.Perm.refl _
          exact ⟨{ order := w.tasks.keys }, rfl, by simp [callOp, runOp, runStmt, hperm]⟩
      | selectOwnerStatus taskId => exact ⟨{}, rfl, rfl⟩
      | selectTask taskId => exact ⟨{}, rfl, rfl⟩
      | _ => exact absurd (hupdate _ rfl) (by simp [Stmt.write?])
  | _ => exact ⟨{}, rfl, rfl⟩

theorem canCall_of_callOp {i : ι} {o : TaskOp} {k : Reply → TaskProg Response} {c : Choice}
    (hp : s.prog i = .op o k) (hcall : (callOp i c o s.world).isSome = true)
    (hc : c.fault = .none ∨ LacksIds s i) : CanCall s i := by
  obtain ⟨⟨r, w⟩, hexec⟩ := Option.isSome_iff_exists.1 hcall
  obtain ⟨s', hstep⟩ : ∃ s', (taskMachine ι).step s (.op i c) = some s' :=
    Machine.exists_step hp hexec
  exact ⟨c, s', hstep, hc⟩

/-- A request that is not about to UPDATE need not wait. -/
theorem canCall_of_not_write {i : ι} {o : TaskOp} {k : Reply → TaskProg Response}
    (hp : s.prog i = .op o k) (ho : ∀ st, o = .execute st → st.write? = none) : CanCall s i := by
  by_cases hinsert : ∃ values bindparams, o = .execute (.insertTasks values bindparams)
  · obtain ⟨values, bindparams, rfl⟩ := hinsert
    by_cases hids : s.world.tasks.keys.length + values.length ≤ 2 ^ 128
    · obtain ⟨c, hc, hcall⟩ := exists_callOp_insert hids
      exact canCall_of_callOp hp hcall (Or.inl hc)
    · -- no ids are left, so PostgreSQL refuses the rows
      have hfails : (callOp i { fault := .before ⟨"", false⟩ }
          (.execute (.insertTasks values bindparams)) s.world).isSome = true := rfl
      exact canCall_of_callOp hp hfails (Or.inr ⟨values, bindparams, k, hp, by omega⟩)
  · push Not at hinsert
    obtain ⟨c, hc, hcall⟩ := exists_callOp (i := i) (w := s.world) hinsert ho
    exact canCall_of_callOp hp hcall (Or.inl hc)

/-- A request is about to UPDATE a row of another one, or need not wait. -/
theorem canCall_or_waitsFor {i : ι} (hi : ¬ (s.prog i).Ended) :
    CanCall s i ∨ ∃ j, WaitsFor s i j := by
  obtain ⟨o, k, hp⟩ := Prog.exists_op_of_not_ended hi
  by_cases hwrite : ∀ st, o = .execute st → st.write? = none
  · exact Or.inl (canCall_of_not_write hp hwrite)
  · push Not at hwrite
    obtain ⟨st, rfl, hst⟩ := hwrite
    obtain ⟨u, hu⟩ := Option.ne_none_iff_exists'.1 hst
    cases hlocked : (s.world.tasks.slot u.taskId).lockedFor i with
    | false =>
        exact Or.inl (canCall_of_callOp hp (exists_callOp_update hu hlocked) (Or.inl rfl))
    | true =>
        cases hpending : (s.world.tasks.slot u.taskId).pending with
        | none => simp [Slot.lockedFor, hpending] at hlocked
        | some held =>
            obtain ⟨j, row⟩ := held
            have hji : j ≠ i := by simpa [Slot.lockedFor, hpending] using hlocked
            exact Or.inr ⟨j, st, u, k, row, hp, hu, hpending, hji⟩

omit [DecidableEq ι] in
/-- A request that holds up another one has written, and does not write again. -/
theorem Sound.not_write_of_waitsFor (h : Sound reqs s) {i j : ι} (hwaits : WaitsFor s i j)
    {st : Stmt} {k : Reply → TaskProg Response} (hj : s.prog j = .op (.execute st) k) :
    st.write? = none := by
  obtain ⟨st', u, k', row, hi, hu, hpending, -⟩ := hwaits
  by_contra hwrite
  obtain ⟨u', hu'⟩ := Option.ne_none_iff_exists'.1 hwrite
  obtain ⟨-, old, hold, -⟩ := h.coupled.write_target h.disciplined hi hu
  obtain ⟨v, hv⟩ := h.coupled.updated hpending hold
  have hnone := (h.coupled.write_target h.disciplined hj hu').1
  rw [hv.wrote] at hnone
  cases hnone

end Waiting

section Rest

/-- The request holds no version and has no transaction open. -/
structure AtRest (i : ι) (w : World ι) : Prop where
  pending : ∀ id row, (w.tasks.slot id).pending ≠ some (i, row)
  started : w.started i = none
  notices : w.notices i = []

theorem atRest_rollback (i : ι) (w : World ι) : AtRest i (w.rollback i) where
  pending _ _ h := (Slot.rollback_pending.1 h).1 rfl
  started := update_self ..
  notices := update_self ..

theorem AtRest.rollback_other {i j : ι} (h : AtRest j w) (hji : j ≠ i) :
    AtRest j (w.rollback i) where
  pending id row hrow := h.pending id row (Slot.rollback_pending.1 hrow).2
  started := (update_of_ne hji _ _).trans h.started
  notices := (update_of_ne hji _ _).trans h.notices

theorem runOp_started_other {i j : ι} (hji : j ≠ i) {c : Choice} {o : TaskOp} {r : Reply}
    (h : runOp i c o w = some (r, w')) : w'.started j = w.started j := by
  cases o with
  | execute st =>
      obtain ⟨tasks, notices, rfl⟩ := runStmt_frame (w := w.begin i) h
      exact update_of_ne hji _ _
  | commit =>
      cases h
      exact update_of_ne hji _ _
  | rollback =>
      cases h
      exact update_of_ne hji _ _
  | close =>
      cases h
      exact update_of_ne hji _ _
  | inc counter amount =>
      cases h
      cases counter <;> rfl
  | _ =>
      cases h
      rfl

theorem callOp_started_other {i j : ι} (hji : j ≠ i) {c : Choice} {o : TaskOp} {r : Reply}
    (h : callOp i c o w = some (r, w')) : w'.started j = w.started j := by
  rcases callOp_cases h with ⟨r', hrun, -, -⟩ | ⟨f, -, -, -, rfl⟩
  · exact runOp_started_other hji hrun
  · cases o with
    | rollback => exact update_of_ne hji _ _
    | close => exact update_of_ne hji _ _
    | _ => rfl

/-- A call of one request leaves another one at rest. -/
theorem AtRest.of_callOp {i j : ι} (h : AtRest j w) (hji : j ≠ i) {c : Choice} {o : TaskOp}
    {r : Reply} (hexec : callOp i c o w = some (r, w')) : AtRest j w' where
  pending id row hrow := by
    rcases (callOp_slot hexec id).pending hrow with ⟨hsame, -⟩ | ⟨rfl, -⟩ | ⟨rfl, -⟩
    · exact h.pending id row (hsame ▸ hrow)
    · exact hji rfl
    · exact hji rfl
  started := (callOp_started_other hji hexec).trans h.started
  notices := (callOp_notices_other hji hexec).trans h.notices

/-- `session.close()` ends the transaction, even if the call fails. -/
theorem atRest_of_close {i : ι} {c : Choice} {r : Reply}
    (hexec : callOp i c .close w = some (r, w')) : AtRest i w' := by
  rcases callOp_cases hexec with ⟨r', hrun, -, -⟩ | ⟨f, -, -, -, rfl⟩
  · cases hrun
    exact atRest_rollback i w
  · exact atRest_rollback i w

omit [DecidableEq ι] in
theorem AtRest.of_envStep {j : ι} (h : AtRest j w) {a : EnvAction}
    (henv : envStep a w = some w') : AtRest j w' := by
  cases a with
  | tick d =>
      cases henv
      exact ⟨h.pending, h.started, h.notices⟩
  | broker a =>
      obtain ⟨b, -, rfl⟩ := Option.map_eq_some_iff.1 henv
      exact ⟨h.pending, h.started, h.notices⟩

/-- The last thing that a request does is to close its session. -/
def Closes (s : TaskConfig ι) : Prop :=
  Monitored (fun _ => Prog.lastMonitor TaskOp (List TaskRow) Exc) (fun _ => none)
    (fun _ _ g => g = some .close) .cancelledError s

omit [DecidableEq ι] in
theorem startTasks_closes [UrlValidator] (w : World ι) (reqs : ι → TaskRequest) :
    Closes (startTasks w reqs) :=
  Monitored.start fun _ => (Prog.endsBy_effect TaskOp.close).tryFinally _ none

/-- Whoever has ended is at rest. -/
structure Settling (s : TaskConfig ι) : Prop where
  closes : Closes s
  atRest : ∀ i, (s.prog i).Ended → AtRest i s.world

theorem Settling.step (h : Settling s) (hstep : (taskMachine ι).step s l = some s') :
    Settling s' := by
  have hmeets : (taskMachine ι).Meets fun _ => Prog.lastMonitor TaskOp (List TaskRow) Exc :=
    fun _ _ _ _ _ _ _ => trivial
  refine ⟨h.closes.step hmeets hstep, fun j hj => ?_⟩
  obtain ⟨i, c, o, k, r, w, rfl, hp, hexec, rfl⟩ | ⟨a, w, rfl, henv, rfl⟩ |
      ⟨i, o, k, rfl, hp, rfl⟩ := Machine.step_cases hstep
  · by_cases hji : j = i
    · subst hji
      simp only [update_self] at hj
      have hlast := Prog.EndsBy.last (h.closes.after_call hmeets hp hexec) hj
      cases hlast
      exact atRest_of_close hexec
    · simp only [update_of_ne hji] at hj
      exact (h.atRest j hj).of_callOp hji hexec
  · exact (h.atRest j hj).of_envStep henv
  · by_cases hji : j = i
    · subst hji
      exact atRest_rollback j _
    · simp only [update_of_ne hji] at hj
      exact (h.atRest j hj).rollback_other hji

theorem settling_of_run [UrlValidator] (hw : w.Quiet)
    (hrun : (taskMachine ι).run (startTasks w reqs) ls = some s) : Settling s :=
  Machine.invariant_of_run Settling (fun _ _ _ hs hstep => hs.step hstep)
    ⟨startTasks_closes w reqs, fun i _ => ⟨by simp [startTasks, Machine.start, hw.pending],
      hw.started i, hw.notices i⟩⟩ hrun

/--
When all requests have ended, each with a response, with an exception or because
it was abandoned, no row lock is held, no transaction is open and no
notification waits for a commit.
-/
theorem quiet_of_ended [UrlValidator] (hw : w.Quiet)
    (hrun : (taskMachine ι).run (startTasks w reqs) ls = some s)
    (hended : ∀ i, (s.prog i).Ended) : s.world.Quiet := by
  have hrest := fun i => (settling_of_run hw hrun).atRest i (hended i)
  refine ⟨fun id => ?_, fun i => (hrest i).started, fun i => (hrest i).notices⟩
  by_contra hpending
  obtain ⟨⟨i, row⟩, hrow⟩ := Option.ne_none_iff_exists'.1 hpending
  exact (hrest i).pending id row hrow

/-- A task has been canceled, and nothing is left of the transaction. -/
theorem quiet_of_ended_delete :
    letI := sampleUrls
    ∃ s : TaskConfig (Fin 1),
      (taskMachine (Fin 1)).run
        (startTasks (worldOf (Fin 1) [samplePending]) fun _ => sampleDelete)
        (List.replicate 7 (callOf 0)) = some s ∧
      s.world.Quiet := by
  let := sampleUrls
  obtain ⟨s, hs⟩ := Option.isSome_iff_exists.1
    (show ((taskMachine (Fin 1)).run
      (startTasks (worldOf (Fin 1) [samplePending]) fun _ => sampleDelete)
      (List.replicate 7 (callOf 0))).isSome = true by decide)
  have hended : ((taskMachine (Fin 1)).run
      (startTasks (worldOf (Fin 1) [samplePending]) fun _ => sampleDelete)
      (List.replicate 7 (callOf 0))).map (fun s => (s.prog 0).next?) = some none := by
    decide
  rw [hs] at hended
  refine ⟨s, hs, quiet_of_ended (worldOf_quiet [samplePending]) hs fun i => ?_⟩
  obtain rfl : i = 0 := Subsingleton.elim i 0
  exact Option.some.inj hended

end Rest

section Liveness

/--
No deadlock: a request that has not ended can make its next call, or waits for a
request that can.
-/
theorem no_deadlock [UrlValidator] (hw : w.Quiet)
    (hrun : (taskMachine ι).run (startTasks w reqs) ls = some s) {i : ι}
    (hi : ¬ (s.prog i).Ended) :
    ∃ j, (j = i ∨ WaitsFor s i j) ∧ CanCall s j := by
  rcases canCall_or_waitsFor hi with hcall | ⟨j, hwaits⟩
  · exact ⟨i, Or.inl rfl, hcall⟩
  · refine ⟨j, Or.inr hwaits, ?_⟩
    obtain ⟨st, u, k, row, -, -, hpending, -⟩ := id hwaits
    -- whoever holds a version has not ended
    have hj : ¬ (s.prog j).Ended := fun hended =>
      ((settling_of_run hw hrun).atRest j hended).pending u.taskId row hpending
    obtain ⟨o, k', hp⟩ := Prog.exists_op_of_not_ended hj
    refine canCall_of_not_write hp fun st' ho => ?_
    subst ho
    exact (sound_of_run hw hrun).not_write_of_waitsFor hwaits hp

/-- The owner's DELETE waits for the PUT that has written the row before it. -/
theorem no_deadlock_waiting :
    letI := sampleUrls
    ∃ s : TaskConfig (Fin 2),
      (taskMachine (Fin 2)).run
        (startTasks (worldOf (Fin 2) [samplePending]) ![sampleEdit 1, sampleDelete])
        (turns [false, true, false]) = some s ∧
      (taskMachine (Fin 2)).step s (callOf 1) = none ∧
      ∃ j, (j = 1 ∨ WaitsFor s 1 j) ∧ CanCall s j := by
  let := sampleUrls
  obtain ⟨s, hs⟩ := Option.isSome_iff_exists.1
    (show ((taskMachine (Fin 2)).run
      (startTasks (worldOf (Fin 2) [samplePending]) ![sampleEdit 1, sampleDelete])
      (turns [false, true, false])).isSome = true by decide)
  have hblocked : ((taskMachine (Fin 2)).run
      (startTasks (worldOf (Fin 2) [samplePending]) ![sampleEdit 1, sampleDelete])
      (turns [false, true, false])).map (fun s =>
        (((taskMachine (Fin 2)).step s (callOf 1)).isSome, (s.prog 1).next?.isSome)) =
      some (false, true) := by
    decide
  rw [hs] at hblocked
  obtain ⟨hnone, hleft⟩ := Prod.mk.inj (Option.some.inj hblocked)
  refine ⟨s, hs, Option.not_isSome_iff_eq_none.1 (by simp [hnone]), ?_⟩
  refine no_deadlock (worldOf_quiet [samplePending]) hs fun hended => ?_
  rw [show (s.prog 1).next? = none from hended] at hleft
  cases hleft

/--
In every infinite run that does not pass over the requests for ever, all of them
end, and the system comes to rest.
-/
theorem requests_come_to_rest [UrlValidator] [Finite ι] (hw : w.Quiet)
    {run : ℕ → TaskConfig ι} {label : ℕ → TaskLabel ι} (hstart : run 0 = startTasks w reqs)
    (hrun : ∀ n, (taskMachine ι).step (run n) (label n) = some (run (n + 1)))
    (hfair : (taskMachine ι).Fair GoesThrough run label) :
    ∃ N, ∀ n, N ≤ n → (∀ i, ((run n).prog i).Ended) ∧ (run n).world.Quiet := by
  have hreached : ∀ n, ∃ ls, (taskMachine ι).run (startTasks w reqs) ls = some (run n) := by
    intro n
    induction n with
    | zero =>
        exact ⟨[], by rw [hstart]; rfl⟩
    | succ n ih =>
        obtain ⟨ls, hls⟩ := ih
        exact ⟨ls ++ [label n], Machine.run_append_eq_some.2
          ⟨run n, hls, Machine.run_cons_eq_some.2 ⟨run (n + 1), hrun n, rfl⟩⟩⟩
  obtain ⟨N, hN⟩ := Machine.exists_all_ended hrun hfair fun n ⟨i, hi⟩ => by
    obtain ⟨ls, hls⟩ := hreached n
    obtain ⟨j, -, c, s', hstep, hthrough⟩ := no_deadlock hw hls hi
    exact ⟨.op j c, s', rfl, hthrough, hstep⟩
  refine ⟨N, fun n hn => ⟨hN n hn, ?_⟩⟩
  obtain ⟨ls, hls⟩ := hreached n
  exact quiet_of_ended hw hls (hN n hn)

/-- The DELETE waits for the PUT; when both have ended, time goes on. -/
def restingLabel (n : ℕ) : TaskLabel (Fin 2) :=
  (turns ([false, true] ++ List.replicate 5 false ++ List.replicate 6 true))[n]?.getD
    (.env (.tick 1))

def restingRun : ℕ → TaskConfig (Fin 2)
  | 0 =>
      letI := sampleUrls
      startTasks (worldOf (Fin 2) [samplePending]) ![sampleEdit 1, sampleDelete]
  | n + 1 => ((taskMachine (Fin 2)).step (restingRun n) (restingLabel n)).getD (restingRun n)

theorem step_restingRun (n : ℕ) :
    (taskMachine (Fin 2)).step (restingRun n) (restingLabel n) = some (restingRun (n + 1)) := by
  have hturns : ∀ n < 13,
      ((taskMachine (Fin 2)).step (restingRun n) (restingLabel n)).isSome = true := by
    decide
  have hsome : ((taskMachine (Fin 2)).step (restingRun n) (restingLabel n)).isSome = true := by
    by_cases hn : n < 13
    · exact hturns n hn
    · rw [restingLabel, List.getElem?_eq_none (not_lt.1 hn)]
      rfl
  obtain ⟨s, hs⟩ := Option.isSome_iff_exists.1 hsome
  rw [restingRun, hs, Option.getD_some]

theorem restingRun_ended (n : ℕ) (i : Fin 2) : ((restingRun (n + 13)).prog i).Ended := by
  induction n with
  | zero =>
      revert i
      show ∀ i, ((restingRun 13).prog i).next? = none
      decide
  | succ n ih =>
      have hidle : (restingLabel (n + 13)).actor = none := by
        rw [restingLabel, List.getElem?_eq_none (show 13 ≤ n + 13 by omega)]
        rfl
      have hsame := Machine.prog_of_env (step_restingRun (n + 13)) hidle
      rw [show n + 1 + 13 = n + 13 + 1 by omega, hsame]
      exact ih

theorem requests_come_to_rest_waiting :
    ((taskMachine (Fin 2)).step (restingRun 3) (callOf 1)).isNone ∧
    ((restingRun 3).prog 1).next?.isSome ∧
    ∃ N, ∀ n, N ≤ n →
      (∀ i, ((restingRun n).prog i).Ended) ∧ (restingRun n).world.Quiet := by
  let := sampleUrls
  have hstart : restingRun 0 =
      startTasks (worldOf (Fin 2) [samplePending]) ![sampleEdit 1, sampleDelete] := rfl
  refine ⟨by decide, by decide,
    requests_come_to_rest (worldOf_quiet [samplePending]) hstart step_restingRun fun n h => ?_⟩
  by_cases hn : n < 13
  · have hturns : ∀ n < 13, (restingLabel n).actor.isSome = true := by
      decide
    exact ⟨n, le_rfl, hturns n hn⟩
  · -- nobody is left to be passed over
    obtain ⟨l, s', hactor, -, hstep⟩ := h
    obtain ⟨i, hi⟩ := Option.isSome_iff_exists.1 hactor
    have hended := restingRun_ended (n - 13) i
    rw [show n - 13 + 13 = n by omega] at hended
    exact absurd hended (Machine.not_ended_of_step hstep hi)

end Liveness

end RequestProgress

end SmartHttpRequester
