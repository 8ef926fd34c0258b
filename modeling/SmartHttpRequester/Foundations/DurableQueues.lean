import SmartHttpRequester.Foundations.DirectExchange

/-!
# Restarting a broker

After a restart a broker has its durable exchanges and queues, the bindings
between them, and of the messages those that were published as persistent and
stood in a durable queue.  A message that was delivered and not acknowledged
waits again.  Whatever else was waiting or delivered is discarded.

`Consistent.noneLost_restart_iff` says which restarts lose nothing.
-/

namespace Foundations

set_option linter.unusedSectionVars false

section DurableQueues

variable {X Q K B : Type} [DecidableEq X] [DecidableEq Q] [DecidableEq K]

namespace Topology

/-- The message is persistent and its queue durable. -/
def outlives (T : Topology X Q K) (persistent : B → Bool) (e : Q × Envelope B) : Bool :=
  persistent e.2.body && (T.decl e.1).any QueueDecl.durable

/-- The messages after a restart; delivered messages come before those that waited. -/
def restart (T : Topology X Q K) (persistent : B → Bool) (s : BrokerState Q B) :
    BrokerState Q B :=
  { s with
    ready := s.owed.filter (T.outlives persistent)
    held := []
    discarded := s.discarded ++
      (s.owed.filter fun e => !T.outlives persistent e).map Prod.snd }

variable {T : Topology X Q K} {persistent : B → Bool} {s : BrokerState Q B}

theorem restart_everywhere :
    (T.restart persistent s).everywhere.Perm s.everywhere := by
  have hsplit := (List.filter_append_perm (T.outlives persistent) s.owed).map Prod.snd
  rw [List.map_append] at hsplit
  have howed : (s.owed.map Prod.snd).Perm (s.ready.map Prod.snd ++ s.held.map Prod.snd) := by
    rw [BrokerState.owed, List.map_append]
    exact List.perm_append_comm
  simp only [BrokerState.everywhere, restart, List.map_nil, List.append_nil]
  refine List.Perm.trans ?_ (((hsplit.trans howed).append_right s.acked).append_right s.discarded)
  simp only [List.append_assoc]
  refine List.Perm.append_left _ ?_
  refine (List.Perm.append_left _ List.perm_append_comm).trans ?_
  simp only [← List.append_assoc]
  exact List.perm_append_comm.append_right _

theorem mem_owed_declared (h : T.Consistent s) {e : Q × Envelope B} (he : e ∈ s.owed) :
    e.1 ∈ T.names := by
  rcases List.mem_append.1 he with he | he
  · exact h.held e he
  · exact h.ready e he

/-- A restart loses sight of no message: what it drops is in the discarded record. -/
theorem Consistent.restart (h : T.Consistent s) :
    T.Consistent (T.restart persistent s) where
  accounted := restart_everywhere.trans h.accounted
  tags := h.tags
  ready e he := mem_owed_declared h (List.mem_of_mem_filter he)
  held e he := by cases he

theorem restart_discarded_eq_nil :
    (T.restart persistent s).discarded = [] ↔
      s.discarded = [] ∧ ∀ e ∈ s.owed, T.outlives persistent e = true := by
  simp [Topology.restart]

/-- The published messages that are neither acknowledged nor discarded are those owed. -/
theorem Consistent.owes_iff [DecidableEq B] (h : T.Consistent s)
    (hdis : s.discarded = []) {m : Envelope B} :
    s.Owes m ↔ m ∈ s.published ∧ m ∉ s.acked := by
  have hsome : s.Owes m ↔ m ∈ s.owed.map Prod.snd := by
    simp [BrokerState.Owes]
  have hcount : (s.owed.map Prod.snd).count m + s.acked.count m = s.published.count m := by
    rw [← h.accounted.count_eq]
    simp only [BrokerState.everywhere, BrokerState.owed, hdis, List.map_append,
      List.count_append, List.count_nil]
    omega
  have hone : s.published.count m ≤ 1 := List.nodup_iff_count_le_one.1 h.published_nodup m
  rw [hsome, ← List.count_pos_iff, ← List.count_pos_iff, ← List.count_eq_zero]
  omega

/-- All queues are durable. -/
def Durable (T : Topology X Q K) : Prop :=
  ∀ q ∈ T.names, (T.decl q).any QueueDecl.durable = true

/-- In durable queues it is the messages that decide. -/
theorem outlives_iff_of_durable (hT : T.Durable) {e : Q × Envelope B} (he : e.1 ∈ T.names) :
    T.outlives persistent e = true ↔ persistent e.2.body = true := by
  simp [outlives, hT e.1 he]

variable [DecidableEq B]

/-- A restart of durable queues loses nothing exactly when what is owed is persistent. -/
theorem Consistent.noneLost_restart_iff (h : T.Consistent s) (hT : T.Durable)
    (hdis : s.discarded = []) :
    T.NoneLost (T.restart persistent s) ↔
      ∀ m ∈ s.published, m ∉ s.acked → persistent m.body = true := by
  rw [h.restart.noneLost_iff, restart_discarded_eq_nil]
  constructor
  · rintro ⟨-, houtlives⟩ m hm hack
    obtain ⟨q, hq⟩ := (h.owes_iff hdis).2 ⟨hm, hack⟩
    exact (outlives_iff_of_durable hT (mem_owed_declared h hq)).1 (houtlives _ hq)
  · intro hpersistent
    refine ⟨hdis, fun e he => ?_⟩
    obtain ⟨hm, hack⟩ := (h.owes_iff hdis).1 ⟨e.1, he⟩
    exact (outlives_iff_of_durable hT (mem_owed_declared h he)).2 (hpersistent _ hm hack)

end Topology

end DurableQueues

end Foundations
