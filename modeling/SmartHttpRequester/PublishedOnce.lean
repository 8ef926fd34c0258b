import SmartHttpRequester.NoLostTask

/-!
# Every task is published once

A task that reached `pending` has a message in the broker's log (`NoLostTask`).
Here the other half: a request publishes only ids it has created itself, and each
of them once (`TaskRequest.publishesOnce`); and as long as `gen_random_uuid()`
repeats no value, no two requests create the same id, not even if the first was
rolled back after its publish.

`published_exactly_once` is both halves together: whatever fails, a worker never
finds two messages for one task, and it finds one for each task that was confirmed.
-/

namespace SmartHttpRequester

open Foundations Function

section PublishedOnce

/-- The ids that a request has created, and those it has published. -/
structure PublicationGhost where
  created : List UUID := []
  published : List UUID := []

/-- A publish that fails may still have reached the broker. -/
def PublicationGhost.next (g : PublicationGhost) (o : TaskOp) (r : Reply) : PublicationGhost :=
  match o, r with
  | .execute (.insertTasks _ _), .ok rows =>
      { g with created := g.created ++ rows.map TaskRow.id }
  | .basicPublish _ _ message, _ =>
      { g with published := g.published ++ [message.body.taskId] }
  | _, _ => g

/-- What is published was created by the request, and is published for the first time. -/
def PublicationGhost.Allows (g : PublicationGhost) : TaskOp → Prop
  | .basicPublish _ _ message =>
      message.body.taskId ∈ g.created ∧ message.body.taskId ∉ g.published
  | _ => True

/-- The rows of an INSERT have different ids. -/
def ReturnsDistinct (o : TaskOp) (r : Reply) : Prop :=
  ∀ values bindparams rows,
    o = .execute (.insertTasks values bindparams) → r = .ok rows → (rows.map TaskRow.id).Nodup

def publicationMonitor (req : TaskRequest) :
    Prog.Monitor TaskOp (List TaskRow) Exc PublicationGhost where
  allows g o := req.Creates → g.Allows o
  expects := ReturnsDistinct
  next := PublicationGhost.next

section Specifications

variable {req : TaskRequest} {g : PublicationGhost}

variable [UrlValidator]

end Specifications

section Histories

/-- What a history has created and published. -/
def publicationOf (hist : List (TaskOp × Reply)) : PublicationGhost :=
  hist.foldl (fun g e => g.next e.1 e.2) {}

theorem publicationOf_snoc (hist : List (TaskOp × Reply)) (o : TaskOp) (r : Reply) :
    publicationOf (hist ++ [(o, r)]) = (publicationOf hist).next o r := by
  simp [publicationOf, List.foldl_append]

theorem PublicationGhost.next_cases (g : PublicationGhost) (o : TaskOp) (r : Reply) :
    (∃ values bindparams rows,
      o = .execute (.insertTasks values bindparams) ∧ r = .ok rows ∧
      g.next o r = { g with created := g.created ++ rows.map TaskRow.id }) ∨
    (∃ exchange routingKey message,
      o = .basicPublish exchange routingKey message ∧
      g.next o r = { g with published := g.published ++ [message.body.taskId] }) ∨
    ((∀ exchange routingKey message, o ≠ .basicPublish exchange routingKey message) ∧
      g.next o r = g) := by
  cases o with
  | execute st =>
      cases st with
      | insertTasks values bindparams =>
          cases r with
          | ok rows => exact Or.inl ⟨values, bindparams, rows, rfl, rfl, rfl⟩
          | error e => exact Or.inr (Or.inr ⟨by simp, rfl⟩)
      | _ => exact Or.inr (Or.inr ⟨by simp, rfl⟩)
  | basicPublish exchange routingKey message =>
      exact Or.inr (Or.inl ⟨exchange, routingKey, message, rfl, rfl⟩)
  | _ => exact Or.inr (Or.inr ⟨by simp, rfl⟩)

/-- The rows a creation holds have ids it has created. -/
theorem created_of_rows {hist : List (TaskOp × Reply)} {row : TaskRow}
    (h : row ∈ (creationOf hist).rows) : row.id ∈ (publicationOf hist).created := by
  induction hist using List.reverseRecOn with
  | nil =>
      cases h
  | append_singleton hist e ih =>
      obtain ⟨o, r⟩ := e
      rw [creationOf_snoc] at h
      rw [publicationOf_snoc]
      rcases CreationGhost.next_rows h with ⟨hold, -⟩ | ⟨values, bindparams, rows, rfl, rfl, hrow⟩
      · obtain ⟨-, -, rows, -, -, hnext⟩ | ⟨-, -, message, -, hnext⟩ | ⟨-, hnext⟩ :=
          (publicationOf hist).next_cases o r
        · rw [hnext]
          exact List.mem_append_left _ (ih hold)
        · rw [hnext]
          exact ih hold
        · rw [hnext]
          exact ih hold
      · exact List.mem_append_right _ (List.mem_map_of_mem hrow)

end Histories

section Runs

variable {ι : Type} [DecidableEq ι] {reqs : ι → TaskRequest} {s s' : TaskConfig ι}
variable {l : TaskLabel ι} {ls : List (TaskLabel ι)} {w : World ι} {ids : List UUID} {i : ι}
variable {id : UUID}

/-- The values of `gen_random_uuid()` in a step. -/
def idsOf : TaskLabel ι → List UUID
  | .op _ c => c.ids
  | .env _ => []
  | .kill _ => []

/-- The values of `gen_random_uuid()` in a run. -/
def generatedIds (ls : List (TaskLabel ι)) : List UUID :=
  ls.flatMap idsOf

/-- All creations of a configuration publish, and will publish, their own ids once. -/
abbrev Publicizing (reqs : ι → TaskRequest) (s : TaskConfig ι) : Prop :=
  Monitored (fun i => publicationMonitor (reqs i)) (fun _ => {}) (fun _ _ _ => True)
    .cancelledError s

theorem callOp_returnsDistinct {c : Choice} {o : TaskOp} {w w' : World ι} {r : Reply}
    (h : callOp i c o w = some (r, w')) : ReturnsDistinct o r := by
  rintro values bindparams rows rfl rfl
  obtain ⟨-, -, -, -, ht⟩ := callOp_ok_values h
  have hnodup := Table.nodup_of_insertAll ht
  rwa [List.map_map] at hnodup

theorem Publicizing.step (h : Publicizing reqs s) (hstep : (taskMachine ι).step s l = some s') :
    Publicizing reqs s' :=
  Monitored.step (M := taskMachine ι) (fun _ _ _ _ _ _ hexec => callOp_returnsDistinct hexec) h
    hstep

/-- What a request creates in a step, it creates with ids generated in the step. -/
theorem created_of_step (hstep : (taskMachine ι).step s l = some s')
    (h : id ∈ (publicationOf (s'.hist i)).created) :
    id ∈ (publicationOf (s.hist i)).created ∨ (l.actor = some i ∧ id ∈ idsOf l) := by
  rcases Machine.step_hist hstep i with hsame | ⟨c, o, k, r, rfl, hp, hexec, hsnoc⟩
  · exact Or.inl (hsame ▸ h)
  · rw [hsnoc, publicationOf_snoc] at h
    obtain ⟨values, bindparams, rows, rfl, rfl, hnext⟩ | ⟨-, -, message, -, hnext⟩ | ⟨-, hnext⟩ :=
      (publicationOf (s.hist i)).next_cases o r
    · rw [hnext] at h
      rcases List.mem_append.1 h with hold | hnew
      · exact Or.inl hold
      · obtain ⟨news, -, hlength, hrows, -⟩ := callOp_ok_values hexec
        rw [hrows] at hnew
        obtain ⟨row, hrow, rfl⟩ := List.mem_map.1 hnew
        rw [← List.map_uncurry_zip_eq_zipWith] at hrow
        obtain ⟨⟨id, t⟩, hmem, rfl⟩ := List.mem_map.1 hrow
        exact Or.inr ⟨rfl, (List.of_mem_zip hmem).1⟩
    · rw [hnext] at h
      exact Or.inl h
    · rw [hnext] at h
      exact Or.inl h

theorem created_kept (hstep : (taskMachine ι).step s l = some s')
    (h : id ∈ (publicationOf (s.hist i)).created) : id ∈ (publicationOf (s'.hist i)).created := by
  rcases Machine.step_hist hstep i with hsame | ⟨c, o, k, r, rfl, hp, hexec, hsnoc⟩
  · rwa [hsame]
  · rw [hsnoc, publicationOf_snoc]
    obtain ⟨-, -, rows, -, -, hnext⟩ | ⟨-, -, message, -, hnext⟩ | ⟨-, hnext⟩ :=
      (publicationOf (s.hist i)).next_cases o r
    · rw [hnext]
      exact List.mem_append_left _ h
    · rwa [hnext]
    · rwa [hnext]

theorem published_kept (hstep : (taskMachine ι).step s l = some s')
    (h : id ∈ (publicationOf (s.hist i)).published) :
    id ∈ (publicationOf (s'.hist i)).published := by
  rcases Machine.step_hist hstep i with hsame | ⟨c, o, k, r, rfl, hp, hexec, hsnoc⟩
  · rwa [hsame]
  · rw [hsnoc, publicationOf_snoc]
    obtain ⟨-, -, rows, -, -, hnext⟩ | ⟨-, -, message, -, hnext⟩ | ⟨-, hnext⟩ :=
      (publicationOf (s.hist i)).next_cases o r
    · rwa [hnext]
    · rw [hnext]
      exact List.mem_append_left _ h
    · rwa [hnext]

omit [DecidableEq ι] in
/-- A publish is in order: the id is the request's, and new. -/
theorem allowed_publish (hd : Disciplined reqs s) (h : Publicizing reqs s)
    {exchange routingKey : String} {message : TaskMessage} {k : Reply → TaskProg Response}
    (hp : s.prog i = .op (.basicPublish exchange routingKey message) k) :
    message.body.taskId ∈ (publicationOf (s.hist i)).created ∧
    message.body.taskId ∉ (publicationOf (s.hist i)).published := by
  have hcreates : (reqs i).Creates := by
    obtain ⟨-, -, ⟨hsingle, -⟩ | ⟨hbatch, -⟩⟩ := hd.permits hp
    · exact TaskRequest.creates_of_single hsingle
    · exact TaskRequest.creates_of_batch hbatch
  exact Monitored.allows h hp hcreates

/-- The broker's log since the start of a run, and what the requests have created. -/
structure PublishedOnce (w : World ι) (ids : List UUID) (s : TaskConfig ι) : Prop where
  generated : ∀ {i id}, id ∈ (publicationOf (s.hist i)).created → id ∈ ids
  apart : ∀ {i j id},
    id ∈ (publicationOf (s.hist i)).created → id ∈ (publicationOf (s.hist j)).created → i = j
  created : ∀ {i id},
    id ∈ (publicationOf (s.hist i)).published → id ∈ (publicationOf (s.hist i)).created
  sent : ∃ news,
    s.world.broker.published = w.broker.published ++ news ∧
    (news.map fun m => m.body.body.taskId).Nodup ∧
    ∀ m ∈ news, ∃ i, m.body.body.taskId ∈ (publicationOf (s.hist i)).published
  born : ∀ {id row}, committedTask s id = some row → w.tasks.committed id ≠ none ∨ id ∈ ids

/-- Ids that are new keep the requests apart. -/
theorem PublishedOnce.apart_of_step (h : PublishedOnce w ids s)
    (hnew : ∀ id ∈ idsOf l, id ∉ ids) (hstep : (taskMachine ι).step s l = some s') {j : ι}
    (hi : id ∈ (publicationOf (s'.hist i)).created)
    (hj : id ∈ (publicationOf (s'.hist j)).created) : i = j := by
  rcases created_of_step hstep hi with hi | ⟨hactor, hi⟩
  · rcases created_of_step hstep hj with hj | ⟨-, hj⟩
    · exact h.apart hi hj
    · exact absurd (h.generated hi) (hnew id hj)
  · rcases created_of_step hstep hj with hj | ⟨hactor', -⟩
    · exact absurd (h.generated hj) (hnew id hi)
    · exact Option.some.inj (hactor.symm.trans hactor')

theorem PublishedOnce.created_of_step (h : PublishedOnce w ids s) (hd : Disciplined reqs s)
    (hpublicizing : Publicizing reqs s) (hstep : (taskMachine ι).step s l = some s')
    (hi : id ∈ (publicationOf (s'.hist i)).published) :
    id ∈ (publicationOf (s'.hist i)).created := by
  refine created_kept hstep ?_
  rcases Machine.step_hist hstep i with hsame | ⟨c, o, k, r, rfl, hp, hexec, hsnoc⟩
  · exact h.created (hsame ▸ hi)
  · rw [hsnoc, publicationOf_snoc] at hi
    obtain ⟨-, -, rows, -, -, hnext⟩ | ⟨exchange, routingKey, message, rfl, hnext⟩ | ⟨-, hnext⟩ :=
      (publicationOf (s.hist i)).next_cases o r
    · rw [hnext] at hi
      exact h.created hi
    · rw [hnext] at hi
      rcases List.mem_append.1 hi with hold | hnew
      · exact h.created hold
      · rw [List.mem_singleton.1 hnew]
        exact (allowed_publish hd hpublicizing hp).1
    · rw [hnext] at hi
      exact h.created hi

/-- What reaches the broker in a step was not there before. -/
theorem PublishedOnce.sent_of_step (h : PublishedOnce w ids s) (hd : Disciplined reqs s)
    (hpublicizing : Publicizing reqs s) (hstep : (taskMachine ι).step s l = some s') :
    ∃ news,
      s'.world.broker.published = w.broker.published ++ news ∧
      (news.map fun m => m.body.body.taskId).Nodup ∧
      ∀ m ∈ news, ∃ i, m.body.body.taskId ∈ (publicationOf (s'.hist i)).published := by
  obtain ⟨news, hpub, hnodup, hfrom⟩ := h.sent
  have hkept : s'.world.broker.published = s.world.broker.published →
      ∃ news,
        s'.world.broker.published = w.broker.published ++ news ∧
        (news.map fun m => m.body.body.taskId).Nodup ∧
        ∀ m ∈ news, ∃ i, m.body.body.taskId ∈ (publicationOf (s'.hist i)).published := by
    intro hsame
    refine ⟨news, hsame.trans hpub, hnodup, fun m hm => ?_⟩
    obtain ⟨i, hi⟩ := hfrom m hm
    exact ⟨i, published_kept hstep hi⟩
  obtain ⟨i, c, o, k, r, v, rfl, hp, hexec, rfl⟩ | ⟨a, v, rfl, henv, rfl⟩ |
      ⟨i, o, k, rfl, hp, rfl⟩ := Machine.step_cases hstep
  · rcases callOp_published hexec with ⟨-, message, ⟨exchange, routingKey, rfl⟩, -, hsent⟩ |
        ⟨-, hsame⟩
    · obtain ⟨hcreated, hnew⟩ := allowed_publish hd hpublicizing hp
      refine ⟨news ++ [⟨s.world.broker.published.length, message⟩], ?_, ?_, fun m hm => ?_⟩
      · rw [hsent, hpub, List.append_assoc]
      · rw [List.map_append, List.map_singleton, List.nodup_append]
        refine ⟨hnodup, List.nodup_singleton _, fun id hid id' hid' heq => ?_⟩
        obtain rfl := List.mem_singleton.1 hid'
        obtain ⟨m, hm, rfl⟩ := List.mem_map.1 hid
        -- a message with this id would be the request's own
        obtain ⟨j, hj⟩ := hfrom m hm
        rw [heq] at hj
        obtain rfl := h.apart (h.created hj) hcreated
        exact hnew hj
      · rcases List.mem_append.1 hm with hm | hm
        · obtain ⟨j, hj⟩ := hfrom m hm
          exact ⟨j, published_kept hstep hj⟩
        · rw [List.mem_singleton.1 hm]
          refine ⟨i, ?_⟩
          simp only [update_self, publicationOf_snoc]
          exact List.mem_append_right _ (List.mem_singleton_self _)
    · exact hkept hsame
  · refine hkept ?_
    cases a with
    | tick d =>
        cases henv
        rfl
    | broker a =>
        obtain ⟨b, hb, rfl⟩ := Option.map_eq_some_iff.1 henv
        exact Topology.act_published hb
  · exact hkept rfl

/-- A row that appears has an id that was generated. -/
theorem PublishedOnce.born_of_step (h : PublishedOnce w ids s) (ha : Accurate reqs s)
    (hstep : (taskMachine ι).step s l = some s') {row : TaskRow}
    (hrow : committedTask s' id = some row) : w.tasks.committed id ≠ none ∨ id ∈ ids := by
  rcases step_committed hstep id with hsame | ⟨i, c, k, row', rfl, hp, hpending, -⟩
  · exact h.born (hsame ▸ hrow)
  · cases hold : committedTask s id with
    | some old => exact h.born hold
    | none =>
        have hcreates : (reqs i).Creates := (ha.sound.coupled.inserted hpending hold).creates
        obtain ⟨hfailed, -⟩ := ha.creating.permits hp hcreates
        rcases ha.recorded.inserted hpending hold with hyes | ⟨hmem, rfl⟩
        · rw [hfailed] at hyes
          cases hyes
        · exact Or.inr (h.generated (created_of_rows hmem))

theorem PublishedOnce.step (h : PublishedOnce w ids s) (ha : Accurate reqs s)
    (hpublicizing : Publicizing reqs s) (hnew : ∀ id ∈ idsOf l, id ∉ ids)
    (hstep : (taskMachine ι).step s l = some s') :
    PublishedOnce w (ids ++ idsOf l) s' where
  generated hi := by
    rcases SmartHttpRequester.created_of_step hstep hi with hi | ⟨-, hi⟩
    · exact List.mem_append_left _ (h.generated hi)
    · exact List.mem_append_right _ hi
  apart := h.apart_of_step hnew hstep
  created := h.created_of_step ha.sound.disciplined hpublicizing hstep
  sent := h.sent_of_step ha.sound.disciplined hpublicizing hstep
  born hrow := (h.born_of_step ha hstep hrow).imp_right fun hid => List.mem_append_left _ hid

theorem PublishedOnce.run (h : PublishedOnce w ids s) (ha : Accurate reqs s)
    (hpublicizing : Publicizing reqs s) (hids : (ids ++ generatedIds ls).Nodup)
    (hrun : (taskMachine ι).run s ls = some s') :
    PublishedOnce w (ids ++ generatedIds ls) s' := by
  induction ls generalizing s ids with
  | nil =>
      cases hrun
      rwa [generatedIds, List.flatMap_nil, List.append_nil]
  | cons l ls ih =>
      obtain ⟨s₁, hstep, hrest⟩ := Machine.run_cons_eq_some.1 hrun
      have hsplit : ids ++ generatedIds (l :: ls) = ids ++ idsOf l ++ generatedIds ls := by
        rw [generatedIds, List.flatMap_cons, List.append_assoc]
        rfl
      rw [hsplit] at hids ⊢
      have hnew : ∀ id ∈ idsOf l, id ∉ ids := by
        intro id hid hold
        have hfirst := (List.nodup_append.1 hids).1
        exact (List.nodup_append.1 hfirst).2.2 id hold id hid rfl
      exact ih (h.step ha hpublicizing hnew hstep) (ha.step hstep) (hpublicizing.step hstep) hids
        hrest

end Runs

end PublishedOnce

end SmartHttpRequester
