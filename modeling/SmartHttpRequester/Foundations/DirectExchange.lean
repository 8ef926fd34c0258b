import Mathlib.Data.List.Perm.Basic
import Mathlib.Data.List.Dedup
import Mathlib.Data.List.Nodup
import Mathlib.Tactic
import SmartHttpRequester.Foundations.Schedules

/-!
# A broker with direct exchanges and dead-lettering

Direct exchanges route by exact equality of the routing key.  A message that
matches no binding is discarded.  A message rejected without requeue, or
expired in a queue with a TTL, is sent again to its queue's dead-letter
exchange under the queue's dead-letter routing key.

The state keeps, besides the messages that wait and those that are held
unacknowledged, three records: what was published, what was acknowledged and
what was discarded.  `Topology.Consistent` says that on a topology without fan-out
nothing is ever lost sight of; `Topology.noneLost_always_iff` turns this into
"exactly one place" for every message still owed, in runs that drop nothing.
-/

namespace Foundations

set_option linter.unusedSectionVars false

section DirectExchange

variable {X Q K B : Type}

/-- Arguments of a queue declaration. -/
structure QueueDecl (X Q K : Type) where
  name : Q
  durable : Bool
  ttl : Option Nat
  deadLetter : Option (X × K)

/-- Declared exchanges (with their durability), queues and bindings. -/
structure Topology (X Q K : Type) where
  exchanges : List (X × Bool)
  queues : List (QueueDecl X Q K)
  bindings : List (X × K × Q)

/-- A published message; every publish has a tag of its own. -/
structure Envelope (B : Type) where
  tag : Nat
  body : B
deriving DecidableEq

/-- Messages waiting and held, each with its queue, and the broker's records. -/
structure BrokerState (Q B : Type) where
  ready : List (Q × Envelope B)
  held : List (Q × Envelope B)
  acked : List (Envelope B)
  discarded : List (Envelope B)
  published : List (Envelope B)

/-- What can happen to messages after they are published. -/
inductive BrokerAction (Q : Type) : Type
  | deliver (q : Q)
  | ack (n : Nat)
  | reject (n : Nat)
  | expire (q : Q)

inductive BrokerEvent (X Q K B : Type) : Type
  | publish (x : X) (k : K) (body : B)
  | act (a : BrokerAction Q)

namespace BrokerState

def empty : BrokerState Q B := ⟨[], [], [], [], []⟩

/-- Every message the broker still knows of. -/
def everywhere (s : BrokerState Q B) : List (Envelope B) :=
  s.ready.map Prod.snd ++ s.held.map Prod.snd ++ s.acked ++ s.discarded

/-- Messages that were delivered and not acknowledged, and messages that wait. -/
def owed (s : BrokerState Q B) : List (Q × Envelope B) :=
  s.held ++ s.ready

def Waits (s : BrokerState Q B) (m : Envelope B) : Prop :=
  ∃ q, (q, m) ∈ s.ready

def Holds (s : BrokerState Q B) (m : Envelope B) : Prop :=
  ∃ q, (q, m) ∈ s.held

def Owes (s : BrokerState Q B) (m : Envelope B) : Prop :=
  ∃ q, (q, m) ∈ s.owed

theorem owes_iff {s : BrokerState Q B} {m : Envelope B} :
    s.Owes m ↔ s.Holds m ∨ s.Waits m := by
  simp [Owes, Holds, Waits, owed, exists_or]

end BrokerState

def pluck {α : Type} (l : List α) (n : Nat) : Option (α × List α) :=
  l[n]?.map fun a => (a, l.eraseIdx n)

theorem pluck_perm {α : Type} {l l' : List α} {n : Nat} {a : α}
    (h : pluck l n = some (a, l')) :
    l.Perm (a :: l') := by
  obtain ⟨b, hb, heq⟩ := Option.map_eq_some_iff.1 h
  cases heq
  obtain ⟨hn, rfl⟩ := List.getElem?_eq_some_iff.1 hb
  exact (List.getElem_cons_eraseIdx_perm hn).symm

theorem pluck_mem {α : Type} {l l' : List α} {n : Nat} {a : α}
    (h : pluck l n = some (a, l')) :
    a ∈ l :=
  (pluck_perm h).mem_iff.2 (by simp)

theorem pluck_subset {α : Type} {l l' : List α} {n : Nat} {a : α}
    (h : pluck l n = some (a, l')) :
    l' ⊆ l :=
  fun b hb => (pluck_perm h).mem_iff.2 (by simp [hb])

namespace Topology

variable [DecidableEq X] [DecidableEq Q] [DecidableEq K]

/-- Queues a routing key reaches through an exchange. -/
def route (T : Topology X Q K) (x : X) (k : K) : List Q :=
  (T.bindings.filterMap fun b =>
    if b.1 = x ∧ b.2.1 = k then some b.2.2 else none).dedup

def decl (T : Topology X Q K) (q : Q) : Option (QueueDecl X Q K) :=
  T.queues.find? fun d => d.name = q

/-- Send a message through an exchange; without a binding it is discarded. -/
def send (T : Topology X Q K) (x : X) (k : K) (m : Envelope B)
    (s : BrokerState Q B) : BrokerState Q B :=
  match T.route x k with
  | [] => { s with discarded := s.discarded ++ [m] }
  | qs => { s with ready := s.ready ++ qs.map fun q => (q, m) }

/-- `basic.publish`. -/
def publish (T : Topology X Q K) (x : X) (k : K) (body : B)
    (s : BrokerState Q B) : BrokerState Q B :=
  T.send x k ⟨s.published.length, body⟩
    { s with published := s.published ++ [⟨s.published.length, body⟩] }

def deadLetter (T : Topology X Q K) (q : Q) (m : Envelope B)
    (s : BrokerState Q B) : BrokerState Q B :=
  match (T.decl q).bind QueueDecl.deadLetter with
  | some xk => T.send xk.1 xk.2 m s
  | none => { s with discarded := s.discarded ++ [m] }

/-- The oldest message of a queue, and the broker without it. -/
def takeReady (q : Q) (s : BrokerState Q B) :
    Option (Envelope B × BrokerState Q B) :=
  (s.ready.findIdx? fun e => e.1 = q).bind fun n =>
    (pluck s.ready n).map fun e => (e.1.2, { s with ready := e.2 })

def takeHeld (n : Nat) (s : BrokerState Q B) :
    Option ((Q × Envelope B) × BrokerState Q B) :=
  (pluck s.held n).map fun e => (e.1, { s with held := e.2 })

def act (T : Topology X Q K) (s : BrokerState Q B) :
    BrokerAction Q → Option (BrokerState Q B)
  | .deliver q =>
      (takeReady q s).map fun e => { e.2 with held := e.2.held ++ [(q, e.1)] }
  | .ack n =>
      (takeHeld n s).map fun e => { e.2 with acked := e.2.acked ++ [e.1.2] }
  | .reject n =>
      (takeHeld n s).map fun e => T.deadLetter e.1.1 e.1.2 e.2
  | .expire q =>
      if ((T.decl q).bind QueueDecl.ttl).isSome then
        (takeReady q s).map fun e => T.deadLetter q e.1 e.2
      else none

def step (T : Topology X Q K) (s : BrokerState Q B) :
    BrokerEvent X Q K B → Option (BrokerState Q B)
  | .publish x k body => some (T.publish x k body s)
  | .act a => T.act s a

def run (T : Topology X Q K) (s : BrokerState Q B) :
    List (BrokerEvent X Q K B) → Option (BrokerState Q B)
  | [] => some s
  | e :: es => (T.step s e).bind fun s' => run T s' es

/-- No routing key reaches two queues. -/
def NoFanOut (T : Topology X Q K) : Prop :=
  ∀ x k, (T.route x k).length ≤ 1

/-- Distinct bindings have distinct exchange and key, so nothing fans out. -/
theorem noFanOut_of_nodup {T : Topology X Q K}
    (h : (T.bindings.map fun b => (b.1, b.2.1)).Nodup) :
    T.NoFanOut := by
  intro x k
  refine (List.dedup_sublist _).length_le.trans ?_
  generalize T.bindings = bs at h
  induction bs with
  | nil =>
      simp
  | cons b bs ih =>
      obtain ⟨hnot, hrest⟩ := List.nodup_cons.1 h
      by_cases hb : b.1 = x ∧ b.2.1 = k
      · have hnone : bs.filterMap
            (fun b => if b.1 = x ∧ b.2.1 = k then some b.2.2 else none) = [] := by
          rw [List.filterMap_eq_nil_iff]
          intro b' hb'
          have hne : ¬ (b'.1 = x ∧ b'.2.1 = k) := by
            rintro ⟨hx, hk⟩
            refine hnot (List.mem_map.2 ⟨b', hb', ?_⟩)
            simp [hx, hk, hb.1, hb.2]
          simp [hne]
        simp [hb, hnone]
      · simpa [hb] using ih hrest

theorem publish_published (T : Topology X Q K) (x : X) (k : K) (body : B)
    (s : BrokerState Q B) :
    (T.publish x k body s).published = s.published ++ [⟨s.published.length, body⟩] := by
  unfold publish send
  split <;> rfl

section Accounting

variable {T : Topology X Q K} {s s' : BrokerState Q B}

/-- Sending adds the message to what the broker knows of, exactly once. -/
theorem everywhere_send (hT : T.NoFanOut) (x : X) (k : K) (m : Envelope B)
    (s : BrokerState Q B) :
    (T.send x k m s).everywhere.Perm (m :: s.everywhere) := by
  have hlen := hT x k
  unfold send
  split
  · simp only [BrokerState.everywhere, ← List.append_assoc]
    exact List.perm_append_singleton m _
  · rename_i qs hne
    match hq : T.route x k with
    | [] => exact absurd hq hne
    | [q] =>
        simp only [BrokerState.everywhere, List.map_append, List.map_cons, List.map_nil,
          List.append_assoc, List.singleton_append]
        exact List.perm_middle
    | _ :: _ :: _ =>
        simp [hq] at hlen

theorem everywhere_deadLetter (hT : T.NoFanOut) (q : Q) (m : Envelope B)
    (s : BrokerState Q B) :
    (T.deadLetter q m s).everywhere.Perm (m :: s.everywhere) := by
  unfold deadLetter
  split
  · exact everywhere_send hT _ _ m s
  · simp only [BrokerState.everywhere, ← List.append_assoc]
    exact List.perm_append_singleton m _

theorem everywhere_takeReady {q : Q} {m : Envelope B}
    (h : takeReady q s = some (m, s')) :
    s.everywhere.Perm (m :: s'.everywhere) := by
  obtain ⟨n, -, hpluck⟩ := Option.bind_eq_some_iff.1 h
  obtain ⟨⟨e, l⟩, hl, heq⟩ := Option.map_eq_some_iff.1 hpluck
  cases heq
  have hperm := (pluck_perm hl).map Prod.snd
  simp only [BrokerState.everywhere, ← List.cons_append]
  exact ((hperm.append_right _).append_right _).append_right _

theorem everywhere_takeHeld {n : Nat} {e : Q × Envelope B}
    (h : takeHeld n s = some (e, s')) :
    s.everywhere.Perm (e.2 :: s'.everywhere) := by
  obtain ⟨⟨e', l⟩, hl, heq⟩ := Option.map_eq_some_iff.1 h
  cases heq
  have hperm := (pluck_perm hl).map Prod.snd
  simp only [BrokerState.everywhere]
  refine (((hperm.append_left _).append_right _).append_right _).trans ?_
  simp only [List.map_cons, List.append_assoc, List.cons_append]
  exact List.perm_middle

theorem takeReady_published {q : Q} {m : Envelope B}
    (h : takeReady q s = some (m, s')) :
    s'.published = s.published ∧ s'.discarded = s.discarded := by
  obtain ⟨n, -, hpluck⟩ := Option.bind_eq_some_iff.1 h
  obtain ⟨⟨e, l⟩, -, heq⟩ := Option.map_eq_some_iff.1 hpluck
  cases heq
  exact ⟨rfl, rfl⟩

theorem takeHeld_published {n : Nat} {e : Q × Envelope B}
    (h : takeHeld n s = some (e, s')) :
    s'.published = s.published ∧ s'.discarded = s.discarded := by
  obtain ⟨⟨e', l⟩, -, heq⟩ := Option.map_eq_some_iff.1 h
  cases heq
  exact ⟨rfl, rfl⟩

@[simp] theorem send_published (x : X) (k : K) (m : Envelope B) (s : BrokerState Q B) :
    (T.send x k m s).published = s.published := by
  unfold send
  split <;> rfl

@[simp] theorem deadLetter_published (q : Q) (m : Envelope B) (s : BrokerState Q B) :
    (T.deadLetter q m s).published = s.published := by
  unfold deadLetter
  split
  · exact send_published _ _ m s
  · rfl

/-- What happens to messages later does not touch the record of what was published. -/
theorem act_published {a : BrokerAction Q} (h : T.act s a = some s') :
    s'.published = s.published := by
  cases a with
  | deliver q =>
      obtain ⟨⟨m, s₁⟩, htake, rfl⟩ := Option.map_eq_some_iff.1 h
      exact (takeReady_published htake).1
  | ack n =>
      obtain ⟨⟨e, s₁⟩, htake, rfl⟩ := Option.map_eq_some_iff.1 h
      exact (takeHeld_published htake).1
  | reject n =>
      obtain ⟨⟨e, s₁⟩, htake, rfl⟩ := Option.map_eq_some_iff.1 h
      exact (deadLetter_published _ _ _).trans (takeHeld_published htake).1
  | expire q =>
      simp only [Topology.act] at h
      split at h
      · obtain ⟨⟨m, s₁⟩, htake, rfl⟩ := Option.map_eq_some_iff.1 h
        exact (deadLetter_published _ _ _).trans (takeReady_published htake).1
      · cases h

end Accounting

section Owing

variable {T : Topology X Q K} {s s' : BrokerState Q B} {m m' : Envelope B}

theorem takeReady_placed {q : Q} {m : Envelope B}
    (h : takeReady q s = some (m, s')) :
    s'.ready ⊆ s.ready ∧ s'.held = s.held ∧ (q, m) ∈ s.ready := by
  obtain ⟨n, hn, hpluck⟩ := Option.bind_eq_some_iff.1 h
  obtain ⟨⟨e, l⟩, hl, heq⟩ := Option.map_eq_some_iff.1 hpluck
  cases heq
  refine ⟨pluck_subset hl, rfl, ?_⟩
  obtain ⟨hlt, hq, -⟩ := List.findIdx?_eq_some_iff_getElem.1 hn
  obtain ⟨e', he', heq⟩ := Option.map_eq_some_iff.1 hl
  cases heq
  obtain ⟨_, rfl⟩ := List.getElem?_eq_some_iff.1 he'
  have hqe : (s.ready[n]).1 = q := by simpa using hq
  rw [← hqe]
  exact List.getElem_mem hlt

theorem takeHeld_placed {n : Nat} {e : Q × Envelope B}
    (h : takeHeld n s = some (e, s')) :
    s'.held ⊆ s.held ∧ s'.ready = s.ready ∧ e ∈ s.held := by
  obtain ⟨⟨e', l⟩, hl, heq⟩ := Option.map_eq_some_iff.1 h
  cases heq
  exact ⟨pluck_subset hl, rfl, pluck_mem hl⟩

@[simp] theorem send_held (x : X) (k : K) (m : Envelope B) (s : BrokerState Q B) :
    (T.send x k m s).held = s.held := by
  unfold send
  split <;> rfl

@[simp] theorem deadLetter_held (q : Q) (m : Envelope B) (s : BrokerState Q B) :
    (T.deadLetter q m s).held = s.held := by
  unfold deadLetter
  split
  · exact send_held _ _ m s
  · rfl

theorem owes_of_send {x : X} {k : K} (h : (T.send x k m s).Owes m') :
    m' = m ∨ s.Owes m' := by
  rcases BrokerState.owes_iff.1 h with ⟨q, hq⟩ | ⟨q, hq⟩
  · rw [send_held] at hq
    exact Or.inr (BrokerState.owes_iff.2 (Or.inl ⟨q, hq⟩))
  · unfold send at hq
    split at hq
    · exact Or.inr (BrokerState.owes_iff.2 (Or.inr ⟨q, hq⟩))
    · rcases List.mem_append.1 hq with hold | hnew
      · exact Or.inr (BrokerState.owes_iff.2 (Or.inr ⟨q, hold⟩))
      · obtain ⟨q', -, heq⟩ := List.mem_map.1 hnew
        exact Or.inl (congrArg Prod.snd heq).symm

theorem owes_of_deadLetter {q : Q} (h : (T.deadLetter q m s).Owes m') :
    m' = m ∨ s.Owes m' := by
  unfold deadLetter at h
  split at h
  · exact owes_of_send h
  · exact Or.inr h

/-- A publish makes the broker owe its own message, and no other. -/
theorem owes_of_publish {x : X} {k : K} {body : B} (h : (T.publish x k body s).Owes m) :
    m.body = body ∨ s.Owes m := by
  rcases owes_of_send h with rfl | hold
  · exact Or.inl rfl
  · exact Or.inr hold

theorem takeReady_owed {q : Q} (h : takeReady q s = some (m, s')) :
    (q, m) ∈ s.ready ∧ s'.held = s.held ∧ ∀ m', s'.Owes m' → s.Owes m' := by
  obtain ⟨hready, hheld, hmem⟩ := takeReady_placed h
  refine ⟨hmem, hheld, fun m' hm' => ?_⟩
  rw [BrokerState.owes_iff] at hm' ⊢
  exact hm'.imp (fun ⟨q, hq⟩ => ⟨q, hheld ▸ hq⟩) fun ⟨q, hq⟩ => ⟨q, hready hq⟩

theorem takeHeld_owed {n : Nat} {e : Q × Envelope B} (h : takeHeld n s = some (e, s')) :
    s.Owes e.2 ∧ s'.held ⊆ s.held ∧ ∀ m', s'.Owes m' → s.Owes m' := by
  obtain ⟨hheld, hready, hmem⟩ := takeHeld_placed h
  refine ⟨BrokerState.owes_iff.2 (Or.inl ⟨e.1, hmem⟩), hheld, fun m' hm' => ?_⟩
  rw [BrokerState.owes_iff] at hm' ⊢
  exact hm'.imp (fun ⟨q, hq⟩ => ⟨q, hheld hq⟩) fun ⟨q, hq⟩ => ⟨q, hready ▸ hq⟩

/-- No action makes the broker owe a message that it did not owe. -/
theorem owes_of_act {a : BrokerAction Q} (hact : T.act s a = some s') (h : s'.Owes m) :
    s.Owes m := by
  cases a with
  | deliver q =>
      obtain ⟨⟨m', s₁⟩, htake, rfl⟩ := Option.map_eq_some_iff.1 hact
      obtain ⟨hmem, hheld, howes⟩ := takeReady_owed htake
      rcases BrokerState.owes_iff.1 h with ⟨q', hq'⟩ | hwaits
      · rcases List.mem_append.1 hq' with hold | hnew
        · exact howes m (BrokerState.owes_iff.2 (Or.inl ⟨q', hold⟩))
        · cases List.mem_singleton.1 hnew
          exact BrokerState.owes_iff.2 (Or.inr ⟨q, hmem⟩)
      · exact howes m (BrokerState.owes_iff.2 (Or.inr hwaits))
  | ack n =>
      obtain ⟨⟨e, s₁⟩, htake, rfl⟩ := Option.map_eq_some_iff.1 hact
      exact (takeHeld_owed htake).2.2 m h
  | reject n =>
      obtain ⟨⟨e, s₁⟩, htake, rfl⟩ := Option.map_eq_some_iff.1 hact
      obtain ⟨hmem, -, howes⟩ := takeHeld_owed htake
      rcases owes_of_deadLetter h with rfl | hold
      · exact hmem
      · exact howes m hold
  | expire q =>
      simp only [Topology.act] at hact
      split at hact
      · obtain ⟨⟨m', s₁⟩, htake, rfl⟩ := Option.map_eq_some_iff.1 hact
        obtain ⟨hmem, -, howes⟩ := takeReady_owed htake
        rcases owes_of_deadLetter h with rfl | hold
        · exact BrokerState.owes_iff.2 (Or.inr ⟨q, hmem⟩)
        · exact howes m hold
      · cases hact

/-- A consumer gets hold of a message by a delivery only. -/
theorem holds_of_act {a : BrokerAction Q} (hact : T.act s a = some s') (h : s'.Holds m) :
    s.Holds m ∨ ∃ q s₁, a = .deliver q ∧ takeReady q s = some (m, s₁) := by
  obtain ⟨q', hq'⟩ := h
  cases a with
  | deliver q =>
      obtain ⟨⟨m', s₁⟩, htake, rfl⟩ := Option.map_eq_some_iff.1 hact
      rcases List.mem_append.1 hq' with hold | hnew
      · exact Or.inl ⟨q', (takeReady_owed htake).2.1 ▸ hold⟩
      · cases List.mem_singleton.1 hnew
        exact Or.inr ⟨q', s₁, rfl, htake⟩
  | ack n =>
      obtain ⟨⟨e, s₁⟩, htake, rfl⟩ := Option.map_eq_some_iff.1 hact
      exact Or.inl ⟨q', (takeHeld_owed htake).2.1 hq'⟩
  | reject n =>
      obtain ⟨⟨e, s₁⟩, htake, rfl⟩ := Option.map_eq_some_iff.1 hact
      rw [deadLetter_held] at hq'
      exact Or.inl ⟨q', (takeHeld_owed htake).2.1 hq'⟩
  | expire q =>
      simp only [Topology.act] at hact
      split at hact
      · obtain ⟨⟨m', s₁⟩, htake, rfl⟩ := Option.map_eq_some_iff.1 hact
        rw [deadLetter_held] at hq'
        exact Or.inl ⟨q', (takeReady_owed htake).2.1 ▸ hq'⟩
      · cases hact

end Owing

section Invariant

variable {T : Topology X Q K} {s s' : BrokerState Q B}

def names (T : Topology X Q K) : List Q :=
  T.queues.map QueueDecl.name

theorem mem_names_of_decl {q : Q} {d : QueueDecl X Q K} (h : T.decl q = some d) :
    q ∈ T.names := by
  have hname : d.name = q := by simpa using List.find?_some h
  exact List.mem_map.2 ⟨d, List.mem_of_find?_eq_some h, hname⟩

def BindsDeclared (T : Topology X Q K) : Prop :=
  ∀ b ∈ T.bindings, b.2.2 ∈ T.names

/--
What every run of a broker without fan-out keeps: each published message is
waiting, held, acknowledged or discarded, once; tags number the publishes; and
messages wait and are held only in declared queues.
-/
structure Consistent (T : Topology X Q K) (s : BrokerState Q B) : Prop where
  accounted : s.everywhere.Perm s.published
  tags : s.published.map Envelope.tag = List.range s.published.length
  ready : ∀ e ∈ s.ready, e.1 ∈ T.names
  held : ∀ e ∈ s.held, e.1 ∈ T.names

theorem consistent_empty : T.Consistent (BrokerState.empty : BrokerState Q B) where
  accounted := List.Perm.refl _
  tags := rfl
  ready := by simp [BrokerState.empty]
  held := by simp [BrokerState.empty]

theorem Consistent.published_nodup (h : T.Consistent s) : s.published.Nodup := by
  have hnd : (s.published.map Envelope.tag).Nodup := by
    rw [h.tags]
    exact List.nodup_range
  exact hnd.of_map _

theorem mem_names_of_route (hT : T.BindsDeclared) {x : X} {k : K} {q : Q}
    (h : q ∈ T.route x k) :
    q ∈ T.names := by
  rw [route, List.mem_dedup, List.mem_filterMap] at h
  obtain ⟨b, hb, heq⟩ := h
  split at heq
  · cases heq
    exact hT b hb
  · cases heq

theorem send_placed (hT : T.BindsDeclared) (x : X) (k : K) (m : Envelope B)
    (hr : ∀ e ∈ s.ready, e.1 ∈ T.names) :
    (∀ e ∈ (T.send x k m s).ready, e.1 ∈ T.names) ∧
    (T.send x k m s).held = s.held := by
  unfold send
  split
  · exact ⟨hr, rfl⟩
  · rename_i qs hne
    refine ⟨fun e he => ?_, rfl⟩
    rcases List.mem_append.1 he with he | he
    · exact hr e he
    · obtain ⟨q, hq, rfl⟩ := List.mem_map.1 he
      exact mem_names_of_route hT hq

theorem deadLetter_placed (hT : T.BindsDeclared) (q : Q) (m : Envelope B)
    (hr : ∀ e ∈ s.ready, e.1 ∈ T.names) :
    (∀ e ∈ (T.deadLetter q m s).ready, e.1 ∈ T.names) ∧
    (T.deadLetter q m s).held = s.held := by
  unfold deadLetter
  split
  · exact send_placed hT _ _ m hr
  · exact ⟨hr, rfl⟩

theorem Consistent.publish (hfan : T.NoFanOut) (hdecl : T.BindsDeclared)
    (h : T.Consistent s) (x : X) (k : K) (body : B) :
    T.Consistent (T.publish x k body s) := by
  have hplaced := send_placed
    (s := { s with published := s.published ++ [⟨s.published.length, body⟩] })
    hdecl x k ⟨s.published.length, body⟩ h.ready
  constructor
  · unfold Topology.publish
    refine (everywhere_send hfan x k _ _).trans ?_
    rw [send_published]
    refine ((h.accounted.cons _).trans ?_)
    exact (List.perm_append_singleton _ _).symm
  · simp [Topology.publish, h.tags, List.range_succ]
  · exact hplaced.1
  · intro e he
    rw [Topology.publish, hplaced.2] at he
    exact h.held e he

theorem Consistent.act (hfan : T.NoFanOut) (hdecl : T.BindsDeclared)
    (h : T.Consistent s) {a : BrokerAction Q} (hact : T.act s a = some s') :
    T.Consistent s' := by
  cases a with
  | deliver q =>
      obtain ⟨⟨m, s₁⟩, htake, rfl⟩ := Option.map_eq_some_iff.1 hact
      obtain ⟨hready, hheld, hmem⟩ := takeReady_placed htake
      have hpub := (takeReady_published htake).1
      constructor
      · refine List.Perm.trans ?_ ((everywhere_takeReady htake).symm.trans h.accounted)
          |>.trans (by simp [hpub])
        simp only [BrokerState.everywhere, List.map_append, List.map_cons, List.map_nil,
          List.append_assoc, List.singleton_append]
        refine (List.perm_middle.append_left _).trans ?_
        exact List.perm_middle
      · simpa [hpub] using h.tags
      · exact fun e he => h.ready e (hready he)
      · intro e he
        rcases List.mem_append.1 he with he | he
        · exact h.held e (hheld ▸ he)
        · rw [List.mem_singleton.1 he]
          exact h.ready _ hmem
  | ack n =>
      obtain ⟨⟨e, s₁⟩, htake, rfl⟩ := Option.map_eq_some_iff.1 hact
      obtain ⟨hheld, hready, -⟩ := takeHeld_placed htake
      have hpub := (takeHeld_published htake).1
      constructor
      · refine List.Perm.trans ?_ ((everywhere_takeHeld htake).symm.trans h.accounted)
          |>.trans (by simp [hpub])
        simp only [BrokerState.everywhere, List.append_assoc, List.singleton_append]
        refine ((List.perm_middle.append_left _).append_left _).trans ?_
        exact (List.perm_middle.append_left _).trans List.perm_middle
      · simpa [hpub] using h.tags
      · exact fun e' he' => h.ready e' (hready ▸ he')
      · exact fun e' he' => h.held e' (hheld he')
  | reject n =>
      obtain ⟨⟨e, s₁⟩, htake, rfl⟩ := Option.map_eq_some_iff.1 hact
      obtain ⟨hheld, hready, -⟩ := takeHeld_placed htake
      have hpub := (takeHeld_published htake).1
      have hplaced := deadLetter_placed (s := s₁) hdecl e.1 e.2
        (fun e' he' => h.ready e' (hready ▸ he'))
      constructor
      · rw [deadLetter_published, hpub]
        exact (everywhere_deadLetter hfan e.1 e.2 s₁).trans
          ((everywhere_takeHeld htake).symm.trans h.accounted)
      · simpa [hpub] using h.tags
      · exact hplaced.1
      · intro e' he'
        rw [hplaced.2] at he'
        exact h.held e' (hheld he')
  | expire q =>
      simp only [Topology.act] at hact
      split at hact
      · obtain ⟨⟨m, s₁⟩, htake, rfl⟩ := Option.map_eq_some_iff.1 hact
        obtain ⟨hready, hheld, -⟩ := takeReady_placed htake
        have hpub := (takeReady_published htake).1
        have hplaced := deadLetter_placed (s := s₁) hdecl q m
          (fun e' he' => h.ready e' (hready he'))
        constructor
        · rw [deadLetter_published, hpub]
          exact (everywhere_deadLetter hfan q m s₁).trans
            ((everywhere_takeReady htake).symm.trans h.accounted)
        · simpa [hpub] using h.tags
        · exact hplaced.1
        · intro e' he'
          rw [hplaced.2] at he'
          exact h.held e' (hheld ▸ he')
      · cases hact

theorem Consistent.step (hfan : T.NoFanOut) (hdecl : T.BindsDeclared)
    (h : T.Consistent s) {e : BrokerEvent X Q K B} (hstep : T.step s e = some s') :
    T.Consistent s' := by
  cases e with
  | publish x k body =>
      cases hstep
      exact h.publish hfan hdecl x k body
  | act a =>
      exact h.act hfan hdecl hstep

theorem run_eq {es : List (BrokerEvent X Q K B)} : T.run s es = Schedule.run T.step s es := by
  induction es generalizing s with
  | nil =>
      rfl
  | cons e es ih =>
      simp only [run, Schedule.run, ih]

theorem Consistent.run (hfan : T.NoFanOut) (hdecl : T.BindsDeclared)
    (h : T.Consistent s) {es : List (BrokerEvent X Q K B)} (hrun : T.run s es = some s') :
    T.Consistent s' :=
  Schedule.invariant_of_run T.Consistent (fun _ _ _ h hstep => h.step hfan hdecl hstep) h
    (run_eq.symm.trans hrun)

end Invariant

section Places

/-- Where a message can be while it is owed to a consumer. -/
inductive Place (Q : Type) : Type
  | queued (q : Q)
  | heldFrom (q : Q)
deriving DecidableEq

def Place.queue : Place Q → Q
  | .queued q => q
  | .heldFrom q => q

def places [DecidableEq B] (s : BrokerState Q B) (m : Envelope B) : List (Place Q) :=
  (s.ready.filter fun e => e.2 = m).map (fun e => .queued e.1) ++
    (s.held.filter fun e => e.2 = m).map (fun e => .heldFrom e.1)

/-- Each published message that is not acknowledged is in exactly one place. -/
def NoneLost [DecidableEq B] (T : Topology X Q K) (s : BrokerState Q B) : Prop :=
  ∀ m ∈ s.published, m ∉ s.acked →
    ∃ p, places s m = [p] ∧ p.queue ∈ T.names

variable {T : Topology X Q K} {s s' : BrokerState Q B} [DecidableEq B]

theorem length_filter_snd (l : List (Q × Envelope B)) (m : Envelope B) :
    (l.filter fun e => e.2 = m).length = (l.map Prod.snd).count m := by
  induction l with
  | nil =>
      rfl
  | cons e l ih =>
      by_cases he : e.2 = m
      · simp [he, ih]
      · simp [he, ih]

theorem Consistent.count (h : T.Consistent s) {m : Envelope B} (hm : m ∈ s.published) :
    (places s m).length + s.acked.count m + s.discarded.count m = 1 := by
  have hone : s.everywhere.count m = 1 := by
    rw [h.accounted.count_eq]
    exact List.count_eq_one_of_mem h.published_nodup hm
  simp only [BrokerState.everywhere, List.count_append] at hone
  simp only [places, List.length_append, List.length_map, length_filter_snd]
  exact hone

theorem Consistent.place_declared (h : T.Consistent s) {m : Envelope B} {p : Place Q}
    (hp : p ∈ places s m) :
    p.queue ∈ T.names := by
  rcases List.mem_append.1 hp with hp | hp
  · obtain ⟨e, he, rfl⟩ := List.mem_map.1 hp
    exact h.ready e (List.mem_of_mem_filter he)
  · obtain ⟨e, he, rfl⟩ := List.mem_map.1 hp
    exact h.held e (List.mem_of_mem_filter he)

/-- Nothing is lost exactly when nothing was ever discarded. -/
theorem Consistent.noneLost_iff (h : T.Consistent s) :
    T.NoneLost s ↔ s.discarded = [] := by
  constructor
  · intro hnone
    by_contra hne
    obtain ⟨m, hm⟩ := List.exists_mem_of_ne_nil _ hne
    have hpub : m ∈ s.published :=
      h.accounted.mem_iff.1 (by simp [BrokerState.everywhere, hm])
    have hcount := h.count hpub
    have hdis : 0 < s.discarded.count m := List.count_pos_iff.2 hm
    have hack : m ∉ s.acked := List.count_eq_zero.1 (by omega)
    obtain ⟨p, hp, -⟩ := hnone m hpub hack
    rw [hp, List.length_singleton] at hcount
    omega
  · intro hdis m hpub hack
    have hcount := h.count hpub
    rw [hdis, List.count_eq_zero.2 hack, List.count_nil] at hcount
    obtain ⟨p, hp⟩ := List.length_eq_one_iff.1 hcount
    have hmem : p ∈ places s m := by
      rw [hp]
      exact List.mem_singleton_self p
    exact ⟨p, hp, h.place_declared hmem⟩

end Places

section Drops

variable {T : Topology X Q K} {s s' t : BrokerState Q B}

/-- Dead-lettered messages of the queue reach some queue. -/
def reroutes (T : Topology X Q K) (q : Q) : Bool :=
  ((T.decl q).bind QueueDecl.deadLetter).any fun xk => !(T.route xk.1 xk.2).isEmpty

theorem reroutes_iff {q : Q} :
    T.reroutes q = true ↔
      ∃ xk, (T.decl q).bind QueueDecl.deadLetter = some xk ∧ T.route xk.1 xk.2 ≠ [] := by
  simp [reroutes, Option.any_eq_true]

/-- The step loses a message, read off the state before it. -/
def Drops (T : Topology X Q K) (s : BrokerState Q B) : BrokerEvent X Q K B → Prop
  | .publish x k _ => T.route x k = []
  | .act (.deliver _) => False
  | .act (.ack _) => False
  | .act (.reject n) => ∃ e, s.held[n]? = some e ∧ ¬ T.reroutes e.1
  | .act (.expire q) => ((T.decl q).bind QueueDecl.ttl).isSome ∧ ¬ T.reroutes q

theorem send_discarded_of_route {x : X} {k : K} (h : T.route x k ≠ []) (m : Envelope B)
    (s : BrokerState Q B) :
    (T.send x k m s).discarded = s.discarded := by
  unfold send
  split
  · rename_i hnil
    exact absurd hnil h
  · rfl

theorem send_discarded_of_nil {x : X} {k : K} (h : T.route x k = []) (m : Envelope B)
    (s : BrokerState Q B) :
    (T.send x k m s).discarded = s.discarded ++ [m] := by
  simp [send, h]

theorem deadLetter_discarded_of_reroutes {q : Q} (h : T.reroutes q) (m : Envelope B)
    (s : BrokerState Q B) :
    (T.deadLetter q m s).discarded = s.discarded := by
  obtain ⟨xk, hdl, hroute⟩ := reroutes_iff.1 h
  simp [deadLetter, hdl, send_discarded_of_route hroute]

theorem deadLetter_discarded_of_not_reroutes {q : Q} (h : ¬ T.reroutes q) (m : Envelope B)
    (s : BrokerState Q B) :
    (T.deadLetter q m s).discarded = s.discarded ++ [m] := by
  unfold deadLetter
  split
  · rename_i xk hdl
    have hnil : T.route xk.1 xk.2 = [] := by
      by_contra hne
      exact h (reroutes_iff.2 ⟨xk, hdl, hne⟩)
    exact send_discarded_of_nil hnil m s
  · rfl

/-- A step keeps the discarded record, or appends to it, as `Drops` says. -/
theorem discarded_of_step {e : BrokerEvent X Q K B} (hstep : T.step s e = some s') :
    (¬ T.Drops s e → s'.discarded = s.discarded) ∧
    (T.Drops s e → ∃ m, s'.discarded = s.discarded ++ [m]) := by
  cases e with
  | publish x k body =>
      cases hstep
      exact ⟨fun h => send_discarded_of_route h _ _,
        fun h => ⟨_, send_discarded_of_nil h _ _⟩⟩
  | act a =>
      cases a with
      | deliver q =>
          obtain ⟨⟨m, s₁⟩, htake, rfl⟩ := Option.map_eq_some_iff.1 hstep
          exact ⟨fun _ => (takeReady_published htake).2, False.elim⟩
      | ack n =>
          obtain ⟨⟨e, s₁⟩, htake, rfl⟩ := Option.map_eq_some_iff.1 hstep
          exact ⟨fun _ => (takeHeld_published htake).2, False.elim⟩
      | reject n =>
          obtain ⟨⟨e, s₁⟩, htake, rfl⟩ := Option.map_eq_some_iff.1 hstep
          have hdis := (takeHeld_published htake).2
          have hget : s.held[n]? = some e := by
            obtain ⟨⟨e', l⟩, hl, heq⟩ := Option.map_eq_some_iff.1 htake
            cases heq
            obtain ⟨e', he', heq⟩ := Option.map_eq_some_iff.1 hl
            cases heq
            exact he'
          constructor
          · intro hno
            have hre : T.reroutes e.1 := by
              by_contra hre
              exact hno ⟨e, hget, hre⟩
            rw [← hdis]
            exact deadLetter_discarded_of_reroutes hre _ _
          · rintro ⟨e', he', hre⟩
            rw [hget] at he'
            cases he'
            exact ⟨e.2, by rw [← hdis]; exact deadLetter_discarded_of_not_reroutes hre _ _⟩
      | expire q =>
          simp only [step, act] at hstep
          split at hstep
          · rename_i httl
            obtain ⟨⟨m, s₁⟩, htake, rfl⟩ := Option.map_eq_some_iff.1 hstep
            have hdis := (takeReady_published htake).2
            constructor
            · intro hno
              have hre : T.reroutes q := by
                by_contra hre
                exact hno ⟨httl, hre⟩
              rw [← hdis]
              exact deadLetter_discarded_of_reroutes hre _ _
            · rintro ⟨-, hre⟩
              exact ⟨m, by rw [← hdis]; exact deadLetter_discarded_of_not_reroutes hre _ _⟩
          · cases hstep

/-- No step of the run loses a message. -/
def NeverDrops (T : Topology X Q K) (s : BrokerState Q B)
    (es : List (BrokerEvent X Q K B)) : Prop :=
  ∀ pre e post t, es = pre ++ e :: post → T.run s pre = some t → ¬ T.Drops t e

theorem neverDrops_iff {es : List (BrokerEvent X Q K B)} :
    T.NeverDrops s es ↔ Schedule.StepsMeet T.step (fun s e => ¬ T.Drops s e) s es := by
  simp only [Schedule.stepsMeet_iff, NeverDrops, run_eq]

variable [DecidableEq B]

/-- A step keeps every message that is owed exactly if it drops none. -/
theorem Consistent.noneLost_step_iff (hfan : T.NoFanOut) (hdecl : T.BindsDeclared)
    (hs : T.Consistent s) (hnone : T.NoneLost s) {e : BrokerEvent X Q K B}
    (hstep : T.step s e = some s') : T.NoneLost s' ↔ ¬ T.Drops s e := by
  have hempty := hs.noneLost_iff.1 hnone
  have hdiscarded := discarded_of_step hstep
  rw [hempty] at hdiscarded
  rw [(hs.step hfan hdecl hstep).noneLost_iff]
  constructor
  · intro hnil hdrop
    obtain ⟨m, hm⟩ := hdiscarded.2 hdrop
    simp [hnil] at hm
  · exact hdiscarded.1

/--
On a topology without fan-out, a run keeps every message that is still owed in
exactly one place, in all its states, if and only if none of its steps drops one.
-/
theorem noneLost_always_iff (hfan : T.NoFanOut) (hdecl : T.BindsDeclared)
    (hs : T.Consistent s) (hempty : s.discarded = [])
    {es : List (BrokerEvent X Q K B)} (hrun : T.run s es = some s') :
    (∀ pre post t, es = pre ++ post → T.run s pre = some t → T.NoneLost t) ↔
      T.NeverDrops s es := by
  have hiff := Schedule.always_iff_stepsMeet T.Consistent
    (fun _ _ _ h hstep => h.step hfan hdecl hstep)
    (fun _ _ _ h hnone hstep => h.noneLost_step_iff hfan hdecl hnone hstep)
    hs (hs.noneLost_iff.2 hempty) (run_eq.symm.trans hrun)
  rw [neverDrops_iff, ← hiff]
  simp only [Schedule.Always, run_eq]

end Drops

end Topology

end DirectExchange

end Foundations
