import Mathlib.Tactic

/-!
# Row versions under READ COMMITTED

A row has at most one committed version and at most one uncommitted version.
The transaction that wrote the uncommitted version holds the row lock, so two
open transactions with a version of the same row cannot be represented.

A statement of transaction `i` sees its own uncommitted version if there is one
and the committed version otherwise.  A write to a row whose lock another
transaction holds waits; when the lock is free the write sees the version that
is committed by then.

A table keeps a slot for every key and a list of the keys that are in use.
`Table.rollback_modify` and its neighbours say that what one transaction has
not committed is invisible to every other transaction.
-/

namespace Foundations

open Function

section ReadCommitted

/-- The versions of one row: committed, and uncommitted with its writer. -/
@[ext]
structure Slot (ι V : Type) where
  committed : Option V
  pending : Option (ι × V)

namespace Slot

variable {ι V : Type}

def empty : Slot ι V := ⟨none, none⟩

def isEmpty (s : Slot ι V) : Bool :=
  s.committed.isNone && s.pending.isNone

theorem isEmpty_iff (s : Slot ι V) : s.isEmpty = true ↔ s = empty := by
  obtain ⟨c, p⟩ := s
  cases c <;> cases p <;> simp [isEmpty, empty]

def write (i : ι) (v : V) (s : Slot ι V) : Slot ι V :=
  { s with pending := some (i, v) }

@[simp] theorem write_committed (i : ι) (v : V) (s : Slot ι V) :
    (s.write i v).committed = s.committed := by
  rfl

@[simp] theorem write_pending (i : ι) (v : V) (s : Slot ι V) :
    (s.write i v).pending = some (i, v) := by
  rfl

variable [DecidableEq ι]

/-- The version a statement of transaction `i` sees. -/
def visible (i : ι) (s : Slot ι V) : Option V :=
  match s.pending with
  | some (j, v) => if j = i then some v else s.committed
  | none => s.committed

/-- Another transaction holds the row lock. -/
def lockedFor (i : ι) (s : Slot ι V) : Bool :=
  match s.pending with
  | some (j, _) => decide (j ≠ i)
  | none => false

def commit (i : ι) (s : Slot ι V) : Slot ι V :=
  match s.pending with
  | some (j, v) => if j = i then ⟨some v, none⟩ else s
  | none => s

def rollback (i : ι) (s : Slot ι V) : Slot ι V :=
  match s.pending with
  | some (j, _) => if j = i then ⟨s.committed, none⟩ else s
  | none => s

@[simp] theorem commit_empty (i : ι) : (empty : Slot ι V).commit i = empty := by
  rfl

@[simp] theorem rollback_empty (i : ι) : (empty : Slot ι V).rollback i = empty := by
  rfl

@[simp] theorem visible_empty (i : ι) : (empty : Slot ι V).visible i = none := by
  rfl

@[simp] theorem visible_write (i : ι) (v : V) (s : Slot ι V) :
    (s.write i v).visible i = some v := by
  simp [visible, write]

/-- A commit publishes exactly what the transaction saw. -/
@[simp] theorem commit_committed (i : ι) (s : Slot ι V) :
    (s.commit i).committed = s.visible i := by
  obtain ⟨c, _ | ⟨j, v⟩⟩ := s
  · rfl
  · by_cases h : j = i <;> simp [commit, visible, h]

@[simp] theorem rollback_committed (i : ι) (s : Slot ι V) :
    (s.rollback i).committed = s.committed := by
  obtain ⟨c, _ | ⟨j, v⟩⟩ := s
  · rfl
  · by_cases h : j = i <;> simp [rollback, h]

/-- A transaction sees its versions after its commit as before. -/
theorem visible_commit (i : ι) (s : Slot ι V) :
    (s.commit i).visible i = s.visible i := by
  obtain ⟨c, _ | ⟨j, v⟩⟩ := s
  · rfl
  · by_cases h : j = i <;> simp [commit, visible, h]

theorem visible_eq_committed {i : ι} {s : Slot ι V}
    (h : ∀ v, s.pending ≠ some (i, v)) :
    s.visible i = s.committed := by
  obtain ⟨c, _ | ⟨j, v⟩⟩ := s
  · rfl
  · have hj : j ≠ i := by
      rintro rfl
      exact h v rfl
    simp [visible, hj]

theorem visible_eq_of_pending {i : ι} {v : V} {s : Slot ι V}
    (h : s.pending = some (i, v)) :
    s.visible i = some v := by
  simp [visible, h]

/-- What a transaction sees is its own version or the committed one. -/
theorem visible_cases (i : ι) (s : Slot ι V) :
    (∃ v, s.pending = some (i, v) ∧ s.visible i = some v) ∨
    ((∀ v, s.pending ≠ some (i, v)) ∧ s.visible i = s.committed) := by
  by_cases h : ∃ v, s.pending = some (i, v)
  · obtain ⟨v, hv⟩ := h
    exact Or.inl ⟨v, hv, visible_eq_of_pending hv⟩
  · have hno : ∀ v, s.pending ≠ some (i, v) := fun v hv => h ⟨v, hv⟩
    exact Or.inr ⟨hno, visible_eq_committed hno⟩

/-- A commit changes nothing of a row on which it holds no version. -/
theorem commit_eq_self {i : ι} {s : Slot ι V} (h : ∀ v, s.pending ≠ some (i, v)) :
    s.commit i = s := by
  obtain ⟨c, _ | ⟨j, v⟩⟩ := s
  · rfl
  · have hj : j ≠ i := by
      rintro rfl
      exact h v rfl
    simp [commit, hj]

theorem rollback_eq_self {i : ι} {s : Slot ι V} (h : ∀ v, s.pending ≠ some (i, v)) :
    s.rollback i = s := by
  obtain ⟨c, _ | ⟨j, v⟩⟩ := s
  · rfl
  · have hj : j ≠ i := by
      rintro rfl
      exact h v rfl
    simp [rollback, hj]

theorem commit_of_pending {i : ι} {v : V} {s : Slot ι V} (h : s.pending = some (i, v)) :
    s.commit i = ⟨some v, none⟩ := by
  simp [commit, h]

theorem rollback_of_pending {i : ι} {v : V} {s : Slot ι V} (h : s.pending = some (i, v)) :
    s.rollback i = ⟨s.committed, none⟩ := by
  simp [rollback, h]

theorem commit_pending {i j : ι} {v : V} {s : Slot ι V} :
    (s.commit i).pending = some (j, v) ↔ j ≠ i ∧ s.pending = some (j, v) := by
  rcases visible_cases i s with ⟨w, hw, -⟩ | ⟨hno, -⟩
  · rw [commit_of_pending hw, hw]
    simp only [reduceCtorEq, Option.some.injEq, Prod.mk.injEq, false_iff, not_and]
    exact fun hj hij => absurd hij.symm hj
  · rw [commit_eq_self hno]
    refine ⟨fun h => ⟨?_, h⟩, fun h => h.2⟩
    rintro rfl
    exact hno v h

theorem rollback_pending {i j : ι} {v : V} {s : Slot ι V} :
    (s.rollback i).pending = some (j, v) ↔ j ≠ i ∧ s.pending = some (j, v) := by
  rcases visible_cases i s with ⟨w, hw, -⟩ | ⟨hno, -⟩
  · rw [rollback_of_pending hw, hw]
    simp only [reduceCtorEq, Option.some.injEq, Prod.mk.injEq, false_iff, not_and]
    exact fun hj hij => absurd hij.symm hj
  · rw [rollback_eq_self hno]
    refine ⟨fun h => ⟨?_, h⟩, fun h => h.2⟩
    rintro rfl
    exact hno v h

@[simp] theorem rollback_write_self (i : ι) (v : V) (s : Slot ι V)
    (h : s.lockedFor i = false) :
    (s.write i v).rollback i = s.rollback i := by
  obtain ⟨c, _ | ⟨j, w⟩⟩ := s
  · simp [rollback, write]
  · have hj : j = i := by simpa [lockedFor] using h
    simp [rollback, write, hj]

@[simp] theorem rollback_write_other {i j : ι} (hij : j ≠ i) (v : V) (s : Slot ι V)
    (h : s.lockedFor j = false) :
    (s.write j v).rollback i = (s.rollback i).write j v := by
  obtain ⟨c, _ | ⟨h', w⟩⟩ := s
  · simp [rollback, write, hij]
  · have hj : h' = j := by simpa [lockedFor] using h
    subst hj
    simp [rollback, write, hij]

@[simp] theorem visible_rollback_other {i j : ι} (hij : j ≠ i) (s : Slot ι V) :
    (s.rollback i).visible j = s.visible j := by
  obtain ⟨c, _ | ⟨h, w⟩⟩ := s
  · rfl
  · by_cases hi : h = i
    · subst hi
      simp [rollback, visible, hij.symm]
    · simp [rollback, visible, hi]

@[simp] theorem visible_rollback_self (i : ι) (s : Slot ι V) :
    (s.rollback i).visible i = s.committed := by
  obtain ⟨c, _ | ⟨h, w⟩⟩ := s
  · rfl
  · by_cases hi : h = i <;> simp [rollback, visible, hi]

theorem lockedFor_rollback {i j : ι} (s : Slot ι V) (h : s.lockedFor j = false) :
    (s.rollback i).lockedFor j = false := by
  obtain ⟨c, _ | ⟨h', w⟩⟩ := s
  · rfl
  · have hj : h' = j := by simpa [lockedFor] using h
    subst hj
    by_cases hi : h' = i <;> simp [rollback, lockedFor, hi]

theorem rollback_commit_comm {i j : ι} (hij : j ≠ i) (s : Slot ι V) :
    (s.commit j).rollback i = (s.rollback i).commit j := by
  obtain ⟨c, _ | ⟨h, w⟩⟩ := s
  · rfl
  · simp only [commit, rollback]
    split_ifs <;> simp_all

theorem rollback_rollback_comm (i j : ι) (s : Slot ι V) :
    (s.rollback j).rollback i = (s.rollback i).rollback j := by
  obtain ⟨c, _ | ⟨h, w⟩⟩ := s
  · rfl
  · simp only [rollback]
    split_ifs <;> simp_all

@[simp] theorem rollback_rollback (i : ι) (s : Slot ι V) :
    (s.rollback i).rollback i = s.rollback i := by
  obtain ⟨c, _ | ⟨h, w⟩⟩ := s
  · rfl
  · by_cases hi : h = i <;> simp [rollback, hi]

end Slot

/--
A table of row versions.  Keys outside `keys` have no version.
-/
@[ext]
structure Table (ι K V : Type) where
  slot : K → Slot ι V
  keys : List K
  nodup : keys.Nodup
  support : ∀ k, k ∉ keys → slot k = Slot.empty

namespace Table

variable {ι K V : Type}

/-- The version of a row every other transaction can see. -/
def committed (t : Table ι K V) (k : K) : Option V :=
  (t.slot k).committed

section Keyed

variable [DecidableEq K]

def set (k : K) (s : Slot ι V) (t : Table ι K V) : Table ι K V where
  slot := update t.slot k s
  keys := if k ∈ t.keys then t.keys else t.keys ++ [k]
  nodup := by
    by_cases hk : k ∈ t.keys
    · simpa [hk] using t.nodup
    · rw [if_neg hk]
      exact t.nodup.append (List.nodup_singleton k) (by simpa using hk)
  support := by
    intro k' hk'
    by_cases hk : k ∈ t.keys
    · rw [if_pos hk] at hk'
      have hne : k' ≠ k := fun h => hk' (h ▸ hk)
      simpa [hne] using t.support k' hk'
    · rw [if_neg hk] at hk'
      simp only [List.mem_append, List.mem_singleton, not_or] at hk'
      simpa [hk'.2] using t.support k' hk'.1

@[simp] theorem set_slot_self (k : K) (s : Slot ι V) (t : Table ι K V) :
    (t.set k s).slot k = s := by
  simp [set]

@[simp] theorem set_slot_other {k k' : K} (h : k' ≠ k) (s : Slot ι V) (t : Table ι K V) :
    (t.set k s).slot k' = t.slot k' := by
  simp [set, h]

theorem set_keys_of_mem {k : K} (t : Table ι K V) (s : Slot ι V) (h : k ∈ t.keys) :
    (t.set k s).keys = t.keys := by
  simp [set, h]

/-- INSERT: impossible on a key that has a version (a primary-key violation). -/
def insert (i : ι) (k : K) (v : V) (t : Table ι K V) : Option (Table ι K V) :=
  if (t.slot k).isEmpty then some (t.set k (Slot.empty.write i v)) else none

def insertAll (i : ι) : List (K × V) → Table ι K V → Option (Table ι K V)
  | [], t => some t
  | kv :: kvs, t => (t.insert i kv.1 kv.2).bind (insertAll i kvs)

end Keyed

variable [DecidableEq ι]

def commit (i : ι) (t : Table ι K V) : Table ι K V where
  slot k := (t.slot k).commit i
  keys := t.keys
  nodup := t.nodup
  support k hk := by simp [t.support k hk]

def rollback (i : ι) (t : Table ι K V) : Table ι K V where
  slot k := (t.slot k).rollback i
  keys := t.keys
  nodup := t.nodup
  support k hk := by simp [t.support k hk]

@[simp] theorem rollback_slot (i : ι) (t : Table ι K V) (k : K) :
    (t.rollback i).slot k = (t.slot k).rollback i := by
  rfl

@[simp] theorem rollback_keys (i : ι) (t : Table ι K V) :
    (t.rollback i).keys = t.keys := by
  rfl

/-- The rows transaction `i` sees, in a given order of the keys. -/
def rows (i : ι) (order : List K) (t : Table ι K V) : List V :=
  order.filterMap fun k => (t.slot k).visible i

theorem mem_keys_of_visible {i : ι} {k : K} {v : V} {t : Table ι K V}
    (h : (t.slot k).visible i = some v) :
    k ∈ t.keys := by
  by_contra hk
  simp [t.support k hk] at h

section Invisible

variable {i j : ι} {t : Table ι K V}

theorem rollback_commit (hij : j ≠ i) :
    (t.commit j).rollback i = (t.rollback i).commit j := by
  ext1
  · funext k
    exact Slot.rollback_commit_comm hij (t.slot k)
  · rfl

theorem rollback_rollback_comm :
    (t.rollback j).rollback i = (t.rollback i).rollback j := by
  ext1
  · funext k
    exact Slot.rollback_rollback_comm i j (t.slot k)
  · rfl

@[simp] theorem rollback_rollback_self :
    (t.rollback i).rollback i = t.rollback i := by
  ext1
  · funext k
    exact Slot.rollback_rollback i (t.slot k)
  · rfl

theorem rollback_rows (hij : j ≠ i) (order : List K) :
    (t.rollback i).rows j order = t.rows j order := by
  simp [rows, Slot.visible_rollback_other hij]

end Invisible

variable [DecidableEq K]

/--
UPDATE of one row: `f` is the WHERE clause and the SET list together.  `none`
means that the statement waits for the row lock.
-/
def modify (i : ι) (k : K) (f : V → Option V) (t : Table ι K V) :
    Option (Table ι K V) :=
  match (t.slot k).visible i with
  | none => some t
  | some v =>
      match f v with
      | none => some t
      | some v' =>
          if (t.slot k).lockedFor i then none
          else some (t.set k ((t.slot k).write i v'))

/-- What an UPDATE does, with the version it saw. -/
theorem modify_cases {i : ι} {k : K} {f : V → Option V} {t t' : Table ι K V}
    (h : t.modify i k f = some t') :
    t' = t ∨
    ∃ v v',
      (t.slot k).visible i = some v ∧
      f v = some v' ∧
      (t.slot k).lockedFor i = false ∧
      t' = t.set k ((t.slot k).write i v') := by
  unfold modify at h
  split at h
  · exact Or.inl (Option.some.inj h).symm
  · rename_i v hv
    split at h
    · exact Or.inl (Option.some.inj h).symm
    · rename_i v' hv'
      split at h
      · cases h
      · rename_i hlock
        exact Or.inr ⟨v, v', hv, hv', by simpa using hlock, (Option.some.inj h).symm⟩

omit [DecidableEq ι] in
theorem insert_cases {i : ι} {k : K} {v : V} {t t' : Table ι K V}
    (h : t.insert i k v = some t') :
    t.slot k = Slot.empty ∧ t' = t.set k (Slot.empty.write i v) := by
  unfold insert at h
  split at h
  · rename_i hk
    exact ⟨(Slot.isEmpty_iff _).1 hk, (Option.some.inj h).symm⟩
  · cases h

omit [DecidableEq ι] in
/-- Every row is as before, or is new and held by the inserting transaction. -/
theorem insertAll_slot {i : ι} {kvs : List (K × V)} {t t' : Table ι K V}
    (h : t.insertAll i kvs = some t') (k : K) :
    (t'.slot k = t.slot k ∧ ∀ v, (k, v) ∉ kvs) ∨
    (t.slot k = Slot.empty ∧
      ∃ v, (k, v) ∈ kvs ∧ t'.slot k = Slot.empty.write i v) := by
  induction kvs generalizing t with
  | nil =>
      cases h
      exact Or.inl ⟨rfl, by simp⟩
  | cons kv kvs ih =>
      obtain ⟨t₁, h₁, hrest⟩ := Option.bind_eq_some_iff.1 h
      obtain ⟨hempty, rfl⟩ := insert_cases h₁
      rcases ih hrest with ⟨hsame, hnot⟩ | ⟨hk, v, hv, hslot⟩
      · by_cases hkk : k = kv.1
        · subst hkk
          refine Or.inr ⟨hempty, kv.2, by simp, ?_⟩
          simpa using hsame
        · refine Or.inl ⟨by simpa [hkk] using hsame, fun v hv => ?_⟩
          rcases List.mem_cons.1 hv with heq | hv
          · exact hkk (congrArg Prod.fst heq)
          · exact hnot v hv
      · by_cases hkk : k = kv.1
        · subst hkk
          simp [Slot.write, Slot.empty] at hk
        · exact Or.inr ⟨by simpa [hkk] using hk, v, List.mem_cons_of_mem _ hv, hslot⟩

omit [DecidableEq ι] in
theorem insertAll_slot_of_mem {i : ι} {kvs : List (K × V)} {t t' : Table ι K V}
    (h : t.insertAll i kvs = some t') {k : K} {v : V} (hmem : (k, v) ∈ kvs) :
    t'.slot k = Slot.empty.write i v := by
  induction kvs generalizing t with
  | nil =>
      cases hmem
  | cons kv kvs ih =>
      obtain ⟨t₁, h₁, hrest⟩ := Option.bind_eq_some_iff.1 h
      rcases List.mem_cons.1 hmem with rfl | hmem
      · obtain ⟨-, rfl⟩ := insert_cases h₁
        -- the rest cannot insert the key again
        rcases insertAll_slot hrest k with ⟨hsame, -⟩ | ⟨hempty, -⟩
        · simpa using hsame
        · simp [Slot.write, Slot.empty] at hempty
      · exact ih hrest hmem

omit [DecidableEq ι] in
/-- A key is inserted once, or not at all. -/
theorem insertAll_filter {i : ι} {kvs : List (K × V)} {t t' : Table ι K V}
    (h : t.insertAll i kvs = some t') (k : K) :
    (kvs.filter (fun kv => kv.1 = k) = [] ∧ t'.slot k = t.slot k) ∨
    ∃ v, kvs.filter (fun kv => kv.1 = k) = [(k, v)] ∧ t.slot k = Slot.empty ∧
      t'.slot k = Slot.empty.write i v := by
  induction kvs generalizing t with
  | nil =>
      cases h
      exact Or.inl ⟨rfl, rfl⟩
  | cons kv kvs ih =>
      obtain ⟨t₁, h₁, hrest⟩ := Option.bind_eq_some_iff.1 h
      obtain ⟨hempty, rfl⟩ := insert_cases h₁
      by_cases hk : kv.1 = k
      · subst hk
        right
        rcases ih hrest with ⟨hnone, hsame⟩ | ⟨v, -, hnew, -⟩
        · refine ⟨kv.2, ?_, hempty, by simpa using hsame⟩
          rw [List.filter_cons_of_pos (by simp), hnone]
        · simp [Slot.write, Slot.empty] at hnew
      · rw [List.filter_cons_of_neg (by simpa using hk)]
        simpa [Ne.symm hk] using ih hrest

omit [DecidableEq ι] in
/-- Different rows have different keys. -/
theorem nodup_of_insertAll {i : ι} {kvs : List (K × V)} {t t' : Table ι K V}
    (h : t.insertAll i kvs = some t') : (kvs.map Prod.fst).Nodup := by
  induction kvs generalizing t with
  | nil =>
      exact List.nodup_nil
  | cons kv kvs ih =>
      obtain ⟨t₁, h₁, hrest⟩ := Option.bind_eq_some_iff.1 h
      obtain ⟨-, rfl⟩ := insert_cases h₁
      rw [List.map_cons, List.nodup_cons]
      refine ⟨fun hmem => ?_, ih hrest⟩
      obtain ⟨kv', hkv', hkey⟩ := List.mem_map.1 hmem
      rcases insertAll_slot hrest kv.1 with ⟨-, hnot⟩ | ⟨hempty, -⟩
      · exact hnot kv'.2 (hkey ▸ hkv')
      · simp [Slot.write, Slot.empty] at hempty

omit [DecidableEq ι] in
/-- Rows with new and different keys can be inserted. -/
theorem exists_insertAll_eq_some {i : ι} {kvs : List (K × V)} {t : Table ι K V}
    (hnodup : (kvs.map Prod.fst).Nodup) (hnew : ∀ kv ∈ kvs, t.slot kv.1 = Slot.empty) :
    ∃ t', t.insertAll i kvs = some t' := by
  induction kvs generalizing t with
  | nil =>
      exact ⟨t, rfl⟩
  | cons kv kvs ih =>
      rw [List.map_cons, List.nodup_cons] at hnodup
      have hinsert : t.insert i kv.1 kv.2 = some (t.set kv.1 (Slot.empty.write i kv.2)) :=
        if_pos ((Slot.isEmpty_iff _).2 (hnew kv (by simp)))
      rw [insertAll, hinsert]
      refine ih hnodup.2 fun kv' hkv' => ?_
      have hne : kv'.1 ≠ kv.1 := by
        intro heq
        exact hnodup.1 (heq ▸ List.mem_map_of_mem hkv')
      rw [set_slot_other hne]
      exact hnew kv' (by simp [hkv'])

theorem insertAll_visible {i : ι} {kvs : List (K × V)} {t t' : Table ι K V}
    (h : t.insertAll i kvs = some t') (k : K) :
    (t'.slot k).visible i = (kvs.lookup k).or ((t.slot k).visible i) := by
  induction kvs generalizing t with
  | nil =>
      cases h
      rfl
  | cons kv kvs ih =>
      obtain ⟨k₀, v₀⟩ := kv
      obtain ⟨t₁, h₁, hrest⟩ := Option.bind_eq_some_iff.1 h
      obtain ⟨-, rfl⟩ := insert_cases h₁
      rw [ih hrest]
      by_cases hk : k = k₀
      · subst hk
        -- the rest cannot insert the key again
        have hnone : kvs.lookup k = none := by
          rcases insertAll_slot hrest k with ⟨-, hnot⟩ | ⟨hempty, -⟩
          · rw [List.lookup_eq_none_iff]
            rintro ⟨k', v'⟩ hmem
            rw [bne_iff_ne]
            rintro rfl
            exact hnot v' hmem
          · simp [Slot.write, Slot.empty] at hempty
        simp [hnone]
      · simp [List.lookup_cons, beq_eq_false_iff_ne.2 hk, hk]

section Invisible

variable {i j : ι} {k : K} {t t' : Table ι K V}

theorem rollback_set (s : Slot ι V) :
    (t.set k s).rollback i = (t.rollback i).set k (s.rollback i) := by
  ext1
  · funext k'
    by_cases h : k' = k
    · subst h
      simp
    · simp [h]
  · rfl

/-- A transaction's own write leaves no trace once it is rolled back. -/
theorem rollback_modify_self {f : V → Option V} (h : t.modify i k f = some t') :
    t'.rollback i = t.rollback i := by
  rcases modify_cases h with rfl | ⟨v, v', hv, -, hlock, rfl⟩
  · rfl
  · rw [rollback_set, Slot.rollback_write_self i v' _ hlock]
    ext1
    · funext k'
      by_cases hk : k' = k
      · subst hk
        simp
      · simp [hk]
    · exact set_keys_of_mem (t.rollback i) _ (mem_keys_of_visible (t := t) hv)

/-- Another transaction's UPDATE does the same with or without `i`'s versions. -/
theorem rollback_modify {f : V → Option V} (hij : j ≠ i)
    (h : t.modify j k f = some t') :
    (t.rollback i).modify j k f = some (t'.rollback i) := by
  unfold modify at h ⊢
  simp only [rollback_slot, Slot.visible_rollback_other hij]
  split at h
  · cases h
    rfl
  · rename_i v hv
    split at h
    · cases h
      rfl
    · rename_i v' hf
      split at h
      · cases h
      · rename_i hlock
        have hlock' : (t.slot k).lockedFor j = false := by simpa using hlock
        cases h
        simp [Slot.lockedFor_rollback _ hlock', rollback_set,
          Slot.rollback_write_other hij _ _ hlock']

theorem rollback_insertAll {kvs : List (K × V)} (hij : j ≠ i)
    (h : t.insertAll j kvs = some t') :
    (t.rollback i).insertAll j kvs = some (t'.rollback i) := by
  induction kvs generalizing t with
  | nil =>
      cases h
      rfl
  | cons kv kvs ih =>
      obtain ⟨t₁, h₁, hrest⟩ := Option.bind_eq_some_iff.1 h
      obtain ⟨hempty, rfl⟩ := insert_cases h₁
      have hnew : (Slot.empty.write j kv.2 : Slot ι V).rollback i = Slot.empty.write j kv.2 :=
        Slot.rollback_eq_self fun v hv => hij (by simpa using (congrArg Prod.fst
          (Option.some.inj hv)))
      have hins : (t.rollback i).insert j kv.1 kv.2 =
          some ((t.set kv.1 (Slot.empty.write j kv.2)).rollback i) := by
        simp [insert, hempty, rollback_set, hnew, (Slot.isEmpty_iff _).2]
      rw [insertAll, hins]
      exact ih hrest

end Invisible

end Table

end ReadCommitted

end Foundations
