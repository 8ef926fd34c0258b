import Mathlib.Data.List.Pairwise
import Mathlib.Data.List.Perm.Basic

/-!
# Rows under uniqueness constraints

`Conflict` says which rows have a key in common.  A table has rows that are
committed, in the order of their commits, and rows that are not, each with the
transaction that wrote it; no two of them are in conflict.

An INSERT is refused if the row is in conflict with one that is committed or that
its own transaction wrote.  It waits while the row is in conflict with one that
another transaction has not committed.

`waits_of_insert`: who waits, waits for a transaction that has a row of its own;
`eq_of_conflict`: two rows in conflict are one row.
-/

namespace Foundations

section UniqueRows

variable {ι R : Type} {Conflict : R → R → Prop}

structure UniqueRows (ι R : Type) (Conflict : R → R → Prop) where
  committed : List R
  pending : List (ι × R)
  apart : (committed ++ pending.map Prod.snd).Pairwise fun a b => ¬ Conflict a b

namespace UniqueRows

/-- All rows, committed or not. -/
def rows (t : UniqueRows ι R Conflict) : List R :=
  t.committed ++ t.pending.map Prod.snd

theorem mem_rows {t : UniqueRows ι R Conflict} {a : R} :
    a ∈ t.rows ↔ a ∈ t.committed ∨ ∃ i, (i, a) ∈ t.pending := by
  simp [rows]

theorem mem_rows_of_committed {t : UniqueRows ι R Conflict} {a : R} (h : a ∈ t.committed) :
    a ∈ t.rows :=
  mem_rows.2 (Or.inl h)

theorem mem_rows_of_pending {t : UniqueRows ι R Conflict} {i : ι} {a : R}
    (h : (i, a) ∈ t.pending) : a ∈ t.rows :=
  mem_rows.2 (Or.inr ⟨i, h⟩)

/-- A table of committed rows. -/
def ofCommitted (ι : Type) (rows : List R) (h : rows.Pairwise fun a b => ¬ Conflict a b) :
    UniqueRows ι R Conflict where
  committed := rows
  pending := []
  apart := by simpa using h

/-- The row is in conflict with a committed row, or with one that its transaction wrote. -/
def Refuses (i : ι) (a : R) (t : UniqueRows ι R Conflict) : Prop :=
  (∃ b ∈ t.committed, Conflict b a) ∨ ∃ p ∈ t.pending, p.1 = i ∧ Conflict p.2 a

/-- The row is in conflict with a row that another transaction has not committed. -/
def Waits (i : ι) (a : R) (t : UniqueRows ι R Conflict) : Prop :=
  ∃ p ∈ t.pending, p.1 ≠ i ∧ Conflict p.2 a

section Statements

variable [DecidableEq ι] [DecidableRel Conflict] {t t' : UniqueRows ι R Conflict}
variable {i j : ι} {a b : R}

instance : Decidable (t.Refuses i a) :=
  inferInstanceAs (Decidable (_ ∨ _))

instance : Decidable (t.Waits i a) :=
  inferInstanceAs (Decidable (∃ p ∈ t.pending, p.1 ≠ i ∧ Conflict p.2 a))

/-- INSERT: `none` if it waits, `some none` if it is refused. -/
def insert (i : ι) (a : R) (t : UniqueRows ι R Conflict) :
    Option (Option (UniqueRows ι R Conflict)) :=
  if hrefuses : t.Refuses i a then some none
  else if hwaits : t.Waits i a then none
  else
    some (some
      { t with
        pending := t.pending ++ [(i, a)]
        apart := by
          have hfree : ∀ b ∈ t.rows, ¬ Conflict b a := by
            intro b hb hconflict
            rcases mem_rows.1 hb with hb | ⟨j, hb⟩
            · exact hrefuses (Or.inl ⟨b, hb, hconflict⟩)
            · by_cases hji : j = i
              · exact hrefuses (Or.inr ⟨_, hb, hji, hconflict⟩)
              · exact hwaits ⟨_, hb, hji, hconflict⟩
          rw [List.map_append, ← List.append_assoc, List.pairwise_append]
          refine ⟨t.apart, List.pairwise_singleton .., fun b hb c hc => ?_⟩
          obtain rfl : c = a := by simpa using hc
          exact hfree b hb })

theorem refuses_of_insert (h : t.insert i a = some none) : t.Refuses i a := by
  unfold insert at h
  split at h
  · assumption
  · split at h <;> cases h

theorem waits_of_insert (h : t.insert i a = none) : t.Waits i a := by
  unfold insert at h
  split at h
  · cases h
  · split at h
    · assumption
    · cases h

theorem of_insert (h : t.insert i a = some (some t')) :
    t'.committed = t.committed ∧ t'.pending = t.pending ++ [(i, a)] := by
  unfold insert at h
  split at h
  · cases h
  · split at h
    · cases h
    · cases h
      exact ⟨rfl, rfl⟩

/-- ROLLBACK. -/
def rollback (i : ι) (t : UniqueRows ι R Conflict) : UniqueRows ι R Conflict where
  committed := t.committed
  pending := t.pending.filter fun p => p.1 ≠ i
  apart := by
    refine t.apart.sublist ?_
    exact (List.Sublist.refl _).append (List.filter_sublist.map _)

omit [DecidableRel Conflict] in
@[simp] theorem rollback_committed : (t.rollback i).committed = t.committed := by
  rfl

omit [DecidableRel Conflict] in
theorem mem_rollback_pending : (j, a) ∈ (t.rollback i).pending ↔ (j, a) ∈ t.pending ∧ j ≠ i := by
  simp [rollback]

omit [DecidableRel Conflict] in
theorem mem_rows_of_rollback (h : a ∈ (t.rollback i).rows) : a ∈ t.rows := by
  rcases mem_rows.1 h with h | ⟨j, h⟩
  · exact mem_rows_of_committed h
  · exact mem_rows_of_pending (mem_rollback_pending.1 h).1

section Symmetric

variable [Std.Symm Conflict]

omit [DecidableEq ι] [DecidableRel Conflict] in
/-- Rows in conflict are the same row. -/
theorem eq_of_conflict (ha : a ∈ t.rows) (hb : b ∈ t.rows) (h : Conflict a b) : a = b := by
  by_contra hne
  have : Std.Symm fun a b => ¬ Conflict a b := ⟨fun a b hab hba => hab (Std.Symm.symm b a hba)⟩
  exact t.apart.forall ha hb hne h

/-- COMMIT. -/
def commit (i : ι) (t : UniqueRows ι R Conflict) : UniqueRows ι R Conflict where
  committed := t.committed ++ (t.pending.filter fun p => p.1 = i).map Prod.snd
  pending := t.pending.filter fun p => p.1 ≠ i
  apart := by
    have hperm : (t.committed ++ t.pending.map Prod.snd).Perm
        ((t.committed ++ (t.pending.filter fun p => p.1 = i).map Prod.snd) ++
          (t.pending.filter fun p => p.1 ≠ i).map Prod.snd) := by
      rw [List.append_assoc, ← List.map_append]
      refine List.Perm.append_left _ (List.Perm.map _ ?_)
      have hsplit := List.filter_append_perm (fun p : ι × R => decide (p.1 = i)) t.pending
      simpa using hsplit.symm
    exact (hperm.pairwise_iff fun hab hba => hab (Std.Symm.symm _ _ hba)).1 t.apart

omit [DecidableRel Conflict] in
theorem mem_commit_committed :
    a ∈ (t.commit i).committed ↔ a ∈ t.committed ∨ (i, a) ∈ t.pending := by
  simp [commit]

omit [DecidableRel Conflict] in
theorem mem_commit_pending : (j, a) ∈ (t.commit i).pending ↔ (j, a) ∈ t.pending ∧ j ≠ i := by
  simp [commit]

omit [DecidableRel Conflict] in
theorem mem_rows_of_commit (h : a ∈ (t.commit i).rows) : a ∈ t.rows := by
  rcases mem_rows.1 h with h | ⟨j, h⟩
  · rcases mem_commit_committed.1 h with h | h
    · exact mem_rows_of_committed h
    · exact mem_rows_of_pending h
  · exact mem_rows_of_pending (mem_commit_pending.1 h).1

omit [DecidableRel Conflict] in
/-- What is committed stays, in its order. -/
theorem committed_prefix_commit : t.committed <+: (t.commit i).committed :=
  List.prefix_append ..

end Symmetric

end Statements

end UniqueRows

end UniqueRows

end Foundations
