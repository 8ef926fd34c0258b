import Mathlib.Data.List.Sort
import Mathlib.Tactic

/-!
# Pages of a sorted list

A list is asked for page by page, and each page is cut from a sorted list of the
same items.  Where the order does not decide between items, every page may come
from another arrangement of them.

`pagesFrom_perm`: if no page boundary falls between two items of equal key, the
pages hold every item exactly once, whatever the arrangements.
`exists_repeated_item`: if one does, two arrangements suffice for an item to be
on two pages.
-/

namespace Foundations

section SortedPages

variable {α K : Type} [LinearOrder K] {key : α → K}
variable {l l' : List α} {ls : ℕ → List α} {limit n c k m : ℕ}

/-- Sorted by key, the greatest first. -/
def SortedBy (key : α → K) (l : List α) : Prop :=
  l.Pairwise fun a b => key b ≤ key a

/-- Page `n` of a list. -/
def page (limit n : ℕ) (l : List α) : List α :=
  (l.drop (n * limit)).take limit

/-- Pages `n` to `n + c - 1`; page `i` is cut from `ls i`. -/
def pagesFrom (limit : ℕ) (ls : ℕ → List α) (n : ℕ) : ℕ → List α
  | 0 => []
  | c + 1 => page limit n (ls n) ++ pagesFrom limit ls (n + 1) c

/-- The keys on the two sides of a position differ, if there are two. -/
def CutsNoTie (keys : List K) (m : ℕ) : Prop :=
  ∀ t, keys[m - 1]? = some t → keys[m]? ≠ some t

section Keys

/-- Sorted arrangements of the same items show the same keys. -/
theorem SortedBy.map_eq (h : SortedBy key l) (h' : SortedBy key l') (hperm : l.Perm l') :
    l.map key = l'.map key := by
  have hs : (l.map key).Pairwise (· ≥ ·) := List.pairwise_map.2 h
  have hs' : (l'.map key).Pairwise (· ≥ ·) := List.pairwise_map.2 h'
  exact (hperm.map key).eq_of_pairwise (fun a b _ _ hab hba => le_antisymm hba hab) hs hs'

theorem exists_split_of_getElem? {i : ℕ} {x : α} (h : l[i]? = some x) :
    ∃ before after, l = before ++ x :: after ∧ before.length = i := by
  obtain ⟨hi, rfl⟩ := List.getElem?_eq_some_iff.1 h
  refine ⟨l.take i, l.drop (i + 1), ?_, by simp [hi.le]⟩
  rw [← List.drop_eq_getElem_cons hi, List.take_append_drop]

/-- The items up to one that is followed by a smaller key, or by nothing. -/
theorem SortedBy.filter_append {before after : List α} {x : α}
    (h : SortedBy key (before ++ x :: after)) (hafter : (after.map key)[0]? ≠ some (key x)) :
    (before ++ x :: after).filter (fun a => key x ≤ key a) = before ++ [x] := by
  obtain ⟨-, hrest, hbefore⟩ := List.pairwise_append.1 h
  obtain ⟨hx, hsorted⟩ := List.pairwise_cons.1 hrest
  have hkept : before.filter (fun a => key x ≤ key a) = before :=
    List.filter_eq_self.2 fun a ha => by simpa using hbefore a ha x (by simp)
  have hdropped : after.filter (fun a => key x ≤ key a) = [] := by
    refine List.filter_eq_nil_iff.2 fun a ha => ?_
    have hlt : key a < key x := by
      cases after with
      | nil => cases ha
      | cons y after =>
          have hy : key y < key x :=
            lt_of_le_of_ne (hx y (by simp)) fun heq => hafter (by simp [heq])
          rcases List.mem_cons.1 ha with rfl | ha
          · exact hy
          · exact ((List.pairwise_cons.1 hsorted).1 a ha).trans_lt hy
    simpa using hlt
  simp [hkept, hdropped]

/-- What comes before a position that cuts no tie is what has a key at least as great. -/
theorem SortedBy.take_eq_filter (h : SortedBy key l) {t : K} (hm : 0 < m)
    (ht : (l.map key)[m - 1]? = some t) (hcut : (l.map key)[m]? ≠ some t) :
    l.take m = l.filter fun a => t ≤ key a := by
  rw [List.getElem?_map, Option.map_eq_some_iff] at ht
  obtain ⟨x, hx, rfl⟩ := ht
  obtain ⟨before, after, rfl, hlength⟩ := exists_split_of_getElem? hx
  have hm' : m = before.length + 1 := by omega
  subst hm'
  rw [h.filter_append]
  · simp [List.take_append]
  · rw [List.map_append, List.getElem?_append_right (by simp), List.length_map] at hcut
    simpa using hcut

/-- Up to a position that cuts no tie, all arrangements have the same items. -/
theorem SortedBy.take_perm (h : SortedBy key l) (h' : SortedBy key l') (hperm : l.Perm l')
    (hcut : 0 < m → CutsNoTie (l.map key) m) :
    (l.take m).Perm (l'.take m) := by
  rcases Nat.eq_zero_or_pos m with rfl | hm
  · simp
  · cases ht : (l.map key)[m - 1]? with
    | none =>
        have hlength : l.length ≤ m := by
          have := List.getElem?_eq_none_iff.1 ht
          rw [List.length_map] at this
          omega
        rw [List.take_of_length_le hlength, List.take_of_length_le (hperm.length_eq ▸ hlength)]
        exact hperm
    | some t =>
        have hkeys := h.map_eq h' hperm
        rw [h.take_eq_filter hm ht (hcut hm t ht),
          h'.take_eq_filter hm (hkeys ▸ ht) (hkeys ▸ hcut hm t ht)]
        exact hperm.filter _

end Keys

section Pages

omit [LinearOrder K] in
theorem take_append_page (l : List α) (limit n : ℕ) :
    l.take (n * limit) ++ page limit n l = l.take ((n + 1) * limit) := by
  rw [page, ← List.take_add, Nat.succ_mul]

theorem pagesFrom_add (limit : ℕ) (ls : ℕ → List α) (n c d : ℕ) :
    pagesFrom limit ls n (c + d) = pagesFrom limit ls n c ++ pagesFrom limit ls (n + c) d := by
  induction c generalizing n with
  | zero =>
      simp [pagesFrom]
  | succ c ih =>
      rw [Nat.succ_add, pagesFrom, pagesFrom, ih, List.append_assoc,
        show n + 1 + c = n + (c + 1) by omega]

/-- Pages that are all cut from one list. -/
theorem pagesFrom_eq (h : ∀ i, n ≤ i → i < n + c → ls i = l) :
    pagesFrom limit ls n c = (l.drop (n * limit)).take (c * limit) := by
  induction c generalizing n with
  | zero =>
      simp [pagesFrom]
  | succ c ih =>
      rw [pagesFrom, h n le_rfl (by omega), ih fun i hi hi' => h i (by omega) (by omega), page,
        Nat.succ_mul c, Nat.add_comm (c * limit), List.take_add, List.drop_drop,
        Nat.succ_mul n]

/-- After the end of the list the pages are empty. -/
theorem page_eq_nil (h : l.length ≤ n * limit) : page limit n l = [] := by
  simp [page, List.drop_of_length_le h]

theorem length_le_of_page_eq_nil (hlimit : 0 < limit) (h : page limit n l = []) :
    l.length ≤ n * limit := by
  by_contra hlt
  have hlength := congrArg List.length h
  simp only [page, List.length_take, List.length_drop, List.length_nil] at hlength
  omega

/--
If no boundary cuts a tie, pages cut from any arrangements have the items that
come before the last boundary, each once.
-/
theorem pagesFrom_perm (hl : SortedBy key l) (hsorted : ∀ i, SortedBy key (ls i))
    (hperm : ∀ i, (ls i).Perm l) (hcut : ∀ k, 0 < k → CutsNoTie (l.map key) (k * limit))
    (n c : ℕ) :
    (l.take (n * limit) ++ pagesFrom limit ls n c).Perm (l.take ((n + c) * limit)) := by
  have htake : ∀ i, ((ls i).take (n * limit)).Perm (l.take (n * limit)) := by
    intro i
    refine (hl.take_perm (hsorted i) (hperm i).symm fun hpos => hcut n ?_).symm
    exact Nat.pos_of_mul_pos_right hpos
  induction c generalizing n with
  | zero =>
      simp [pagesFrom]
  | succ c ih =>
      have htake' : ∀ i, ((ls i).take ((n + 1) * limit)).Perm (l.take ((n + 1) * limit)) := by
        intro i
        refine (hl.take_perm (hsorted i) (hperm i).symm fun _ => hcut (n + 1) (by omega)).symm
      rw [pagesFrom, ← List.append_assoc, show n + (c + 1) = n + 1 + c by omega]
      refine List.Perm.trans (List.Perm.append_right _ ?_) (ih (n + 1) htake')
      refine ((htake n).symm.append_right _).trans ?_
      rw [take_append_page]
      exact htake' n

/-- If a boundary cuts a tie, the tied items can be exchanged between two pages. -/
theorem exists_repeated_item (hl : SortedBy key l) (hk : 0 < k)
    (htie : ¬ CutsNoTie (l.map key) (k * limit)) (hlimit : 0 < limit) :
    ∃ l', l'.Perm l ∧ SortedBy key l' ∧ ∀ c, l.length ≤ c * limit →
      ¬ (pagesFrom limit (fun i => if i < k then l else l') 0 c).Nodup := by
  have hm : 0 < k * limit := Nat.mul_pos hk hlimit
  generalize hboundary : k * limit = m at htie hm
  simp only [CutsNoTie, not_forall, not_not, List.getElem?_map, Option.map_eq_some_iff] at htie
  obtain ⟨t, ⟨x, hx, hxt⟩, ⟨y, hy, hyt⟩⟩ := htie
  obtain ⟨before, rest, rfl, hlength⟩ := exists_split_of_getElem? hx
  obtain ⟨after, rfl⟩ : ∃ after, rest = y :: after := by
    have hm' : m = before.length + 1 := by omega
    cases rest with
    | nil => simp [hm'] at hy
    | cons z after =>
        rw [hm', List.getElem?_append_right (Nat.le_succ _), Nat.succ_sub le_rfl,
          Nat.sub_self, List.getElem?_cons_succ, List.getElem?_cons_zero] at hy
        exact ⟨after, by rw [Option.some.inj hy]⟩
  have hxy : key x = key y := hxt.trans hyt.symm
  have hm' : k * limit = before.length + 1 := by omega
  refine ⟨before ++ y :: x :: after, (List.Perm.swap x y after).append_left before, ?_,
    fun c hc => ?_⟩
  · simp only [SortedBy, List.pairwise_append, List.pairwise_cons, List.mem_cons] at hl ⊢
    grind
  · obtain ⟨d, rfl⟩ : ∃ d, c = k + d := by
      refine ⟨c - k, ?_⟩
      have hlt : k * limit < c * limit := by
        rw [List.length_append, List.length_cons, List.length_cons] at hc
        omega
      have := Nat.lt_of_mul_lt_mul_right hlt
      omega
    -- the first pages end with one of the tied items, the others begin with it
    have hfirst : pagesFrom limit (fun i => if i < k then before ++ x :: y :: after
        else before ++ y :: x :: after) 0 k = before ++ [x] := by
      rw [pagesFrom_eq fun i _ hi => if_pos (show i < k by omega), hm']
      simp [List.take_append]
    have hsecond : pagesFrom limit (fun i => if i < k then before ++ x :: y :: after
        else before ++ y :: x :: after) (0 + k) d = x :: after := by
      have hdrop : (before ++ y :: x :: after).drop (before.length + 1) = x :: after := by
        simp [List.drop_append]
      rw [Nat.add_mul, hm', List.length_append, List.length_cons, List.length_cons] at hc
      rw [pagesFrom_eq fun i hi _ => if_neg (show ¬ i < k by omega), Nat.zero_add, hm', hdrop,
        List.take_of_length_le (by rw [List.length_cons]; omega)]
    rw [pagesFrom_add, hfirst, hsecond]
    simp [List.nodup_append]

end Pages

end SortedPages

end Foundations
