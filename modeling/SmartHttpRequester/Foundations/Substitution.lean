import Mathlib.Tactic

/-!
# Substitution of a pattern in a text

A pattern is a sequence of pieces: one letter of a class, or as many letters of
a class as it takes.  `matchLength` is the backtracking matcher, which tries the
longest repetition first; `substitute` replaces the matches of a pattern from
left to right, each beginning where the last one has ended or later.  Patterns
are meant not to match the empty text.

Results:
* `matchLength_isSome_iff`: the matcher succeeds if some prefix matches;
* `substitute_append_cons`: a letter no piece takes divides the work;
* `not_infix_substitute`: nothing that matches is left.
-/

namespace Foundations

section Substitution

variable {α : Type}

/-- `[p]` and `[p]*`. -/
inductive Piece (α : Type)
  | one (p : α → Bool)
  | star (p : α → Bool)

/-- Whether the piece can take the letter. -/
def Piece.takes : Piece α → α → Bool
  | .one p => p
  | .star p => p

/-- Length of the longest repetition with a match of the rest after it. -/
def starLength (p : α → Bool) (rest : List α → Option Nat) : List α → Option Nat
  | [] => rest []
  | c :: l =>
      if p c then ((starLength p rest l).map (· + 1)).or (rest (c :: l)) else rest (c :: l)

/-- Length of the match at the beginning of a text. -/
def matchLength : List (Piece α) → List α → Option Nat
  | [], _ => some 0
  | .one _ :: _, [] => none
  | .one p :: ps, c :: l => if p c then (matchLength ps l).map (· + 1) else none
  | .star p :: ps, l => starLength p (fun l' => matchLength ps l') l

/-- The texts a pattern describes. -/
def Matches : List (Piece α) → List α → Prop
  | [], u => u = []
  | .one p :: ps, u => ∃ c v, u = c :: v ∧ p c = true ∧ Matches ps v
  | .star p :: ps, u => ∃ a v, u = a ++ v ∧ (∀ c ∈ a, p c = true) ∧ Matches ps v

/-- `re.sub`; `k` letters of the last match are still to be skipped. -/
def substituteFrom (ps : List (Piece α)) (r : List α) : Nat → List α → List α
  | _, [] => []
  | k + 1, _ :: l => substituteFrom ps r k l
  | 0, c :: l =>
      match matchLength ps (c :: l) with
      | some (n + 1) => r ++ substituteFrom ps r n l
      | some 0 | none => c :: substituteFrom ps r 0 l

def substitute (ps : List (Piece α)) (r l : List α) : List α :=
  substituteFrom ps r 0 l

section Matching

variable {ps : List (Piece α)} {p : α → Bool} {rest : List α → Option Nat}
variable {u v l : List α} {c : α} {n : Nat}

theorem starLength_eq_some (h : starLength p rest l = some n) :
    ∃ a v k, l = a ++ v ∧ (∀ c ∈ a, p c = true) ∧ rest v = some k ∧ n = a.length + k := by
  induction l generalizing n with
  | nil =>
      exact ⟨[], [], n, rfl, by simp, h, by simp⟩
  | cons c l ih =>
      have hstop : rest (c :: l) = some n → ∃ a v k, c :: l = a ++ v ∧ (∀ d ∈ a, p d = true) ∧
          rest v = some k ∧ n = a.length + k :=
        fun hrest => ⟨[], c :: l, n, rfl, by simp, hrest, by simp⟩
      rw [starLength] at h
      split at h
      · rename_i hc
        rcases Option.or_eq_some_iff.1 h with hmore | ⟨-, hrest⟩
        · obtain ⟨m, hm, rfl⟩ := Option.map_eq_some_iff.1 hmore
          obtain ⟨a, v, k, rfl, ha, hk, rfl⟩ := ih hm
          exact ⟨c :: a, v, k, rfl, by simpa [hc] using ha, hk, by simp; omega⟩
        · exact hstop hrest
      · exact hstop h

theorem starLength_isSome {a : List α} (ha : ∀ c ∈ a, p c = true) (hv : (rest v).isSome) :
    (starLength p rest (a ++ v)).isSome := by
  induction a with
  | nil =>
      cases v with
      | nil => exact hv
      | cons c v =>
          rw [List.nil_append, starLength]
          split
          · simp [hv]
          · exact hv
  | cons c a ih =>
      have hrest := ih fun d hd => ha d (List.mem_cons_of_mem _ hd)
      rw [List.cons_append, starLength, if_pos (ha c (List.mem_cons_self ..))]
      simp [hrest]

/-- What the matcher finds is a match. -/
theorem matches_of_matchLength (h : matchLength ps l = some n) :
    ∃ u v, l = u ++ v ∧ Matches ps u ∧ n = u.length := by
  induction ps generalizing l n with
  | nil =>
      exact ⟨[], l, rfl, rfl, (Option.some.inj h).symm⟩
  | cons piece ps ih =>
      cases piece with
      | one p =>
          cases l with
          | nil => cases h
          | cons c l =>
              rw [matchLength] at h
              split at h
              · rename_i hc
                obtain ⟨m, hm, rfl⟩ := Option.map_eq_some_iff.1 h
                obtain ⟨u, v, rfl, hu, rfl⟩ := ih hm
                exact ⟨c :: u, v, rfl, ⟨c, u, rfl, hc, hu⟩, rfl⟩
              · cases h
      | star p =>
          obtain ⟨a, l', k, rfl, ha, hk, rfl⟩ := starLength_eq_some h
          obtain ⟨u, v, rfl, hu, rfl⟩ := ih hk
          exact ⟨a ++ u, v, by simp, ⟨a, u, rfl, ha, hu⟩, by simp⟩

/-- Backtracking misses no match. -/
theorem matchLength_isSome_of_matches (h : Matches ps u) : (matchLength ps (u ++ v)).isSome := by
  induction ps generalizing u with
  | nil =>
      rfl
  | cons piece ps ih =>
      cases piece with
      | one p =>
          obtain ⟨c, w, rfl, hc, hw⟩ := h
          simpa [matchLength, hc] using ih hw
      | star p =>
          obtain ⟨a, w, rfl, ha, hw⟩ := h
          rw [List.append_assoc]
          exact starLength_isSome ha (ih hw)

theorem matchLength_isSome_iff :
    (matchLength ps l).isSome ↔ ∃ u v, l = u ++ v ∧ Matches ps u := by
  constructor
  · intro h
    obtain ⟨n, hn⟩ := Option.isSome_iff_exists.1 h
    obtain ⟨u, v, hl, hu, -⟩ := matches_of_matchLength hn
    exact ⟨u, v, hl, hu⟩
  · rintro ⟨u, v, rfl, hu⟩
    exact matchLength_isSome_of_matches hu

theorem matchLength_eq_none (h : matchLength ps l = none) (hu : u <+: l) : ¬ Matches ps u := by
  obtain ⟨v, rfl⟩ := hu
  intro hmatches
  have hsome := matchLength_isSome_iff.2 ⟨u, v, rfl, hmatches⟩
  rw [h] at hsome
  cases hsome

/-- Where only one prefix matches, it is the match. -/
theorem matchLength_of_unique (hu : Matches ps u)
    (hunique : ∀ u', u' <+: u ++ v → Matches ps u' → u' = u) :
    matchLength ps (u ++ v) = some u.length := by
  obtain ⟨n, hn⟩ := Option.isSome_iff_exists.1 (matchLength_isSome_of_matches (v := v) hu)
  obtain ⟨u', v', hl, hu', rfl⟩ := matches_of_matchLength hn
  rw [hunique u' ⟨v', hl.symm⟩ hu'] at hn
  exact hn

theorem takes_of_matches (h : Matches ps u) (hc : c ∈ u) : ∃ piece ∈ ps, piece.takes c = true := by
  induction ps generalizing u with
  | nil =>
      obtain rfl : u = [] := h
      cases hc
  | cons piece ps ih =>
      have hrest : ∀ {v}, Matches ps v → c ∈ v → ∃ piece' ∈ piece :: ps, piece'.takes c = true := by
        intro v hv hcv
        obtain ⟨piece', hpiece', htakes⟩ := ih hv hcv
        exact ⟨piece', List.mem_cons_of_mem _ hpiece', htakes⟩
      cases piece with
      | one p =>
          obtain ⟨d, v, rfl, hd, hv⟩ := h
          rcases List.mem_cons.1 hc with rfl | hcv
          · exact ⟨_, List.mem_cons_self .., hd⟩
          · exact hrest hv hcv
      | star p =>
          obtain ⟨a, v, rfl, ha, hv⟩ := h
          rcases List.mem_append.1 hc with hca | hcv
          · exact ⟨_, List.mem_cons_self .., ha c hca⟩
          · exact hrest hv hcv

theorem exists_of_one_mem (hp : .one p ∈ ps) (h : Matches ps u) : ∃ c ∈ u, p c = true := by
  induction ps generalizing u with
  | nil =>
      cases hp
  | cons piece ps ih =>
      have hrest : ∀ {v}, .one p ∈ ps → Matches ps v → (∀ c ∈ v, c ∈ u) → ∃ c ∈ u, p c = true := by
        intro v hmem hv hsub
        obtain ⟨c, hc, hpc⟩ := ih hmem hv
        exact ⟨c, hsub c hc, hpc⟩
      cases piece with
      | one q =>
          obtain ⟨c, v, rfl, hc, hv⟩ := h
          rcases List.mem_cons.1 hp with heq | hmem
          · cases heq
            exact ⟨c, List.mem_cons_self .., hc⟩
          · exact hrest hmem hv fun d hd => List.mem_cons_of_mem _ hd
      | star q =>
          obtain ⟨a, v, rfl, -, hv⟩ := h
          rcases List.mem_cons.1 hp with heq | hmem
          · cases heq
          · exact hrest hmem hv fun d hd => List.mem_append_right _ hd

/-- Without repetitions all matches have one length. -/
theorem length_of_matches (hps : ∀ piece ∈ ps, ∃ p, piece = .one p) (h : Matches ps u) :
    u.length = ps.length := by
  induction ps generalizing u with
  | nil =>
      obtain rfl : u = [] := h
      rfl
  | cons piece ps ih =>
      obtain ⟨p, rfl⟩ := hps piece (List.mem_cons_self ..)
      obtain ⟨c, v, rfl, -, hv⟩ := h
      simp [ih (fun piece' hpiece' => hps piece' (List.mem_cons_of_mem _ hpiece')) hv]

/-- A letter that no piece takes. -/
def Avoids (ps : List (Piece α)) (c : α) : Prop :=
  ∀ piece ∈ ps, piece.takes c = false

theorem Avoids.notMem (hc : Avoids ps c) (h : Matches ps u) : c ∉ u := by
  intro hmem
  obtain ⟨piece, hpiece, htakes⟩ := takes_of_matches h hmem
  rw [hc piece hpiece] at htakes
  cases htakes

theorem starLength_append_cons (hp : p c = false) (hrest : ∀ a, rest (a ++ c :: v) = rest a)
    (a : List α) : starLength p rest (a ++ c :: v) = starLength p rest a := by
  induction a with
  | nil =>
      have hnil := hrest []
      rw [List.nil_append] at hnil ⊢
      simp [starLength, hp, hnil]
  | cons d a ih =>
      have hcons := hrest (d :: a)
      rw [List.cons_append] at hcons ⊢
      rw [starLength, starLength, ih, hcons]

/-- A letter that no piece takes ends the text for the matcher. -/
theorem matchLength_append_cons (hc : Avoids ps c) (a : List α) :
    matchLength ps (a ++ c :: v) = matchLength ps a := by
  induction ps generalizing a with
  | nil =>
      rfl
  | cons piece ps ih =>
      have hpiece := hc piece (List.mem_cons_self ..)
      have hps := ih fun piece' h => hc piece' (List.mem_cons_of_mem _ h)
      cases piece with
      | one p =>
          have hp : p c = false := hpiece
          cases a with
          | nil => simp [matchLength, hp]
          | cons d a => rw [List.cons_append, matchLength, matchLength, hps]
      | star p => exact starLength_append_cons hpiece hps a

end Matching

section Substituting

variable {ps : List (Piece α)} {r u v l : List α} {c : α}

theorem substituteFrom_eq_drop (k : Nat) (l : List α) :
    substituteFrom ps r k l = substitute ps r (l.drop k) := by
  induction k generalizing l with
  | zero =>
      rfl
  | succ k ih =>
      cases l with
      | nil => rfl
      | cons c l => exact ih l

@[simp] theorem substitute_nil : substitute ps r [] = [] := by
  rfl

theorem substitute_of_none (h : matchLength ps (c :: l) = none) :
    substitute ps r (c :: l) = c :: substitute ps r l := by
  rw [substitute, substituteFrom, h]
  rfl

theorem substitute_of_match (hu : u ≠ []) (h : matchLength ps (u ++ v) = some u.length) :
    substitute ps r (u ++ v) = r ++ substitute ps r v := by
  cases u with
  | nil => exact absurd rfl hu
  | cons c u =>
      rw [List.cons_append] at h ⊢
      rw [substitute, substituteFrom, h, List.length_cons]
      simp [substituteFrom_eq_drop]

/-- How a text is read: letter by letter until a match begins, which is then read at once. -/
theorem substitute_induction (hps : ¬ Matches ps []) {motive : List α → Prop}
    (nil : motive [])
    (keep : ∀ c l, matchLength ps (c :: l) = none → motive l → motive (c :: l))
    (replace : ∀ u v, u ≠ [] → Matches ps u → matchLength ps (u ++ v) = some u.length →
      motive v → motive (u ++ v))
    (l : List α) : motive l := by
  induction hlength : l.length using Nat.strong_induction_on generalizing l with
  | _ n ih =>
      subst hlength
      cases l with
      | nil => exact nil
      | cons c l =>
          cases h : matchLength ps (c :: l) with
          | none => exact keep c l h (ih l.length (by simp) l rfl)
          | some m =>
              obtain ⟨u, v, hl, hu, rfl⟩ := matches_of_matchLength h
              have hne : u ≠ [] := fun hnil => hps (hnil ▸ hu)
              rw [hl] at h ih ⊢
              refine replace u v hne hu h (ih v.length ?_ v rfl)
              have hpos := List.length_pos_iff.2 hne
              simp
              omega

/-- A letter that no piece takes is kept, and divides the work. -/
theorem substitute_append_cons (hps : ¬ Matches ps []) (hc : Avoids ps c) (a b : List α) :
    substitute ps r (a ++ c :: b) = substitute ps r a ++ c :: substitute ps r b := by
  induction a using substitute_induction hps with
  | nil =>
      refine substitute_of_none ?_
      have hempty := matchLength_append_cons (v := b) hc []
      cases h : matchLength ps [] with
      | none => exact hempty.trans h
      | some n =>
          obtain ⟨u, v, hl, hu, -⟩ := matches_of_matchLength h
          rw [(List.append_eq_nil_iff.1 hl.symm).1] at hu
          exact absurd hu hps
  | keep d a hnone ih =>
      have hnone' := (matchLength_append_cons (v := b) hc (d :: a)).trans hnone
      rw [List.cons_append] at hnone' ⊢
      rw [substitute_of_none hnone', substitute_of_none hnone, ih, List.cons_append]
  | replace u v hne _ hmatch ih =>
      have hmatch' := (matchLength_append_cons (v := b) hc (u ++ v)).trans hmatch
      rw [List.append_assoc] at hmatch' ⊢
      rw [substitute_of_match hne hmatch', substitute_of_match hne hmatch, ih, List.append_assoc]

theorem mem_substitute (hps : ¬ Matches ps []) (hc : c ∈ substitute ps r l) : c ∈ l ∨ c ∈ r := by
  induction l using substitute_induction hps with
  | nil =>
      cases hc
  | keep d l hnone ih =>
      rw [substitute_of_none hnone] at hc
      rcases List.mem_cons.1 hc with rfl | hc
      · exact Or.inl (List.mem_cons_self ..)
      · exact (ih hc).imp_left (List.mem_cons_of_mem _)
  | replace u v hne _ hmatch ih =>
      rw [substitute_of_match hne hmatch] at hc
      rcases List.mem_append.1 hc with hc | hc
      · exact Or.inr hc
      · exact (ih hc).imp_left (List.mem_append_right _)

/-- Either nothing is replaced, or the replacement can be seen. -/
theorem substitute_eq_self_or_infix (hps : ¬ Matches ps []) (r l : List α) :
    substitute ps r l = l ∨ r <:+: substitute ps r l := by
  induction l using substitute_induction hps with
  | nil =>
      exact Or.inl rfl
  | keep c l hnone ih =>
      rw [substitute_of_none hnone]
      exact ih.imp (congrArg (List.cons c)) List.infix_cons
  | replace u v hne _ hmatch _ =>
      rw [substitute_of_match hne hmatch]
      exact Or.inr List.infix_append_left

/-- A text without matches stays as it is. -/
theorem substitute_eq_self (hps : ¬ Matches ps []) (h : ∀ u, u <:+: l → ¬ Matches ps u) :
    substitute ps r l = l := by
  induction l using substitute_induction hps with
  | nil =>
      rfl
  | keep c l hnone ih =>
      rw [substitute_of_none hnone, ih fun u hu => h u (List.infix_cons hu)]
  | replace u v _ hu _ _ =>
      exact absurd hu (h u List.infix_append_left)

/-- A text that matches as a whole, and in no other way, is replaced. -/
theorem substitute_of_unique (hu : Matches ps u) (hne : u ≠ [])
    (hunique : ∀ u', u' <+: u → Matches ps u' → u' = u) :
    substitute ps r u = r := by
  have hmatch := matchLength_of_unique (v := []) hu (by simpa using hunique)
  simpa using substitute_of_match (r := r) hne hmatch

/-- The text begins with the letters before the first match, and then the replacement comes. -/
theorem exists_gap (hps : ¬ Matches ps []) (l : List α) :
    ∃ g w, substitute ps r l = g ++ w ∧ g <+: l ∧ (w = [] ∨ ∃ w', w = r ++ w') := by
  induction l using substitute_induction hps with
  | nil =>
      exact ⟨[], [], rfl, List.prefix_rfl, Or.inl rfl⟩
  | keep c l hnone ih =>
      obtain ⟨g, w, hsub, hg, hw⟩ := ih
      refine ⟨c :: g, w, ?_, List.cons_prefix_cons.2 ⟨rfl, hg⟩, hw⟩
      rw [substitute_of_none hnone, hsub, List.cons_append]
  | replace u v hne _ hmatch _ =>
      exact ⟨[], _, substitute_of_match hne hmatch, List.nil_prefix, Or.inr ⟨_, rfl⟩⟩

theorem infix_append_cons (hc : c ∉ u) {a b : List α} :
    u <:+: a ++ c :: b ↔ u <:+: a ∨ u <:+: b := by
  constructor
  · intro h
    rcases List.infix_append_iff.1 h with ha | hb | ⟨u₁, u₂, rfl, hu₁, hu₂⟩
    · exact Or.inl ha
    · rcases List.infix_cons_iff.1 hb with hfront | hb
      · rcases List.prefix_cons_iff.1 hfront with rfl | ⟨t, rfl, -⟩
        · exact Or.inl List.nil_infix
        · exact absurd (List.mem_cons_self ..) hc
      · exact Or.inr hb
    · rcases List.prefix_cons_iff.1 hu₂ with rfl | ⟨t, rfl, -⟩
      · rw [List.append_nil]
        exact Or.inl hu₁.isInfix
      · exact absurd (List.mem_append_right _ (List.mem_cons_self ..)) hc
  · rintro (ha | hb)
    · exact List.infix_append_of_infix_left ha
    · exact List.infix_append_of_infix_right (List.infix_cons hb)

/-- A match next to the text is on one side of it. -/
def Separates (ps : List (Piece α)) (r : List α) : Prop :=
  ∀ a b u, Matches ps u → u <:+: a ++ (r ++ b) → u <:+: a ∨ u <:+: b

/-- A text separates if no piece takes its first and its last letter, and nothing between matches. -/
theorem separates_of_ends {x y : α} {m : List α} (hx : Avoids ps x) (hy : Avoids ps y)
    (hm : ∀ u, u <:+: m → ¬ Matches ps u) :
    Separates ps (x :: m ++ [y]) := by
  intro a b u hu h
  have htext : a ++ (x :: m ++ [y] ++ b) = a ++ x :: (m ++ y :: b) := by simp
  rw [htext] at h
  rcases (infix_append_cons (hx.notMem hu)).1 h with ha | hrest
  · exact Or.inl ha
  · rcases (infix_append_cons (hy.notMem hu)).1 hrest with hm' | hb
    · exact absurd hu (hm u hm')
    · exact Or.inr hb

/-- After the substitution nothing matches. -/
theorem not_infix_substitute (hps : ¬ Matches ps []) (hr : Separates ps r) (hu : Matches ps u) :
    ¬ u <:+: substitute ps r l := by
  have hnil : ¬ u <:+: [] := fun h => hps (List.infix_nil.1 h ▸ hu)
  induction l using substitute_induction hps with
  | nil =>
      exact hnil
  | keep c l hnone ih =>
      rw [substitute_of_none hnone]
      obtain ⟨g, w, hsub, hg, hw⟩ := exists_gap (r := r) hps l
      intro h
      have hgap : ¬ u <:+: c :: g := by
        intro hcg
        rcases List.infix_cons_iff.1 hcg with hfront | hpart
        · -- a match that begins at the letter would have been found there
          exact matchLength_eq_none hnone
            (hfront.trans (List.cons_prefix_cons.2 ⟨rfl, hg⟩)) hu
        · exact ih (hsub ▸ List.infix_append_of_infix_left hpart)
      rw [hsub, ← List.cons_append] at h
      rcases hw with rfl | ⟨w', rfl⟩
      · rw [List.append_nil] at h
        exact hgap h
      · rcases hr _ _ _ hu h with hcg | hw'
        · exact hgap hcg
        · rw [hsub] at ih
          exact ih (List.infix_append_of_infix_right (List.infix_append_of_infix_right hw'))
  | replace v w hne _ hmatch ih =>
      rw [substitute_of_match hne hmatch]
      intro h
      rcases hr [] _ _ hu h with hempty | hw
      · exact hnil hempty
      · exact ih hw

end Substituting

end Substitution

end Foundations
