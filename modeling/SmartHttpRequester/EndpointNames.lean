import SmartHttpRequester.Foundations.Substitution

/-!
# Endpoint names

`get_endpoint_name` of `services/metrics.py` makes a metrics label of a path: it
replaces UUIDs, and then numbers that stand between two slashes.  The second
substitution takes both slashes, so that it finds no number at either end of the
path, and of numbers that follow each other only every second one.

`normalised_iff`: the names of two paths are free of identifiers and stable,
and agree if the paths differ in identifiers only, exactly if every number of
either path stands inside it with no number beside it.
-/

namespace SmartHttpRequester

open Foundations

section EndpointNames

section Digits

/-- The zeros of the decimal digits (`Nd`) of Unicode 16; nine more digits follow each. -/
def decimalZeros : List Nat :=
  [0x30, 0x660, 0x6f0, 0x7c0, 0x966, 0x9e6, 0xa66, 0xae6, 0xb66, 0xbe6, 0xc66, 0xce6, 0xd66,
    0xde6, 0xe50, 0xed0, 0xf20, 0x1040, 0x1090, 0x17e0, 0x1810, 0x1946, 0x19d0, 0x1a80, 0x1a90,
    0x1b50, 0x1bb0, 0x1c40, 0x1c50, 0xa620, 0xa8d0, 0xa900, 0xa9d0, 0xa9f0, 0xaa50, 0xabf0,
    0xff10, 0x104a0, 0x10d30, 0x10d40, 0x11066, 0x110f0, 0x11136, 0x111d0, 0x112f0, 0x11450,
    0x114d0, 0x11650, 0x116c0, 0x116d0, 0x116da, 0x11730, 0x118e0, 0x11950, 0x11bf0, 0x11c50,
    0x11d50, 0x11da0, 0x11f50, 0x16130, 0x16a60, 0x16ac0, 0x16b50, 0x16d70, 0x1ccf0, 0x1d7ce,
    0x1d7d8, 0x1d7e2, 0x1d7ec, 0x1d7f6, 0x1e140, 0x1e2f0, 0x1e4f0, 0x1e5f1, 0x1e950, 0x1fbf0]

/-- The value of a decimal digit. -/
def decimalValue? (c : Char) : Option Nat :=
  (decimalZeros.find? fun z => z ≤ c.toNat && c.toNat < z + 10).map (c.toNat - ·)

/-- `\d`, which matches the decimal digits of every script. -/
def isDecimal (c : Char) : Bool :=
  (decimalValue? c).isSome

/-- `[0-9a-f]` under `re.IGNORECASE`. -/
def isHexDigit (c : Char) : Bool :=
  ('0' ≤ c && c ≤ '9') || ('a' ≤ c && c ≤ 'f') || ('A' ≤ c && c ≤ 'F')

end Digits

/-- `p{n}`. -/
def times (n : Nat) (p : Char → Bool) : List (Piece Char) :=
  List.replicate n (.one p)

/-- `[0-9a-f]{8}-[0-9a-f]{4}-[0-9a-f]{4}-[0-9a-f]{4}-[0-9a-f]{12}`. -/
def uuidPattern : List (Piece Char) :=
  times 8 isHexDigit ++ times 1 (· == '-') ++ times 4 isHexDigit ++ times 1 (· == '-') ++
    times 4 isHexDigit ++ times 1 (· == '-') ++ times 4 isHexDigit ++ times 1 (· == '-') ++
    times 12 isHexDigit

/-- `/\d+/`. -/
def numberPattern : List (Piece Char) :=
  [.one (· == '/'), .one isDecimal, .star isDecimal, .one (· == '/')]

/-- `{id}`. -/
def placeholder : List Char :=
  ['{', 'i', 'd', '}']

/-- `get_endpoint_name`. -/
def getEndpointName (path : String) : String :=
  let endpoint := substitute uuidPattern placeholder path.toList
  String.ofList (substitute numberPattern ('/' :: placeholder ++ ['/']) endpoint)

/-- A hyphenated UUID. -/
def IsUuid (s : List Char) : Prop :=
  Matches uuidPattern s

/-- Nothing but digits. -/
def IsNumber (s : List Char) : Prop :=
  s ≠ [] ∧ ∀ c ∈ s, isDecimal c = true

instance (s : List Char) : Decidable (IsNumber s) :=
  decidable_of_iff (s ≠ [] ∧ s.all isDecimal = true) (by simp [IsNumber])

def IsIdentifier (s : List Char) : Prop :=
  IsUuid s ∨ IsNumber s

def segments (path : String) : List (List Char) :=
  path.toList.splitOn '/'

/-- The name of the path is free of identifiers, and its own name. -/
structure Normalised (path : String) : Prop where
  noUuid : ∀ u, IsUuid u → ¬ u <:+: (getEndpointName path).toList
  noNumber : ∀ s ∈ segments (getEndpointName path), ¬ IsNumber s
  stable : getEndpointName (getEndpointName path) = getEndpointName path

/-- Segment by segment, the paths are equal or have identifiers. -/
def DifferInIdentifiers (path path' : String) : Prop :=
  List.Forall₂ (fun s s' => s = s' ∨ IsIdentifier s ∧ IsIdentifier s')
    (segments path) (segments path')

/-- Every number of the path stands inside it, with no number beside it. -/
structure SeparatedNumbers (path : String) : Prop where
  first : ∀ s ∈ (segments path).head?, ¬ IsNumber s
  last : ∀ s ∈ (segments path).getLast?, ¬ IsNumber s
  apart : (segments path).IsChain fun s t => ¬ (IsNumber s ∧ IsNumber t)

section Uuids

theorem not_matches_uuid_nil : ¬ Matches uuidPattern [] := by
  intro h
  obtain ⟨c, v, hnil, -⟩ := h
  cases hnil

/-- Each piece of the pattern takes one letter. -/
theorem uuidPattern_ones {piece : Piece Char} (h : piece ∈ uuidPattern) :
    ∃ p, piece = .one p := by
  simp only [uuidPattern, times, List.mem_append, List.mem_replicate] at h
  grind

theorem length_of_isUuid {s : List Char} (h : IsUuid s) : s.length = 36 :=
  length_of_matches (fun _ => uuidPattern_ones) h

/-- What is neither a hexadecimal digit nor a hyphen does not occur in a UUID. -/
theorem uuidPattern_avoids {c : Char} (hhex : isHexDigit c = false) (hhyphen : c ≠ '-') :
    Avoids uuidPattern c := by
  intro piece h
  simp only [uuidPattern, times, List.mem_append, List.mem_replicate] at h
  have hcases : piece = .one isHexDigit ∨ piece = .one (· == '-') := by grind
  rcases hcases with rfl | rfl
  · exact hhex
  · simpa [Piece.takes] using hhyphen

theorem uuidPattern_avoids_slash : Avoids uuidPattern '/' :=
  uuidPattern_avoids (by decide) (by decide)

/-- The placeholder is no part of a UUID. -/
theorem placeholder_separates : Separates uuidPattern placeholder := by
  refine separates_of_ends (x := '{') (y := '}') (m := ['i', 'd'])
    (uuidPattern_avoids (by decide) (by decide)) (uuidPattern_avoids (by decide) (by decide)) ?_
  intro u hu huuid
  have hlength := length_of_isUuid huuid
  have hle := hu.length_le
  simp at hle
  omega

/-- The first substitution, on one segment or on the whole path. -/
def markUuids (s : List Char) : List Char :=
  substitute uuidPattern placeholder s

theorem markUuids_slash (a b : List Char) :
    markUuids (a ++ '/' :: b) = markUuids a ++ '/' :: markUuids b :=
  substitute_append_cons not_matches_uuid_nil uuidPattern_avoids_slash a b

theorem markUuids_of_isUuid {s : List Char} (h : IsUuid s) : markUuids s = placeholder := by
  have hlength := length_of_isUuid h
  refine substitute_of_unique h ?_ fun u hu huuid => ?_
  · rintro rfl
    exact not_matches_uuid_nil h
  · exact hu.eq_of_length ((length_of_isUuid huuid).trans hlength.symm)

theorem not_infix_markUuids {u s : List Char} (hu : IsUuid u) : ¬ u <:+: markUuids s :=
  not_infix_substitute not_matches_uuid_nil placeholder_separates hu

end Uuids

section Numbers

theorem notMem_of_isNumber {s : List Char} (h : IsNumber s) : '/' ∉ s := by
  intro hmem
  exact absurd (h.2 _ hmem) (by decide)

theorem matches_number_iff {u : List Char} :
    Matches numberPattern u ↔ ∃ s, IsNumber s ∧ u = '/' :: (s ++ ['/']) := by
  constructor
  · rintro ⟨c, v, rfl, hc, d, w, rfl, hd, a, x, rfl, ha, e, y, rfl, he, rfl⟩
    obtain rfl : c = '/' := beq_iff_eq.1 hc
    obtain rfl : e = '/' := beq_iff_eq.1 he
    exact ⟨d :: a, ⟨by simp, by simpa [hd] using ha⟩, by simp⟩
  · rintro ⟨s, ⟨hne, hs⟩, rfl⟩
    cases s with
    | nil => exact absurd rfl hne
    | cons d a =>
        exact ⟨'/', _, rfl, rfl, d, _, rfl, hs d (by simp), a, ['/'], rfl,
          fun c hc => hs c (by simp [hc]), '/', [], rfl, rfl, rfl⟩

/-- The segment after a slash is the text up to the next one. -/
theorem segment_unique {s t a b : List Char} (hs : '/' ∉ s) (ht : '/' ∉ t)
    (h : s ++ '/' :: a = t ++ '/' :: b) : s = t := by
  have hsplit := congrArg (List.splitOn '/') h
  rw [List.splitOn_append_cons_self_of_not_mem hs, List.splitOn_append_cons_self_of_not_mem ht]
    at hsplit
  exact (List.cons.inj hsplit).1

/-- The second substitution. -/
def markNumbers (s : List Char) : List Char :=
  substitute numberPattern ('/' :: placeholder ++ ['/']) s

theorem markNumbers_segment {s : List Char} (hs : '/' ∉ s) (l : List Char) :
    markNumbers (s ++ l) = s ++ markNumbers l := by
  induction s with
  | nil =>
      rfl
  | cons c s ih =>
      rw [List.mem_cons, not_or] at hs
      have hc : (c == '/') = false := beq_eq_false_iff_ne.2 (Ne.symm hs.1)
      have hnone : matchLength numberPattern (c :: (s ++ l)) = none := by
        simp [numberPattern, matchLength, hc]
      rw [List.cons_append, List.cons_append, ← ih hs.2]
      exact substitute_of_none hnone

theorem markNumbers_number {s : List Char} (hs : IsNumber s) (l : List Char) :
    markNumbers ('/' :: s ++ '/' :: l) = '/' :: placeholder ++ '/' :: markNumbers l := by
  have hslash := notMem_of_isNumber hs
  have hmatches : Matches numberPattern ('/' :: (s ++ ['/'])) :=
    matches_number_iff.2 ⟨s, hs, rfl⟩
  have hmatch : matchLength numberPattern ('/' :: (s ++ ['/']) ++ l) =
      some ('/' :: (s ++ ['/'])).length := by
    refine matchLength_of_unique hmatches fun u hu hmatches' => ?_
    obtain ⟨t, ht, rfl⟩ := matches_number_iff.1 hmatches'
    obtain ⟨b, hb⟩ := hu
    have htail : t ++ '/' :: b = s ++ '/' :: l := by simpa using hb
    rw [segment_unique (notMem_of_isNumber ht) hslash htail]
  have hsub := substitute_of_match (r := '/' :: placeholder ++ ['/']) (by simp) hmatch
  simpa [markNumbers] using hsub

/-- A slash is kept if no number and no second slash follow. -/
theorem markNumbers_slash {l : List Char} (h : ∀ s b, IsNumber s → l ≠ s ++ '/' :: b) :
    markNumbers ('/' :: l) = '/' :: markNumbers l := by
  refine substitute_of_none ?_
  cases hmatch : matchLength numberPattern ('/' :: l) with
  | none => rfl
  | some n =>
      obtain ⟨u, b, hl, hu, -⟩ := matches_of_matchLength hmatch
      obtain ⟨s, hs, rfl⟩ := matches_number_iff.1 hu
      exact absurd (by simpa using hl) (h s b hs)

/-- A path from its first slash on. -/
def slashed : List (List Char) → List Char
  | [] => []
  | s :: rest => '/' :: s ++ slashed rest

theorem intercalate_eq_slashed (s : List Char) (rest : List (List Char)) :
    ['/'].intercalate (s :: rest) = s ++ slashed rest := by
  induction rest generalizing s with
  | nil =>
      simp [slashed]
  | cons t rest ih =>
      rw [List.intercalate_cons_cons, ih, slashed]
      simp

/-- What the second substitution makes of the segments after a slash. -/
def markSegments : List (List Char) → List (List Char)
  | [] => []
  | [s] => [s]
  | s :: t :: rest =>
      -- the slash before `t` belongs to the number's match, so that `t` is not looked at
      if IsNumber s then placeholder :: t :: markSegments rest
      else s :: markSegments (t :: rest)

theorem markNumbers_slashed {rest : List (List Char)} (hrest : ∀ s ∈ rest, '/' ∉ s) :
    markNumbers (slashed rest) = slashed (markSegments rest) := by
  induction rest using markSegments.induct with
  | case1 =>
      rfl
  | case2 s =>
      have hs := hrest s (by simp)
      have hlast : ∀ t b, IsNumber t → s ++ [] ≠ t ++ '/' :: b := by
        intro t b _ h
        rw [List.append_nil] at h
        exact hs (h ▸ by simp)
      show markNumbers ('/' :: (s ++ [])) = '/' :: (s ++ [])
      rw [markNumbers_slash hlast, markNumbers_segment hs]
      rfl
  | case3 s t rest hnumber ih =>
      rw [markSegments, if_pos hnumber]
      show markNumbers ('/' :: s ++ '/' :: (t ++ slashed rest)) =
        '/' :: placeholder ++ '/' :: (t ++ slashed (markSegments rest))
      rw [markNumbers_number hnumber, markNumbers_segment (hrest t (by simp)),
        ih fun s' hs' => hrest s' (by simp [hs'])]
  | case4 s t rest hnumber ih =>
      have hs := hrest s (by simp)
      have hnot : ∀ s' b, IsNumber s' → s ++ slashed (t :: rest) ≠ s' ++ '/' :: b := by
        intro s' b hs' h
        exact hnumber (segment_unique (notMem_of_isNumber hs') hs h.symm ▸ hs')
      rw [markSegments, if_neg hnumber]
      show markNumbers ('/' :: (s ++ slashed (t :: rest))) =
        '/' :: s ++ slashed (markSegments (t :: rest))
      rw [markNumbers_slash hnot, markNumbers_segment hs,
        ih fun s' hs' => hrest s' (List.mem_cons_of_mem _ hs')]
      rfl

end Numbers

section Segments

theorem notMem_of_mem_splitOn {l s : List Char} (h : s ∈ l.splitOn '/') : '/' ∉ s := by
  induction l generalizing s with
  | nil =>
      rw [List.splitOn_nil, List.mem_singleton] at h
      simp [h]
  | cons c l ih =>
      rw [List.splitOn_cons_eq_if_modifyHead] at h
      split at h
      · rcases List.mem_cons.1 h with rfl | h
        · simp
        · exact ih h
      · rename_i hc
        cases hsplit : l.splitOn '/' with
        | nil => simp [hsplit] at h
        | cons t rest =>
            rw [hsplit, List.modifyHead_cons] at h
            rcases List.mem_cons.1 h with rfl | h
            · have ht := ih (hsplit ▸ List.mem_cons_self ..)
              have hne : '/' ≠ c := fun heq => hc (beq_iff_eq.2 heq.symm)
              simp [ht, hne]
            · exact ih (hsplit ▸ List.mem_cons_of_mem _ h)

theorem intercalate_segments (path : String) :
    ['/'].intercalate (segments path) = path.toList :=
  List.intercalate_splitOn '/'

theorem segments_injective {path path' : String} (h : segments path = segments path') :
    path = path' := by
  rw [← String.toList_inj, ← intercalate_segments, h, intercalate_segments]

theorem not_isNumber_placeholder : ¬ IsNumber placeholder := by
  decide

theorem not_isNumber_of_isUuid {u s : List Char} (hu : IsUuid u) (h : u <:+: s) :
    ¬ IsNumber s := by
  intro hs
  obtain ⟨c, hc, hhyphen⟩ := exists_of_one_mem (p := (· == '-'))
    (by simp [uuidPattern, times]) hu
  obtain rfl : c = '-' := beq_iff_eq.1 hhyphen
  exact absurd (hs.2 _ (h.subset hc)) (by decide)

theorem markUuids_of_isNumber {s : List Char} (h : IsNumber s) : markUuids s = s :=
  substitute_eq_self not_matches_uuid_nil fun _ hpart hu => not_isNumber_of_isUuid hu hpart h

/-- The first substitution neither makes nor takes a number. -/
theorem isNumber_markUuids {s : List Char} : IsNumber (markUuids s) ↔ IsNumber s := by
  constructor
  · intro h
    rcases substitute_eq_self_or_infix not_matches_uuid_nil placeholder s with hself | hpart
    · rwa [markUuids, hself] at h
    · exact absurd (h.2 '{' (hpart.subset (by decide))) (by decide)
  · intro h
    rwa [markUuids_of_isNumber h]

theorem notMem_markUuids {s : List Char} (hs : '/' ∉ s) : '/' ∉ markUuids s := by
  intro h
  rcases mem_substitute not_matches_uuid_nil h with h | h
  · exact hs h
  · exact absurd h (by decide)

theorem markUuids_slashed (s : List Char) (rest : List (List Char)) :
    markUuids (s ++ slashed rest) = markUuids s ++ slashed (rest.map markUuids) := by
  induction rest generalizing s with
  | nil =>
      simp [slashed]
  | cons t rest ih =>
      rw [slashed, List.cons_append, markUuids_slash, ih]
      rfl

theorem mem_markSegments {s : List Char} {rest : List (List Char)} (h : s ∈ markSegments rest) :
    s = placeholder ∨ s ∈ rest := by
  induction rest using markSegments.induct with
  | case1 =>
      cases h
  | case2 t =>
      exact Or.inr h
  | case3 t t' rest hnumber ih =>
      rw [markSegments, if_pos hnumber] at h
      simp only [List.mem_cons] at h ⊢
      tauto
  | case4 t t' rest hnumber ih =>
      rw [markSegments, if_neg hnumber] at h
      simp only [List.mem_cons] at h ih ⊢
      tauto

/-- The segments of the name of a path. -/
def markPath : List (List Char) → List (List Char)
  | [] => []
  | s :: rest => markUuids s :: markSegments (rest.map markUuids)

theorem mem_markPath {t : List Char} {segs : List (List Char)} (h : t ∈ markPath segs) :
    t = placeholder ∨ ∃ s ∈ segs, t = markUuids s := by
  cases segs with
  | nil => cases h
  | cons s rest =>
      rcases List.mem_cons.1 h with rfl | h
      · exact Or.inr ⟨s, by simp, rfl⟩
      · rcases mem_markSegments h with rfl | h
        · exact Or.inl rfl
        · obtain ⟨s', hs', rfl⟩ := List.mem_map.1 h
          exact Or.inr ⟨s', by simp [hs'], rfl⟩

theorem segments_getEndpointName (path : String) :
    segments (getEndpointName path) = markPath (segments path) := by
  have hsegments : ∀ s ∈ segments path, '/' ∉ s := fun s hs => notMem_of_mem_splitOn hs
  have hpath := intercalate_segments path
  have hmarked : ∀ t ∈ markPath (segments path), '/' ∉ t := by
    intro t ht
    rcases mem_markPath ht with rfl | ⟨s, hs, rfl⟩
    · decide
    · exact notMem_markUuids (hsegments s hs)
  cases hsplit : segments path with
  | nil => exact absurd hsplit (List.splitOn_ne_nil _ _)
  | cons s rest =>
      rw [hsplit] at hpath hmarked hsegments
      have hrest : ∀ t ∈ rest.map markUuids, '/' ∉ t := by
        intro t ht
        obtain ⟨s', hs', rfl⟩ := List.mem_map.1 ht
        exact notMem_markUuids (hsegments s' (List.mem_cons_of_mem _ hs'))
      have hname : (getEndpointName path).toList =
          ['/'].intercalate (markPath (s :: rest)) := by
        show (String.ofList (markNumbers (markUuids path.toList))).toList = _
        rw [String.toList_ofList, ← hpath, intercalate_eq_slashed, markUuids_slashed,
          markNumbers_segment (notMem_markUuids (hsegments s (List.mem_cons_self ..))),
          markNumbers_slashed hrest, markPath, intercalate_eq_slashed]
      rw [segments, hname]
      exact List.splitOn_intercalate '/' hmarked (by simp [markPath])

end Segments

section Names

/-- The segments after the first slash: no two numbers in a row, and none at the end. -/
def NumbersApart (rest : List (List Char)) : Prop :=
  (∀ s ∈ rest.getLast?, ¬ IsNumber s) ∧ rest.IsChain fun s t => ¬ (IsNumber s ∧ IsNumber t)

theorem numbersApart_cons_cons {s t : List Char} {rest : List (List Char)} :
    NumbersApart (s :: t :: rest) ↔ ¬ (IsNumber s ∧ IsNumber t) ∧ NumbersApart (t :: rest) := by
  rw [NumbersApart, NumbersApart, List.getLast?_cons_cons, List.isChain_cons_cons]
  tauto

theorem numbersApart_cons {t : List Char} {rest : List (List Char)} (ht : ¬ IsNumber t) :
    NumbersApart (t :: rest) ↔ NumbersApart rest := by
  cases rest with
  | nil => simp [NumbersApart, ht]
  | cons s rest => exact numbersApart_cons_cons.trans (and_iff_right fun h => ht h.1)

/-- No number is left exactly if the numbers stand apart. -/
theorem markSegments_noNumber_iff (rest : List (List Char)) :
    (∀ s ∈ markSegments rest, ¬ IsNumber s) ↔ NumbersApart rest := by
  induction rest using markSegments.induct with
  | case1 =>
      simp [markSegments, NumbersApart]
  | case2 s =>
      simp [markSegments, NumbersApart]
  | case3 s t rest hnumber ih =>
      rw [markSegments, if_pos hnumber, numbersApart_cons_cons]
      simp only [List.mem_cons, forall_eq_or_imp, ih]
      constructor
      · rintro ⟨-, ht, hrest⟩
        exact ⟨fun h => ht h.2, (numbersApart_cons ht).2 hrest⟩
      · rintro ⟨hapart, hrest⟩
        have ht : ¬ IsNumber t := fun h => hapart ⟨hnumber, h⟩
        exact ⟨not_isNumber_placeholder, ht, (numbersApart_cons ht).1 hrest⟩
  | case4 s t rest hnumber ih =>
      rw [markSegments, if_neg hnumber, List.forall_mem_cons, ih, numbersApart_cons hnumber,
        and_iff_right hnumber]

/-- What becomes of a segment with a slash on either side. -/
def nameOf (s : List Char) : List Char :=
  if IsNumber s then placeholder else s

theorem nameOf_of_not_isNumber {s : List Char} (h : ¬ IsNumber s) : nameOf s = s :=
  if_neg h

theorem markSegments_eq_map {rest : List (List Char)} (h : NumbersApart rest) :
    markSegments rest = rest.map nameOf := by
  induction rest using markSegments.induct with
  | case1 =>
      rfl
  | case2 s =>
      have hs : ¬ IsNumber s := h.1 s rfl
      simp [markSegments, nameOf_of_not_isNumber hs]
  | case3 s t rest hnumber ih =>
      obtain ⟨hapart, hrest⟩ := numbersApart_cons_cons.1 h
      have ht : ¬ IsNumber t := fun h => hapart ⟨hnumber, h⟩
      rw [markSegments, if_pos hnumber, ih ((numbersApart_cons ht).1 hrest), List.map_cons,
        List.map_cons, nameOf_of_not_isNumber ht, nameOf, if_pos hnumber]
  | case4 s t rest hnumber ih =>
      rw [markSegments, if_neg hnumber, ih (numbersApart_cons_cons.1 h).2]
      show s :: (t :: rest).map nameOf = nameOf s :: (t :: rest).map nameOf
      rw [nameOf_of_not_isNumber hnumber]

theorem markSegments_eq_self {rest : List (List Char)} (h : ∀ s ∈ rest, ¬ IsNumber s) :
    markSegments rest = rest := by
  induction rest using markSegments.induct with
  | case1 =>
      rfl
  | case2 s =>
      rfl
  | case3 s t rest hnumber ih =>
      exact absurd hnumber (h s (by simp))
  | case4 s t rest hnumber ih =>
      rw [markSegments, if_neg hnumber, ih fun s' hs' => h s' (List.mem_cons_of_mem _ hs')]

theorem numbersApart_map_markUuids {rest : List (List Char)} :
    NumbersApart (rest.map markUuids) ↔ NumbersApart rest := by
  induction rest with
  | nil =>
      rfl
  | cons s rest ih =>
      cases rest with
      | nil => simp [NumbersApart, isNumber_markUuids]
      | cons t rest =>
          rw [List.map_cons] at ih ⊢
          rw [List.map_cons, numbersApart_cons_cons, numbersApart_cons_cons, ih,
            isNumber_markUuids, isNumber_markUuids]

/-- The numbers of all segments stand apart, and the first is none. -/
theorem separatedNumbers_iff {path : String} {s : List Char} {rest : List (List Char)}
    (hsplit : segments path = s :: rest) :
    SeparatedNumbers path ↔ ¬ IsNumber s ∧ NumbersApart rest := by
  constructor
  · intro h
    have hs : ¬ IsNumber s := h.first s (by simp [hsplit])
    refine ⟨hs, (numbersApart_cons hs).1 ⟨fun t ht => h.last t ?_, ?_⟩⟩
    · rwa [hsplit]
    · rw [← hsplit]
      exact h.apart
  · rintro ⟨hs, hrest⟩
    have hall := (numbersApart_cons hs).2 hrest
    refine ⟨fun t ht => ?_, ?_, ?_⟩
    · rw [hsplit] at ht
      rwa [← Option.some.inj ht]
    · rw [hsplit]
      exact hall.1
    · rw [hsplit]
      exact hall.2

theorem noNumber_iff (path : String) :
    (∀ s ∈ segments (getEndpointName path), ¬ IsNumber s) ↔ SeparatedNumbers path := by
  rw [segments_getEndpointName]
  cases hsplit : segments path with
  | nil => exact absurd hsplit (List.splitOn_ne_nil _ _)
  | cons s rest =>
      rw [separatedNumbers_iff hsplit, markPath, List.forall_mem_cons, isNumber_markUuids,
        markSegments_noNumber_iff, numbersApart_map_markUuids]

theorem infix_slashed {u : List Char} (hu : '/' ∉ u) {rest : List (List Char)}
    (h : u <:+: slashed rest) : u = [] ∨ ∃ s ∈ rest, u <:+: s := by
  induction rest with
  | nil =>
      exact Or.inl (List.infix_nil.1 h)
  | cons s rest ih =>
      have hcases : u <:+: [] ∨ u <:+: s ++ slashed rest := (infix_append_cons hu).1 h
      rcases hcases with hnil | h
      · exact Or.inl (List.infix_nil.1 hnil)
      · cases rest with
        | nil =>
            rw [slashed, List.append_nil] at h
            exact Or.inr ⟨s, by simp, h⟩
        | cons t rest =>
            have hcases : u <:+: s ∨ u <:+: t ++ slashed rest := (infix_append_cons hu).1 h
            rcases hcases with hs | hrest
            · exact Or.inr ⟨s, by simp, hs⟩
            · have hslashed : u <:+: slashed (t :: rest) := List.infix_cons hrest
              rcases ih hslashed with hnil | ⟨s', hs', hpart⟩
              · exact Or.inl hnil
              · exact Or.inr ⟨s', List.mem_cons_of_mem _ hs', hpart⟩

/-- A UUID in a path stands in one of its segments. -/
theorem IsUuid.infix_segment {u : List Char} (hu : IsUuid u) {path : String}
    (h : u <:+: path.toList) : ∃ s ∈ segments path, u <:+: s := by
  have hslash : '/' ∉ u := uuidPattern_avoids_slash.notMem hu
  have hpath := intercalate_segments path
  cases hsplit : segments path with
  | nil => exact absurd hsplit (List.splitOn_ne_nil _ _)
  | cons s rest =>
      rw [hsplit, intercalate_eq_slashed] at hpath
      have hslashed : u <:+: slashed (s :: rest) := by
        rw [slashed, List.cons_append, hpath]
        exact List.infix_cons h
      rcases infix_slashed hslash hslashed with rfl | hsegment
      · exact absurd hu not_matches_uuid_nil
      · exact hsegment

/-- Whatever the path, its name has no UUID. -/
theorem noUuid (path : String) {u : List Char} (hu : IsUuid u) :
    ¬ u <:+: (getEndpointName path).toList := by
  intro h
  obtain ⟨t, ht, hpart⟩ := hu.infix_segment h
  rw [segments_getEndpointName] at ht
  rcases mem_markPath ht with rfl | ⟨s, -, rfl⟩
  · have hlength := hpart.length_le
    rw [length_of_isUuid hu] at hlength
    exact absurd hlength (by decide)
  · exact not_infix_markUuids hu hpart

/-- A path without identifiers is its own name. -/
theorem getEndpointName_eq_self {path : String}
    (huuid : ∀ u, IsUuid u → ¬ u <:+: path.toList)
    (hnumber : ∀ s ∈ segments path, ¬ IsNumber s) :
    getEndpointName path = path := by
  have hpath := intercalate_segments path
  cases hsplit : segments path with
  | nil => exact absurd hsplit (List.splitOn_ne_nil _ _)
  | cons s rest =>
      have hslash : ∀ t ∈ s :: rest, '/' ∉ t := fun t ht => notMem_of_mem_splitOn (hsplit ▸ ht)
      rw [hsplit] at hpath hnumber
      rw [List.forall_mem_cons] at hslash hnumber
      have hmarked : markUuids path.toList = path.toList :=
        substitute_eq_self not_matches_uuid_nil fun u hpart hu => huuid u hu hpart
      rw [← String.toList_inj]
      show (String.ofList (markNumbers (markUuids path.toList))).toList = path.toList
      rw [String.toList_ofList, hmarked, ← hpath, intercalate_eq_slashed,
        markNumbers_segment hslash.1, markNumbers_slashed hslash.2,
        markSegments_eq_self hnumber.2]

/-- The name of a path has no identifiers and is stable exactly if its numbers stand apart. -/
theorem normalised_iff_separatedNumbers (path : String) :
    Normalised path ↔ SeparatedNumbers path := by
  constructor
  · intro h
    exact (noNumber_iff path).1 h.noNumber
  · intro h
    have hnumber := (noNumber_iff path).2 h
    exact ⟨fun u hu => noUuid path hu, hnumber,
      getEndpointName_eq_self (fun u hu => noUuid path hu) hnumber⟩

theorem nameOf_markUuids_of_isIdentifier {s : List Char} (h : IsIdentifier s) :
    nameOf (markUuids s) = placeholder := by
  rcases h with huuid | hnumber
  · rw [markUuids_of_isUuid huuid, nameOf_of_not_isNumber not_isNumber_placeholder]
  · rw [markUuids_of_isNumber hnumber, nameOf, if_pos hnumber]

/-- The name of a path whose numbers stand apart can be given segment by segment. -/
theorem SeparatedNumbers.segments_name {path : String} (h : SeparatedNumbers path) :
    segments (getEndpointName path) = (segments path).map fun s => nameOf (markUuids s) := by
  rw [segments_getEndpointName]
  cases hsplit : segments path with
  | nil => rfl
  | cons s rest =>
      obtain ⟨hs, hrest⟩ := (separatedNumbers_iff hsplit).1 h
      rw [markPath, markSegments_eq_map (numbersApart_map_markUuids.2 hrest), List.map_cons,
        List.map_map, nameOf_of_not_isNumber (isNumber_markUuids.not.2 hs)]
      rfl

/-- Paths whose numbers stand apart have one name if they differ in identifiers only. -/
theorem name_eq_of_differInIdentifiers {path path' : String} (h : SeparatedNumbers path)
    (h' : SeparatedNumbers path') (hdiffer : DifferInIdentifiers path path') :
    getEndpointName path = getEndpointName path' := by
  refine segments_injective ?_
  rw [h.segments_name, h'.segments_name]
  rw [DifferInIdentifiers] at hdiffer
  generalize segments path = segs at hdiffer
  generalize segments path' = segs' at hdiffer
  induction hdiffer with
  | nil =>
      rfl
  | @cons s s' segs segs' hs _ ih =>
      rw [List.map_cons, List.map_cons, ih]
      rcases hs with rfl | ⟨hs, hs'⟩
      · rfl
      · rw [nameOf_markUuids_of_isIdentifier hs, nameOf_markUuids_of_isIdentifier hs']

/--
For any two paths: both names are free of identifiers and stable, and are one
name if the paths differ in identifiers only, if and only if in both paths the
numbers stand inside and apart.
-/
theorem normalised_iff (path path' : String) :
    (Normalised path ∧ Normalised path' ∧
      (DifferInIdentifiers path path' → getEndpointName path = getEndpointName path')) ↔
    SeparatedNumbers path ∧ SeparatedNumbers path' := by
  rw [normalised_iff_separatedNumbers, normalised_iff_separatedNumbers]
  constructor
  · rintro ⟨h, h', -⟩
    exact ⟨h, h'⟩
  · rintro ⟨h, h'⟩
    exact ⟨h, h', name_eq_of_differInIdentifiers h h'⟩

/-- A number at the end is kept, and of two in a row the second is, until the next time. -/
theorem names_keep_numbers :
    getEndpointName "/v1/requests/123" = "/v1/requests/123" ∧
    IsNumber "123".toList ∧
    "123".toList ∈ segments (getEndpointName "/v1/requests/123") ∧
    DifferInIdentifiers "/v1/requests/123" "/v1/requests/124" ∧
    getEndpointName "/v1/requests/123" ≠ getEndpointName "/v1/requests/124" ∧
    getEndpointName "/1/2/" = "/{id}/2/" ∧
    getEndpointName (getEndpointName "/1/2/") = "/{id}/{id}/" ∧
    ¬ Normalised "/v1/requests/123" ∧
    ¬ Normalised "/1/2/" := by
  refine ⟨by decide, by decide, by decide, ?_, by decide, by decide, by decide, fun h => ?_,
    fun h => ?_⟩
  · have hsegments : segments "/v1/requests/123" =
        [[], "v1".toList, "requests".toList, "123".toList] := by
      decide
    have hsegments' : segments "/v1/requests/124" =
        [[], "v1".toList, "requests".toList, "124".toList] := by
      decide
    rw [DifferInIdentifiers, hsegments, hsegments']
    exact .cons (Or.inl rfl) (.cons (Or.inl rfl) (.cons (Or.inl rfl)
      (.cons (Or.inr ⟨Or.inr (by decide), Or.inr (by decide)⟩) .nil)))
  · exact absurd (h.noNumber "123".toList (by decide)) (by decide)
  · exact absurd h.stable (by decide)

end Names

end EndpointNames

end SmartHttpRequester
