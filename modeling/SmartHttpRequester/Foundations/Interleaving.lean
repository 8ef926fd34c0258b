import SmartHttpRequester.Foundations.ProgramTree
import SmartHttpRequester.Foundations.Schedules

/-!
# Interleaved execution of program trees

Any number of participants, each with a program tree of its own, share one
world.  A step lets one participant perform its next operation, lets the
environment act, or abandons a participant that has not ended (its process
died, or its task was cancelled).  All nondeterminism is in the label of a
step, so a schedule is a list of labels and running it is a partial function.

Results:
* `Machine.run_eq`, `Machine.always_iff_stepsMeet`: a run is the run of a schedule
  (`Foundations.Schedules`), with its rules;
* `Machine.invariant_of_run`: what one step preserves, a run preserves;
* `Monitored.step`: a monitor that accepts the programs accepts what they do;
* `Machine.run_erase`: a participant whose operations the others cannot see can
  be deleted from a run.
-/

namespace Foundations

open Function

section Interleaving

/-- How a world answers operations, and what it does on its own. -/
structure Machine (ι C A O R E W : Type) where
  /-- `none` means that the operation is blocked, or the choice impossible. -/
  exec : ι → C → O → W → Option (Except E R × W)
  env : A → W → Option W
  kill : ι → W → W
  /-- The way an abandoned program ends. -/
  killed : E

inductive Label (ι C A : Type) : Type
  | op (i : ι) (c : C)
  | env (a : A)
  | kill (i : ι)

/-- The participant a step belongs to. -/
def Label.actor {ι C A : Type} : Label ι C A → Option ι
  | .op i _ => some i
  | .env _ => none
  | .kill i => some i

/-- The world, what is left of each program, and what each has done so far. -/
structure Config (ι O R E α W : Type) where
  world : W
  prog : ι → Prog O R E α
  hist : ι → List (O × Except E R)

namespace Machine

variable {ι C A O R E α W : Type} [DecidableEq ι]
variable (M : Machine ι C A O R E W)

/-- The configuration in which no program has started. -/
def start (w : W) (p : ι → Prog O R E α) : Config ι O R E α W where
  world := w
  prog := p
  hist := fun _ => []

def step (s : Config ι O R E α W) :
    Label ι C A → Option (Config ι O R E α W)
  | .op i c =>
      match s.prog i with
      | .op o k =>
          (M.exec i c o s.world).map fun rw =>
            { world := rw.2
              prog := update s.prog i (k rw.1)
              hist := update s.hist i (s.hist i ++ [(o, rw.1)]) }
      | _ => none
  | .env a => (M.env a s.world).map fun w => { s with world := w }
  | .kill i =>
      match s.prog i with
      | .op _ _ =>
          some
            { s with
              world := M.kill i s.world
              prog := update s.prog i (.raise M.killed) }
      | _ => none

/-- Run a schedule; `none` if one of its steps is impossible. -/
def run (s : Config ι O R E α W) :
    List (Label ι C A) → Option (Config ι O R E α W)
  | [] => some s
  | l :: ls => (M.step s l).bind fun s' => run s' ls

variable {M}
variable {s s' t : Config ι O R E α W} {l : Label ι C A} {ls ls' : List (Label ι C A)}

/-- Everything a step can be, with its guards. -/
theorem step_cases (h : M.step s l = some s') :
    (∃ i c o k r w,
        l = .op i c ∧
        s.prog i = .op o k ∧
        M.exec i c o s.world = some (r, w) ∧
        s' =
          { world := w
            prog := update s.prog i (k r)
            hist := update s.hist i (s.hist i ++ [(o, r)]) }) ∨
    (∃ a w,
        l = .env a ∧
        M.env a s.world = some w ∧
        s' = { s with world := w }) ∨
    (∃ i o k,
        l = .kill i ∧
        s.prog i = .op o k ∧
        s' =
          { s with
            world := M.kill i s.world
            prog := update s.prog i (.raise M.killed) }) := by
  cases l with
  | op i c =>
      left
      simp only [step] at h
      split at h
      · rename_i o k hp
        obtain ⟨⟨r, w⟩, hexec, rfl⟩ := Option.map_eq_some_iff.1 h
        exact ⟨i, c, o, k, r, w, rfl, hp, hexec, rfl⟩
      · cases h
  | env a =>
      right
      left
      obtain ⟨w, henv, rfl⟩ := Option.map_eq_some_iff.1 h
      exact ⟨a, w, rfl, henv, rfl⟩
  | kill i =>
      right
      right
      simp only [step] at h
      split at h
      · rename_i o k hp
        exact ⟨i, o, k, rfl, hp, (Option.some.inj h).symm⟩
      · cases h

/-- The same, as one participant sees it. -/
theorem step_participant (h : M.step s l = some s') (j : ι) :
    (l.actor ≠ some j ∧ s'.prog j = s.prog j ∧ s'.hist j = s.hist j) ∨
    (∃ c o k r,
        l = .op j c ∧
        s.prog j = .op o k ∧
        M.exec j c o s.world = some (r, s'.world) ∧
        s'.prog j = k r ∧
        s'.hist j = s.hist j ++ [(o, r)]) ∨
    (l = .kill j ∧ s'.prog j = .raise M.killed ∧ s'.hist j = s.hist j) := by
  obtain ⟨i, c, o, k, r, w, rfl, hp, hexec, rfl⟩ | ⟨a, w, rfl, -, rfl⟩ | ⟨i, o, k, rfl, hp, rfl⟩ :=
    step_cases h
  · by_cases hji : j = i
    · subst hji
      exact Or.inr (Or.inl ⟨c, o, k, r, rfl, hp, hexec, by simp, by simp⟩)
    · exact Or.inl ⟨fun hi => hji (Option.some.inj hi).symm, by simp [hji], by simp [hji]⟩
  · exact Or.inl ⟨by simp [Label.actor], rfl, rfl⟩
  · by_cases hji : j = i
    · subst hji
      exact Or.inr (Or.inr ⟨rfl, by simp, rfl⟩)
    · exact Or.inl ⟨fun hi => hji (Option.some.inj hi).symm, by simp [hji], rfl⟩

@[simp] theorem run_nil : M.run s [] = some s := by
  rfl

theorem run_cons_eq_some :
    M.run s (l :: ls) = some t ↔
      ∃ s', M.step s l = some s' ∧ M.run s' ls = some t := by
  simp [run, Option.bind_eq_some_iff]

/-- Running the machine is running its schedule. -/
theorem run_eq : M.run s ls = Schedule.run M.step s ls := by
  induction ls generalizing s with
  | nil =>
      rfl
  | cons l ls ih =>
      simp only [run, Schedule.run, ih]

theorem run_append_eq_some :
    M.run s (ls ++ ls') = some t ↔
      ∃ s', M.run s ls = some s' ∧ M.run s' ls' = some t := by
  simp only [run_eq]
  exact Schedule.run_append_eq_some

theorem exists_of_run_isSome (h : (M.run s (ls ++ l :: ls')).isSome) :
    ∃ s₁ s₂ t, M.run s ls = some s₁ ∧ M.step s₁ l = some s₂ ∧ M.run s₂ ls' = some t := by
  obtain ⟨t, ht⟩ := Option.isSome_iff_exists.1 h
  obtain ⟨s₁, h₁, hrest⟩ := run_append_eq_some.1 ht
  obtain ⟨s₂, h₂, hrest⟩ := run_cons_eq_some.1 hrest
  exact ⟨s₁, s₂, t, h₁, h₂, hrest⟩

/-- A history stays as it was, or grows by the call that its participant makes. -/
theorem step_hist (h : M.step s l = some s') (j : ι) :
    s'.hist j = s.hist j ∨
    (∃ c o k r,
        l = .op j c ∧
        s.prog j = .op o k ∧
        M.exec j c o s.world = some (r, s'.world) ∧
        s'.hist j = s.hist j ++ [(o, r)]) := by
  rcases step_participant h j with ⟨-, -, hhist⟩ | ⟨c, o, k, r, hl, hp, hexec, -, hhist⟩ |
      ⟨-, -, hhist⟩
  · exact Or.inl hhist
  · exact Or.inr ⟨c, o, k, r, hl, hp, hexec, hhist⟩
  · exact Or.inl hhist

/-- The step in which a participant makes its call. -/
theorem step_call {i : ι} {c : C} {o : O} {k : Except E R → Prog O R E α}
    (h : M.step s (.op i c) = some s') (hp : s.prog i = .op o k) :
    ∃ r,
      M.exec i c o s.world = some (r, s'.world) ∧
      s'.prog i = k r ∧
      s'.hist i = s.hist i ++ [(o, r)] := by
  rcases step_participant h i with ⟨hactor, -, -⟩ |
      ⟨c', o', k', r, hl, hp', hexec, hprog, hhist⟩ | ⟨hl, -, -⟩
  · exact absurd rfl hactor
  · cases hl
    rw [hp] at hp'
    cases hp'
    exact ⟨r, hexec, hprog, hhist⟩
  · cases hl

/-- A participant whose next operation is answered can take a step. -/
theorem exists_step {i : ι} {c : C} {o : O} {k : Except E R → Prog O R E α} {r : Except E R}
    {w : W} (hp : s.prog i = .op o k) (hexec : M.exec i c o s.world = some (r, w)) :
    ∃ s', M.step s (.op i c) = some s' := by
  simp [step, hp, hexec]

/-- What every step preserves, every run preserves. -/
theorem invariant_of_run (I : Config ι O R E α W → Prop)
    (hstep : ∀ s l s', I s → M.step s l = some s' → I s')
    (hs : I s) (hrun : M.run s ls = some s') :
    I s' :=
  Schedule.invariant_of_run I hstep hs (run_eq.symm.trans hrun)

/-- What the steps of a kind preserve, a run of such steps preserves. -/
theorem invariant_of_labels (I : Config ι O R E α W → Prop) {P : Label ι C A → Prop}
    (hstep : ∀ s l s', P l → I s → M.step s l = some s' → I s') (hls : ∀ l ∈ ls, P l)
    (hs : I s) (hrun : M.run s ls = some s') :
    I s' := by
  induction ls generalizing s with
  | nil =>
      cases hrun
      exact hs
  | cons l ls ih =>
      obtain ⟨t, ht, hrest⟩ := run_cons_eq_some.1 hrun
      exact ih (fun l' hl' => hls l' (List.mem_cons_of_mem _ hl'))
        (hstep s l t (hls l (List.mem_cons_self ..)) hs ht) hrest

variable (M) in
/-- Every step of the schedule is taken in a state that meets a condition. -/
def StepsMeet (P : Config ι O R E α W → Label ι C A → Prop) :
    Config ι O R E α W → List (Label ι C A) → Prop
  | _, [] => True
  | s, l :: ls => P s l ∧ ∀ s', M.step s l = some s' → StepsMeet P s' ls

/-- A condition that can be evaluated can be evaluated along a run. -/
instance StepsMeet.decidable {P : Config ι O R E α W → Label ι C A → Prop}
    [∀ s l, Decidable (P s l)] :
    ∀ (s : Config ι O R E α W) (ls : List (Label ι C A)), Decidable (M.StepsMeet P s ls)
  | _, [] => isTrue trivial
  | s, l :: ls =>
      match h : M.step s l with
      | none => decidable_of_iff (P s l) (by simp [StepsMeet, h])
      | some s' =>
          have := StepsMeet.decidable (P := P) s' ls
          decidable_of_iff (P s l ∧ M.StepsMeet P s' ls) (by simp [StepsMeet, h])

theorem stepsMeet_iff {P : Config ι O R E α W → Label ι C A → Prop} :
    M.StepsMeet P s ls ↔ Schedule.StepsMeet M.step P s ls := by
  induction ls generalizing s with
  | nil =>
      rfl
  | cons l ls ih =>
      simp only [StepsMeet, Schedule.StepsMeet, ih]

/-- A condition on the steps of a run may be weakened by what holds in all its states. -/
theorem StepsMeet.imp {P Q : Config ι O R E α W → Label ι C A → Prop}
    (I : Config ι O R E α W → Prop) (hI : ∀ s l s', I s → M.step s l = some s' → I s')
    (hPQ : ∀ s l, I s → P s l → Q s l) (hs : I s) (h : M.StepsMeet P s ls) :
    M.StepsMeet Q s ls := by
  induction ls generalizing s with
  | nil =>
      trivial
  | cons l ls ih =>
      obtain ⟨hl, hrest⟩ := h
      exact ⟨hPQ s l hs hl, fun s' hstep => ih (hI s l s' hs hstep) (hrest s' hstep)⟩

variable (M) in
def Always (P : Config ι O R E α W → Prop) (s : Config ι O R E α W)
    (ls : List (Label ι C A)) : Prop :=
  ∀ pre post t, ls = pre ++ post → M.run s pre = some t → P t

theorem always_iff {P : Config ι O R E α W → Prop} :
    M.Always P s ls ↔ Schedule.Always M.step P s ls := by
  simp only [Always, run_eq]
  rfl

theorem always_of_stepsMeet
    {P : Config ι O R E α W → Label ι C A → Prop}
    (I : Config ι O R E α W → Prop)
    (hstep : ∀ s l s', I s → P s l → M.step s l = some s' → I s')
    (hs : I s) (hmeet : M.StepsMeet P s ls) :
    M.Always I s ls :=
  always_iff.2 (Schedule.always_of_stepsMeet I hstep hs (stepsMeet_iff.1 hmeet))

/-- If a step keeps `P` exactly when it meets `Q`, a run keeps `P` exactly when its steps meet `Q`. -/
theorem always_iff_stepsMeet {P : Config ι O R E α W → Prop}
    {Q : Config ι O R E α W → Label ι C A → Prop}
    (I : Config ι O R E α W → Prop) (hI : ∀ s l s', I s → M.step s l = some s' → I s')
    (hiff : ∀ s l s', I s → P s → M.step s l = some s' → (P s' ↔ Q s l))
    (hs : I s) (hP : P s) (hrun : M.run s ls = some t) :
    M.Always P s ls ↔ M.StepsMeet Q s ls := by
  rw [always_iff, stepsMeet_iff]
  exact Schedule.always_iff_stepsMeet I hI hiff hs hP (run_eq.symm.trans hrun)

theorem Always.mono {P Q : Config ι O R E α W → Prop}
    (h : M.Always P s ls) (hPQ : ∀ t, P t → Q t) :
    M.Always Q s ls :=
  fun pre post t hls ht => hPQ t (h pre post t hls ht)

/-- A condition on the steps of a run, checked step by step. -/
theorem stepsMeet_of_run {P : Config ι O R E α W → Label ι C A → Prop}
    (hrun : M.run s ls = some s')
    (h : ∀ pre l post t t', ls = pre ++ l :: post →
      M.run s pre = some t → M.step t l = some t' → P t l) :
    M.StepsMeet P s ls := by
  refine stepsMeet_iff.2 (Schedule.stepsMeet_iff.2 fun pre l post t hls ht => ?_)
  rw [hls] at hrun
  obtain ⟨t₁, ht₁, hrest⟩ := run_append_eq_some.1 hrun
  obtain ⟨t', ht', -⟩ := run_cons_eq_some.1 hrest
  have hpre : M.run s pre = some t := run_eq.trans ht
  rw [hpre] at ht₁
  cases ht₁
  exact h pre l post t t' hls hpre ht'

/-- Nothing a participant has done is ever forgotten. -/
theorem hist_prefix_of_step (h : M.step s l = some s') (i : ι) :
    s.hist i <+: s'.hist i := by
  obtain ⟨j, c, o, k, r, w, -, -, -, rfl⟩ | ⟨a, w, -, -, rfl⟩ | ⟨j, o, k, -, -, rfl⟩ :=
    step_cases h
  · by_cases hij : i = j
    · subst hij
      simp
    · simp [hij]
  · exact List.prefix_rfl
  · exact List.prefix_rfl

theorem hist_prefix_of_run (h : M.run s ls = some s') (i : ι) :
    s.hist i <+: s'.hist i := by
  induction ls generalizing s with
  | nil =>
      cases h
      exact List.prefix_rfl
  | cons l ls ih =>
      obtain ⟨s₁, h₁, hrest⟩ := run_cons_eq_some.1 h
      exact (hist_prefix_of_step h₁ i).trans (ih hrest)

end Machine

section Monitored

variable {ι C A O R E α W G : Type}

/-- Each program is abandoned or, from where it stands, accepted by its monitor. -/
def Monitored (m : ι → Prog.Monitor O R E G) (g : ι → G)
    (Q : ι → Except E α → G → Prop) (killed : E) (s : Config ι O R E α W) : Prop :=
  ∀ i, s.prog i = .raise killed ∨
    (s.prog i).wp (m i) (Q i) ((m i).after (g i) (s.hist i))

variable {m : ι → Prog.Monitor O R E G} {g : ι → G} {Q : ι → Except E α → G → Prop}
variable {M : Machine ι C A O R E W} {s s' : Config ι O R E α W} {killed : E}

theorem Monitored.start {w : W} {p : ι → Prog O R E α}
    (h : ∀ i, (p i).wp (m i) (Q i) (g i)) :
    Monitored m g Q killed (Machine.start w p) :=
  fun i => Or.inr (h i)

theorem Monitored.of_op (h : Monitored m g Q killed s) {i : ι} {o : O}
    {k : Except E R → Prog O R E α} (hp : s.prog i = .op o k) :
    (Prog.op o k).wp (m i) (Q i) ((m i).after (g i) (s.hist i)) := by
  rcases h i with hi | hi
  · rw [hp] at hi
    cases hi
  · rwa [hp] at hi

theorem Monitored.allows (h : Monitored m g Q killed s) {i : ι} {o : O}
    {k : Except E R → Prog O R E α} (hp : s.prog i = .op o k) :
    (m i).allows ((m i).after (g i) (s.hist i)) o :=
  (h.of_op hp).1

/-- A program that has ended on its own has ended as its postcondition says. -/
theorem Monitored.outcome (h : Monitored m g Q killed s) {i : ι} {r : Except E α}
    (hr : (s.prog i).outcome? = some r) :
    r = .error killed ∨ Q i r ((m i).after (g i) (s.hist i)) := by
  rcases h i with hi | hi
  · rw [hi] at hr
    exact Or.inl (Option.some.inj hr).symm
  · right
    cases hp : s.prog i with
    | ret a =>
        rw [hp] at hr hi
        cases hr
        exact hi
    | raise e =>
        rw [hp] at hr hi
        cases hr
        exact hi
    | op o k =>
        rw [hp] at hr
        cases hr

/-- The machine answers only as the monitors expect. -/
def Machine.Meets (M : Machine ι C A O R E W) (m : ι → Prog.Monitor O R E G) : Prop :=
  ∀ i c o w r w', M.exec i c o w = some (r, w') → (m i).expects o r

/-- The rest of a program is accepted from the ghost state after its call. -/
theorem Monitored.after_call
    (hmeets : M.Meets m) (h : Monitored m g Q M.killed s) {i : ι} {c : C} {o : O}
    {k : Except E R → Prog O R E α} {r : Except E R} {w : W}
    (hp : s.prog i = .op o k) (hexec : M.exec i c o s.world = some (r, w)) :
    (k r).wp (m i) (Q i) ((m i).next ((m i).after (g i) (s.hist i)) o r) :=
  (h.of_op hp).2 r (hmeets i c o s.world r w hexec)

variable [DecidableEq ι]

theorem Monitored.step {l : Label ι C A}
    (hmeets : M.Meets m) (h : Monitored m g Q M.killed s) (hstep : M.step s l = some s') :
    Monitored m g Q M.killed s' := by
  intro i
  obtain ⟨j, c, o, k, r, w, -, hp, hexec, rfl⟩ | ⟨a, w, -, -, rfl⟩ | ⟨j, o, k, -, -, rfl⟩ :=
    Machine.step_cases hstep
  · by_cases hij : i = j
    · subst hij
      simpa using Or.inr (h.after_call hmeets hp hexec)
    · simpa [hij] using h i
  · exact h i
  · by_cases hij : i = j
    · subst hij
      exact Or.inl (by simp)
    · simpa [hij] using h i

end Monitored

section Erasure

variable {ι C A O R E α W : Type} [DecidableEq ι]
variable {M : Machine ι C A O R E W}

/-- The steps of a schedule that are not participant `i`'s. -/
def withoutActor (i : ι) (ls : List (Label ι C A)) : List (Label ι C A) :=
  ls.filter fun l => l.actor ≠ some i

/-- The operations participant `i` performs in a run all satisfy `q`. -/
def Performs (i : ι) (q : O → Prop) (s : Config ι O R E α W) (l : Label ι C A) : Prop :=
  ∀ c, l = .op i c → ∀ o k, s.prog i = .op o k → q o

theorem stepsMeet_performs_of_hist {i : ι} {q : O → Prop}
    {s s' : Config ι O R E α W} {ls : List (Label ι C A)}
    (hrun : M.run s ls = some s') (hq : ∀ e ∈ s'.hist i, q e.1) :
    M.StepsMeet (Performs i q) s ls := by
  induction ls generalizing s with
  | nil =>
      trivial
  | cons l ls ih =>
      obtain ⟨s₁, h₁, hrest⟩ := Machine.run_cons_eq_some.1 hrun
      refine ⟨?_, fun s₂ h₂ => ?_⟩
      · rintro c rfl o k hp
        obtain ⟨j, c', o', k', r, w, hl, hp', -, rfl⟩ | ⟨a, w, hl, -, -⟩ | ⟨j, o', k', hl, -, -⟩ :=
          Machine.step_cases h₁
        · cases hl
          rw [hp] at hp'
          cases hp'
          have hmem : (o, r) ∈ s'.hist i :=
            (Machine.hist_prefix_of_run hrest i).subset (by simp)
          exact hq _ hmem
        · cases hl
        · cases hl
      · rw [h₁] at h₂
        cases h₂
        exact ih hrest

/-- Equal but for participant `i`, whose traces in the world `Sim` hides. -/
structure SameBut (i : ι) (Sim : W → W → Prop) (s t : Config ι O R E α W) : Prop where
  world : Sim s.world t.world
  prog : ∀ j, j ≠ i → s.prog j = t.prog j
  hist : ∀ j, j ≠ i → s.hist j = t.hist j

/-- What a world must satisfy for participant `i` to be deletable from runs in
which its operations satisfy `q`. -/
structure Hides (M : Machine ι C A O R E W) (i : ι) (q : O → Prop)
    (Sim : W → W → Prop) : Prop where
  self : ∀ {c o w w' r v}, Sim w v → q o → M.exec i c o w = some (r, w') → Sim w' v
  other : ∀ {j c o w w' r v}, j ≠ i → Sim w v → M.exec j c o w = some (r, w') →
    ∃ v', M.exec j c o v = some (r, v') ∧ Sim w' v'
  env : ∀ {a w w' v}, Sim w v → M.env a w = some w' →
    ∃ v', M.env a v = some v' ∧ Sim w' v'
  killSelf : ∀ {w v}, Sim w v → Sim (M.kill i w) v
  killOther : ∀ {j w v}, j ≠ i → Sim w v → Sim (M.kill j w) (M.kill j v)

theorem SameBut.step_self {i : ι} {q : O → Prop} {Sim : W → W → Prop}
    (hides : Hides M i q Sim)
    {s s' t : Config ι O R E α W} {l : Label ι C A}
    (hsim : SameBut i Sim s t) (hl : l.actor = some i) (hq : Performs i q s l)
    (hstep : M.step s l = some s') :
    SameBut i Sim s' t := by
  obtain ⟨j, c, o, k, r, w, rfl, hp, hexec, rfl⟩ | ⟨a, w, rfl, -, -⟩ | ⟨j, o, k, rfl, -, rfl⟩ :=
    Machine.step_cases hstep
  · cases hl
    have hqo : q o := hq c rfl o k hp
    exact
      { world := hides.self hsim.world hqo hexec
        prog := fun j hj => by simpa [hj] using hsim.prog j hj
        hist := fun j hj => by simpa [hj] using hsim.hist j hj }
  · cases hl
  · cases hl
    exact
      { world := hides.killSelf hsim.world
        prog := fun j hj => by simpa [hj] using hsim.prog j hj
        hist := hsim.hist }

theorem SameBut.step_other {i : ι} {q : O → Prop} {Sim : W → W → Prop}
    (hides : Hides M i q Sim)
    {s s' t : Config ι O R E α W} {l : Label ι C A}
    (hsim : SameBut i Sim s t) (hl : l.actor ≠ some i)
    (hstep : M.step s l = some s') :
    ∃ t', M.step t l = some t' ∧ SameBut i Sim s' t' := by
  obtain ⟨j, c, o, k, r, w, rfl, hp, hexec, rfl⟩ | ⟨a, w, rfl, henv, rfl⟩ |
      ⟨j, o, k, rfl, hp, rfl⟩ :=
    Machine.step_cases hstep
  · have hj : j ≠ i := fun h => hl (congrArg some h)
    obtain ⟨v', hexec', hsim'⟩ := hides.other hj hsim.world hexec
    have hpt : t.prog j = .op o k := (hsim.prog j hj).symm.trans hp
    refine ⟨{ world := v'
              prog := update t.prog j (k r)
              hist := update t.hist j (t.hist j ++ [(o, r)]) }, ?_, hsim', ?_, ?_⟩
    · simp [Machine.step, hpt, hexec']
    · intro j' hj'
      by_cases hjj : j' = j
      · subst hjj
        simp
      · simpa [hjj] using hsim.prog j' hj'
    · intro j' hj'
      by_cases hjj : j' = j
      · subst hjj
        simp [hsim.hist j' hj']
      · simpa [hjj] using hsim.hist j' hj'
  · obtain ⟨v', henv', hsim'⟩ := hides.env hsim.world henv
    exact ⟨{ t with world := v' }, by simp [Machine.step, henv'],
      hsim', hsim.prog, hsim.hist⟩
  · have hj : j ≠ i := fun h => hl (congrArg some h)
    have hpt : t.prog j = .op o k := (hsim.prog j hj).symm.trans hp
    refine ⟨{ t with
              world := M.kill j t.world
              prog := update t.prog j (.raise M.killed) }, ?_,
      hides.killOther hj hsim.world, ?_, hsim.hist⟩
    · simp [Machine.step, hpt]
    · intro j' hj'
      by_cases hjj : j' = j
      · subst hjj
        simp
      · simpa [hjj] using hsim.prog j' hj'

/-- Deleting the steps of a hidden participant leaves a run of the others. -/
theorem Machine.run_erase {i : ι} {q : O → Prop} {Sim : W → W → Prop}
    (hides : Hides M i q Sim)
    {s s' t : Config ι O R E α W} {ls : List (Label ι C A)}
    (hsim : SameBut i Sim s t) (hq : M.StepsMeet (Performs i q) s ls)
    (hrun : M.run s ls = some s') :
    ∃ t', M.run t (withoutActor i ls) = some t' ∧ SameBut i Sim s' t' := by
  induction ls generalizing s t with
  | nil =>
      cases hrun
      exact ⟨t, rfl, hsim⟩
  | cons l ls ih =>
      obtain ⟨s₁, h₁, hrest⟩ := Machine.run_cons_eq_some.1 hrun
      by_cases hl : l.actor = some i
      · have hsim₁ := hsim.step_self hides hl hq.1 h₁
        obtain ⟨t', ht', hsim'⟩ := ih hsim₁ (hq.2 s₁ h₁) hrest
        refine ⟨t', ?_, hsim'⟩
        simpa [withoutActor, hl] using ht'
      · obtain ⟨t₁, ht₁, hsim₁⟩ := hsim.step_other hides hl h₁
        obtain ⟨t', ht', hsim'⟩ := ih hsim₁ (hq.2 s₁ h₁) hrest
        refine ⟨t', ?_, hsim'⟩
        have hkeep : withoutActor i (l :: ls) = l :: withoutActor i ls := by
          simp [withoutActor, hl]
        rw [hkeep]
        exact Machine.run_cons_eq_some.2 ⟨t₁, ht₁, ht'⟩

end Erasure

end Interleaving

end Foundations
