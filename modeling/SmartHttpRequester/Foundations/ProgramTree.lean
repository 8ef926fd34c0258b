import Mathlib.Tactic

/-!
# Program trees and monitors

A program that works against an environment is a tree: it ends with a value,
ends with an exception, or performs one operation and continues with whatever
the environment answers.  Nothing is assumed about the answers; which of them
can occur is decided by the machine that executes the tree
(`Foundations.Interleaving`).

A monitor is a ghost automaton that watches the operations of a program and
their replies, and says which replies it expects.  The weakest precondition
`Prog.wp` says that no branch of the tree performs an operation the monitor
forbids, and that every way the tree can end satisfies a postcondition.  All
composite control flow (sequencing, catching, finally) is one combinator,
`Prog.handle`, so that one rule covers it.

`Prog.eval` runs a tree alone in one environment, and `Prog.Achieves` says that
it ends and how, for all worlds with the same view.
-/

namespace Foundations

section ProgramTree

/--
A program over operations `O`, replies `R` and exceptions `E`.
-/
inductive Prog (O R E α : Type) : Type
  | ret (a : α)
  | raise (e : E)
  | op (o : O) (k : Except E R → Prog O R E α)

namespace Prog

variable {O R E α β γ : Type}

/-- Continue from either way a program can end. -/
def handle :
    Prog O R E α → (Except E α → Prog O R E β) → Prog O R E β
  | ret a, h => h (.ok a)
  | raise e, h => h (.error e)
  | op o k, h => op o fun r => (k r).handle h

def ofExcept : Except E α → Prog O R E α
  | .ok a => ret a
  | .error e => raise e

/-- Perform one operation; an error reply is raised. -/
def perform (o : O) : Prog O R E R :=
  op o ofExcept

def effect (o : O) : Prog O R E Unit :=
  op o fun
    | .ok _ => ret ()
    | .error e => raise e

/-- What follows a statement: the rest of the block, or the exception again. -/
def andThen (f : α → Prog O R E β) : Except E α → Prog O R E β
  | .ok a => f a
  | .error e => raise e

instance : Monad (Prog O R E) where
  pure := ret
  bind p f := p.handle (andThen f)

/-- `try p except e: h e`. -/
def tryCatch (p : Prog O R E α) (h : E → Prog O R E α) :
    Prog O R E α :=
  p.handle fun
    | .ok a => ret a
    | .error e => h e

/-- `try: p finally: f`; an exception of `f` replaces the outcome of `p`. -/
def tryFinally (p : Prog O R E α) (f : Prog O R E Unit) :
    Prog O R E α :=
  p.handle fun r => f.handle (andThen fun _ => ofExcept r)

/-- The operation a program performs next, if it has not ended. -/
def next? : Prog O R E α → Option O
  | op o _ => some o
  | _ => none

theorem exists_op_of_next? {p : Prog O R E α} {o : O} (h : p.next? = some o) :
    ∃ k, p = .op o k := by
  cases p with
  | ret a => cases h
  | raise e => cases h
  | op o' k =>
      cases h
      exact ⟨k, rfl⟩

def outcome? : Prog O R E α → Option (Except E α)
  | ret a => some (.ok a)
  | raise e => some (.error e)
  | op _ _ => none

/-- Ghost automaton watching the operations of one program. -/
structure Monitor (O R E G : Type) where
  allows : G → O → Prop
  expects : O → Except E R → Prop
  next : G → O → Except E R → G

/-- Ghost state after a list of operations and replies. -/
def Monitor.after {G : Type}
    (m : Monitor O R E G) (g : G) (hist : List (O × Except E R)) : G :=
  hist.foldl (fun g e => m.next g e.1 e.2) g

@[simp] theorem Monitor.after_snoc {G : Type}
    (m : Monitor O R E G) (g : G)
    (hist : List (O × Except E R)) (o : O) (r : Except E R) :
    m.after g (hist ++ [(o, r)]) = m.next (m.after g hist) o r := by
  simp [after, List.foldl_append]

/-- Case distinction on the two ways a program can end. -/
def onResult (f : α → Prop) (h : E → Prop) : Except E α → Prop
  | .ok a => f a
  | .error e => h e

@[simp] theorem onResult_ok (f : α → Prop) (h : E → Prop) (a : α) :
    onResult f h (.ok a) ↔ f a := by
  rfl

@[simp] theorem onResult_error (f : α → Prop) (h : E → Prop) (e : E) :
    onResult f h (.error e) ↔ h e := by
  rfl

section Wp

variable {G : Type} (m : Monitor O R E G)

/--
Every branch of the program performs only operations the monitor allows, and
ends in a way and a ghost state that satisfy the postcondition.
-/
def wp : Prog O R E α → (Except E α → G → Prop) → G → Prop
  | ret a, Q, g => Q (.ok a) g
  | raise e, Q, g => Q (.error e) g
  | op o k, Q, g =>
      m.allows g o ∧ ∀ r, m.expects o r → (k r).wp Q (m.next g o r)

@[simp] theorem wp_ret (a : α) (Q : Except E α → G → Prop) (g : G) :
    (ret a : Prog O R E α).wp m Q g ↔ Q (.ok a) g := by
  rfl

@[simp] theorem wp_raise (e : E) (Q : Except E α → G → Prop) (g : G) :
    (raise e : Prog O R E α).wp m Q g ↔ Q (.error e) g := by
  rfl

theorem wp_op (o : O) (k : Except E R → Prog O R E α)
    (Q : Except E α → G → Prop) (g : G) :
    (op o k).wp m Q g ↔
      m.allows g o ∧ ∀ r, m.expects o r → (k r).wp m Q (m.next g o r) := by
  rfl

theorem wp_mono
    {p : Prog O R E α} {Q Q' : Except E α → G → Prop} {g : G}
    (hp : p.wp m Q g) (hQ : ∀ r g', Q r g' → Q' r g') :
    p.wp m Q' g := by
  induction p generalizing g with
  | ret a =>
      exact hQ _ _ hp
  | raise e =>
      exact hQ _ _ hp
  | op o k ih =>
      exact ⟨hp.1, fun r hr => ih r (hp.2 r hr)⟩

/-- A monitor that allows everything accepts every program. -/
theorem wp_of_allows {p : Prog O R E α} {Q : Except E α → G → Prop} {g : G}
    (hallows : ∀ g o, m.allows g o) (hQ : ∀ r g', Q r g') :
    p.wp m Q g := by
  induction p generalizing g with
  | ret a =>
      exact hQ _ _
  | raise e =>
      exact hQ _ _
  | op o k ih =>
      exact ⟨hallows g o, fun r _ => ih r⟩

theorem wp_congr
    {p : Prog O R E α} {Q Q' : Except E α → G → Prop} {g : G}
    (hQ : ∀ r g', Q r g' ↔ Q' r g') :
    p.wp m Q g ↔ p.wp m Q' g :=
  ⟨fun h => wp_mono m h fun r g' => (hQ r g').1,
    fun h => wp_mono m h fun r g' => (hQ r g').2⟩

/-- A program with an unreachable postcondition has not ended. -/
theorem exists_op_of_wp {p : Prog O R E α} {Q : Except E α → G → Prop} {g : G}
    (hp : p.wp m Q g) (hQ : ∀ r, ¬ Q r g) :
    ∃ o k, p = .op o k := by
  cases p with
  | ret a =>
      exact absurd hp (hQ _)
  | raise e =>
      exact absurd hp (hQ _)
  | op o k =>
      exact ⟨o, k, rfl⟩

/-- Along replies that are expected a program comes to an end, later than where it stands. -/
theorem exists_end_of_wp {Later : G → G → Prop} (hrefl : ∀ g, Later g g)
    (htrans : ∀ {a b c}, Later a b → Later b c → Later a c) (hreply : ∀ o, ∃ r, m.expects o r)
    (hnext : ∀ g o r, Later g (m.next g o r))
    {p : Prog O R E α} {Q : Except E α → G → Prop} {g : G} (hp : p.wp m Q g) :
    ∃ r g', Later g g' ∧ Q r g' := by
  induction p generalizing g with
  | ret a =>
      exact ⟨_, g, hrefl g, hp⟩
  | raise e =>
      exact ⟨_, g, hrefl g, hp⟩
  | op o k ih =>
      obtain ⟨r, hr⟩ := hreply o
      obtain ⟨r', g', hg', hQ⟩ := ih r (hp.2 r hr)
      exact ⟨r', g', htrans (hnext g o r) hg', hQ⟩

@[simp] theorem wp_ofExcept (r : Except E α)
    (Q : Except E α → G → Prop) (g : G) :
    (ofExcept r : Prog O R E α).wp m Q g ↔ Q r g := by
  cases r <;> rfl

@[simp] theorem wp_perform (o : O) (Q : Except E R → G → Prop) (g : G) :
    (perform o : Prog O R E R).wp m Q g ↔
      m.allows g o ∧
      (∀ a, m.expects o (.ok a) → Q (.ok a) (m.next g o (.ok a))) ∧
      (∀ e, m.expects o (.error e) → Q (.error e) (m.next g o (.error e))) := by
  constructor
  · intro h
    exact ⟨h.1, fun a => h.2 (.ok a), fun e => h.2 (.error e)⟩
  · rintro ⟨hallow, hok, herr⟩
    refine ⟨hallow, fun r => ?_⟩
    cases r with
    | ok a => exact hok a
    | error e => exact herr e

@[simp] theorem wp_effect (o : O) (Q : Except E Unit → G → Prop) (g : G) :
    (effect o : Prog O R E Unit).wp m Q g ↔
      m.allows g o ∧
      (∀ a, m.expects o (.ok a) → Q (.ok ()) (m.next g o (.ok a))) ∧
      (∀ e, m.expects o (.error e) → Q (.error e) (m.next g o (.error e))) := by
  constructor
  · intro h
    exact ⟨h.1, fun a => h.2 (.ok a), fun e => h.2 (.error e)⟩
  · rintro ⟨hallow, hok, herr⟩
    refine ⟨hallow, fun r => ?_⟩
    cases r with
    | ok a => exact hok a
    | error e => exact herr e

/-- The one rule for composite control flow. -/
@[simp] theorem wp_handle
    (p : Prog O R E α) (h : Except E α → Prog O R E β)
    (Q : Except E β → G → Prop) (g : G) :
    (p.handle h).wp m Q g ↔ p.wp m (fun r g' => (h r).wp m Q g') g := by
  induction p generalizing g with
  | ret a =>
      rfl
  | raise e =>
      rfl
  | op o k ih =>
      simp [handle, wp_op, ih]

@[simp] theorem wp_bind
    (p : Prog O R E α) (f : α → Prog O R E β)
    (Q : Except E β → G → Prop) (g : G) :
    (p >>= f).wp m Q g ↔
      p.wp m
        (fun r g' =>
          onResult (fun a => (f a).wp m Q g') (fun e => Q (.error e) g') r) g := by
  refine (wp_handle m p (andThen f) Q g).trans (wp_congr m fun r g' => ?_)
  cases r <;> rfl

@[simp] theorem wp_pure (a : α) (Q : Except E α → G → Prop) (g : G) :
    (pure a : Prog O R E α).wp m Q g ↔ Q (.ok a) g := by
  rfl

@[simp] theorem wp_tryCatch
    (p : Prog O R E α) (h : E → Prog O R E α)
    (Q : Except E α → G → Prop) (g : G) :
    (p.tryCatch h).wp m Q g ↔
      p.wp m
        (fun r g' =>
          onResult (fun a => Q (.ok a) g') (fun e => (h e).wp m Q g') r) g := by
  refine (wp_handle m p _ Q g).trans (wp_congr m fun r g' => ?_)
  cases r <;> rfl

@[simp] theorem wp_tryFinally
    (p : Prog O R E α) (f : Prog O R E Unit)
    (Q : Except E α → G → Prop) (g : G) :
    (p.tryFinally f).wp m Q g ↔
      p.wp m
        (fun r g' =>
          f.wp m
            (fun r' g'' =>
              onResult (fun _ => Q r g'') (fun e => Q (.error e) g'') r') g') g := by
  refine (wp_handle m p _ Q g).trans (wp_congr m fun r g' => ?_)
  refine (wp_handle m f _ Q g').trans (wp_congr m fun r' g'' => ?_)
  cases r' with
  | ok u => exact wp_ofExcept m r Q g''
  | error e => rfl

end Wp

section Every

variable {P : O → Prop} {p : Prog O R E α}

/-- The monitor that looks at each operation by itself. -/
def eachMonitor (P : O → Prop) : Monitor O R E Unit where
  allows _ := P
  expects _ _ := True
  next _ _ _ := ()

/-- Whatever the replies, every operation the program performs satisfies `P`. -/
def Every (P : O → Prop) (p : Prog O R E α) : Prop :=
  p.wp (eachMonitor P) (fun _ _ => True) ()

theorem every_op {o : O} {k : Except E R → Prog O R E α} :
    (op o k).Every P ↔ P o ∧ ∀ r, (k r).Every P :=
  ⟨fun h => ⟨h.1, fun r => h.2 r trivial⟩, fun h => ⟨h.1, fun r _ => h.2 r⟩⟩

theorem every_ret {a : α} : (ret a : Prog O R E α).Every P :=
  trivial

theorem every_raise {e : E} : (raise e : Prog O R E α).Every P :=
  trivial

theorem every_perform {o : O} : (perform o : Prog O R E R).Every P ↔ P o := by
  simp [Every, eachMonitor]

theorem every_effect {o : O} : (effect o : Prog O R E Unit).Every P ↔ P o := by
  simp [Every, eachMonitor]

theorem Every.mono {Q : O → Prop} (hp : p.Every P) (hPQ : ∀ o, P o → Q o) : p.Every Q := by
  induction p with
  | ret a =>
      exact every_ret
  | raise e =>
      exact every_raise
  | op o k ih =>
      obtain ⟨ho, hk⟩ := every_op.1 hp
      exact every_op.2 ⟨hPQ o ho, fun r => ih r (hk r)⟩

theorem Every.handle {h : Except E α → Prog O R E β} (hp : p.Every P)
    (hh : ∀ r, (h r).Every P) : (p.handle h).Every P :=
  (wp_handle _ p h _ _).2 (wp_mono _ hp fun r _ _ => hh r)

theorem Every.of_handle {h : Except E α → Prog O R E β} (hp : (p.handle h).Every P) :
    p.Every P :=
  wp_mono _ ((wp_handle _ p h _ _).1 hp) fun _ _ _ => trivial

theorem Every.bind {f : α → Prog O R E β} (hp : p.Every P) (hf : ∀ a, (f a).Every P) :
    (p >>= f).Every P :=
  Every.handle hp fun
    | .ok a => hf a
    | .error _ => every_raise

theorem Every.of_bind {f : α → Prog O R E β} (hp : (p >>= f).Every P) : p.Every P :=
  Every.of_handle hp

theorem Every.tryCatch {h : E → Prog O R E α} (hp : p.Every P) (hh : ∀ e, (h e).Every P) :
    (p.tryCatch h).Every P :=
  Every.handle hp fun
    | .ok _ => every_ret
    | .error e => hh e

theorem Every.tryFinally {f : Prog O R E Unit} (hp : p.Every P) (hf : f.Every P) :
    (p.tryFinally f).Every P := by
  refine Every.handle hp fun r => Every.bind hf fun _ => ?_
  cases r with
  | ok a => exact every_ret
  | error e => exact every_raise

end Every

section Eval

variable {W B : Type} (answer : O → W → Option (Except E R × W)) (view : W → B)

/-- Run a program alone; `none` if an operation is blocked. -/
def eval : Prog O R E α → W → Option (Except E α × W)
  | ret a, w => some (.ok a, w)
  | raise e, w => some (.error e, w)
  | op o k, w => (answer o w).bind fun rw => (k rw.1).eval rw.2

theorem eval_handle (p : Prog O R E α) (h : Except E α → Prog O R E β) (w : W) :
    (p.handle h).eval answer w =
      (p.eval answer w).bind fun rw => (h rw.1).eval answer rw.2 := by
  induction p generalizing w with
  | ret a =>
      rfl
  | raise e =>
      rfl
  | op o k ih =>
      simp [handle, eval, ih, Option.bind_assoc]

/-- Environments that agree on the operations of a program run it alike. -/
theorem eval_congr {answer answer' : O → W → Option (Except E R × W)} {p : Prog O R E α}
    (hp : p.Every fun o => answer o = answer' o) (w : W) :
    p.eval answer w = p.eval answer' w := by
  induction p generalizing w with
  | ret a =>
      rfl
  | raise e =>
      rfl
  | op o k ih =>
      obtain ⟨ho, hk⟩ := every_op.1 hp
      simp [eval, ho, fun r => ih r (hk r)]

theorem eval_bind_of_ok {p : Prog O R E α} {f : α → Prog O R E β} {w w' : W} {a : α}
    {answer : O → W → Option (Except E R × W)} (h : p.eval answer w = some (.ok a, w')) :
    (p >>= f).eval answer w = (f a).eval answer w' := by
  refine (eval_handle answer p (andThen f) w).trans ?_
  rw [h]
  rfl

theorem eval_bind_of_error {p : Prog O R E α} {f : α → Prog O R E β} {w w' : W} {e : E}
    {answer : O → W → Option (Except E R × W)} (h : p.eval answer w = some (.error e, w')) :
    (p >>= f).eval answer w = some (.error e, w') := by
  refine (eval_handle answer p (andThen f) w).trans ?_
  rw [h]
  rfl

theorem eval_perform {o : O} {w w' : W} {r : Except E R}
    {answer : O → W → Option (Except E R × W)} (h : answer o w = some (r, w')) :
    (perform o : Prog O R E R).eval answer w = some (r, w') := by
  rw [perform, eval, h]
  cases r <;> rfl

/-- From every world with the view `b` the program ends, as the postcondition says. -/
def Achieves (p : Prog O R E α) (Q : Except E α → B → Prop) (b : B) : Prop :=
  ∀ w, view w = b → ∃ r w', p.eval answer w = some (r, w') ∧ Q r (view w')

variable {answer view} {b : B}

theorem achieves_ret {Q : Except E α → B → Prop} {a : α} (h : Q (.ok a) b) :
    (ret a : Prog O R E α).Achieves answer view Q b := by
  rintro w rfl
  exact ⟨.ok a, w, rfl, h⟩

theorem achieves_raise {Q : Except E α → B → Prop} {e : E} (h : Q (.error e) b) :
    (raise e : Prog O R E α).Achieves answer view Q b := by
  rintro w rfl
  exact ⟨.error e, w, rfl, h⟩

theorem Achieves.mono {p : Prog O R E α} {Q Q' : Except E α → B → Prop}
    (hp : p.Achieves answer view Q b) (hQ : ∀ r b', Q r b' → Q' r b') :
    p.Achieves answer view Q' b := by
  intro w hw
  obtain ⟨r, w', heval, hr⟩ := hp w hw
  exact ⟨r, w', heval, hQ r _ hr⟩

theorem Achieves.handle {p : Prog O R E α} {h : Except E α → Prog O R E β}
    {Q : Except E β → B → Prop}
    (hp : p.Achieves answer view (fun r b' => (h r).Achieves answer view Q b') b) :
    (p.handle h).Achieves answer view Q b := by
  intro w hw
  obtain ⟨r, w', heval, hr⟩ := hp w hw
  obtain ⟨r', w'', heval', hr'⟩ := hr w' rfl
  refine ⟨r', w'', ?_, hr'⟩
  rw [eval_handle, heval]
  exact heval'

/-- An operation that answers in every world with the view. -/
theorem achieves_perform {o : O} {Q : Except E R → B → Prop}
    (h : ∀ w, view w = b → ∃ r w', answer o w = some (r, w') ∧ Q r (view w')) :
    (perform o : Prog O R E R).Achieves answer view Q b := by
  intro w hw
  obtain ⟨r, w', hanswer, hr⟩ := h w hw
  refine ⟨r, w', ?_, hr⟩
  rw [perform, eval, hanswer]
  cases r <;> rfl

theorem achieves_effect {o : O} {Q : Except E Unit → B → Prop}
    (h : ∀ w, view w = b → ∃ a w', answer o w = some (.ok a, w') ∧ Q (.ok ()) (view w')) :
    (effect o : Prog O R E Unit).Achieves answer view Q b := by
  intro w hw
  obtain ⟨a, w', hanswer, hr⟩ := h w hw
  refine ⟨.ok (), w', ?_, hr⟩
  rw [effect, eval, hanswer]
  rfl

theorem Achieves.bind {p : Prog O R E α} {f : α → Prog O R E β} {Q : Except E β → B → Prop}
    (hp : p.Achieves answer view
      (fun r b' => ∃ a, r = .ok a ∧ (f a).Achieves answer view Q b') b) :
    (p >>= f).Achieves answer view Q b := by
  refine Achieves.handle (hp.mono ?_)
  rintro r b' ⟨a, rfl, hf⟩
  exact hf

theorem Achieves.bind_error {p : Prog O R E α} {f : α → Prog O R E β}
    {Q : Except E β → B → Prop}
    (hp : p.Achieves answer view (fun r b' => ∃ e, r = .error e ∧ Q (.error e) b') b) :
    (p >>= f).Achieves answer view Q b := by
  refine Achieves.handle (hp.mono ?_)
  rintro r b' ⟨e, rfl, hQ⟩
  exact achieves_raise hQ

theorem Achieves.tryCatch {p : Prog O R E α} {h : E → Prog O R E α}
    {Q : Except E α → B → Prop}
    (hp : p.Achieves answer view (fun r b' => ∃ a, r = .ok a ∧ Q (.ok a) b') b) :
    (p.tryCatch h).Achieves answer view Q b := by
  refine Achieves.handle (hp.mono ?_)
  rintro r b' ⟨a, rfl, hQ⟩
  exact achieves_ret hQ

theorem Achieves.tryCatch_error {p : Prog O R E α} {h : E → Prog O R E α}
    {Q : Except E α → B → Prop}
    (hp : p.Achieves answer view
      (fun r b' => ∃ e, r = .error e ∧ (h e).Achieves answer view Q b') b) :
    (p.tryCatch h).Achieves answer view Q b := by
  refine Achieves.handle (hp.mono ?_)
  rintro r b' ⟨e, rfl, hh⟩
  exact hh

theorem Achieves.tryFinally {p : Prog O R E α} {f : Prog O R E Unit}
    {Q : Except E α → B → Prop}
    (hp : p.Achieves answer view
      (fun r b' => f.Achieves answer view (fun r' b'' => r' = .ok () ∧ Q r b'') b') b) :
    (p.tryFinally f).Achieves answer view Q b := by
  refine Achieves.handle (hp.mono fun r b' hf => Achieves.handle (hf.mono ?_))
  rintro r' b'' ⟨rfl, hQ⟩
  cases r with
  | ok a => exact achieves_ret hQ
  | error e => exact achieves_raise hQ

end Eval

end Prog

end ProgramTree

end Foundations
