import SmartHttpRequester.Foundations.EventLoop

/-!
# Broker connections

`get_rabbitmq` and `close_rabbitmq` of `services/rabbitmq.py`, any number of
which run in one event loop and share the global `_rabbitmq`.  The start of the
server, its end and every `publish_task` go through them.

What is awaited is the connecting and the closing.  Both may fail, and between
two turns of the loop a connection may be lost; one that the library restores by
itself has not been lost.

A connection that is open is owned: `_rabbitmq` refers to it, or a call in flight
is closing it.  `owned_iff`: a run keeps that exactly if none of its turns gives
up the last of the two for a connection that stays open.
-/

namespace SmartHttpRequester

open Foundations EventLoop Function

section BrokerConnections

/-- What `_rabbitmq` refers to, as it is at the moment; connections are numbered as they open. -/
structure RobustConnection where
  number : Nat
  isClosed : Bool

inductive BrokerExc
  | amqpConnectionError
  | cancelledError
deriving DecidableEq

/-- The settings that say where the broker is. -/
structure BrokerSettings where
  rabbitmqHost : String := "localhost"
  rabbitmqPort : Int := 5672
  rabbitmqUser : String := "guest"
  rabbitmqPassword : String := "guest"
  rabbitmqVhost : String := ""

def BrokerSettings.url (settings : BrokerSettings) : String :=
  "amqp://" ++ settings.rabbitmqUser ++ ":" ++ settings.rabbitmqPassword ++ "@" ++
    settings.rabbitmqHost ++ ":" ++ toString settings.rabbitmqPort ++ "/" ++
    settings.rabbitmqVhost

inductive BrokerOp
  | rabbitmq
  | setRabbitmq (number : Option Nat)
  | connectRobust (url : String)
  | close (number : Nat)
deriving DecidableEq

/-- A coroutine of the broker service: an operation returns `None` or a connection. -/
abbrev BrokerProg := Prog BrokerOp (Option RobustConnection) BrokerExc (Option RobustConnection)

/-- `get_rabbitmq`. -/
def getRabbitmq (settings : BrokerSettings) : BrokerProg := do
  let held ← Prog.perform .rabbitmq
  if held.all RobustConnection.isClosed then
    let conn ← Prog.perform (.connectRobust settings.url)
    Prog.effect (.setRabbitmq (conn.map RobustConnection.number))
  Prog.perform .rabbitmq

/-- `close_rabbitmq`. -/
def closeRabbitmq : BrokerProg := do
  let held ← Prog.perform .rabbitmq
  match held with
  | some ⟨number, false⟩ => Prog.effect (.close number)
  | some ⟨_, true⟩ | none => pure ()
  Prog.effect (.setRabbitmq none)
  pure none

/-- The calls that run in the event loop. -/
inductive BrokerCall
  | get
  | close
deriving DecidableEq

def BrokerCall.prog (settings : BrokerSettings) : BrokerCall → BrokerProg
  | .get => getRabbitmq settings
  | .close => closeRabbitmq

/-- The global, and the connections: how many have been opened and which are closed again. -/
structure BrokerWorld where
  rabbitmq : Option Nat := none
  opened : Nat := 0
  closed : List Nat := []

namespace BrokerWorld

def IsOpen (w : BrokerWorld) (number : Nat) : Prop :=
  number < w.opened ∧ number ∉ w.closed

instance (w : BrokerWorld) (number : Nat) : Decidable (w.IsOpen number) :=
  inferInstanceAs (Decidable (_ ∧ _))

def held (w : BrokerWorld) : Option RobustConnection :=
  w.rabbitmq.map fun number => ⟨number, w.closed.contains number⟩

end BrokerWorld

/-- What connecting or closing comes to. -/
inductive Awaited
  | done
  | fails (e : BrokerExc)
deriving DecidableEq

/-- The event loop; the environment can close an open connection. -/
def brokerLoop :
    EventLoop Awaited Nat BrokerOp (Option RobustConnection) BrokerExc BrokerWorld where
  now
    | .rabbitmq, w => some (.ok w.held, w)
    | .setRabbitmq number, w => some (.ok none, { w with rabbitmq := number })
    | _, _ => none
  complete
    | .done, .connectRobust _, w =>
        some (.ok (some ⟨w.opened, false⟩), { w with opened := w.opened + 1 })
    | .done, .close number, w => some (.ok none, { w with closed := number :: w.closed })
    | .fails e, .connectRobust _, w => some (.error e, w)
    | .fails e, .close _, w => some (.error e, w)
    | _, _, _ => none
  env number w :=
    if w.IsOpen number then some { w with closed := number :: w.closed } else none

variable {ι : Type}

/-- The calls in the event loop. -/
abbrev ConnectionState (ι : Type) :=
  State ι BrokerOp (Option RobustConnection) BrokerExc (Option RobustConnection) BrokerWorld

abbrev ConnectionTurn (ι : Type) :=
  Turn ι Awaited Nat

/-- The state in which nothing has been called. -/
def noConnection (settings : BrokerSettings) (calls : ι → BrokerCall) : ConnectionState ι :=
  EventLoop.init {} fun i => (calls i).prog settings

section Ownership

/-- Call `i` is waiting for a connection to be closed. -/
def Closing (s : ConnectionState ι) (i : ι) (number : Nat) : Prop :=
  i ∈ s.started ∧ (s.prog i).next? = some (.close number)

/-- Another call than `i` is waiting for it to be closed. -/
def OtherCloses (s : ConnectionState ι) (i : ι) (number : Nat) : Prop :=
  ∃ j, j ≠ i ∧ Closing s j number

/-- Every open connection is the one that is held, or is being closed. -/
def Owned (s : ConnectionState ι) : Prop :=
  ∀ number, s.world.IsOpen number →
    s.world.rabbitmq = some number ∨ ∃ i, Closing s i number

/--
No connection is left behind when what `i` awaits comes to something: what
`_rabbitmq` referred to when it is overwritten, and what could not be closed, is
closed already or still owned.
-/
def KeepsOp (s : ConnectionState ι) (i : ι) : BrokerOp → Awaited → Prop
  | .connectRobust _, .done =>
      ∀ number, s.world.rabbitmq = some number → s.world.IsOpen number → OtherCloses s i number
  | .close closing, .done =>
      ∀ number, s.world.rabbitmq = some number → s.world.IsOpen number →
        number = closing ∨ OtherCloses s i number
  | .close closing, .fails _ =>
      s.world.IsOpen closing → s.world.rabbitmq = some closing ∨ OtherCloses s i closing
  | _, _ => True

/-- The turn leaves no connection behind. -/
def Keeps (s : ConnectionState ι) : ConnectionTurn ι → Prop
  | .resume i r => ∀ o, (s.prog i).next? = some o → KeepsOp s i o r
  | _ => True

end Ownership

section Settling

variable {w : BrokerWorld} {number : Nat}

/-- What `get_rabbitmq` does when it finds no open connection. -/
def connecting (settings : BrokerSettings) : BrokerProg := do
  let conn ← Prog.perform (.connectRobust settings.url)
  Prog.effect (.setRabbitmq (conn.map RobustConnection.number))
  Prog.perform .rabbitmq

/-- What `close_rabbitmq` does when it finds one. -/
def closing (number : Nat) : BrokerProg := do
  Prog.effect (.close number)
  Prog.effect (.setRabbitmq none)
  pure none

@[simp] theorem next?_connecting (settings : BrokerSettings) :
    (connecting settings).next? = some (.connectRobust settings.url) := by
  rfl

@[simp] theorem next?_closing (number : Nat) :
    (closing number).next? = some (.close number) := by
  rfl

theorem now_rabbitmq (w : BrokerWorld) :
    brokerLoop.now .rabbitmq w = some (.ok w.held, w) := by
  rfl

theorem settle_getRabbitmq (settings : BrokerSettings) (w : BrokerWorld) :
    settle brokerLoop.now (getRabbitmq settings) w =
      if w.held.all RobustConnection.isClosed then (connecting settings, w)
      else (.ret w.held, w) := by
  have hread : settle brokerLoop.now (getRabbitmq settings) w =
      settle brokerLoop.now (if w.held.all RobustConnection.isClosed then connecting settings
        else Prog.perform .rabbitmq) w := by
    rfl
  rw [hread]
  split <;> rfl

theorem held_open (hheld : w.rabbitmq = some number) (hopen : number ∉ w.closed) :
    w.held = some ⟨number, false⟩ := by
  simp [BrokerWorld.held, hheld, hopen]

/-- An open connection that is held is closed before the global is put to `None`. -/
theorem settle_close_open (hheld : w.held = some ⟨number, false⟩) :
    settle brokerLoop.now closeRabbitmq w = (closing number, w) := by
  rw [closeRabbitmq]
  change settle brokerLoop.now (.op .rabbitmq _) w = _
  rw [settle_now (now_rabbitmq w), hheld]
  rfl

theorem settle_close_rest (hheld : ∀ number, w.held ≠ some ⟨number, false⟩) :
    settle brokerLoop.now closeRabbitmq w = (.ret none, { w with rabbitmq := none }) := by
  rw [closeRabbitmq]
  change settle brokerLoop.now (.op .rabbitmq _) w = _
  rw [settle_now (now_rabbitmq w)]
  match hw : w.held with
  | none => rfl
  | some ⟨_, true⟩ => rfl
  | some ⟨number, false⟩ => exact absurd hw (hheld number)

section Keeping

variable {settings : BrokerSettings} {s : ConnectionState ι} {i : ι} {e : BrokerExc}

theorem keeps_connected (hprog : s.prog i = connecting settings) :
    Keeps s (.resume i .done) ↔ ∀ number, s.world.rabbitmq = some number →
      s.world.IsOpen number → OtherCloses s i number := by
  simp [Keeps, KeepsOp, hprog]

theorem keeps_connectFails (hprog : s.prog i = connecting settings) :
    Keeps s (.resume i (.fails e)) := by
  simp [Keeps, KeepsOp, hprog]

theorem keeps_closed (hprog : s.prog i = closing number) :
    Keeps s (.resume i .done) ↔ ∀ other, s.world.rabbitmq = some other →
      s.world.IsOpen other → other = number ∨ OtherCloses s i other := by
  simp [Keeps, KeepsOp, hprog]

theorem keeps_closeFails (hprog : s.prog i = closing number) :
    Keeps s (.resume i (.fails e)) ↔
      (s.world.IsOpen number → s.world.rabbitmq = some number ∨ OtherCloses s i number) := by
  simp [Keeps, KeepsOp, hprog]

end Keeping

end Settling

section Moves

variable {settings : BrokerSettings} {calls : ι → BrokerCall}

/-- What a turn of call `i` leaves of it, and what it makes of the world. -/
inductive Moves (settings : BrokerSettings) (calls : ι → BrokerCall) (s : ConnectionState ι)
    (i : ι) : ConnectionTurn ι → BrokerProg × BrokerWorld → Prop
  | take (hcall : calls i = .get) (hnew : i ∉ s.started) :
      Moves settings calls s i (.start i) (.ret s.world.held, s.world)
  | connect (hcall : calls i = .get) (hnew : i ∉ s.started) :
      Moves settings calls s i (.start i) (connecting settings, s.world)
  | close {number : Nat} (hcall : calls i = .close) (hnew : i ∉ s.started) :
      Moves settings calls s i (.start i) (closing number, s.world)
  | forget (hcall : calls i = .close) (hnew : i ∉ s.started)
      (hclosed : ∀ number, s.world.rabbitmq = some number → ¬ s.world.IsOpen number) :
      Moves settings calls s i (.start i) (.ret none, { s.world with rabbitmq := none })
  | connected {conn : Option RobustConnection} (hcall : calls i = .get)
      (hprog : s.prog i = connecting settings) :
      Moves settings calls s i (.resume i .done) (.ret conn,
        { s.world with rabbitmq := some s.world.opened, opened := s.world.opened + 1 })
  | connectFails {e : BrokerExc} (hcall : calls i = .get)
      (hprog : s.prog i = connecting settings) :
      Moves settings calls s i (.resume i (.fails e)) (.raise e, s.world)
  | closed {number : Nat} (hcall : calls i = .close) (hprog : s.prog i = closing number) :
      Moves settings calls s i (.resume i .done) (.ret none,
        { s.world with rabbitmq := none, closed := number :: s.world.closed })
  | closeFails {number : Nat} {e : BrokerExc} (hcall : calls i = .close)
      (hprog : s.prog i = closing number) :
      Moves settings calls s i (.resume i (.fails e)) (.raise e, s.world)

/-- A call that has been started waits to be connected, waits for a closing, or has ended. -/
structure Calling (settings : BrokerSettings) (calls : ι → BrokerCall)
    (s : ConnectionState ι) : Prop where
  before : ∀ i, i ∉ s.started → s.prog i = (calls i).prog settings
  during : ∀ i ∈ s.started,
    (calls i = .get ∧ s.prog i = connecting settings) ∨
    (calls i = .close ∧ ∃ number, s.prog i = closing number) ∨
    (s.prog i).outcome?.isSome = true

variable {s s' : ConnectionState ι} {t : ConnectionTurn ι} {i : ι}
  {p : BrokerProg × BrokerWorld}

theorem Calling.moves_start (h : Calling settings calls s) (hi : i ∉ s.started) :
    Moves settings calls s i (.start i) (settle brokerLoop.now (s.prog i) s.world) := by
  rw [h.before i hi]
  cases hcall : calls i with
  | get =>
      rw [BrokerCall.prog, settle_getRabbitmq]
      split
      · exact .connect hcall hi
      · exact .take hcall hi
  | close =>
      rw [BrokerCall.prog]
      by_cases hheld : ∃ number, s.world.held = some ⟨number, false⟩
      · obtain ⟨number, hheld⟩ := hheld
        rw [settle_close_open hheld]
        exact .close hcall hi
      · rw [settle_close_rest fun number h => hheld ⟨number, h⟩]
        exact .forget hcall hi fun number h hopen => hheld ⟨number, held_open h hopen.2⟩

theorem Calling.moves_resume (h : Calling settings calls s) (hi : i ∈ s.started)
    {o : BrokerOp} {k : Except BrokerExc (Option RobustConnection) → BrokerProg}
    (hp : s.prog i = .op o k) {a : Awaited} {r : Except BrokerExc (Option RobustConnection)}
    {w : BrokerWorld} (hcomplete : brokerLoop.complete a o s.world = some (r, w)) :
    Moves settings calls s i (.resume i a) (settle brokerLoop.now (k r) w) := by
  rcases h.during i hi with ⟨hcall, hprog⟩ | ⟨hcall, number, hprog⟩ | hended
  · have hop : Prog.op o k = .op (.connectRobust settings.url) _ := hp.symm.trans hprog
    cases hop
    cases a with
    | done =>
        cases hcomplete
        exact .connected hcall hprog
    | fails e =>
        cases hcomplete
        exact .connectFails hcall hprog
  · have hop : Prog.op o k = .op (.close number) _ := hp.symm.trans hprog
    cases hop
    cases a with
    | done =>
        cases hcomplete
        exact .closed hcall hprog
    | fails e =>
        cases hcomplete
        exact .closeFails hcall hprog
  · rw [hp] at hended
    cases hended

end Moves

section Turns

variable [DecidableEq ι] {settings : BrokerSettings} {calls : ι → BrokerCall}
  {s s' : ConnectionState ι} {t : ConnectionTurn ι} {i : ι} {p : BrokerProg × BrokerWorld}
  {started : List ι}

theorem turn_env {number : Nat} (hturn : turn brokerLoop s (.env number) = some s') :
    s' = { s with world := { s.world with closed := number :: s.world.closed } } := by
  obtain ⟨w, henv, rfl⟩ := Option.map_eq_some_iff.1 hturn
  obtain ⟨-, hw⟩ := Option.ite_none_right_eq_some.1 henv
  cases hw
  rfl

/-- Everything a turn of the loop can do. -/
theorem Calling.turn_moves (h : Calling settings calls s) (hturn : turn brokerLoop s t = some s') :
    (∃ i p started,
        Moves settings calls s i t p ∧
        (∀ j, j ∈ started ↔ j ∈ s.started ∨ j = i) ∧
        s' = s.proceed i p started) ∨
    (∃ number,
        t = .env number ∧
        s' = { s with world := { s.world with closed := number :: s.world.closed } }) := by
  obtain ⟨i, rfl, hi, rfl⟩ | ⟨i, a, o, k, r, w, rfl, hi, hp, hcomplete, rfl⟩ |
      ⟨number, w, rfl, -, -⟩ := turn_cases hturn
  · exact Or.inl ⟨i, _, _, h.moves_start hi, fun j => by simp, rfl⟩
  · refine Or.inl ⟨i, _, _, h.moves_resume hi hp hcomplete, fun j => ⟨Or.inl, ?_⟩, rfl⟩
    rintro (hj | rfl)
    · exact hj
    · exact hi
  · exact Or.inr ⟨number, rfl, turn_env hturn⟩

omit [DecidableEq ι] in
theorem calling_noConnection (settings : BrokerSettings) (calls : ι → BrokerCall) :
    Calling settings calls (noConnection settings calls) where
  before _ _ := rfl
  during i hi := by cases hi

theorem Calling.turn (h : Calling settings calls s) (hturn : turn brokerLoop s t = some s') :
    Calling settings calls s' := by
  obtain ⟨i, p, started, hmoves, hstarted, rfl⟩ | ⟨number, -, rfl⟩ := h.turn_moves hturn
  · refine ⟨fun j hj => ?_, fun j hj => ?_⟩
    · obtain ⟨hj, hji⟩ := not_or.1 fun hor => hj ((hstarted j).2 hor)
      simpa [State.proceed, hji] using h.before j hj
    · by_cases hji : j = i
      · subst hji
        simp only [State.proceed, update_self]
        cases hmoves with
        | take | forget | connected | connectFails | closed | closeFails =>
            exact Or.inr (Or.inr rfl)
        | connect hcall => exact Or.inl ⟨hcall, rfl⟩
        | close hcall => exact Or.inr (Or.inl ⟨hcall, _, rfl⟩)
      · simpa [State.proceed, hji] using h.during j (((hstarted j).1 hj).resolve_right hji)
  · exact ⟨h.before, h.during⟩

theorem exists_closing_proceed {number : Nat}
    (hstarted : ∀ j, j ∈ started ↔ j ∈ s.started ∨ j = i) :
    (∃ j, Closing (s.proceed i p started) j number) ↔
      p.1.next? = some (.close number) ∨ OtherCloses s i number := by
  constructor
  · rintro ⟨j, hj, hnext⟩
    by_cases hji : j = i
    · subst hji
      exact Or.inl (by simpa [State.proceed] using hnext)
    · refine Or.inr ⟨j, hji, ((hstarted j).1 hj).resolve_right hji, ?_⟩
      simpa [State.proceed, hji] using hnext
  · rintro (hnext | ⟨j, hji, hj, hnext⟩)
    · exact ⟨i, (hstarted i).2 (Or.inr rfl), by simpa [State.proceed] using hnext⟩
    · exact ⟨j, (hstarted j).2 (Or.inl hj), by simpa [State.proceed, hji] using hnext⟩

omit [DecidableEq ι] in
theorem otherCloses_of_closing {number : Nat} (hi : ¬ Closing s i number)
    (h : ∃ j, Closing s j number) : OtherCloses s i number := by
  obtain ⟨j, hclosing⟩ := h
  exact ⟨j, fun hji => hi (hji ▸ hclosing), hclosing⟩

theorem owned_proceed_iff (hstarted : ∀ j, j ∈ started ↔ j ∈ s.started ∨ j = i) :
    Owned (s.proceed i p started) ↔ ∀ number, p.2.IsOpen number →
      p.2.rabbitmq = some number ∨ p.1.next? = some (.close number) ∨
        OtherCloses s i number := by
  refine forall_congr' fun number => imp_congr_right fun _ => ?_
  rw [exists_closing_proceed hstarted]
  rfl

omit [DecidableEq ι] in
/-- The calls that do not wait for a closing own nothing but what is held. -/
theorem Owned.others (h : Owned s) (hi : ∀ number, ¬ Closing s i number) {number : Nat}
    (hopen : s.world.IsOpen number) :
    s.world.rabbitmq = some number ∨ OtherCloses s i number :=
  (h number hopen).imp_right (otherCloses_of_closing (hi number))

omit [DecidableEq ι] in
theorem not_closing_of_connecting (hprog : s.prog i = connecting settings) (number : Nat) :
    ¬ Closing s i number := by
  rintro ⟨-, hnext⟩
  rw [hprog] at hnext
  cases hnext

omit [DecidableEq ι] in
theorem Owned.others_of_closing (h : Owned s) {number closed : Nat}
    (hprog : s.prog i = closing closed) (hopen : s.world.IsOpen number) (hne : number ≠ closed) :
    s.world.rabbitmq = some number ∨ OtherCloses s i number := by
  refine (h number hopen).imp_right (otherCloses_of_closing ?_)
  rintro ⟨-, hnext⟩
  rw [hprog] at hnext
  cases hnext
  exact hne rfl

/-- A turn keeps every open connection owned exactly if it leaves none behind. -/
theorem Owned.move_iff (h : Owned s) (hmoves : Moves settings calls s i t p)
    (hstarted : ∀ j, j ∈ started ↔ j ∈ s.started ∨ j = i) :
    Owned (s.proceed i p started) ↔ Keeps s t := by
  rw [owned_proceed_iff hstarted]
  cases hmoves with
  | take hcall hnew | connect hcall hnew | close hcall hnew =>
      refine iff_of_true (fun number hopen => ?_) trivial
      exact (h.others (fun _ hc => hnew hc.1) hopen).imp_right Or.inr
  | forget hcall hnew hclosed =>
      refine iff_of_true (fun number hopen => ?_) trivial
      rcases h.others (fun _ hc => hnew hc.1) hopen with hheld | hother
      · exact absurd hopen (hclosed number hheld)
      · exact Or.inr (Or.inr hother)
  | connected hcall hprog =>
      rw [keeps_connected hprog]
      constructor
      · intro hafter number hheld hopen
        rcases hafter number ⟨Nat.lt_succ_of_lt hopen.1, hopen.2⟩ with hnew | hnone | hother
        · cases hnew
          exact absurd hopen.1 (Nat.lt_irrefl _)
        · cases hnone
        · exact hother
      · rintro hkeeps number ⟨hlt, hclosed⟩
        rcases Nat.lt_succ_iff_lt_or_eq.1 hlt with hlt | rfl
        · rcases h.others (not_closing_of_connecting hprog) ⟨hlt, hclosed⟩ with hheld | hother
          · exact Or.inr (Or.inr (hkeeps number hheld ⟨hlt, hclosed⟩))
          · exact Or.inr (Or.inr hother)
        · exact Or.inl rfl
  | connectFails hcall hprog =>
      refine iff_of_true (fun number hopen => ?_) (keeps_connectFails hprog)
      exact (h.others (not_closing_of_connecting hprog) hopen).imp_right Or.inr
  | @closed closing hcall hprog =>
      rw [keeps_closed hprog]
      constructor
      · intro hafter number hheld hopen
        by_cases heq : number = closing
        · exact Or.inl heq
        · have hclosed : number ∉ closing :: s.world.closed := by
            simp [heq, hopen.2]
          rcases hafter number ⟨hopen.1, hclosed⟩ with hnone | hnone | hother
          · cases hnone
          · cases hnone
          · exact Or.inr hother
      · rintro hkeeps number ⟨hlt, hclosed⟩
        rw [List.mem_cons, not_or] at hclosed
        have hopen : s.world.IsOpen number := ⟨hlt, hclosed.2⟩
        rcases h.others_of_closing hprog hopen hclosed.1 with hheld | hother
        · exact Or.inr (Or.inr ((hkeeps number hheld hopen).resolve_left hclosed.1))
        · exact Or.inr (Or.inr hother)
  | @closeFails closing e hcall hprog =>
      rw [keeps_closeFails hprog]
      constructor
      · intro hafter hopen
        rcases hafter closing hopen with hheld | hnone | hother
        · exact Or.inl hheld
        · cases hnone
        · exact Or.inr hother
      · intro hkeeps number hopen
        by_cases heq : number = closing
        · subst heq
          exact (hkeeps hopen).imp_right Or.inr
        · exact (h.others_of_closing hprog hopen heq).imp_right Or.inr

theorem Owned.turn_iff (hcalling : Calling settings calls s) (h : Owned s)
    (hturn : turn brokerLoop s t = some s') : Owned s' ↔ Keeps s t := by
  obtain ⟨i, p, started, hmoves, hstarted, rfl⟩ | ⟨number, rfl, rfl⟩ := hcalling.turn_moves hturn
  · exact h.move_iff hmoves hstarted
  · refine iff_of_true (fun other hopen => h other ⟨hopen.1, fun hmem => hopen.2 ?_⟩) trivial
    exact List.mem_cons_of_mem _ hmem

omit [DecidableEq ι] in
theorem owned_noConnection (settings : BrokerSettings) (calls : ι → BrokerCall) :
    Owned (noConnection settings calls) := by
  rintro number ⟨hlt, -⟩
  exact absurd hlt (Nat.not_lt_zero number)

/-- A run keeps every open connection owned exactly if its turns leave none behind. -/
theorem owned_iff {ts : List (ConnectionTurn ι)}
    (hrun : Schedule.run (turn brokerLoop) (noConnection settings calls) ts = some s) :
    Schedule.Always (turn brokerLoop) Owned (noConnection settings calls) ts ↔
      Schedule.StepsMeet (turn brokerLoop) Keeps (noConnection settings calls) ts :=
  Schedule.always_iff_stepsMeet (Calling settings calls) (fun _ _ _ h hturn => h.turn hturn)
    (fun _ _ _ hcalling h hturn => h.turn_iff hcalling hturn)
    (calling_noConnection settings calls) (owned_noConnection settings calls) hrun

omit [DecidableEq ι] in
theorem Owned.held (h : Owned s) (hquiescent : s.Quiescent) {number : Nat}
    (hopen : s.world.IsOpen number) : s.world.rabbitmq = some number := by
  rcases h number hopen with hheld | ⟨i, hi, hnext⟩
  · exact hheld
  · obtain ⟨k, hp⟩ := Prog.exists_op_of_next? hnext
    have hended := hquiescent i hi
    rw [hp] at hended
    cases hended

/-- A turn in which `close_rabbitmq` returns leaves `None` in the global. -/
theorem Calling.rabbitmq_of_returned (h : Calling settings calls s)
    (hturn : EventLoop.turn brokerLoop s t = some s') {i : ι} (hcall : calls i = .close)
    (hbefore : (s.prog i).outcome? = none) {conn : Option RobustConnection}
    (hafter : (s'.prog i).outcome? = some (.ok conn)) : s'.world.rabbitmq = none := by
  obtain ⟨j, p, started, hmoves, -, rfl⟩ | ⟨number, -, rfl⟩ := h.turn_moves hturn
  · by_cases hij : i = j
    · subst hij
      simp only [State.proceed, update_self] at hafter
      cases hmoves with
      | take hget | connected hget => rw [hcall] at hget; cases hget
      | connect | connectFails | close | closeFails => cases hafter
      | forget | closed => rfl
    · simp only [State.proceed, update_of_ne hij, hbefore] at hafter
      cases hafter
  · rw [hbefore] at hafter
    cases hafter

theorem rabbitmq_of_lost {lost : List Nat}
    (hrun : Schedule.run (turn brokerLoop) s (lost.map Turn.env) = some s') :
    s'.world.rabbitmq = s.world.rabbitmq := by
  induction lost generalizing s with
  | nil =>
      cases hrun
      rfl
  | cons number lost ih =>
      obtain ⟨s₁, hturn, hrest⟩ := Schedule.run_cons_eq_some.1 hrun
      rw [ih hrest, turn_env hturn]

/-- At most one connection is open, and it is the one that is held. -/
structure Tidy (s : ConnectionState ι) : Prop where
  atMostOne : ∀ m n, s.world.IsOpen m → s.world.IsOpen n → m = n
  held : ∀ n, s.world.IsOpen n → s.world.rabbitmq = some n

/--
Whenever no call is in flight the connections are tidy, and none is open when the
last thing that happened, but for connections that were lost, is that a
`close_rabbitmq` returned.
-/
structure NoLeaks (settings : BrokerSettings) (calls : ι → BrokerCall)
    (ts : List (ConnectionTurn ι)) : Prop where
  tidy : Schedule.Always (turn brokerLoop) (fun s => s.Quiescent → Tidy s)
    (noConnection settings calls) ts
  closed : ∀ pre t (lost : List Nat) post s s' s'' i conn,
    ts = pre ++ t :: (lost.map Turn.env ++ post) →
    Schedule.run (turn brokerLoop) (noConnection settings calls) pre = some s →
    turn brokerLoop s t = some s' →
    Schedule.run (turn brokerLoop) s' (lost.map Turn.env) = some s'' →
    calls i = .close → (s.prog i).outcome? = none → (s'.prog i).outcome? = some (.ok conn) →
    s''.Quiescent → ∀ n, ¬ s''.world.IsOpen n

/--
No connection is leaked in a run none of whose turns leaves one behind: at every
quiescent moment at most one is open and it is held, and after a
`close_rabbitmq` none is.
-/
theorem no_leaks {ts : List (ConnectionTurn ι)}
    (hrun : Schedule.run (turn brokerLoop) (noConnection settings calls) ts = some s)
    (hkeeps : Schedule.StepsMeet (turn brokerLoop) Keeps (noConnection settings calls) ts) :
    NoLeaks settings calls ts := by
  have howned := (owned_iff hrun).2 hkeeps
  refine ⟨howned.mono fun s h hquiescent => ⟨fun m n hm hn => ?_, fun n hn => ?_⟩, ?_⟩
  · exact Option.some.inj ((h.held hquiescent hm).symm.trans (h.held hquiescent hn))
  · exact h.held hquiescent hn
  · intro pre t lost post s s' s'' i conn hts hpre hturn hlost hcall hbefore hafter hquiescent
      number hopen
    have hcalling : Calling settings calls s :=
      Schedule.invariant_of_run (Calling settings calls) (fun _ _ _ h hturn => h.turn hturn)
        (calling_noConnection settings calls) hpre
    have hreach : Schedule.run (EventLoop.turn brokerLoop) (noConnection settings calls)
        (pre ++ t :: lost.map Turn.env) = some s'' :=
      Schedule.run_append_eq_some.2 ⟨s, hpre, Schedule.run_cons_eq_some.2 ⟨s', hturn, hlost⟩⟩
    have hheld := (howned _ post s'' (by rw [hts]; simp) hreach).held hquiescent hopen
    rw [rabbitmq_of_lost hlost, hcalling.rabbitmq_of_returned hturn hcall hbefore hafter] at hheld
    cases hheld

section Sample

/-- All calls but one are `get_rabbitmq`. -/
def allGetBut (k i : ι) : BrokerCall :=
  if i = k then .close else .get

/-- Two calls find no connection and both connect; a third call closes. -/
def bothConnect (i j k : ι) : List (ConnectionTurn ι) :=
  [.start i, .start j, .resume i .done, .resume j .done, .start k, .resume k .done]

/-- One call after the other, with the connection lost in between. -/
def oneAfterAnother (i j k : ι) : List (ConnectionTurn ι) :=
  [.start i, .resume i .done, .env 0, .start j, .resume j .done, .start k, .resume k .done]

/-- Two calls that connect at the same time leave a connection open that nothing can close. -/
theorem both_connect_leak :
    ∃ s s' : ConnectionState (Fin 3),
      Schedule.run (turn brokerLoop) (noConnection {} (allGetBut 2))
        ((bothConnect 0 1 2).take 4) = some s ∧
      s.Quiescent ∧ s.world.IsOpen 0 ∧ s.world.IsOpen 1 ∧ s.world.rabbitmq = some 1 ∧
      Schedule.run (turn brokerLoop) (noConnection {} (allGetBut 2)) (bothConnect 0 1 2) =
        some s' ∧
      s'.Quiescent ∧ s'.prog 2 = .ret none ∧ s'.world.rabbitmq = none ∧
      s'.world.IsOpen 0 ∧
      ¬ NoLeaks {} (allGetBut (2 : Fin 3)) (bothConnect 0 1 2) := by
  refine ⟨_, _, rfl, by decide, by decide, by decide, by decide, rfl, by decide, rfl, by decide,
    by decide, fun h => ?_⟩
  have htidy := h.tidy ((bothConnect 0 1 2).take 4) ((bothConnect 0 1 2).drop 4) _ rfl rfl
    (by decide)
  exact absurd (htidy.atMostOne 0 1 (by decide) (by decide)) (by decide)

/-- Nothing is leaked by calls that come one after the other. -/
theorem no_leaks_one_after_another :
    NoLeaks {} (allGetBut (2 : Fin 3)) (oneAfterAnother 0 1 2) := by
  refine no_leaks rfl ⟨trivial, ?_⟩
  rintro _ ⟨⟩
  refine ⟨(keeps_connected rfl).2 fun _ hheld => (by cases hheld), ?_⟩
  rintro _ ⟨⟩
  refine ⟨trivial, ?_⟩
  rintro _ ⟨⟩
  refine ⟨trivial, ?_⟩
  rintro _ ⟨⟩
  refine ⟨(keeps_connected rfl).2 fun number hheld hopen => ?_, ?_⟩
  · cases hheld
    exact absurd hopen (by decide)
  · rintro _ ⟨⟩
    refine ⟨trivial, ?_⟩
    rintro _ ⟨⟩
    refine ⟨(keeps_closed (rfl : _ = closing 1)).2 fun number hheld _ => ?_, fun _ _ => trivial⟩
    cases hheld
    exact Or.inl rfl

end Sample

end Turns

end BrokerConnections

end SmartHttpRequester
