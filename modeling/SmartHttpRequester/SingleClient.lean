import SmartHttpRequester.BatchInsert

/-!
# One client, with the database and the broker available

The only way a call of a single client can then fail is that the driver does
not take a value that a statement binds.  `Books` is what the client can tell of
the database and the broker, timestamps aside; the rules below say what each
call of the task code does to it.
-/

namespace SmartHttpRequester

open Foundations Function

section SingleClient

section Driver

/-- What a database driver takes. -/
structure Driver where
  encodes : SqlType → PyValue → Bool
  maxParameters : Nat

/-- Text must be a `str`, `INTEGER` has four bytes, and 16 bits count the parameters. -/
def asyncpg : Driver where
  encodes
    | .TEXT, .none => true
    | .TEXT, .str _ => true
    | .TEXT, .method _ => true
    | .TEXT, .status _ => true
    | .Integer, .none => true
    | .Integer, .int n => -2 ^ 31 ≤ n && n < 2 ^ 31
    | .JSONB, .none => true
    | .JSONB, .dict _ => true
    | _, _ => false
  maxParameters := 32767

/-- The parameters of an INSERT; the other statements bind ids and checked values. -/
def TaskOp.bindparams : TaskOp → List BindParameter
  | .execute (.insertTasks _ bindparams) => bindparams
  | _ => []

/-- A name is one parameter, however often it occurs. -/
def Driver.accepts (D : Driver) (o : TaskOp) : Bool :=
  o.bindparams.length ≤ D.maxParameters &&
    o.bindparams.all fun p => D.encodes p.type p.value

/-- The driver takes text as text. -/
structure Driver.TakesText (D : Driver) : Prop where
  str : ∀ s, D.encodes .TEXT (.str s) = true
  status : ∀ s, D.encodes .TEXT (.status s) = true
  parameters : 7 ≤ D.maxParameters

theorem asyncpg_takesText : asyncpg.TakesText where
  str _ := rfl
  status _ := rfl
  parameters := by decide

/-- Text must be a `str`, and a URL of pydantic's is none. -/
def Driver.RefusesUrls (D : Driver) : Prop :=
  ∀ u, D.encodes .TEXT (.url u) = false

theorem asyncpg_refusesUrls : asyncpg.RefusesUrls :=
  fun _ => rfl

/-- The batch INSERT binds each URL as the object it is. -/
theorem Driver.RefusesUrls.accepts_batch {D : Driver} (h : D.RefusesUrls) {user : UserId}
    {tasksData : List TaskCreate} (hnil : tasksData ≠ []) :
    D.accepts (.execute (batchInsert user tasksData)) = false := by
  obtain ⟨t, rest, rfl⟩ := List.exists_cons_of_ne_nil hnil
  have hmem : ⟨numbered "url" 0, .url t.url, .TEXT⟩ ∈ batchBindparams user (t :: rest) := by
    simp [batchBindparams, batchParams]
  rw [batchInsert_eq, ← Bool.not_eq_true]
  intro haccepts
  simp only [Driver.accepts, TaskOp.bindparams, Bool.and_eq_true, List.all_eq_true] at haccepts
  exact absurd ((h t.url).symm.trans (haccepts.2 _ hmem)) (by decide)

end Driver

section Host

/-- One client's world, and how many ids have been drawn. -/
structure Host where
  world : World Unit
  drawn : Nat

def TaskOp.draws : TaskOp → Nat
  | .execute (.insertTasks rows _) => rows.length
  | _ => 0

/-- `n` ids from the `d`-th on. -/
def freshIds (gen : Nat → UUID) (d n : Nat) : List UUID :=
  (List.range' d n).map gen

/-- The answer of an available database and broker. -/
def answer (D : Driver) (gen : Nat → UUID) (o : TaskOp) (h : Host) : Option (Reply × Host) :=
  if D.accepts o then
    (runOp () { ids := freshIds gen h.drawn o.draws } o h.world).map fun rw =>
      (rw.1, ⟨rw.2, h.drawn + o.draws⟩)
  else some (.error (.external "invalid input for query argument"), h)

/-- A row without its id, its result and its timestamps. -/
def TaskRow.data (row : TaskRow) : NewTask where
  userId := row.userId
  url := row.url
  method := row.method
  headers := row.headers
  body := row.body
  maxAttempts := row.maxAttempts
  status := row.status
  attemptCount := row.attemptCount

/-- What a client can tell of a host, timestamps aside. -/
@[ext]
structure Books where
  /-- as the client's own transaction sees it -/
  data : UUID → Option NewTask
  committed : UUID → Option NewTask
  messages : List TaskMessage
  created : Nat
  drawn : Nat

def Host.books (h : Host) : Books where
  data id := ((h.world.tasks.slot id).visible ()).map TaskRow.data
  committed id := (h.world.tasks.committed id).map TaskRow.data
  messages := h.world.broker.published.map Envelope.body
  created := h.world.tasksCreatedTotal
  drawn := h.drawn

variable {D : Driver} {gen : Nat → UUID} {h : Host}

theorem accepts_of_bindparams_nil {o : TaskOp} (ho : o.bindparams = []) :
    D.accepts o = true := by
  simp [Driver.accepts, ho]

theorem answer_of_bindparams_nil {o : TaskOp} {r : Reply} {w : World Unit}
    (ho : o.bindparams = []) (hdraws : o.draws = 0) (hrun : runOp () {} o h.world = some (r, w)) :
    answer D gen o h = some (r, ⟨w, h.drawn⟩) := by
  rw [answer, if_pos (accepts_of_bindparams_nil ho), hdraws, show freshIds gen h.drawn 0 = [] from rfl,
    hrun]
  rfl

/-- One client locks out nobody. -/
theorem slot_eq_empty {s : Slot Unit TaskRow} (hs : s.visible () = none) :
    s = Slot.empty := by
  obtain ⟨c, _ | ⟨⟨⟩, v⟩⟩ := s
  · rw [show c = none from hs]
    rfl
  · cases hs

theorem lockedFor_unit (s : Slot Unit TaskRow) : s.lockedFor () = false := by
  obtain ⟨c, _ | ⟨⟨⟩, v⟩⟩ := s <;> rfl

theorem books_commit (h : Host) :
    Host.books ⟨h.world.commit (), h.drawn⟩ = { h.books with committed := h.books.data } := by
  refine Books.ext (funext fun id => ?_) (funext fun id => ?_) rfl rfl rfl
  · exact congrArg (Option.map TaskRow.data) (Slot.visible_commit () _)
  · exact congrArg (Option.map TaskRow.data) (Slot.commit_committed () _)

theorem books_rollback (h : Host) :
    Host.books ⟨h.world.rollback (), h.drawn⟩ = { h.books with data := h.books.committed } := by
  refine Books.ext (funext fun id => ?_) (funext fun id => ?_) rfl rfl rfl
  · exact congrArg (Option.map TaskRow.data) (Slot.visible_rollback_self () _)
  · exact congrArg (Option.map TaskRow.data) (Slot.rollback_committed () _)

section Calls

variable {α : Type} {b : Books} {Q : Except Exc Unit → Books → Prop}

/-- A coroutine of one client, with the database and the broker available. -/
abbrev Completes (D : Driver) (gen : Nat → UUID) (p : TaskProg α)
    (Q : Except Exc α → Books → Prop) (b : Books) : Prop :=
  p.Achieves (answer D gen) Host.books Q b

theorem completes_call {o : TaskOp} (b' : Books) (ho : o.bindparams = []) (hdraws : o.draws = 0)
    (hrun : ∀ h : Host, h.books = b → ∃ rows w, runOp () {} o h.world = some (.ok rows, w) ∧
      Host.books ⟨w, h.drawn⟩ = b')
    (hQ : Q (.ok ()) b') :
    Completes D gen (Prog.effect o) Q b := by
  refine Prog.achieves_effect fun h hb => ?_
  obtain ⟨rows, w, hw, hbooks⟩ := hrun h hb
  exact ⟨rows, ⟨w, h.drawn⟩, answer_of_bindparams_nil ho hdraws hw, hbooks ▸ hQ⟩

theorem completes_commit (hQ : Q (.ok ()) { b with committed := b.data }) :
    Completes D gen (Prog.effect .commit) Q b :=
  completes_call _ rfl rfl (fun h hb => ⟨[], _, rfl, hb ▸ books_commit h⟩) hQ

theorem completes_rollback (hQ : Q (.ok ()) { b with data := b.committed }) :
    Completes D gen (Prog.effect .rollback) Q b :=
  completes_call _ rfl rfl (fun h hb => ⟨[], _, rfl, hb ▸ books_rollback h⟩) hQ

theorem completes_close (hQ : Q (.ok ()) { b with data := b.committed }) :
    Completes D gen (Prog.effect .close) Q b :=
  completes_call _ rfl rfl (fun h hb => ⟨[], _, rfl, hb ▸ books_rollback h⟩) hQ

theorem completes_respond (response : Response) (hQ : Q (.ok ()) b) :
    Completes D gen (Prog.effect (.respond response)) Q b :=
  completes_call _ rfl rfl (fun _ hb => ⟨[], _, rfl, hb⟩) hQ

theorem completes_inc (n : Nat) (hQ : Q (.ok ()) { b with created := b.created + n }) :
    Completes D gen (Prog.effect (.inc .tasksCreatedTotal n)) Q b := by
  refine completes_call _ rfl rfl (fun h hb => ⟨[], _, rfl, ?_⟩) hQ
  subst hb
  rfl

theorem completes_publishTask (payload : TaskPayload) (attempts : Int)
    (hQ : Q (.ok ()) { b with messages := b.messages ++ [taskMessage payload attempts] }) :
    Completes D gen (publishTask payload attempts) Q b := by
  refine Prog.Achieves.bind (completes_call b rfl rfl (fun _ hb => ⟨[], _, rfl, hb⟩) ⟨_, rfl, ?_⟩)
  refine Prog.Achieves.tryFinally (Prog.Achieves.bind
    (completes_call b rfl rfl (fun _ hb => ⟨[], _, rfl, hb⟩) ⟨_, rfl, ?_⟩))
  refine completes_call _ rfl rfl (fun h hb => ⟨[], _, rfl, ?_⟩)
    (completes_call _ rfl rfl (fun _ hb => ⟨[], _, rfl, hb⟩) ⟨rfl, hQ⟩)
  subst hb
  refine Books.ext rfl rfl ?_ rfl rfl
  show List.map Envelope.body (setupRabbitmqWithRetries.publish _ _ _ h.world.broker).published = _
  rw [Topology.publish_published]
  simp [Host.books]

/-- The books after a statement that leaves a new table. -/
theorem books_tables {h : Host} {tasks : Table Unit UUID TaskRow} {d : Nat}
    (hcommitted : ∀ id, tasks.committed id = h.world.tasks.committed id)
    (started : Unit → Option Timestamp) (notices : Unit → List Notice) :
    Host.books ⟨{ h.world with tasks := tasks, started := started, notices := notices }, d⟩ =
      { h.books with
        data := fun id => ((tasks.slot id).visible ()).map TaskRow.data
        drawn := d } := by
  refine Books.ext rfl (funext fun id => ?_) rfl rfl rfl
  exact congrArg (Option.map TaskRow.data) (hcommitted id)

theorem completes_confirm {id : UUID} {t : NewTask} (hdata : b.data id = some t)
    (hstatus : t.status = .beforeRmq)
    (hQ : Q (.ok ()) { b with data := update b.data id (some { t with status := .pending }) }) :
    Completes D gen (Prog.effect (.execute (.confirmTask id))) Q b := by
  refine completes_call _ rfl rfl (fun h hb => ?_) hQ
  subst hb
  obtain ⟨row, hrow, rfl⟩ := Option.map_eq_some_iff.1 hdata
  have hset : setPending row = some { row with status := .pending } := if_pos hstatus
  have hmodify : h.world.tasks.modify () id setPending = some (h.world.tasks.set id
      ((h.world.tasks.slot id).write () { row with status := .pending })) := by
    simp [Table.modify, hrow, hset, lockedFor_unit]
  refine ⟨[], _, Option.map_eq_some_iff.2 ⟨_, hmodify, rfl⟩, ?_⟩
  refine (books_tables (fun id' => ?_) _ _).trans (Books.ext (funext fun id' => ?_) rfl rfl rfl rfl)
  · by_cases hid : id' = id
    · subst hid
      simp [Table.committed]
    · simp [Table.committed, hid]
  · by_cases hid : id' = id
    · subst hid
      simp [TaskRow.data]
    · simp [Host.books, hid]

/-- No id from the `d`-th on is in use. -/
def Books.Fresh (gen : Nat → UUID) (b : Books) : Prop :=
  ∀ n, b.drawn ≤ n → b.data (gen n) = none

theorem lookup_zipWith_toRow (now : Timestamp) (ids : List UUID) (news : List NewTask) (id : UUID) :
    (((List.zipWith (NewTask.toRow now) ids news).map fun row => (row.id, row)).lookup id).map
        TaskRow.data =
      (ids.zip news).lookup id := by
  induction ids generalizing news with
  | nil =>
      rfl
  | cons id₀ ids ih =>
      cases news with
      | nil => rfl
      | cons t news =>
          by_cases hid : id = id₀
          · subst hid
            simp [NewTask.toRow, TaskRow.data]
          · have hne : (id == id₀) = false := beq_eq_false_iff_ne.2 hid
            simpa [List.lookup_cons, hne, NewTask.toRow] using ih news

theorem map_id_zipWith_toRow (now : Timestamp) (ids : List UUID) (news : List NewTask)
    (h : ids.length = news.length) :
    ((List.zipWith (NewTask.toRow now) ids news).map fun row => (row.id, row)).map Prod.fst =
      ids := by
  induction ids generalizing news with
  | nil =>
      rfl
  | cons id₀ ids ih =>
      cases news with
      | nil => cases h
      | cons t news =>
          have hrest := ih news (Nat.succ.inj h)
          simpa [NewTask.toRow] using hrest

theorem exists_insertAll_fresh (hgen : Injective gen) (hfresh : h.books.Fresh gen)
    (now : Timestamp) (news : List NewTask) :
    ∃ tasks, h.world.tasks.insertAll ()
      ((List.zipWith (NewTask.toRow now) (freshIds gen h.drawn news.length) news).map
        fun row => (row.id, row)) = some tasks := by
  have hkeys := map_id_zipWith_toRow now (freshIds gen h.drawn news.length) news
    (by simp [freshIds])
  refine Table.exists_insertAll_eq_some ?_ fun kv hkv => slot_eq_empty ?_
  · rw [hkeys]
    exact (List.nodup_range').map hgen
  · have hmem : kv.1 ∈ freshIds gen h.drawn news.length := hkeys ▸ List.mem_map_of_mem hkv
    rw [freshIds, List.mem_map] at hmem
    obtain ⟨n, hn, hid⟩ := hmem
    have hnone := hfresh n (List.mem_range'_1.1 hn).1
    rw [hid] at hnone
    exact Option.map_eq_none_iff.1 hnone

theorem completes_insert {rows : List InsertRow} {bindparams : List BindParameter}
    {news : List NewTask} {Q : Except Exc (List TaskRow) → Books → Prop}
    (haccepts : D.accepts (.execute (.insertTasks rows bindparams)) = true)
    (heval : rows.mapM (InsertRow.eval bindparams) = some news)
    (hlength : rows.length = news.length) (hgen : Injective gen) (hfresh : b.Fresh gen)
    (hQ : ∀ now, Q (.ok (List.zipWith (NewTask.toRow now) (freshIds gen b.drawn news.length) news))
      { b with
        data := fun id => (((freshIds gen b.drawn news.length).zip news).lookup id).or (b.data id)
        drawn := b.drawn + news.length }) :
    Completes D gen (execute (.insertTasks rows bindparams)) Q b := by
  refine Prog.achieves_perform fun h hb => ?_
  subst hb
  have hdrawn : h.books.drawn = h.drawn := rfl
  rw [hdrawn] at hQ
  obtain ⟨tasks, htasks⟩ := exists_insertAll_fresh hgen hfresh ((h.world.begin ()).now ()) news
  have hQ' := hQ ((h.world.begin ()).now ())
  have hlookup := lookup_zipWith_toRow ((h.world.begin ()).now ())
    (freshIds gen h.drawn news.length) news
  generalize hmade : List.zipWith (NewTask.toRow ((h.world.begin ()).now ()))
    (freshIds gen h.drawn news.length) news = made at htasks hQ' hlookup
  have hrun : runOp () { ids := freshIds gen h.drawn news.length }
      (.execute (.insertTasks rows bindparams)) h.world =
      insertRows () made (h.world.begin ()) := by
    simp [runOp, runStmt, heval, freshIds, ← hmade]
  have hanswer : answer D gen (.execute (.insertTasks rows bindparams)) h =
      (insertRows () made (h.world.begin ())).map fun rw =>
        (rw.1, ⟨rw.2, h.drawn + news.length⟩) := by
    rw [answer, if_pos haccepts, ← hrun]
    simp [TaskOp.draws, hlength]
  have hbooks : ∀ notices started, Host.books ⟨{ h.world with
        tasks := tasks, started := started, notices := notices }, h.drawn + news.length⟩ =
      { h.books with
        data := fun id =>
          (((freshIds gen h.drawn news.length).zip news).lookup id).or (h.books.data id)
        drawn := h.drawn + news.length } := by
    intro notices started
    refine (books_tables (fun id => ?_) _ _).trans (Books.ext (funext fun id => ?_) rfl rfl rfl rfl)
    · rcases Table.insertAll_slot htasks id with ⟨hsame, -⟩ | ⟨hempty, row, -, hnew⟩
      · exact congrArg Slot.committed hsame
      · rw [Table.committed, Table.committed, hnew, hempty]
        rfl
    · show Option.map TaskRow.data ((tasks.slot id).visible ()) =
        (((freshIds gen h.drawn news.length).zip news).lookup id).or (h.books.data id)
      rw [Table.insertAll_visible htasks, Option.map_or, hlookup]
      rfl
  refine ⟨.ok made, _, hanswer.trans (Option.map_eq_some_iff.2
    ⟨_, Option.map_eq_some_iff.2 ⟨_, htasks, rfl⟩, rfl⟩), ?_⟩
  exact (hbooks _ _) ▸ hQ'

end Calls

end Host

end SingleClient

end SmartHttpRequester
