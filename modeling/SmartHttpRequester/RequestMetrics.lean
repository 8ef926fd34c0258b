import SmartHttpRequester.EndpointNames
import SmartHttpRequester.Foundations.EventLoop

/-!
# Accounting of HTTP requests

`MetricsMiddleware` and the HTTP metrics of `services/metrics.py`.  All requests
run in one event loop, and so does the endpoint that exports the metrics:
between two turns of the loop is when the metrics can be seen.  The middleware
awaits one thing, `call_next`, which may return any response or raise.

The duration and the total are recorded after `call_next` has returned; only the
gauge is put right in the `finally`.

`accounted_iff`: in a run, the metrics account for every request at every moment
exactly if no request ends without a response.
-/

namespace SmartHttpRequester

open Foundations EventLoop Function

section RequestMetrics

section Metric

/-- A metric with labels: its children, in the order in which they were made. -/
abbrev Metric (L : Type) := List (L × Int)

variable {L : Type} [DecidableEq L]

/-- `metric.labels(...)` makes the child if there is none; the operation on it adds `n`. -/
def Metric.add : Metric L → L → Int → Metric L
  | [], l, n => [(l, n)]
  | (l', m) :: rest, l, n =>
      if l' = l then (l', m + n) :: rest else (l', m) :: Metric.add rest l n

/-- The value of a child; one that was not made is not exported. -/
def Metric.value (m : Metric L) (l : L) : Int :=
  (m.lookup l).getD 0

/-- The sum over the children whose labels are as given. -/
def Metric.total (m : Metric L) (p : L → Bool) : Int :=
  ((m.filter fun child => p child.1).map Prod.snd).sum

@[simp] theorem Metric.value_add (m : Metric L) (l l' : L) (n : Int) :
    Metric.value (m.add l n) l' = Metric.value m l' + if l = l' then n else 0 := by
  induction m with
  | nil =>
      by_cases h : l = l'
      · simp [add, value, h]
      · have hne : (l' == l) = false := beq_eq_false_iff_ne.2 (Ne.symm h)
        simp [add, value, h, List.lookup_cons, hne]
  | cons child rest ih =>
      obtain ⟨l₁, k⟩ := child
      have hrest : ∀ {k : Int} {r : Metric L}, l' ≠ l₁ →
          Metric.value ((l₁, k) :: r) l' = Metric.value r l' := by
        intro k r hne
        simp [value, List.lookup_cons, beq_eq_false_iff_ne.2 hne]
      have hself : ∀ {k : Int} {r : Metric L}, Metric.value ((l₁, k) :: r) l₁ = k := by
        intro k r
        simp [value]
      rw [add]
      by_cases hl : l₁ = l
      · subst hl
        rw [if_pos rfl]
        by_cases h : l₁ = l'
        · subst h
          rw [hself, hself, if_pos rfl]
        · rw [hrest (Ne.symm h), hrest (Ne.symm h), if_neg h, add_zero]
      · rw [if_neg hl]
        by_cases h : l' = l₁
        · subst h
          rw [hself, hself, if_neg (Ne.symm hl), add_zero]
        · rw [hrest h, hrest h, ih]

@[simp] theorem Metric.total_add (m : Metric L) (l : L) (n : Int) (p : L → Bool) :
    Metric.total (m.add l n) p = Metric.total m p + if p l then n else 0 := by
  induction m with
  | nil =>
      by_cases h : p l <;> simp [add, total, h]
  | cons child rest ih =>
      obtain ⟨l₁, k⟩ := child
      have hcons : ∀ (k : Int) (r : Metric L),
          Metric.total ((l₁, k) :: r) p = (if p l₁ then k else 0) + Metric.total r p := by
        intro k r
        by_cases h : p l₁ <;> simp [total, h]
      rw [add]
      by_cases hl : l₁ = l
      · subst hl
        rw [if_pos rfl, hcons, hcons]
        split <;> ring
      · rw [if_neg hl, hcons, hcons, ih]
        ring

end Metric

section Sizes

/-- White space that `int` strips from either end of a text. -/
def isPySpace (c : Char) : Bool :=
  [0x09, 0x0a, 0x0b, 0x0c, 0x0d, 0x20, 0x85, 0xa0, 0x1680, 0x2028, 0x2029, 0x202f, 0x205f,
    0x3000].contains c.toNat || (0x2000 ≤ c.toNat && c.toNat ≤ 0x200a)

/-- Digits with single underscores between them: their value, and how many there are. -/
def pyDigits : List Char → Nat → Nat → Option (Nat × Nat)
  | [], value, count => if count = 0 then none else some (value, count)
  | '_' :: c :: rest, value, count =>
      if count = 0 then none
      else (decimalValue? c).bind fun d => pyDigits rest (10 * value + d) (count + 1)
  | c :: rest, value, count =>
      (decimalValue? c).bind fun d => pyDigits rest (10 * value + d) (count + 1)

/-- The digits of a text have to be no more than `sys.get_int_max_str_digits()`. -/
def pyNat (s : List Char) : Option Int :=
  (pyDigits s 0 0).bind fun (value, count) => if count ≤ 4300 then some value else none

/-- `int(text)`; `none` is a `ValueError`. -/
def pyInt (text : String) : Option Int :=
  let stripped := ((text.toList.dropWhile isPySpace).reverse.dropWhile isPySpace).reverse
  match stripped with
  | '-' :: s => (pyNat s).map fun n => -n
  | '+' :: s => pyNat s
  | s => pyNat s

/-- `float(n)` raises: rounding to the nearest double leaves the range. -/
def floatOverflows (n : Int) : Bool :=
  2 ^ 1024 - 2 ^ 970 ≤ n.natAbs

end Sizes

/-- The labels that all HTTP metrics have. -/
structure HttpLabels where
  method : String
  endpoint : String
deriving DecidableEq

/-- What the middleware reads of a request. -/
structure IncomingRequest where
  method : String
  path : String
  /-- the header, if there is one -/
  contentLength : Option String

def IncomingRequest.labels (request : IncomingRequest) : HttpLabels where
  method := request.method
  endpoint := getEndpointName request.path

/-- `body_size`. -/
def IncomingRequest.bodySize (request : IncomingRequest) : Int :=
  match request.contentLength with
  | none => 0
  | some text => (pyInt text).getD 0

/-- What the middleware reads of a response. -/
structure AppResponse where
  statusCode : Int
  contentLength : Option String

inductive MiddlewareExc
  /-- raised by the application or by another middleware -/
  | raised (text : String)
  | cancelledError
  | overflowError
  | attributeError
deriving DecidableEq

/-- The HTTP metrics; histograms as their observation counts. -/
structure HttpMetrics where
  httpRequestsTotal : Metric (HttpLabels × Int) := []
  httpRequestDurationSeconds : Metric HttpLabels := []
  httpRequestSizeBytes : Metric HttpLabels := []
  httpResponseSizeBytes : Metric HttpLabels := []
  httpRequestsInProgress : Metric HttpLabels := []

inductive MetricsOp
  | callNext
  | observeRequestSize (labels : HttpLabels) (size : Int)
  | observeResponseSize (labels : HttpLabels) (size : Int)
  | observeDuration (labels : HttpLabels)
  | incTotal (labels : HttpLabels) (status : Int)
  | incInProgress (labels : HttpLabels)
  | decInProgress (labels : HttpLabels)

/-- A coroutine of the middleware: an operation returns `None` or a response. -/
abbrev MetricsProg := Prog MetricsOp (Option AppResponse) MiddlewareExc

/-- What follows `call_next` in the `try` block. -/
def recordResponse (labels : HttpLabels) (response : Option AppResponse) :
    MetricsProg AppResponse := do
  Prog.effect (.observeDuration labels)
  match response with
  | none => .raise .attributeError
  | some response =>
      Prog.effect (.incTotal labels response.statusCode)
      match response.contentLength.bind pyInt with
      | none => pure ()
      | some size => Prog.effect (.observeResponseSize labels size)
      pure response

/-- The `try` block of `MetricsMiddleware.dispatch`, with its `finally`. -/
def measured (labels : HttpLabels) : MetricsProg AppResponse :=
  Prog.tryFinally
    (do
      let response ← Prog.perform .callNext
      recordResponse labels response)
    (Prog.effect (.decInProgress labels))

/-- `MetricsMiddleware.dispatch`. -/
def MetricsMiddleware.dispatch (request : IncomingRequest) : MetricsProg AppResponse := do
  let labels := request.labels
  if 0 < request.bodySize then Prog.effect (.observeRequestSize labels request.bodySize)
  Prog.effect (.incInProgress labels)
  measured labels

/-- `histogram.labels(...).observe(size)`: how it ends, and what it adds to the count. -/
def observeSize (size : Int) : Except MiddlewareExc (Option AppResponse) × Int :=
  if floatOverflows size then (.error .overflowError, 0) else (.ok none, 1)

/-- Everything but `call_next` is done at once. -/
def recordNow : MetricsOp → HttpMetrics →
    Option (Except MiddlewareExc (Option AppResponse) × HttpMetrics)
  | .callNext, _ => none
  | .observeRequestSize labels size, m =>
      some ((observeSize size).1,
        { m with
          httpRequestSizeBytes := Metric.add m.httpRequestSizeBytes labels (observeSize size).2 })
  | .observeResponseSize labels size, m =>
      some ((observeSize size).1,
        { m with
          httpResponseSizeBytes :=
            Metric.add m.httpResponseSizeBytes labels (observeSize size).2 })
  | .observeDuration labels, m =>
      some (.ok none,
        { m with
          httpRequestDurationSeconds := Metric.add m.httpRequestDurationSeconds labels 1 })
  | .incTotal labels status, m =>
      some (.ok none,
        { m with httpRequestsTotal := Metric.add m.httpRequestsTotal (labels, status) 1 })
  | .incInProgress labels, m =>
      some (.ok none,
        { m with httpRequestsInProgress := Metric.add m.httpRequestsInProgress labels 1 })
  | .decInProgress labels, m =>
      some (.ok none,
        { m with httpRequestsInProgress := Metric.add m.httpRequestsInProgress labels (-1) })

/-- What `call_next` can come to. -/
abbrev CallNext := Except MiddlewareExc AppResponse

/-- The event loop, as far as the middleware is concerned. -/
def metricsLoop :
    EventLoop CallNext Empty MetricsOp (Option AppResponse) MiddlewareExc HttpMetrics where
  now := recordNow
  complete
    | outcome, .callNext, m => some (outcome.map some, m)
    | _, _, _ => none
  env a _ := a.elim

section Accounting

variable {ι : Type}

/-- The requests in the event loop. -/
abbrev MetricsState (ι : Type) :=
  State ι MetricsOp (Option AppResponse) MiddlewareExc AppResponse HttpMetrics

abbrev MetricsTurn (ι : Type) :=
  Turn ι CallNext Empty

/-- The state in which no request has come in. -/
def noRequests (reqs : ι → IncomingRequest) : MetricsState ι :=
  EventLoop.init {} fun i => MetricsMiddleware.dispatch (reqs i)

/-- How many requests with the labels have been started and not finished. -/
def inProgress (reqs : ι → IncomingRequest) (s : MetricsState ι) (labels : HttpLabels) : Int :=
  s.count fun i p => decide ((reqs i).labels = labels) && p.outcome?.isNone

/-- How many requests with the labels have been finished. -/
def finished (reqs : ι → IncomingRequest) (s : MetricsState ι) (labels : HttpLabels) : Int :=
  s.count fun i p => decide ((reqs i).labels = labels) && p.outcome?.isSome

/-- The metrics account for every request. -/
structure Accounted (reqs : ι → IncomingRequest) (s : MetricsState ι) : Prop where
  inProgress : ∀ labels,
    Metric.value s.world.httpRequestsInProgress labels = inProgress reqs s labels
  total : ∀ labels,
    Metric.total s.world.httpRequestsTotal (fun child => child.1 = labels) =
      finished reqs s labels
  duration : ∀ labels,
    Metric.value s.world.httpRequestDurationSeconds labels = finished reqs s labels

/--
The turn does not end a request without a response: its body size can be
observed, and what `call_next` comes to is a response.
-/
def Responds (reqs : ι → IncomingRequest) (_ : MetricsState ι) : MetricsTurn ι → Prop
  | .start i => 0 < (reqs i).bodySize → floatOverflows (reqs i).bodySize = false
  | .resume _ outcome => ∃ response, outcome = .ok response
  | .env _ => True

/-- What a request waits for is `call_next`, and then it comes to its end. -/
structure Waiting [DecidableEq ι] (reqs : ι → IncomingRequest) (s : MetricsState ι) : Prop where
  nodup : s.started.Nodup
  before : ∀ i, i ∉ s.started → s.prog i = MetricsMiddleware.dispatch (reqs i)
  during : ∀ i ∈ s.started,
    s.prog i = measured (reqs i).labels ∨ (s.prog i).outcome?.isSome = true

section Settling

variable {labels : HttpLabels} {m : HttpMetrics}

/-- What is left when `call_next` has come to something. -/
def afterCallNext (labels : HttpLabels) (r : Except MiddlewareExc (Option AppResponse)) :
    MetricsProg AppResponse :=
  Prog.tryFinally (Prog.ofExcept r >>= recordResponse labels) (Prog.effect (.decInProgress labels))

theorem measured_eq (labels : HttpLabels) :
    measured labels = .op .callNext (afterCallNext labels) := by
  rfl

theorem recordNow_requestSize {size n : Int} {r : Except MiddlewareExc (Option AppResponse)}
    (h : observeSize size = (r, n)) :
    recordNow (.observeRequestSize labels size) m = some (r,
      { m with httpRequestSizeBytes := Metric.add m.httpRequestSizeBytes labels n }) := by
  rw [recordNow, h]

theorem recordNow_responseSize {size n : Int} {r : Except MiddlewareExc (Option AppResponse)}
    (h : observeSize size = (r, n)) :
    recordNow (.observeResponseSize labels size) m = some (r,
      { m with httpResponseSizeBytes := Metric.add m.httpResponseSizeBytes labels n }) := by
  rw [recordNow, h]

theorem observeSize_cases (size : Int) :
    observeSize size = (.error .overflowError, 0) ∨ observeSize size = (.ok none, 1) := by
  unfold observeSize
  split
  · exact Or.inl rfl
  · exact Or.inr rfl

/-- A request whose size cannot be observed ends before it is counted anywhere. -/
theorem settle_dispatch_overflow {request : IncomingRequest} (hsize : 0 < request.bodySize)
    (hoverflow : floatOverflows request.bodySize = true) :
    ∃ m', settle recordNow (MetricsMiddleware.dispatch request) m =
        (.raise .overflowError, m') ∧
      m'.httpRequestsInProgress = m.httpRequestsInProgress ∧
      m'.httpRequestsTotal = m.httpRequestsTotal ∧
      m'.httpRequestDurationSeconds = m.httpRequestDurationSeconds := by
  have hobserve : observeSize request.bodySize = (.error .overflowError, 0) := if_pos hoverflow
  rw [MetricsMiddleware.dispatch, if_pos hsize]
  exact ⟨_, settle_now (recordNow_requestSize hobserve), rfl, rfl, rfl⟩

theorem settle_dispatch {request : IncomingRequest}
    (hsize : 0 < request.bodySize → floatOverflows request.bodySize = false) :
    ∃ m', settle recordNow (MetricsMiddleware.dispatch request) m =
        (measured request.labels, m') ∧
      m'.httpRequestsInProgress = Metric.add m.httpRequestsInProgress request.labels 1 ∧
      m'.httpRequestsTotal = m.httpRequestsTotal ∧
      m'.httpRequestDurationSeconds = m.httpRequestDurationSeconds := by
  by_cases hpos : 0 < request.bodySize
  · have hobserve : observeSize request.bodySize = (.ok none, 1) :=
      if_neg (by simp [hsize hpos])
    rw [MetricsMiddleware.dispatch, if_pos hpos]
    exact ⟨_, settle_now (recordNow_requestSize hobserve), rfl, rfl, rfl⟩
  · rw [MetricsMiddleware.dispatch, if_neg hpos]
    exact ⟨_, rfl, rfl, rfl, rfl⟩

theorem settle_error (e : MiddlewareExc) :
    settle recordNow (afterCallNext labels (.error e)) m =
      (.raise e, { m with
        httpRequestsInProgress := Metric.add m.httpRequestsInProgress labels (-1) }) := by
  rfl

theorem settle_response (labels : HttpLabels) (m : HttpMetrics) (response : AppResponse) :
    ∃ p m', settle recordNow (afterCallNext labels (.ok (some response))) m = (p, m') ∧
      p.outcome?.isSome = true ∧
      m'.httpRequestsInProgress = Metric.add m.httpRequestsInProgress labels (-1) ∧
      m'.httpRequestsTotal = Metric.add m.httpRequestsTotal (labels, response.statusCode) 1 ∧
      m'.httpRequestDurationSeconds = Metric.add m.httpRequestDurationSeconds labels 1 := by
  let recorded : HttpMetrics :=
    { m with
      httpRequestDurationSeconds := Metric.add m.httpRequestDurationSeconds labels 1
      httpRequestsTotal := Metric.add m.httpRequestsTotal (labels, response.statusCode) 1 }
  have hrecorded : settle recordNow (afterCallNext labels (.ok (some response))) m =
      settle recordNow (Prog.tryFinally (do
        match response.contentLength.bind pyInt with
        | none => pure ()
        | some size => Prog.effect (.observeResponseSize labels size)
        pure response) (Prog.effect (.decInProgress labels))) recorded := by
    rfl
  rw [hrecorded]
  cases response.contentLength.bind pyInt with
  | none => exact ⟨_, _, rfl, rfl, rfl, rfl, rfl⟩
  | some size =>
      rcases observeSize_cases size with hobserve | hobserve
      · exact ⟨_, _, settle_now (recordNow_responseSize hobserve), rfl, rfl, rfl, rfl⟩
      · exact ⟨_, _, settle_now (recordNow_responseSize hobserve), rfl, rfl, rfl, rfl⟩

end Settling

section Turns

variable [DecidableEq ι] {reqs : ι → IncomingRequest} {s s' : MetricsState ι} {t : MetricsTurn ι}

/-- What a turn of request `i` changes: the requests by `a` and `b`, the metrics by `a` and `c`. -/
structure Changes (reqs : ι → IncomingRequest) (i : ι) (a b c : Int) (s s' : MetricsState ι) :
    Prop where
  inProgress : ∀ l, inProgress reqs s' l = inProgress reqs s l + if (reqs i).labels = l then a else 0
  finished : ∀ l, finished reqs s' l = finished reqs s l + if (reqs i).labels = l then b else 0
  gauge : ∀ l, Metric.value s'.world.httpRequestsInProgress l =
    Metric.value s.world.httpRequestsInProgress l + if (reqs i).labels = l then a else 0
  total : ∀ l, Metric.total s'.world.httpRequestsTotal (fun child => child.1 = l) =
    Metric.total s.world.httpRequestsTotal (fun child => child.1 = l) +
      if (reqs i).labels = l then c else 0
  duration : ∀ l, Metric.value s'.world.httpRequestDurationSeconds l =
    Metric.value s.world.httpRequestDurationSeconds l + if (reqs i).labels = l then c else 0

theorem Waiting.start_changes (h : Waiting reqs s) {i : ι} (hi : i ∉ s.started)
    (hs' : s' = s.proceed i (settle recordNow (s.prog i) s.world) (s.started ++ [i])) :
    ∃ a b c, Changes reqs i a b c s s' ∧
      (c = b ↔ (0 < (reqs i).bodySize → floatOverflows (reqs i).bodySize = false)) ∧
      (s'.prog i = measured (reqs i).labels ∨ (s'.prog i).outcome?.isSome = true) := by
  rw [h.before i hi] at hs'
  by_cases hsize : 0 < (reqs i).bodySize → floatOverflows (reqs i).bodySize = false
  · obtain ⟨m', hsettle, hgauge, htotal, hduration⟩ := settle_dispatch (m := s.world) hsize
    rw [hsettle] at hs'
    subst hs'
    refine ⟨1, 0, 0, ⟨fun l => ?_, fun l => ?_, fun l => ?_, fun l => ?_, fun l => ?_⟩,
      iff_of_true rfl hsize, Or.inl (by simp [State.proceed])⟩
    · simp [SmartHttpRequester.inProgress, count_start hi, measured_eq, Prog.outcome?]
    · simp [SmartHttpRequester.finished, count_start hi, measured_eq, Prog.outcome?]
    · simp [State.proceed, hgauge]
    · simp [State.proceed, htotal]
    · simp [State.proceed, hduration]
  · have hpos : 0 < (reqs i).bodySize := by
      by_contra hneg
      exact hsize fun hpos => absurd hpos hneg
    have hoverflow : floatOverflows (reqs i).bodySize = true := by
      by_contra hfalse
      exact hsize fun _ => by simpa using hfalse
    obtain ⟨m', hsettle, hgauge, htotal, hduration⟩ :=
      settle_dispatch_overflow (m := s.world) hpos hoverflow
    rw [hsettle] at hs'
    subst hs'
    refine ⟨0, 1, 0, ⟨fun l => ?_, fun l => ?_, fun l => ?_, fun l => ?_, fun l => ?_⟩,
      iff_of_false (by simp) hsize, Or.inr (by simp [State.proceed, Prog.outcome?])⟩
    · simp [SmartHttpRequester.inProgress, count_start hi, Prog.outcome?]
    · simp [SmartHttpRequester.finished, count_start hi, Prog.outcome?]
    · simp [State.proceed, hgauge]
    · simp [State.proceed, htotal]
    · simp [State.proceed, hduration]

/-- A request that ends is one less in progress and one more finished. -/
theorem Waiting.count_resume (h : Waiting reqs s) {i : ι} (hi : i ∈ s.started)
    (hp : s.prog i = measured (reqs i).labels) {p : MetricsProg AppResponse × HttpMetrics}
    (hended : p.1.outcome?.isSome = true) (l : HttpLabels) :
    inProgress reqs (s.proceed i p s.started) l =
      inProgress reqs s l + (if (reqs i).labels = l then -1 else 0) ∧
    finished reqs (s.proceed i p s.started) l =
      finished reqs s l + (if (reqs i).labels = l then 1 else 0) := by
  have hbefore : (s.prog i).outcome? = none := by
    rw [hp]
    rfl
  have hnone : p.1.outcome?.isNone = false := by
    rw [← Option.not_isSome, hended]
    rfl
  have hprogress := EventLoop.count_resume (p := p)
    (f := fun i p => decide ((reqs i).labels = l) && p.outcome?.isNone) h.nodup hi
  have hfinished := EventLoop.count_resume (p := p)
    (f := fun i p => decide ((reqs i).labels = l) && p.outcome?.isSome) h.nodup hi
  simp only [hbefore, hended, hnone, Option.isNone_none, Option.isSome_none, Bool.and_true,
    Bool.and_false, decide_eq_true_eq, Bool.false_eq_true, if_false, add_zero]
    at hprogress hfinished
  refine ⟨?_, hfinished⟩
  rw [SmartHttpRequester.inProgress, SmartHttpRequester.inProgress, ← hprogress]
  split <;> ring

theorem Waiting.resume_changes (h : Waiting reqs s) {i : ι} (hi : i ∈ s.started)
    (hp : s.prog i = measured (reqs i).labels) (outcome : CallNext)
    (hs' : s' = s.proceed i
      (settle recordNow (afterCallNext (reqs i).labels (outcome.map some)) s.world) s.started) :
    ∃ c, Changes reqs i (-1) 1 c s s' ∧
      (c = 1 ↔ ∃ response, outcome = .ok response) ∧
      (s'.prog i).outcome?.isSome = true := by
  cases outcome with
  | error e =>
      subst hs'
      have hcount := h.count_resume hi hp
        (p := settle recordNow (afterCallNext (reqs i).labels (.error e)) s.world) rfl
      refine ⟨0, ⟨fun l => (hcount l).1, fun l => (hcount l).2, fun l => ?_, fun l => ?_,
        fun l => ?_⟩, iff_of_false (by simp) (by simp), ?_⟩
      · exact Metric.value_add _ _ _ _
      · simp [State.proceed, Except.map, settle_error]
      · simp [State.proceed, Except.map, settle_error]
      · simp [State.proceed, Except.map, settle_error, Prog.outcome?]
  | ok response =>
      obtain ⟨p, m', hsettle, hended, hgauge, htotal, hduration⟩ :=
        settle_response (reqs i).labels s.world response
      rw [show (Except.ok response : CallNext).map some = .ok (some response) from rfl, hsettle]
        at hs'
      subst hs'
      have hcount := h.count_resume hi hp (p := (p, m')) hended
      refine ⟨1, ⟨fun l => (hcount l).1, fun l => (hcount l).2, fun l => ?_, fun l => ?_,
        fun l => ?_⟩, iff_of_true rfl ⟨response, rfl⟩, by simpa [State.proceed] using hended⟩
      · simp [State.proceed, hgauge]
      · simp [State.proceed, htotal]
      · simp [State.proceed, hduration]

/-- What a turn changes, and that it leaves requests waiting for `call_next` or ended. -/
theorem Waiting.changes (h : Waiting reqs s) (hturn : turn metricsLoop s t = some s') :
    ∃ i a b c, Changes reqs i a b c s s' ∧ (c = b ↔ Responds reqs s t) ∧
      (s'.prog i = measured (reqs i).labels ∨ (s'.prog i).outcome?.isSome = true) ∧
      (∀ j, j ≠ i → s'.prog j = s.prog j) ∧
      ∀ j, j ∈ s'.started ↔ j ∈ s.started ∨ j = i := by
  obtain ⟨i, rfl, hi, rfl⟩ | ⟨i, outcome, o, k, r, w, rfl, hi, hp, hcomplete, rfl⟩ |
      ⟨a, w, -, henv, -⟩ := turn_cases hturn
  · obtain ⟨a, b, c, hchanges, hiff, hprog⟩ := h.start_changes hi rfl
    exact ⟨i, a, b, c, hchanges, hiff, hprog, fun j hj => by simp [State.proceed, hj],
      fun j => by simp [State.proceed]⟩
  · have hwait : s.prog i = measured (reqs i).labels := by
      rcases h.during i hi with hwait | hended
      · exact hwait
      · rw [hp] at hended
        cases hended
    rw [hwait, measured_eq] at hp
    cases hp
    cases hcomplete
    obtain ⟨c, hchanges, hiff, hprog⟩ := h.resume_changes hi hwait outcome rfl
    refine ⟨i, -1, 1, c, hchanges, hiff, Or.inr hprog, fun j hj => by simp [State.proceed, hj],
      fun j => ?_⟩
    rw [State.proceed]
    constructor
    · exact Or.inl
    · rintro (hj | rfl)
      · exact hj
      · exact hi
  · exact a.elim

theorem Waiting.turn (h : Waiting reqs s) (hturn : turn metricsLoop s t = some s') :
    Waiting reqs s' := by
  obtain ⟨i, -, -, -, -, -, hprog, hother, hstarted⟩ := h.changes hturn
  refine ⟨nodup_turn h.nodup hturn, fun j hj => ?_, fun j hj => ?_⟩
  · rw [hstarted, not_or] at hj
    rw [hother j hj.2]
    exact h.before j hj.1
  · by_cases hji : j = i
    · subst hji
      exact hprog
    · rw [hother j hji]
      exact h.during j (((hstarted j).1 hj).resolve_right hji)

theorem waiting_noRequests (reqs : ι → IncomingRequest) : Waiting reqs (noRequests reqs) where
  nodup := List.nodup_nil
  before _ _ := rfl
  during i hi := by cases hi

omit [DecidableEq ι] in
theorem accounted_noRequests (reqs : ι → IncomingRequest) : Accounted reqs (noRequests reqs) where
  inProgress _ := rfl
  total _ := rfl
  duration _ := rfl

/-- A turn keeps the accounts exactly if what it finishes has a response. -/
theorem Accounted.turn_iff (h : Accounted reqs s) (hwaiting : Waiting reqs s)
    (hturn : EventLoop.turn metricsLoop s t = some s') :
    Accounted reqs s' ↔ Responds reqs s t := by
  obtain ⟨i, a, b, c, hchanges, hiff, -⟩ := hwaiting.changes hturn
  rw [← hiff]
  constructor
  · intro h'
    have htotal := h'.total (reqs i).labels
    rw [hchanges.total, hchanges.finished, h.total, if_pos rfl, if_pos rfl] at htotal
    omega
  · rintro rfl
    refine ⟨fun l => ?_, fun l => ?_, fun l => ?_⟩
    · rw [hchanges.gauge, hchanges.inProgress, h.inProgress]
    · rw [hchanges.total, hchanges.finished, h.total]
    · rw [hchanges.duration, hchanges.finished, h.duration]

/--
Throughout a run the gauge counts the requests in progress, and total and
duration count those that are finished, if and only if every request that is
finished has its response, and a body size that can be observed.
-/
theorem accounted_iff {ts : List (MetricsTurn ι)}
    (hrun : Schedule.run (EventLoop.turn metricsLoop) (noRequests reqs) ts = some s) :
    Schedule.Always (EventLoop.turn metricsLoop) (Accounted reqs) (noRequests reqs) ts ↔
      Schedule.StepsMeet (EventLoop.turn metricsLoop) (Responds reqs) (noRequests reqs) ts :=
  Schedule.always_iff_stepsMeet (Waiting reqs) (fun _ _ _ h hturn => h.turn hturn)
    (fun _ _ _ hwaiting h hturn => h.turn_iff hwaiting hturn)
    (waiting_noRequests reqs) (accounted_noRequests reqs) hrun

end Turns

section Sample

/-- Two requests for the same page, the second of which fails. -/
def samplePage : IncomingRequest where
  method := "GET"
  path := "/v1/requests/"
  contentLength := none

/-- Two requests at the same time; what `call_next` comes to for the second is open. -/
def overlapping (i j : ι) (outcome : CallNext) : List (MetricsTurn ι) :=
  [.start i, .start j, .resume i (.ok ⟨200, none⟩), .resume j outcome]

/-- A request that raises leaves no trace in the total and the duration. -/
theorem raising_request_unaccounted :
    ∃ s : MetricsState (Fin 2),
      Schedule.run (EventLoop.turn metricsLoop) (noRequests fun _ => samplePage)
        (overlapping 0 1 (.error (.raised "boom"))) = some s ∧
      finished (fun _ => samplePage) s samplePage.labels = 2 ∧
      inProgress (fun _ => samplePage) s samplePage.labels = 0 ∧
      Metric.value s.world.httpRequestsInProgress samplePage.labels = 0 ∧
      s.world.httpRequestsTotal = [((samplePage.labels, 200), 1)] ∧
      Metric.value s.world.httpRequestDurationSeconds samplePage.labels = 1 ∧
      ¬ Accounted (fun _ => samplePage) s := by
  refine ⟨_, rfl, by decide, by decide, by decide, by decide, by decide, fun h => ?_⟩
  have htotal := h.total samplePage.labels
  exact absurd htotal (by decide)

/-- Two requests that are answered are accounted for throughout. -/
theorem accounted_answered :
    Schedule.Always (EventLoop.turn metricsLoop) (Accounted fun _ => samplePage)
      (noRequests fun _ : Fin 2 => samplePage) (overlapping 0 1 (.ok ⟨404, none⟩)) := by
  refine (accounted_iff rfl).2 ?_
  refine ⟨fun h => absurd h (by decide), ?_⟩
  rintro _ ⟨⟩
  refine ⟨fun h => absurd h (by decide), ?_⟩
  rintro _ ⟨⟩
  refine ⟨⟨_, rfl⟩, ?_⟩
  rintro _ ⟨⟩
  exact ⟨⟨_, rfl⟩, fun _ _ => trivial⟩

end Sample

end Accounting

end RequestMetrics

end SmartHttpRequester
