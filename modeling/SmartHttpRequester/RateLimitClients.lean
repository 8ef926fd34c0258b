import SmartHttpRequester.RateLimitExpiry

/-!
# Clients of the rate limiter

`middleware/rate_limit.py`: the middleware puts the host of a client behind
`"rate_limit:"`, asks `check_rate_limit` with a window of 60 seconds, and answers
429 instead of passing a rejected request on.

A host may contain the separator of the window keys, as an IPv6 address does.
`clients_independent`: what one client is told is what its own calls alone would
have been told.
-/

namespace SmartHttpRequester

open Foundations

section RateLimitClients

variable {limit window clock now : ℤ} {key : String} {s s' : Counters String}

section Dispatch

variable {S β : Type}

/-- What a response carries: `{"detail": …}`, or what the application made. -/
inductive Content (β : Type) where
  | detail (text : String)
  | passed (body : β)

structure HttpResponse (β : Type) where
  statusCode : ℕ
  content : Content β
  headers : String → Option String

/-- `JSONResponse(status_code=…, content={"detail": …})`. -/
def jsonResponse (statusCode : ℕ) (detail : String) : HttpResponse β :=
  ⟨statusCode, .detail detail, fun _ => none⟩

/-- `response.headers[name] = value`. -/
def HttpResponse.setHeader (response : HttpResponse β) (name value : String) : HttpResponse β :=
  { response with headers := Function.update response.headers name (some value) }

/--
A request as the middleware sees it: the host of `request.client`, the clock it
reads, when Redis runs its script, and what `call_next` would answer.
-/
structure HttpRequest (β : Type) where
  client : Option String
  now : ℤ
  executed : ℤ
  next : HttpResponse β

/-- `f"rate_limit:{ip}"`. -/
def rateLimitKey (ip : String) : String :=
  "rate_limit:" ++ ip

/-- The call of `check_rate_limit` that a request makes. -/
def HttpRequest.call (request : HttpRequest β) (ip : String) : RateCall :=
  ⟨rateLimitKey ip, request.now, request.executed⟩

/-- `RateLimitMiddleware.dispatch`; `strftime` formats the reset time. -/
def dispatch (R : CounterStore String S) (strftime : ℤ → String) (rateLimit : ℤ)
    (request : HttpRequest β) (s : S) : HttpResponse β × S :=
  match request.client with
  | none => (jsonResponse 423 "Cannot get ip address", s)
  | some ip =>
      let result := checkRateLimit R rateLimit 60 (request.call ip) s
      let response :=
        if result.1.allowed then request.next else jsonResponse 429 "Too many requests"
      (((response.setHeader "X-RateLimit-Limit" (toString rateLimit)).setHeader
        "X-RateLimit-Remaining" (toString (rateLimit - result.1.total))).setHeader
        "X-RateLimit-Reset" (strftime result.1.resetTime), result.2)

/-- Requests one after the other. -/
def dispatchAll (R : CounterStore String S) (strftime : ℤ → String) (rateLimit : ℤ) :
    List (HttpRequest β) → S → List (HttpResponse β) × S
  | [], s => ([], s)
  | request :: requests, s =>
      let result := dispatch R strftime rateLimit request s
      let rest := dispatchAll R strftime rateLimit requests result.2
      (result.1 :: rest.1, rest.2)

end Dispatch

section Script

variable {S : Type}

/-- `total` in the script. -/
def scriptTotal (R : CounterStore String S) (clock : ℤ) (key : String) (window now : ℤ) (s : S) :
    ℚ :=
  ((R.get clock s (windowKey key (now / window))).getD 0 : ℕ) +
    ((R.get clock s (windowKey key (now / window - 1))).getD 0 : ℕ) * windowWeight window now

theorem luaScript_eq (limit : ℤ) :
    luaScript expiring clock key limit window now s =
      if scriptTotal expiring clock key window now s ≥ limit then
        (⟨false, scriptTotal expiring clock key window now s, now / window * window + window⟩, s)
      else
        (⟨true, scriptTotal expiring clock key window now s + 1, now / window * window + window⟩,
          countCallAt clock key (now / window) window s) := by
  rfl

theorem luaScript_allowed_iff :
    (luaScript expiring clock key limit window now s).1.allowed = true ↔
      scriptTotal expiring clock key window now s < limit := by
  rw [luaScript_eq]
  split
  · rename_i hfull
    simpa using hfull
  · rename_i hfree
    simpa using hfree

/-- What the script leaves in the store. -/
theorem luaScript_store :
    (luaScript expiring clock key limit window now s).2 =
      if (luaScript expiring clock key limit window now s).1.allowed then
        countCallAt clock key (now / window) window s
      else s :=
  luaScript_snd expiring s

end Script

section Independence

/-- The counters of a client. -/
def windowKeys (key : String) : Set String :=
  Set.range (windowKey key)

theorem windowKey_mem (key : String) (n : ℤ) : windowKey key n ∈ windowKeys key :=
  ⟨n, rfl⟩

theorem ne_of_mem_windowKeys {key' k : String} {n : ℤ} (hne : key' ≠ key)
    (hk : k ∈ windowKeys key) : k ≠ windowKey key' n := by
  obtain ⟨m, rfl⟩ := hk
  exact fun h => hne (windowKey_injective h).1.symm

/-- The answer depends on the counters of the client. -/
theorem luaScript_fst_eqOn (h : Set.EqOn s s' (windowKeys key)) :
    (luaScript expiring clock key limit window now s).1 =
      (luaScript expiring clock key limit window now s').1 := by
  refine luaScript_fst_congr ?_ ?_
  · simp only [expiring, Counters.find, h (windowKey_mem key _)]
  · simp only [expiring, Counters.find, h (windowKey_mem key _)]

/-- A call of the client keeps the agreement of two stores. -/
theorem luaScript_snd_eqOn (clock limit window now : ℤ) (h : Set.EqOn s s' (windowKeys key)) :
    Set.EqOn (luaScript expiring clock key limit window now s).2
      (luaScript expiring clock key limit window now s').2 (windowKeys key) := by
  rw [luaScript_store, luaScript_store, luaScript_fst_eqOn h]
  split
  · exact Counters.expire_eqOn (Counters.expire_eqOn (Counters.incr_eqOn h) _) _
  · exact h

/-- A call of another client leaves the counters of this one as they are. -/
theorem luaScript_other (clock limit window now : ℤ) (s : Counters String) {key' : String}
    (hne : key' ≠ key) :
    Set.EqOn (luaScript expiring clock key' limit window now s).2 s (windowKeys key) := by
  intro k hk
  rw [luaScript_store]
  split
  · exact countCallAt_other (ne_of_mem_windowKeys hne hk) (ne_of_mem_windowKeys hne hk)
  · rfl

/-- The results of one client, with and without the calls of the others. -/
theorem runCalls_filter (limit window : ℤ) (key : String) {calls : List RateCall}
    (h : Set.EqOn s s' (windowKeys key)) :
    (runCalls expiring limit window calls s).1.filter (fun cr => cr.1.key = key) =
      (runCalls expiring limit window (calls.filter fun c => c.key = key) s').1 := by
  induction calls generalizing s s' with
  | nil =>
      rfl
  | cons c calls ih =>
      by_cases hc : c.key = key
      · subst hc
        have hrest := ih (luaScript_snd_eqOn c.executed limit window c.now h)
        simp only [runCalls, checkRateLimit, List.filter_cons, decide_true, if_true, hrest,
          luaScript_fst_eqOn h]
      · have hrest := ih ((luaScript_other c.executed limit window c.now s hc).trans h)
        simp only [runCalls, checkRateLimit, List.filter_cons, hc, decide_false,
          Bool.false_eq_true, if_false, hrest]

end Independence

section Hosts

/-- A call of `check_rate_limit` for a host. -/
structure HostCall where
  host : String
  now : ℤ
  executed : ℤ

def HostCall.call (c : HostCall) : RateCall :=
  ⟨rateLimitKey c.host, c.now, c.executed⟩

theorem rateLimitKey_injective {host host' : String} (h : rateLimitKey host = rateLimitKey host') :
    host = host' :=
  (String.append_right_inj _).1 h

theorem filter_calls (calls : List HostCall) (host : String) :
    (calls.map HostCall.call).filter (fun c => c.key = rateLimitKey host) =
      (calls.filter fun c => c.host = host).map HostCall.call := by
  rw [List.filter_map]
  refine congrArg _ (List.filter_congr fun c _ => decide_eq_decide.2 ?_)
  exact ⟨fun h => rateLimitKey_injective h, fun h => congrArg rateLimitKey h⟩

/--
What a client is told does not depend on the calls of others, and no window key
of one host is a window key of another.
-/
theorem clients_independent (limit window : ℤ) (calls : List HostCall) (host : String) :
    (runCalls expiring limit window (calls.map HostCall.call) emptyCounters).1.filter
        (fun cr => cr.1.key = rateLimitKey host) =
      (runCalls expiring limit window ((calls.filter fun c => c.host = host).map HostCall.call)
        emptyCounters).1 ∧
    ∀ host', host' ≠ host → ∀ n n',
      windowKey (rateLimitKey host') n ≠ windowKey (rateLimitKey host) n' := by
  constructor
  · rw [runCalls_filter limit window (rateLimitKey host) (fun _ _ => rfl), filter_calls]
  · intro host' hne n n' h
    exact hne (rateLimitKey_injective (windowKey_injective h).1)

/-- Two hosts one of which continues the other behind a separator. -/
theorem clients_independent_ipv6 :
    (runCalls expiring 1 60
        ([⟨"fe80::1", 5, 5⟩, ⟨"fe80::1:0", 6, 6⟩, ⟨"fe80::1", 7, 7⟩].map HostCall.call)
        emptyCounters).1.filter (fun cr => cr.1.key = rateLimitKey "fe80::1") =
      (runCalls expiring 1 60 ([⟨"fe80::1", 5, 5⟩, ⟨"fe80::1", 7, 7⟩].map HostCall.call)
        emptyCounters).1 ∧
    windowKey (rateLimitKey "fe80::1:0") 0 ≠ windowKey (rateLimitKey "fe80::1") 0 := by
  have h := clients_independent 1 60
    [⟨"fe80::1", 5, 5⟩, ⟨"fe80::1:0", 6, 6⟩, ⟨"fe80::1", 7, 7⟩] "fe80::1"
  exact ⟨h.1, h.2 "fe80::1:0" (by decide) 0 0⟩

end Hosts

end RateLimitClients

end SmartHttpRequester
