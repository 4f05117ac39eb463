import Mathlib.Algebra.Order.Ring.Rat
import FingerprintHub.Api.Http
import FingerprintHub.Library.SlidingWindow

/-!
# `api/auth.py`

`_rate_limited` with its dictionary of queues, and the middleware around it. Clock values of
`time.monotonic()` are exact numbers here, and a request comes with the row that
`find_by_key_hash` returns for it.

`_rate_limited` is the sliding-window limiter with a width of 60 seconds
(`serveRequest_eq`), and the middleware puts to it the requests that are authenticated, and
no others (`requestTimes_authRun`).
-/

namespace FingerprintHub
namespace Auth

open SlidingWindow (Request Served accepted recent InOrder)

/-! ### The limiter -/

/-- `_rate_limited`: whether the request is refused, and `request_times` after it. A queue is cut
at the cutoff even when the request is refused. -/
def rateLimited (rateLimit : ℤ) (requestTimes : ℤ → List ℚ) (consumerId : ℤ) (now : ℚ) :
    Bool × (ℤ → List ℚ) :=
  let cutoff := now - 60
  let window := (requestTimes consumerId).dropWhile (fun t => decide (t < cutoff))
  if rateLimit ≤ window.length then (true, Function.update requestTimes consumerId window)
  else (false, Function.update requestTimes consumerId (window ++ [now]))

/-- One request is put to `_rate_limited`; the log says which were accepted. -/
def serveRequest (rateLimit : ℤ) (s : Served ℤ ℚ) (r : Request ℤ ℚ) : Served ℤ ℚ :=
  let (limited, requestTimes) := rateLimited rateLimit s.windows r.client r.time
  ⟨requestTimes, s.log ++ [(r, !limited)]⟩

/-- A sequence of requests, from an empty dictionary. -/
def serveRequests (rateLimit : ℤ) (rs : List (Request ℤ ℚ)) : Served ℤ ℚ :=
  rs.foldl (serveRequest rateLimit) ⟨fun _ => [], []⟩

/-- The queue of the consumer is the window of the limiter, and the others are left alone. -/
theorem rateLimited_eq (rateLimit : ℤ) (requestTimes : ℤ → List ℚ) (consumerId : ℤ) (now : ℚ) :
    rateLimited rateLimit requestTimes consumerId now =
      (!(SlidingWindow.request 60 rateLimit (requestTimes consumerId) now).1,
        Function.update requestTimes consumerId
          (SlidingWindow.request 60 rateLimit (requestTimes consumerId) now).2) := by
  unfold rateLimited SlidingWindow.request
  simp only
  split <;> rfl

/-- **`_rate_limited` is the sliding-window limiter**, of a width of 60 seconds. -/
theorem serveRequest_eq (rateLimit : ℤ) :
    serveRequest rateLimit = SlidingWindow.serve 60 rateLimit := by
  funext s r
  simp only [serveRequest, rateLimited_eq, Bool.not_not, SlidingWindow.serve]

/-- So is a sequence of calls, -/
theorem serveRequests_eq (rateLimit : ℤ) (rs : List (Request ℤ ℚ)) :
    serveRequests rateLimit rs = SlidingWindow.run 60 rateLimit rs := by
  rw [serveRequests, serveRequest_eq]
  rfl

/-- and a request is refused just when the limiter does not accept it. -/
theorem rateLimited_fst (rateLimit : ℤ) (rs : List (Request ℤ ℚ)) (r : Request ℤ ℚ) :
    (rateLimited rateLimit (serveRequests rateLimit rs).windows r.client r.time).1
      = !SlidingWindow.accepts 60 rateLimit rs r := by
  rw [serveRequests_eq, rateLimited_eq]
  rfl

/-- What the limiter is for, said of a sequence of requests. The interval is closed: a request
exactly 60 seconds old still counts. -/
structure ExactWindow (rateLimit : ℤ) (rs : List (Request ℤ ℚ)) : Prop where
  /-- A request is accepted exactly when fewer requests of its consumer than the limit were
  accepted in the 60 seconds up to it. -/
  accepts : ∀ before r after, rs = before ++ r :: after →
    ((rateLimited rateLimit (serveRequests rateLimit before).windows r.client r.time).1 = false ↔
      ((recent 60 (accepted (serveRequests rateLimit before).log r.client) r.time).length : ℤ)
        < rateLimit)
  /-- No closed interval of 60 seconds holds more accepted requests of a consumer. -/
  interval : ∀ c a, (((accepted (serveRequests rateLimit rs).log c).filter
    (fun t => decide (a ≤ t ∧ t ≤ a + 60))).length : ℤ) ≤ max rateLimit 0
  /-- Without a request that is refused the later ones are answered the same. -/
  refused : ∀ before r after, rs = before ++ r :: after →
    (rateLimited rateLimit (serveRequests rateLimit before).windows r.client r.time).1 = true →
    ∃ later, (serveRequests rateLimit rs).log
        = (serveRequests rateLimit before).log ++ (r, false) :: later ∧
      (serveRequests rateLimit (before ++ after)).log
        = (serveRequests rateLimit before).log ++ later
  /-- The window of a consumer is sorted, and no longer than the limit. -/
  window : ∀ c, ((serveRequests rateLimit rs).windows c).Pairwise (· ≤ ·) ∧
    (((serveRequests rateLimit rs).windows c).length : ℤ) ≤ max rateLimit 0
  /-- A consumer is answered as if the others had sent nothing. -/
  alone : ∀ c, (serveRequests rateLimit rs).log.filter (fun e => decide (e.1.client = c))
    = (serveRequests rateLimit (rs.filter (fun r => decide (r.client = c)))).log

/-- **The limiter is an exact sliding window**, for every limit and every sequence of requests in
the order of their times. A limit of 0 or below refuses everything.

It is proved of the sliding-window limiter in general, and holds of `_rate_limited` since it is
one. -/
theorem rateLimited_exact (rateLimit : ℤ) (rs : List (Request ℤ ℚ)) (h : InOrder rs) :
    ExactWindow rateLimit rs where
  accepts := by
    -- what was accepted and is recent is all that the queue has
    rintro before r after rfl
    rw [rateLimited_fst, Bool.not_eq_false', serveRequests_eq]
    exact SlidingWindow.accepts_iff h.left_concat
  interval := by
    intro c a
    rw [serveRequests_eq]
    exact SlidingWindow.length_interval_le h c a
  refused := by
    -- a request that is refused leaves no trace
    rintro before r after rfl h_refused
    rw [rateLimited_fst, Bool.not_eq_true'] at h_refused
    simp only [serveRequests_eq]
    exact SlidingWindow.log_of_refused h h_refused
  window := by
    intro c
    rw [serveRequests_eq]
    exact SlidingWindow.windows_bounded h c
  alone := by
    intro c
    rw [serveRequests_eq, serveRequests_eq]
    exact (SlidingWindow.log_filter rs c).2

/-- Two requests of one consumer a minute apart, and one of another in between. -/
theorem rateLimited_exact_minute :
    ExactWindow 1 [⟨1, 0⟩, ⟨2, 30⟩, ⟨1, 60⟩] :=
  rateLimited_exact 1 [⟨1, 0⟩, ⟨2, 30⟩, ⟨1, 60⟩] (by unfold InOrder; decide)

-- a request a full minute later still counts the first one
example : (serveRequests 1 [⟨1, 0⟩, ⟨2, 30⟩, ⟨1, 60⟩, ⟨1, 61⟩]).log.map Prod.snd
    = [true, true, false, true] := by decide +kernel

/-! ### The middleware -/

/-- A row of `consumers` as `find_by_key_hash` returns it. -/
structure ConsumerRow where
  consumer : Consumer
  enabled : Bool

/-- A request as `auth_middleware` reads it: its path, its `X-API-Key`, the row found for the
key, and the clock. -/
structure AuthRequest where
  path : String
  apiKey : PyStr
  row : Option ConsumerRow
  now : ℚ

/-- What the closure of `make_auth_middleware` keeps. A consumer that `last_seen_marked` does not
name is marked at 0, and one without a queue has an empty one. -/
structure AuthState where
  requestTimes : ℤ → List ℚ
  lastSeenMarked : ℤ → ℚ

/-- What becomes of a request: a handler gets it, with its consumer unless the path is public,
or it is answered. -/
inductive AuthResult where
  | handler (consumer : Option Consumer)
  | response (r : Response)

/-- The answer to a request over the limit. -/
def tooMany : Response := .error 429 "rate limit exceeded"

/-- `auth_middleware`. The hash of the key is taken of its UTF-8, which a surrogate does not have.
The update of `last_seen_at_ms` is best effort and not answered. -/
def authMiddleware (rateLimit : ℤ) (st : AuthState) (req : AuthRequest) :
    AuthResult × AuthState :=
  if req.path = "/v1/health" then (.handler none, st)
  else if req.apiKey = [] then (.response (.error 401 "missing X-API-Key"), st)
  else if (PyStr.encode req.apiKey).isNone then (.response .internalServerError, st)
  else
    match req.row with
    | none => (.response (.error 401 "invalid or disabled API key"), st)
    | some row =>
      if row.enabled = false then (.response (.error 401 "invalid or disabled API key"), st)
      else
        let (limited, requestTimes) :=
          rateLimited rateLimit st.requestTimes row.consumer.id req.now
        if limited then
          (.response tooMany, { st with requestTimes := requestTimes })
        else
          let marked :=
            if 60 ≤ req.now - st.lastSeenMarked row.consumer.id then
              Function.update st.lastSeenMarked row.consumer.id req.now
            else st.lastSeenMarked
          (.handler (some row.consumer), ⟨requestTimes, marked⟩)

/-- The consumer of a request that is authenticated: its path is not public, and its key has found
an enabled row. -/
def authenticated (req : AuthRequest) : Option Consumer :=
  if req.path = "/v1/health" ∨ req.apiKey = [] ∨ (PyStr.encode req.apiKey).isNone then none
  else (req.row.filter (fun row => row.enabled)).map (·.consumer)

/-- The request as `_rate_limited` sees it. -/
def AuthRequest.limited (req : AuthRequest) : Option (Request ℤ ℚ) :=
  (authenticated req).map (fun c => ⟨c.id, req.now⟩)

/-- **A request that is authenticated is put to `_rate_limited`**, and its handler gets it
unless it is refused. One that is not leaves the windows alone and reaches no handler with a
consumer. -/
theorem authMiddleware_cases (rateLimit : ℤ) (st : AuthState) (req : AuthRequest) :
    (authenticated req = none ∧ (authMiddleware rateLimit st req).2 = st ∧
      ∀ c, (authMiddleware rateLimit st req).1 ≠ .handler (some c)) ∨
    (∃ c, authenticated req = some c ∧
      (authMiddleware rateLimit st req).2.requestTimes
        = (rateLimited rateLimit st.requestTimes c.id req.now).2 ∧
      (authMiddleware rateLimit st req).1
        = if (rateLimited rateLimit st.requestTimes c.id req.now).1 then .response tooMany
          else .handler (some c)) := by
  unfold authMiddleware authenticated
  -- the checks before the limiter, in their order
  by_cases h_path : req.path = "/v1/health"
  · rw [if_pos h_path, if_pos (Or.inl h_path)]
    exact Or.inl ⟨rfl, rfl, fun c h => by simp at h⟩
  by_cases h_key : req.apiKey = []
  · rw [if_neg h_path, if_pos h_key, if_pos (Or.inr (Or.inl h_key))]
    exact Or.inl ⟨rfl, rfl, fun c h => by simp at h⟩
  by_cases h_encode : (PyStr.encode req.apiKey).isNone = true
  · rw [if_neg h_path, if_neg h_key, if_pos h_encode, if_pos (Or.inr (Or.inr h_encode))]
    exact Or.inl ⟨rfl, rfl, fun c h => by simp at h⟩
  rw [if_neg h_path, if_neg h_key, if_neg h_encode, if_neg (by tauto)]
  cases req.row with
  | none => exact Or.inl ⟨rfl, rfl, fun c h => by simp at h⟩
  | some row =>
    -- a disabled consumer is refused before its window is touched
    cases h_enabled : row.enabled with
    | false =>
      rw [Option.filter_some, h_enabled, if_neg Bool.false_ne_true]
      exact Or.inl ⟨rfl, by simp [h_enabled], fun c => by simp [h_enabled]⟩
    | true =>
      simp only [Bool.true_eq_false, if_false, Option.filter_some, h_enabled, if_true,
        Option.map_some]
      -- what is left is the answer of the limiter
      refine Or.inr ⟨row.consumer, rfl, ?_⟩
      cases (rateLimited rateLimit st.requestTimes row.consumer.id req.now).1 with
      | true => simp
      | false => simp

/-- The state after a sequence of requests. -/
def authRun (rateLimit : ℤ) (reqs : List AuthRequest) : AuthState :=
  reqs.foldl (fun st req => (authMiddleware rateLimit st req).2) ⟨fun _ => [], fun _ => 0⟩

/-- **The windows are those of the authenticated requests.** No other request counts, whatever key
it sends. -/
theorem requestTimes_authRun (rateLimit : ℤ) (reqs : List AuthRequest) :
    (authRun rateLimit reqs).requestTimes
      = (serveRequests rateLimit (reqs.filterMap AuthRequest.limited)).windows := by
  -- the last request is the one that changes the windows
  induction reqs using List.reverseRecOn with
  | nil => rfl
  | append_singleton reqs req ih =>
    have h_run : authRun rateLimit (reqs ++ [req])
        = (authMiddleware rateLimit (authRun rateLimit reqs) req).2 := List.foldl_append ..
    rw [h_run, List.filterMap_append]
    rcases authMiddleware_cases rateLimit (authRun rateLimit reqs) req with
      ⟨h_none, h_same, -⟩ | ⟨c, h_some, h_times, -⟩
    · have h_limited : [req].filterMap AuthRequest.limited = [] := by
        simp [AuthRequest.limited, h_none]
      rw [h_same, h_limited, List.append_nil, ih]
    · have h_limited : [req].filterMap AuthRequest.limited = [⟨c.id, req.now⟩] := by
        simp [AuthRequest.limited, h_some]
      have h_serve : ∀ rs : List (Request ℤ ℚ), serveRequests rateLimit (rs ++ [⟨c.id, req.now⟩])
          = serveRequest rateLimit (serveRequests rateLimit rs) ⟨c.id, req.now⟩ :=
        fun _ => List.foldl_append ..
      rw [h_times, h_limited, h_serve, ih]
      rfl

/-- An authenticated request gets `429` exactly when the limit is reached in the minute up to it.
The order is only needed of the requests that are authenticated. -/
theorem authMiddleware_answers {rateLimit : ℤ} {reqs : List AuthRequest} {req : AuthRequest}
    {c : Consumer} (h_auth : authenticated req = some c)
    (h_order : InOrder ((reqs ++ [req]).filterMap AuthRequest.limited)) :
    (authMiddleware rateLimit (authRun rateLimit reqs) req).1 = .response tooMany ↔
      rateLimit ≤ (recent 60
        (accepted (serveRequests rateLimit (reqs.filterMap AuthRequest.limited)).log c.id)
        req.now).length := by
  have h_limited : [req].filterMap AuthRequest.limited = [⟨c.id, req.now⟩] := by
    simp [AuthRequest.limited, h_auth]
  rw [List.filterMap_append, h_limited] at h_order
  have h_accepts := @SlidingWindow.accepts_iff _ _ _ _ _ 60 rateLimit _ _ _ h_order
  rcases authMiddleware_cases rateLimit (authRun rateLimit reqs) req with
    ⟨h_none, -⟩ | ⟨c', h_some, -, h_answer⟩
  · exact absurd (h_none.symm.trans h_auth) (by simp)
  · obtain rfl := Option.some.inj (h_some.symm.trans h_auth)
    have h_fst := rateLimited_fst rateLimit (reqs.filterMap AuthRequest.limited) ⟨c'.id, req.now⟩
    have h_refused : (authMiddleware rateLimit (authRun rateLimit reqs) req).1 = .response tooMany ↔
        ¬ SlidingWindow.accepts 60 rateLimit (reqs.filterMap AuthRequest.limited)
          ⟨c'.id, req.now⟩ = true := by
      rw [h_answer, requestTimes_authRun, h_fst]
      cases SlidingWindow.accepts 60 rateLimit (reqs.filterMap AuthRequest.limited)
        ⟨c'.id, req.now⟩ with
      | true => simp
      | false => simp
    rw [h_refused, h_accepts, not_lt, serveRequests_eq]

end Auth
end FingerprintHub
