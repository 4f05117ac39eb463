import FingerprintHub.Api.RateLimit
import FingerprintHub.Api.RequestBody
import FingerprintHub.Api.Service
import FingerprintHub.Api.Stats

/-!
# The application

`create_app` with its routes and its middlewares, as a system of steps. A request is served in
stages, and between any two of them other requests and the operator may act: its key is looked
up, the limiter lets it through, `last_seen_at_ms` is touched when that is due, its handler runs
its transaction, and a DELETE runs a second one. `App` is the state between these steps.

The router of aiohttp takes the first route that has the path and the method. A path is the list
of its segments.

`AppStep.service` says that a step is one of the service or leaves the service alone, so that
what is known about runs of the service is known about runs of the application.
-/

namespace FingerprintHub
namespace Api

open Auth (AuthState rateLimited tooMany)
open Base64 (Bytes)
open FieldEncryption (AesGcm Keyring Nonce)

/-! ### Routes -/

/-- The methods the router tells apart. -/
inductive Method where
  | get
  | head
  | post
  | delete
  | other
  deriving DecidableEq, Repr

/-- The handlers that `create_app` registers. -/
inductive Endpoint where
  | health
  | syncFingerprints
  | stats
  | contributeFingerprint
  | listFingerprints
  | reportHit
  | flagFingerprint
  | getFingerprint
  | deleteFingerprint
  deriving DecidableEq, Repr

/-- A segment of a route: a text, or `{id}`, which is the only variable that the routes have. -/
inductive Part where
  | text (s : String)
  | id
  deriving DecidableEq, Repr

/-- `{id}` stands for the pattern `[^{}/]+`. A path is cut at its slashes, so that a segment has
none. -/
def Part.takes : Part → PyStr → Bool
  | .text s, segment => segment = PyStr.ofString s
  | .id, segment =>
    segment ≠ [] && segment.all (fun c => c ≠ CodePoint.ofChar '{' && c ≠ CodePoint.ofChar '}')

/-- A call of `add_get`, `add_post` or `add_delete`. -/
structure Route where
  method : Method
  path : List Part
  endpoint : Endpoint

/-- The routes of `create_app`, in their order. A static route is registered before the one with
`{id}` that would take its path as well. -/
def routes : List Route :=
  [⟨.get, [.text "v1", .text "health"], .health⟩,
    ⟨.get, [.text "v1", .text "fingerprints", .text "sync"], .syncFingerprints⟩,
    ⟨.get, [.text "v1", .text "fingerprints", .text "stats"], .stats⟩,
    ⟨.post, [.text "v1", .text "fingerprints"], .contributeFingerprint⟩,
    ⟨.get, [.text "v1", .text "fingerprints"], .listFingerprints⟩,
    ⟨.post, [.text "v1", .text "fingerprints", .id, .text "hit"], .reportHit⟩,
    ⟨.post, [.text "v1", .text "fingerprints", .id, .text "flag"], .flagFingerprint⟩,
    ⟨.get, [.text "v1", .text "fingerprints", .id], .getFingerprint⟩,
    ⟨.delete, [.text "v1", .text "fingerprints", .id], .deleteFingerprint⟩]

namespace Route

/-- The route has the path. -/
def takesPath (r : Route) (path : List PyStr) : Bool :=
  r.path.length = path.length && (r.path.zip path).all (fun p => p.1.takes p.2)

/-- The route has the method: `add_get` registers HEAD as well. -/
def takesMethod (r : Route) (m : Method) : Bool := r.method = m || (r.method = .get && m = .head)

/-- `match_info["id"]`. -/
def segment (r : Route) (path : List PyStr) : PyStr :=
  (((r.path.zip path).find? (fun p => p.1 = .id)).map Prod.snd).getD []

end Route

/-- The handler of a request, with the segment that stands for `{id}`, or the status that the
router answers: 405 if some route has the path, and 404 if none does. -/
def resolve (m : Method) (path : List PyStr) : Except ℕ (Endpoint × PyStr) :=
  match routes.find? (fun r => r.takesPath path && r.takesMethod m) with
  | some r => .ok (r.endpoint, r.segment path)
  | none => if routes.any (fun r => r.takesPath path) then .error 405 else .error 404

-- a static route comes before `{id}`, but only with its own method
example : resolve .get [PyStr.ofString "v1", PyStr.ofString "fingerprints", PyStr.ofString "sync"]
    = .ok (.syncFingerprints, []) := by decide

example : resolve .delete
      [PyStr.ofString "v1", PyStr.ofString "fingerprints", PyStr.ofString "sync"]
    = .ok (.deleteFingerprint, PyStr.ofString "sync") := by decide

example : resolve .get [PyStr.ofString "v1", PyStr.ofString "fingerprints", PyStr.ofString "\x7b"]
    = .error 404 := by decide

/-! ### Requests -/

/-- A request: `apiKey` is empty without an `X-API-Key`, which the middleware treats alike. -/
structure HttpRequest where
  method : Method
  path : List PyStr
  query : Query
  apiKey : PyStr
  body : Bytes

/-- `request.path in _PUBLIC_PATHS`. The comparison is one of whole paths, and not of segments. -/
def HttpRequest.isPublic (req : HttpRequest) : Bool :=
  req.path.flatMap (fun segment => CodePoint.ofChar '/' :: segment) = PyStr.ofString "/v1/health"

/-- A handler of a public path: `health`, or the answer of the router. The text of the latter is
left out. -/
def servePublic (req : HttpRequest) : Response :=
  match resolve req.method req.path with
  | .ok (.health, _) => .ok (.obj [("status", .str "ok"), ("db", .bool true)])
  | .ok _ => .internalServerError
  | .error status => ⟨status, none⟩

section Stages

variable (sha256 : Bytes → String)

/-- `auth_middleware` up to the lookup: the row that has the hash of the key, if there is one. A
key that cannot be encoded raises. -/
def lookupKey (req : HttpRequest) (cs : Consumers) : Except Response (Option ConsumerRecord) :=
  if req.apiKey = [] then .error (.error 401 "missing X-API-Key")
  else
    match hashApiKey sha256 req.apiKey with
    | none => .error .internalServerError
    | some keyHash => .ok (cs.findByKeyHash keyHash)

/-- `auth_middleware` after the lookup: the row of the consumer, and whether `last_seen_at_ms` is
to be touched. A disabled consumer is refused before the limiter counts the request, and a request
that is limited is not marked as seen. -/
def authenticate (rateLimit : ℤ) (st : AuthState) (row : Option ConsumerRecord) (now : ℚ) :
    Except Response (ConsumerRecord × Bool) × AuthState :=
  match row with
  | none => (.error (.error 401 "invalid or disabled API key"), st)
  | some record =>
    if record.enabled = false then (.error (.error 401 "invalid or disabled API key"), st)
    else
      let (limited, requestTimes) := rateLimited rateLimit st.requestTimes record.id now
      if limited then (.error tooMany, { st with requestTimes := requestTimes })
      -- the mark is set when the touch is decided, and not when it is done
      else if 60 ≤ now - st.lastSeenMarked record.id then
        (.ok (record, true), ⟨requestTimes, Function.update st.lastSeenMarked record.id now⟩)
      else (.ok (record, false), ⟨requestTimes, st.lastSeenMarked⟩)

end Stages

section Handlers

variable (rt : Runtime) (gcm : AesGcm) (config : ServiceConfig)

/-- POST `/v1/fingerprints` with these bytes. -/
def postContribute (ring : Keyring) (nonces : ℕ → Nonce) (c : Consumer) (bytes : Bytes) (nowMs : ℤ)
    (s : Store) : Response × Store :=
  requireScope c .write (·, s) <|
    withJsonBody rt bytes s fun body => contributeFingerprint gcm ring nonces c body nowMs s

/-- What a handler comes to: an answer with the store it leaves, or a deletion that is allowed and
has a second transaction before it. -/
inductive Outcome where
  | answered (response : Response) (s : Store)
  | deleting (id : ℤ)

/-- The handler of a request of a consumer. The handlers that read return the store they were
given, and so does every answer of the router. -/
def serve (ring : Keyring) (nonces : ℕ → Nonce) (nowMs : ℤ) (req : HttpRequest) (c : Consumer)
    (s : Store) (cs : Consumers) : Outcome :=
  match resolve req.method req.path with
  | .error status => .answered ⟨status, none⟩ s
  -- a path that the router resolves to `health` and is not public
  | .ok (.health, _) => .answered (servePublic req) s
  | .ok (.syncFingerprints, _) => .answered (syncFingerprints config c req.query s) s
  | .ok (.stats, _) => .answered (getStats c s cs) s
  | .ok (.contributeFingerprint, _) =>
    .answered (postContribute rt gcm ring nonces c req.body nowMs s).1
      (postContribute rt gcm ring nonces c req.body nowMs s).2
  | .ok (.listFingerprints, _) => .answered (listFingerprints gcm ring config c req.query s) s
  | .ok (.reportHit, segment) =>
    .answered (postHit rt gcm ring nonces c segment req.body nowMs s).1
      (postHit rt gcm ring nonces c segment req.body nowMs s).2
  | .ok (.flagFingerprint, segment) =>
    .answered (postFlag rt gcm ring config nonces c segment req.body nowMs s).1
      (postFlag rt gcm ring config nonces c segment req.body nowMs s).2
  | .ok (.getFingerprint, segment) => .answered (getFingerprint gcm ring c segment s) s
  -- the check is a transaction of its own
  | .ok (.deleteFingerprint, segment) =>
    match deleteCheck c segment s with
    | .error response => .answered response s
    | .ok id => .deleting id

end Handlers

/-! ### Steps -/

/-- A request that the limiter has let through, and whether a touch is due before its handler. The
record is the row as it was looked up; the table may say otherwise by now. -/
structure Admitted where
  req : HttpRequest
  record : ConsumerRecord
  touch : Bool

/-- The state of the application: the tables, what the process keeps in memory, and the requests
between their stages. A DELETE between its transactions is in `service.allowed`. Requests that are
in the same stage may go on in any order. -/
structure App where
  consumers : Consumers
  service : Service
  auth : AuthState
  lookedUp : List (HttpRequest × Option ConsumerRecord)
  admitted : List Admitted

/-- The application on an empty database, with nothing remembered. -/
def App.start : App := ⟨.empty, .start, ⟨fun _ => [], fun _ => 0⟩, [], []⟩

/-- A step: the operator mints, disables or enables a consumer or runs `apply_retention`, or a
request is served a stage further. -/
inductive AppEvent where
  | create (name : PyStr) (scopes : List PyStr) (token : String) (nowMs : ℤ)
  | setEnabled (name : String) (enabled : Bool)
  | retention (p : RetentionPolicy) (nowMs : ℤ) (dryRun : Bool)
  | arrive (req : HttpRequest)
  | authenticate (req : HttpRequest) (row : Option ConsumerRecord) (now : ℚ)
  | touch (record : ConsumerRecord) (nowMs : ℤ)
  | touchFails (record : ConsumerRecord)
  | handle (req : HttpRequest) (record : ConsumerRecord) (ring : Keyring) (nonces : ℕ → Nonce)
      (nowMs : ℤ)
  | softDelete (c : Consumer) (id nowMs : ℤ)

/-- The call on `consumers` that a step makes. -/
def AppEvent.consumerOp : AppEvent → Option ConsumerOp
  | .create name scopes token nowMs => some (.create name scopes token nowMs)
  | .setEnabled name enabled => some (.setEnabled name enabled)
  | .touch record nowMs => some (.touchLastSeen record.id nowMs)
  | _ => none

section Steps

variable (sha256 : Bytes → String) (rt : Runtime) (gcm : AesGcm) (config : ServiceConfig)
  (rateLimit : ℤ)

/-- One step, with the answer it gives. The clock, the nonces and the keyring of a step are
whatever they are: a step is possible with any of them. A touch may fail, and its request goes on.
-/
inductive AppStep (a : App) : AppEvent → Option Response → App → Prop
  | create (name : PyStr) (scopes : List PyStr) (token : String) (nowMs : ℤ) :
      AppStep a (.create name scopes token nowMs) none
        { a with consumers := (createConsumer sha256 name scopes token nowMs a.consumers).2 }
  | setEnabled (name : String) (enabled : Bool) :
      AppStep a (.setEnabled name enabled) none
        { a with consumers := a.consumers.setEnabled name enabled }
  | retention (p : RetentionPolicy) (nowMs : ℤ) (dryRun : Bool) :
      AppStep a (.retention p nowMs dryRun) none
        { a with
          service := { a.service with
            store := (a.service.store.applyRetention p nowMs dryRun).2 } }
  | isPublic {req : HttpRequest} (h_public : req.isPublic = true) :
      AppStep a (.arrive req) (some (servePublic req)) a
  | noKey {req : HttpRequest} (h_public : req.isPublic = false) {response : Response}
      (h_lookup : lookupKey sha256 req a.consumers = .error response) :
      AppStep a (.arrive req) (some response) a
  | lookup {req : HttpRequest} (h_public : req.isPublic = false) {row : Option ConsumerRecord}
      (h_lookup : lookupKey sha256 req a.consumers = .ok row) :
      AppStep a (.arrive req) none { a with lookedUp := (req, row) :: a.lookedUp }
  | refuse {before after : List (HttpRequest × Option ConsumerRecord)} {req : HttpRequest}
      {row : Option ConsumerRecord} (h_at : a.lookedUp = before ++ (req, row) :: after) {now : ℚ}
      {response : Response} (h_auth : (authenticate rateLimit a.auth row now).1 = .error response) :
      AppStep a (.authenticate req row now) (some response)
        { a with lookedUp := before ++ after, auth := (authenticate rateLimit a.auth row now).2 }
  | authenticate {before after : List (HttpRequest × Option ConsumerRecord)} {req : HttpRequest}
      {row : Option ConsumerRecord} (h_at : a.lookedUp = before ++ (req, row) :: after) {now : ℚ}
      {record : ConsumerRecord} {touch : Bool}
      (h_auth : (authenticate rateLimit a.auth row now).1 = .ok (record, touch)) :
      AppStep a (.authenticate req row now) none
        { a with
          lookedUp := before ++ after
          auth := (authenticate rateLimit a.auth row now).2
          admitted := ⟨req, record, touch⟩ :: a.admitted }
  | touch {before after : List Admitted} {req : HttpRequest} {record : ConsumerRecord}
      (h_at : a.admitted = before ++ ⟨req, record, true⟩ :: after) (nowMs : ℤ) :
      AppStep a (.touch record nowMs) none
        { a with
          consumers := a.consumers.touchLastSeen record.id nowMs
          admitted := before ++ ⟨req, record, false⟩ :: after }
  | touchFails {before after : List Admitted} {req : HttpRequest} {record : ConsumerRecord}
      (h_at : a.admitted = before ++ ⟨req, record, true⟩ :: after) :
      AppStep a (.touchFails record) none
        { a with admitted := before ++ ⟨req, record, false⟩ :: after }
  | answer {before after : List Admitted} {req : HttpRequest} {record : ConsumerRecord}
      (h_at : a.admitted = before ++ ⟨req, record, false⟩ :: after) (ring : Keyring)
      (nonces : ℕ → Nonce) (nowMs : ℤ) {response : Response} {s : Store}
      (h_serve : serve rt gcm config ring nonces nowMs req record.consumer a.service.store
        a.consumers = .answered response s) :
      AppStep a (.handle req record ring nonces nowMs) (some response)
        { a with admitted := before ++ after, service := { a.service with store := s } }
  | allowDelete {before after : List Admitted} {req : HttpRequest} {record : ConsumerRecord}
      (h_at : a.admitted = before ++ ⟨req, record, false⟩ :: after) (ring : Keyring)
      (nonces : ℕ → Nonce) (nowMs : ℤ) {id : ℤ}
      (h_serve : serve rt gcm config ring nonces nowMs req record.consumer a.service.store
        a.consumers = .deleting id) :
      AppStep a (.handle req record ring nonces nowMs) none
        { a with
          admitted := before ++ after
          service := { a.service with allowed := (record.consumer, id) :: a.service.allowed } }
  | softDelete {c : Consumer} {id : ℤ} (h_allowed : (c, id) ∈ a.service.allowed) (nowMs : ℤ) :
      AppStep a (.softDelete c id nowMs) (some deleted)
        { a with
          service :=
            { store := (a.service.store.softDelete id nowMs).2
              allowed := a.service.allowed.erase (c, id) } }

/-- Any number of steps, in any order. -/
def AppReaches : App → App → Prop :=
  Relation.ReflTransGen fun a b => ∃ e r, AppStep sha256 rt gcm config rateLimit a e r b

end Steps

/-! ### The middleware -/

/-- The row as `auth_middleware` sees it: the consumer, and whether it is enabled. -/
def ConsumerRecord.row (r : ConsumerRecord) : Auth.ConsumerRow := ⟨r.consumer, r.enabled⟩

/-- **The stages are `auth_middleware`**, for a path that is not public and a key that can be
hashed. What is said of the middleware as one function holds of its stages by this, whatever
happens between them. -/
theorem authMiddleware_eq_authenticate (rateLimit : ℤ) (st : AuthState) {path : String}
    {apiKey : PyStr} (row : Option ConsumerRecord) (now : ℚ) (h_path : path ≠ "/v1/health")
    (h_key : apiKey ≠ []) (h_encode : PyStr.encode apiKey ≠ none) :
    Auth.authMiddleware rateLimit st ⟨path, apiKey, row.map ConsumerRecord.row, now⟩ =
      (match (authenticate rateLimit st row now).1 with
        | .error response => .response response
        | .ok (record, _) => .handler (some record.consumer),
        (authenticate rateLimit st row now).2) := by
  have h_some : ¬ (PyStr.encode apiKey).isNone = true := by simpa using h_encode
  unfold Auth.authMiddleware authenticate
  dsimp only
  rw [if_neg h_path, if_neg h_key, if_neg h_some]
  cases row with
  | none => rfl
  | some record =>
    simp only [Option.map_some, ConsumerRecord.row, ConsumerRecord.consumer]
    -- both look at the flag, then at the limiter, and then at the mark
    by_cases h_enabled : record.enabled = false
    · rw [if_pos h_enabled, if_pos h_enabled]
    · rw [if_neg h_enabled, if_neg h_enabled]
      cases (rateLimited rateLimit st.requestTimes record.id now).1 with
      | true => rfl
      | false =>
        by_cases h_due : 60 ≤ now - st.lastSeenMarked record.id
        · simp [h_due]
        · simp [h_due]

/-- The limiter lets through an enabled consumer only, and the one that was looked up. -/
theorem authenticate_ok {rateLimit : ℤ} {st : AuthState} {row : Option ConsumerRecord} {now : ℚ}
    {record : ConsumerRecord} {touch : Bool}
    (h : (authenticate rateLimit st row now).1 = .ok (record, touch)) :
    row = some record ∧ record.enabled = true := by
  unfold authenticate at h
  split at h
  · exact absurd h (by simp)
  · next r =>
    by_cases h_enabled : r.enabled = false
    · rw [if_pos h_enabled] at h
      exact absurd h (by simp)
    · rw [if_neg h_enabled] at h
      dsimp only at h
      split at h
      · exact absurd h (by simp)
      · split at h
        · obtain ⟨rfl, -⟩ := Prod.mk.inj (Except.ok.inj h)
          exact ⟨rfl, by simpa using h_enabled⟩
        · obtain ⟨rfl, -⟩ := Prod.mk.inj (Except.ok.inj h)
          exact ⟨rfl, by simpa using h_enabled⟩

/-- A disabled consumer is refused, and nothing is remembered of it. -/
theorem authenticate_disabled {rateLimit : ℤ} {st : AuthState} {record : ConsumerRecord} {now : ℚ}
    (h : record.enabled = false) :
    authenticate rateLimit st (some record) now =
      (.error (.error 401 "invalid or disabled API key"), st) := by
  unfold authenticate
  exact if_pos h

end Api
end FingerprintHub
