import FingerprintHub.Api.App
import FingerprintHub.Api.Authority
import FingerprintHub.Api.ReadBack
import FingerprintHub.Api.Reports
import FingerprintHub.Library.PyJsonDumps

/-!
# Who gets to the tables

`AppStep.service` says that a step of the application is one of the service, sent by the
consumer whose key was looked up, or leaves the service alone, so that what is known about runs
of the service is known about runs of the application.

`changes_need_keys` is the authority over rows as a client sees it: behind every change of a row
stands a run of retention, or a key that found an enabled consumer when it was looked up.
`failures_change_nothing` says that no answer of an error comes with a write.
-/

namespace FingerprintHub
namespace Api

open Base64 (Bytes)
open FieldEncryption (AesGcm Keyring Nonce)

variable {sha256 : Bytes → String} {rt : Runtime} {gcm : AesGcm} {config : ServiceConfig}
  {rateLimit : ℤ}

/-! ### What a handler does -/

section Handlers

variable {ring : Keyring} {nonces : ℕ → Nonce} {nowMs : ℤ} {req : HttpRequest} {c : Consumer}
  {s s' : Store} {cs : Consumers} {segment : PyStr} {bytes : Bytes} {response : Response}

/-- A body is too large, or it is what the handler gets. In the first case the store is left
alone. -/
theorem withJsonBody_cases (k : Body → Response × Store) :
    (∃ response, withJsonBody rt bytes s k = (response, s)) ∨
      ∃ body, withJsonBody rt bytes s k = k body := by
  unfold withJsonBody
  split
  · exact Or.inl ⟨_, rfl⟩
  · exact Or.inr ⟨_, rfl⟩

/-- Each of the three requests with a body either ends before its handler, a contribution -/
theorem postContribute_cases :
    (∃ response, postContribute rt gcm ring nonces c bytes nowMs s = (response, s)) ∨
      ∃ body, postContribute rt gcm ring nonces c bytes nowMs s =
        contributeFingerprint gcm ring nonces c body nowMs s := by
  unfold postContribute requireScope
  split
  · exact withJsonBody_cases _
  · exact Or.inl ⟨_, rfl⟩

/-- like a hit, whose path is read before its body, -/
theorem postHit_cases :
    (∃ response, postHit rt gcm ring nonces c segment bytes nowMs s = (response, s)) ∨
      ∃ body, postHit rt gcm ring nonces c segment bytes nowMs s =
        reportHit gcm ring nonces c segment body nowMs s := by
  unfold postHit requireScope
  split
  · split
    · exact Or.inl ⟨_, rfl⟩
    · exact withJsonBody_cases _
  · exact Or.inl ⟨_, rfl⟩

/-- and a flag, or it is the handler on some body. -/
theorem postFlag_cases :
    (∃ response, postFlag rt gcm ring config nonces c segment bytes nowMs s = (response, s)) ∨
      ∃ body, postFlag rt gcm ring config nonces c segment bytes nowMs s =
        flagFingerprint gcm ring config nonces c segment body nowMs s := by
  unfold postFlag requireScope
  split
  · split
    · exact Or.inl ⟨_, rfl⟩
    · exact withJsonBody_cases _
  · exact Or.inl ⟨_, rfl⟩

/-- **A handler that answers** leaves the store alone, or it is one of the three that write. The
answer is the one of the call: no handler looks at what it has written again. -/
theorem serve_answered
    (h : serve rt gcm config ring nonces nowMs req c s cs = .answered response s') :
    s' = s ∨
    (∃ body, (response, s') = contributeFingerprint gcm ring nonces c body nowMs s) ∨
    (∃ segment body, (response, s') = reportHit gcm ring nonces c segment body nowMs s) ∨
    ∃ segment body, (response, s') = flagFingerprint gcm ring config nonces c segment body nowMs s
    := by
  unfold serve at h
  split at h
  · -- no route, the public one, the feed and the totals
    exact Or.inl (Outcome.answered.inj h).2.symm
  · exact Or.inl (Outcome.answered.inj h).2.symm
  · exact Or.inl (Outcome.answered.inj h).2.symm
  · exact Or.inl (Outcome.answered.inj h).2.symm
  · -- a contribution
    obtain ⟨rfl, rfl⟩ := Outcome.answered.inj h
    rcases @postContribute_cases rt gcm ring nonces nowMs c s req.body with
      ⟨r, h_post⟩ | ⟨body, h_post⟩
    · exact Or.inl (by rw [h_post])
    · exact Or.inr (Or.inl ⟨body, h_post⟩)
  · exact Or.inl (Outcome.answered.inj h).2.symm
  · next segment _ =>
    -- a hit
    obtain ⟨rfl, rfl⟩ := Outcome.answered.inj h
    rcases @postHit_cases rt gcm ring nonces nowMs c s segment req.body with
      ⟨r, h_post⟩ | ⟨body, h_post⟩
    · exact Or.inl (by rw [h_post])
    · exact Or.inr (Or.inr (Or.inl ⟨segment, body, h_post⟩))
  · next segment _ =>
    -- a flag
    obtain ⟨rfl, rfl⟩ := Outcome.answered.inj h
    rcases @postFlag_cases rt gcm config ring nonces nowMs c s segment req.body with
      ⟨r, h_post⟩ | ⟨body, h_post⟩
    · exact Or.inl (by rw [h_post])
    · exact Or.inr (Or.inr (Or.inr ⟨segment, body, h_post⟩))
  · exact Or.inl (Outcome.answered.inj h).2.symm
  · -- a deletion answers only when it is refused
    split at h
    · exact Or.inl (Outcome.answered.inj h).2.symm
    · exact absurd h (by simp)

/-- A deletion that is allowed has passed the ownership check. -/
theorem serve_deleting {id : ℤ}
    (h : serve rt gcm config ring nonces nowMs req c s cs = .deleting id) :
    ∃ segment, deleteCheck c segment s = .ok id := by
  unfold serve at h
  split at h <;> try exact absurd h (by simp)
  next segment _ =>
  split at h
  · exact absurd h (by simp)
  · next id' h_check =>
    obtain rfl := Outcome.deleting.inj h
    exact ⟨segment, h_check⟩

end Handlers

/-! ### Steps of the service -/

/-- The consumer whose request a step is about. -/
def AppEvent.consumer : AppEvent → Option Consumer
  | .handle _ record _ _ _ => some record.consumer
  | .softDelete c _ _ => some c
  | _ => none

section Steps

variable {a b : App} {e : AppEvent} {answer : Option Response}

/-- The step makes the transaction: for the same consumer, and a run of retention only if it is
one itself. -/
structure AppEvent.Makes (e : AppEvent) (ev : Event) : Prop where
  consumer : ev.consumer = e.consumer
  retention : ∀ p nowMs dryRun, ev = .retention p nowMs dryRun → e = .retention p nowMs dryRun

/-- A transaction of a request is for its consumer, and is no run of retention. -/
theorem AppEvent.Makes.of_request {e : AppEvent} {ev : Event} {c : Consumer}
    (h_ev : ev.consumer = some c) (h_e : e.consumer = some c) : e.Makes ev where
  consumer := h_ev.trans h_e.symm
  retention := by
    rintro p nowMs dryRun rfl
    exact absurd h_ev (by simp [Event.consumer])

/-- **A step of the application leaves the service alone, or makes one of its transactions.** The
stages before the handler only touch `consumers` and the memory of the process. -/
theorem AppStep.service (h : AppStep sha256 rt gcm config rateLimit a e answer b) :
    b.service = a.service ∨ ∃ ev, Step gcm config a.service ev b.service ∧ e.Makes ev := by
  cases h with
  | create => exact Or.inl rfl
  | setEnabled => exact Or.inl rfl
  | retention p nowMs dryRun =>
    refine Or.inr ⟨_, .retention p nowMs dryRun, rfl, ?_⟩
    rintro p' nowMs' dryRun' h_eq
    obtain ⟨rfl, rfl, rfl⟩ := Event.retention.inj h_eq
    rfl
  | isPublic => exact Or.inl rfl
  | noKey => exact Or.inl rfl
  | lookup => exact Or.inl rfl
  | refuse => exact Or.inl rfl
  | authenticate => exact Or.inl rfl
  | touch => exact Or.inl rfl
  | touchFails => exact Or.inl rfl
  -- the handler of a request, which reads or is one of three
  | answer h_at ring nonces nowMs h_serve =>
    rcases serve_answered h_serve with rfl | ⟨body, h_call⟩ | ⟨segment, body, h_call⟩ |
      ⟨segment, body, h_call⟩
    · exact Or.inl rfl
    · obtain ⟨-, rfl⟩ := Prod.mk.inj h_call
      exact Or.inr ⟨_, .contribute ring nonces _ body nowMs, .of_request rfl rfl⟩
    · obtain ⟨-, rfl⟩ := Prod.mk.inj h_call
      exact Or.inr ⟨_, .reportHit ring nonces _ segment body nowMs, .of_request rfl rfl⟩
    · obtain ⟨-, rfl⟩ := Prod.mk.inj h_call
      exact Or.inr ⟨_, .flag ring nonces _ segment body nowMs, .of_request rfl rfl⟩
  -- the two transactions of a deletion
  | allowDelete h_at ring nonces nowMs h_serve =>
    obtain ⟨segment, h_check⟩ := serve_deleting h_serve
    exact Or.inr ⟨_, .deleteAllowed h_check, .of_request rfl rfl⟩
  | softDelete h_allowed nowMs => exact Or.inr ⟨_, .softDelete h_allowed nowMs, .of_request rfl rfl⟩

/-- A run of the application is one of the service, with steps left out. -/
theorem AppReaches.service (h : AppReaches sha256 rt gcm config rateLimit a b) :
    Reaches gcm config a.service b.service := by
  induction h with
  | refl => exact .refl
  | tail _ h_step ih =>
    obtain ⟨e, answer, h_step⟩ := h_step
    rcases h_step.service with h_same | ⟨ev, h_ev, -⟩
    · rw [h_same]
      exact ih
    · exact ih.tail ⟨ev, h_ev⟩

/-- A step is at most one call on `consumers`, and `consumerOp` says which. -/
theorem AppStep.consumers (h : AppStep sha256 rt gcm config rateLimit a e answer b) :
    b.consumers = (e.consumerOp.map (fun op => op.apply sha256 a.consumers)).getD a.consumers := by
  cases h with
  | _ => rfl

/-- A step keeps `consumers` well formed, and the rows that are there keep their keys, -/
theorem AppStep.consumers_wf (h : AppStep sha256 rt gcm config rateLimit a e answer b)
    (h_wf : a.consumers.Wf) : b.consumers.Wf ∧ Consumers.Keeps a.consumers b.consumers := by
  rw [h.consumers]
  cases e.consumerOp with
  | none => exact ⟨h_wf, .refl _⟩
  | some op => exact ⟨h_wf.apply op, h_wf.keeps op⟩

/-- and so does a run. -/
theorem AppReaches.consumers_wf (h : AppReaches sha256 rt gcm config rateLimit a b)
    (h_wf : a.consumers.Wf) : b.consumers.Wf ∧ Consumers.Keeps a.consumers b.consumers := by
  induction h with
  | refl => exact ⟨h_wf, .refl _⟩
  | tail _ h_step ih =>
    obtain ⟨e, answer, h_step⟩ := h_step
    obtain ⟨h_mid, h_keeps⟩ := ih
    obtain ⟨h_last, h_keeps'⟩ := h_step.consumers_wf h_mid
    exact ⟨h_last, h_keeps.trans h_keeps'⟩

/-- Every run leaves both tables well formed. -/
theorem AppReaches.wf (h : AppReaches sha256 rt gcm config rateLimit .start a) :
    a.service.store.Wf ∧ a.consumers.Wf :=
  ⟨Reaches.wf h.service .empty, (h.consumers_wf .empty).1⟩

end Steps

/-! ### Where a record comes from -/

section Found

variable (sha256 rt gcm config rateLimit)

/-- Earlier in the run, the key of the request was looked up and the record was found. The record
is what the table said at that moment. -/
def Found (a : App) (req : HttpRequest) (record : ConsumerRecord) : Prop :=
  ∃ a₀, AppReaches sha256 rt gcm config rateLimit .start a₀ ∧
    AppReaches sha256 rt gcm config rateLimit a₀ a ∧
    lookupKey sha256 req a₀.consumers = .ok (some record)

/-- Every request in flight carries a record that was found, which is enabled once the limiter has
let the request through. So does a deletion between its two transactions, though it is only known
by its consumer there. -/
structure Sound (a : App) : Prop where
  lookedUp : ∀ req record, (req, some record) ∈ a.lookedUp →
    Found sha256 rt gcm config rateLimit a req record
  admitted : ∀ x ∈ a.admitted, x.record.enabled = true ∧
    Found sha256 rt gcm config rateLimit a x.req x.record
  allowed : ∀ c id, (c, id) ∈ a.service.allowed → ∃ req record, record.consumer = c ∧
    record.enabled = true ∧ Found sha256 rt gcm config rateLimit a req record

end Found

section Found

variable {a b : App} {e : AppEvent} {answer : Option Response} {req : HttpRequest}
  {record : ConsumerRecord}

/-- A record that was found stays found. -/
theorem Found.step (h : Found sha256 rt gcm config rateLimit a req record)
    (h_step : AppStep sha256 rt gcm config rateLimit a e answer b) :
    Found sha256 rt gcm config rateLimit b req record := by
  obtain ⟨a₀, h_start, h_run, h_lookup⟩ := h
  exact ⟨a₀, h_start, h_run.tail ⟨e, answer, h_step⟩, h_lookup⟩

/-- A key that can be hashed is looked up by its hash. -/
theorem lookupKey_of_hash {cs : Consumers} {hash : String} (h_key : req.apiKey ≠ [])
    (h_hash : hashApiKey sha256 req.apiKey = some hash) :
    lookupKey sha256 req cs = .ok (cs.findByKeyHash hash) := by
  unfold lookupKey
  rw [if_neg h_key, h_hash]

/-- A record is found by the hash of a key. -/
theorem lookupKey_ok {cs : Consumers} (h : lookupKey sha256 req cs = .ok (some record)) :
    ∃ hash, hashApiKey sha256 req.apiKey = some hash ∧ cs.findByKeyHash hash = some record := by
  unfold lookupKey at h
  split at h
  · exact absurd h (by simp)
  · split at h
    · exact absurd h (by simp)
    · next hash h_hash => exact ⟨hash, h_hash, Except.ok.inj h⟩

/-- The consumer that was found is still there, with the same key and the same scopes. It may have
been disabled since. -/
theorem Found.row (h : Found sha256 rt gcm config rateLimit a req record) :
    ∃ r, a.consumers.row record.id = some r ∧ Consumers.SameKey record r := by
  obtain ⟨a₀, h_start, h_run, h_lookup⟩ := h
  obtain ⟨hash, -, h_find⟩ := lookupKey_ok h_lookup
  have h_wf := (h_start.consumers_wf .empty).1
  have h_row := (h_wf.findByKeyHash_iff.mp h_find).1
  exact (h_run.consumers_wf h_wf).2.row _ _ h_row

/-- What is no longer in flight needs no record: a step that only takes requests out of the
stages, or marks one as touched, keeps the others sound. -/
theorem Sound.of_subset (h : Sound sha256 rt gcm config rateLimit a)
    (h_step : AppStep sha256 rt gcm config rateLimit a e answer b)
    (h_lookedUp : ∀ x ∈ b.lookedUp, x ∈ a.lookedUp)
    (h_admitted : ∀ x ∈ b.admitted, ∃ y ∈ a.admitted, y.req = x.req ∧ y.record = x.record)
    (h_allowed : ∀ x ∈ b.service.allowed, x ∈ a.service.allowed) :
    Sound sha256 rt gcm config rateLimit b where
  lookedUp := fun req record h_mem => (h.lookedUp req record (h_lookedUp _ h_mem)).step h_step
  admitted := by
    intro x h_mem
    obtain ⟨y, h_y, h_req, h_record⟩ := h_admitted x h_mem
    obtain ⟨h_enabled, h_found⟩ := h.admitted y h_y
    rw [h_req, h_record] at h_found
    exact ⟨h_record ▸ h_enabled, h_found.step h_step⟩
  allowed := by
    intro c id h_mem
    obtain ⟨req, record, h_c, h_enabled, h_found⟩ := h.allowed c id (h_allowed _ h_mem)
    exact ⟨req, record, h_c, h_enabled, h_found.step h_step⟩

/-- The requests around the one that is served stay. -/
theorem mem_of_mem_around {α : Type} {before after : List α} {x y : α}
    (h : y ∈ before ++ after) : y ∈ before ++ x :: after := by
  rcases List.mem_append.mp h with h | h
  · exact List.mem_append_left _ h
  · exact List.mem_append_right _ (List.mem_cons_of_mem _ h)

/-- A touch moves a request one stage on, with the record it has. -/
theorem touched_around {before after : List Admitted}
    (h_at : a.admitted = before ++ ⟨req, record, true⟩ :: after) :
    ∀ x ∈ before ++ (⟨req, record, false⟩ : Admitted) :: after,
      ∃ y ∈ a.admitted, y.req = x.req ∧ y.record = x.record := by
  intro x h_x
  rw [h_at]
  rcases List.mem_append.mp h_x with h_x | h_x
  · exact ⟨x, List.mem_append_left _ h_x, rfl, rfl⟩
  · rcases List.mem_cons.mp h_x with rfl | h_x
    · exact ⟨_, List.mem_append_right _ List.mem_cons_self, rfl, rfl⟩
    · exact ⟨x, List.mem_append_right _ (List.mem_cons_of_mem _ h_x), rfl, rfl⟩

/-- A step keeps it. Three steps put something in flight: the lookup a record it has just found,
the limiter a record that was looked up, and the check of a deletion a record that was let
through. -/
theorem Sound.step (h : Sound sha256 rt gcm config rateLimit a)
    (h_run : AppReaches sha256 rt gcm config rateLimit .start a)
    (h_step : AppStep sha256 rt gcm config rateLimit a e answer b) :
    Sound sha256 rt gcm config rateLimit b := by
  have h_same : ∀ x ∈ a.admitted, ∃ y ∈ a.admitted, y.req = x.req ∧ y.record = x.record :=
    fun x h_x => ⟨x, h_x, rfl, rfl⟩
  cases h_step' : h_step with
  | create => exact h.of_subset h_step (fun _ h => h) h_same (fun _ h => h)
  | setEnabled => exact h.of_subset h_step (fun _ h => h) h_same (fun _ h => h)
  | retention => exact h.of_subset h_step (fun _ h => h) h_same (fun _ h => h)
  | isPublic => exact h
  | noKey => exact h
  | @lookup req _ row h_lookup =>
    -- the state before the lookup is the earlier state
    refine ⟨fun req' record h_mem => ?_, fun x h_x => ?_, fun c id h_mem => ?_⟩
    · rcases List.mem_cons.mp h_mem with h_new | h_old
      · obtain ⟨rfl, rfl⟩ := Prod.mk.inj h_new
        exact ⟨a, h_run, .single ⟨_, _, h_step⟩, h_lookup⟩
      · exact (h.lookedUp req' record h_old).step h_step
    · exact ⟨(h.admitted x h_x).1, (h.admitted x h_x).2.step h_step⟩
    · obtain ⟨req, record, h_c, h_enabled, h_found⟩ := h.allowed c id h_mem
      exact ⟨req, record, h_c, h_enabled, h_found.step h_step⟩
  | refuse h_at h_auth =>
    exact h.of_subset h_step (fun _ h_x => h_at ▸ mem_of_mem_around h_x) h_same (fun _ h => h)
  | @authenticate before after req row h_at now record touch h_auth =>
    -- the limiter lets an enabled record through only
    obtain ⟨rfl, h_enabled⟩ := authenticate_ok h_auth
    have h_found := h.lookedUp req record
      (h_at ▸ List.mem_append_right _ List.mem_cons_self)
    refine ⟨fun req' record' h_mem => ?_, fun x h_x => ?_, fun c id h_mem => ?_⟩
    · exact (h.lookedUp req' record' (h_at ▸ mem_of_mem_around h_mem)).step h_step
    · rcases List.mem_cons.mp h_x with rfl | h_x
      · exact ⟨h_enabled, h_found.step h_step⟩
      · exact ⟨(h.admitted x h_x).1, (h.admitted x h_x).2.step h_step⟩
    · obtain ⟨req, record, h_c, h_enabled, h_found⟩ := h.allowed c id h_mem
      exact ⟨req, record, h_c, h_enabled, h_found.step h_step⟩
  | touch h_at nowMs =>
    exact h.of_subset h_step (fun _ h => h) (touched_around h_at) (fun _ h => h)
  | touchFails h_at =>
    exact h.of_subset h_step (fun _ h => h) (touched_around h_at) (fun _ h => h)
  | answer h_at ring nonces nowMs h_serve =>
    exact h.of_subset h_step (fun _ h => h)
      (fun x h_x => ⟨x, h_at ▸ mem_of_mem_around h_x, rfl, rfl⟩) (fun _ h => h)
  | @allowDelete before after req record h_at ring nonces nowMs id h_serve =>
    -- a deletion is allowed for the record its request carries
    obtain ⟨h_enabled, h_found⟩ := h.admitted ⟨req, record, false⟩
      (h_at ▸ List.mem_append_right _ List.mem_cons_self)
    refine ⟨fun req' record' h_mem => ?_, fun x h_x => ?_, fun c id' h_mem => ?_⟩
    · exact (h.lookedUp req' record' h_mem).step h_step
    · have h_old := h.admitted x (h_at ▸ mem_of_mem_around h_x)
      exact ⟨h_old.1, h_old.2.step h_step⟩
    · rcases List.mem_cons.mp h_mem with h_new | h_old
      · obtain ⟨rfl, rfl⟩ := Prod.mk.inj h_new
        exact ⟨req, record, rfl, h_enabled, h_found.step h_step⟩
      · obtain ⟨req', record', h_c, h_enabled', h_found'⟩ := h.allowed c id' h_old
        exact ⟨req', record', h_c, h_enabled', h_found'.step h_step⟩
  | softDelete h_allowed nowMs =>
    exact h.of_subset h_step (fun _ h => h) h_same (fun _ h_x => List.mem_of_mem_erase h_x)

/-- In every run all that is in flight was found. -/
theorem Sound.reaches (h : AppReaches sha256 rt gcm config rateLimit .start a) :
    Sound sha256 rt gcm config rateLimit a := by
  induction h with
  -- nothing is in flight to begin with
  | refl =>
    refine ⟨fun _ _ h_mem => ?_, fun _ h_mem => ?_, fun _ _ h_mem => ?_⟩
    · exact absurd h_mem (by simp [App.start])
    · exact absurd h_mem (by simp [App.start])
    · exact absurd h_mem (by simp [App.start, Service.start])
  | tail h_run h_step ih =>
    obtain ⟨e, answer, h_step⟩ := h_step
    exact ih.step h_run h_step

/-- The consumer that a step acts for was found, and enabled: there is a request whose key found
it. -/
theorem Sound.consumer (h : Sound sha256 rt gcm config rateLimit a)
    (h_step : AppStep sha256 rt gcm config rateLimit a e answer b) {c : Consumer}
    (h_c : e.consumer = some c) :
    ∃ req record, record.consumer = c ∧ record.enabled = true ∧
      Found sha256 rt gcm config rateLimit a req record := by
  cases h_step with
  | @answer before after req record h_at ring nonces nowMs response s h_serve =>
    obtain rfl := Option.some.inj h_c
    obtain ⟨h_enabled, h_found⟩ := h.admitted ⟨req, record, false⟩
      (h_at ▸ List.mem_append_right _ List.mem_cons_self)
    exact ⟨req, record, rfl, h_enabled, h_found⟩
  | @allowDelete before after req record h_at ring nonces nowMs id h_serve =>
    obtain rfl := Option.some.inj h_c
    obtain ⟨h_enabled, h_found⟩ := h.admitted ⟨req, record, false⟩
      (h_at ▸ List.mem_append_right _ List.mem_cons_self)
    exact ⟨req, record, rfl, h_enabled, h_found⟩
  -- the second transaction only has the consumer
  | softDelete h_allowed nowMs =>
    obtain rfl := Option.some.inj h_c
    exact h.allowed _ _ h_allowed
  | _ => exact absurd h_c (by simp [AppEvent.consumer])

end Found

/-! ### A concrete run -/

/-- A hash for concrete keys: the key itself. -/
def sampleSha256 (bytes : Bytes) : String := (FieldEncryption.utf8Decode bytes).getD ""

/-- A consumer that was minted with the key `fph_k`. -/
def sampleConsumers : Consumers :=
  (createConsumer sampleSha256 (PyStr.ofString "client")
    [PyStr.ofString "read", PyStr.ofString "write"] "k" 1 .empty).2

/-- Its row. -/
def sampleRecord : ConsumerRecord := ⟨1, "client", "fph_k", [.read, .write], true, 1, none⟩

/-- Its POST with this text as body. -/
def samplePost (text : String) : HttpRequest where
  method := .post
  path := [PyStr.ofString "v1", PyStr.ofString "fingerprints"]
  query := fun _ => none
  apiKey := PyStr.ofString "fph_k"
  body := FieldEncryption.utf8 text

/-- A contribution. -/
def sampleText : String :=
  "\x7b\"phash_hex\":\"00000000000000aa\",\"category\":\"scam\",\"action\":\"kick\"\x7d"

/-- Its fields. -/
def sampleDict : List (PyStr × PyJson) :=
  [(PyStr.ofString "phash_hex", .str (PyStr.ofString "00000000000000aa")),
    (PyStr.ofString "category", .str (PyStr.ofString "scam")),
    (PyStr.ofString "action", .str (PyStr.ofString "kick"))]

/-- The application once the limiter has let the request through. -/
def sampleAdmitted (req : HttpRequest) : App where
  consumers := sampleConsumers
  service := .start
  auth := (authenticate 5 App.start.auth (some sampleRecord) 0).2
  lookedUp := []
  admitted := [⟨req, sampleRecord, false⟩]

/-- The answer to the request, and the store after it. -/
def sampleAnswer (req : HttpRequest) : Response × Store :=
  postContribute sampleRuntime FieldEncryption.sampleGcm FieldEncryption.sampleRing
    (fun _ => FieldEncryption.sampleNonce) sampleRecord.consumer req.body 10 .empty

/-- The fields are what the handler gets: the text is what `json.dumps` writes for them, so that
it need not be parsed step by step. -/
theorem sampleAnswer_eq : sampleAnswer (samplePost sampleText) =
    contributeFingerprint FieldEncryption.sampleGcm FieldEncryption.sampleRing
      (fun _ => FieldEncryption.sampleNonce) sampleRecord.consumer
      (.object (getField sampleRuntime sampleDict)) 10 .empty := by
  -- the dictionary has only texts in it
  have h_plain : PyJson.Plain .compact (.dict sampleDict) := by
    refine .dict (fun f _ h_ascii => absurd h_ascii (by decide)) (fun f h_f => ?_)
    obtain ⟨t, h_t⟩ : ∃ t, f.2 = .str t := by
      simp only [sampleDict, List.mem_cons, List.not_mem_nil, or_false] at h_f
      rcases h_f with rfl | rfl | rfl
      · exact ⟨_, rfl⟩
      · exact ⟨_, rfl⟩
      · exact ⟨_, rfl⟩
    rw [h_t]
    exact .str (fun h_ascii => absurd h_ascii (by decide))
  have h_dumps : PyJson.dumps .compact 1 (.dict sampleDict) = .ok (PyStr.ofString sampleText) := by
    decide +kernel
  have h_size : sampleRuntime.tooLarge (samplePost sampleText).body.length = false := by
    decide +kernel
  -- what was written is read back
  have h_parse : parseJsonBody sampleRuntime (samplePost sampleText).body =
      .object (getField sampleRuntime sampleDict) := by
    have h_loads := PyJson.loads_dumps (show 1 ≤ sampleRuntime.depth by decide) h_plain h_dumps
    show parseJsonBody sampleRuntime (FieldEncryption.utf8 sampleText) = _
    rw [parseJsonBody, FieldEncryption.utf8Decode_utf8]
    dsimp only
    rw [h_loads]
  have h_write : Scope.write ∈ sampleRecord.consumer.scopes := by decide
  rw [sampleAnswer, postContribute, requireScope, if_pos h_write, withJsonBody, h_size, h_parse]
  rfl

/-- The application after the answer. -/
def sampleAnswered (req : HttpRequest) : App :=
  { sampleAdmitted req with admitted := [], service := ⟨(sampleAnswer req).2, []⟩ }

/-- The store after the answer is the one the answer came with, -/
theorem sampleAnswered_store (req : HttpRequest) :
    (sampleAnswered req).service.store = (sampleAnswer req).2 := rfl

/-- and before it is empty. -/
theorem sampleAdmitted_store (req : HttpRequest) :
    (sampleAdmitted req).service.store = .empty := rfl

/-- The application with the consumer. -/
def sampleMinted : App := { App.start with consumers := sampleConsumers }

/-- The operator mints the consumer. -/
theorem sampleMinted_step (config : ServiceConfig) :
    AppStep sampleSha256 sampleRuntime FieldEncryption.sampleGcm config 5 .start
      (.create (PyStr.ofString "client") [PyStr.ofString "read", PyStr.ofString "write"] "k" 1) none
      sampleMinted := .create _ _ _ _

/-- The application once its key was looked up. -/
def sampleLookedUp (req : HttpRequest) : App :=
  { sampleMinted with lookedUp := [(req, some sampleRecord)] }

/-- Its request arrives, and its key is looked up. -/
theorem sampleLookedUp_step (config : ServiceConfig) (text : String) :
    AppStep sampleSha256 sampleRuntime FieldEncryption.sampleGcm config 5 sampleMinted
      (.arrive (samplePost text)) none (sampleLookedUp (samplePost text)) := by
  have h_find : sampleConsumers.findByKeyHash "fph_k" = some sampleRecord := by decide +kernel
  have h_hash : hashApiKey sampleSha256 (samplePost text).apiKey = some "fph_k" := by
    show hashApiKey sampleSha256 (PyStr.ofString "fph_k") = _
    decide +kernel
  -- neither the path nor the key depends on the body
  have h_public : (samplePost text).isPublic = false := by
    show (samplePost "").isPublic = false
    decide +kernel
  have h_lookup : lookupKey sampleSha256 (samplePost text) sampleMinted.consumers =
      .ok (some sampleRecord) := by
    rw [lookupKey_of_hash (List.cons_ne_nil _ _) h_hash]
    exact congrArg _ h_find
  exact .lookup h_public h_lookup

/-- The limiter lets it through: it is the first request of the consumer, at time 0. -/
theorem sampleAdmitted_reaches (config : ServiceConfig) (text : String) :
    AppReaches sampleSha256 sampleRuntime FieldEncryption.sampleGcm config 5 .start
      (sampleAdmitted (samplePost text)) := by
  have h_auth : (authenticate 5 App.start.auth (some sampleRecord) 0).1 =
      .ok (sampleRecord, false) := by
    have h_free : (Auth.rateLimited 5 (fun _ => []) 1 0).1 = false := by decide +kernel
    have h_recent : ¬ (60 : ℚ) ≤ 0 := by norm_num
    simp [authenticate, sampleRecord, App.start, h_free, h_recent]
  have h_admitted : AppStep sampleSha256 sampleRuntime FieldEncryption.sampleGcm config 5
      (sampleLookedUp (samplePost text))
      (.authenticate (samplePost text) (some sampleRecord) 0) none
      (sampleAdmitted (samplePost text)) :=
    @AppStep.authenticate _ _ _ _ _ (sampleLookedUp (samplePost text)) [] [] _ _ rfl _ _ _ h_auth
  exact ((Relation.ReflTransGen.single ⟨_, _, sampleMinted_step config⟩).tail
    ⟨_, _, sampleLookedUp_step config text⟩).tail ⟨_, _, h_admitted⟩

/-- The request is served as a contribution, -/
theorem sampleAnswer_serve (config : ServiceConfig) (text : String) (cs : Consumers) :
    serve sampleRuntime FieldEncryption.sampleGcm config FieldEncryption.sampleRing
      (fun _ => FieldEncryption.sampleNonce) 10 (samplePost text) sampleRecord.consumer .empty cs =
      .answered (sampleAnswer (samplePost text)).1 (sampleAnswer (samplePost text)).2 := by
  have h_resolve : resolve .post [PyStr.ofString "v1", PyStr.ofString "fingerprints"] =
      .ok (.contributeFingerprint, []) := by decide
  simp only [serve, samplePost, h_resolve, sampleAnswer]

/-- which is a step of the application. -/
theorem sampleAnswered_step (config : ServiceConfig) (text : String) :
    AppStep sampleSha256 sampleRuntime FieldEncryption.sampleGcm config 5
      (sampleAdmitted (samplePost text))
      (.handle (samplePost text) sampleRecord FieldEncryption.sampleRing
        (fun _ => FieldEncryption.sampleNonce) 10)
      (some (sampleAnswer (samplePost text)).1) (sampleAnswered (samplePost text)) :=
  @AppStep.answer _ _ _ _ _ (sampleAdmitted (samplePost text)) [] [] _ _ rfl _ _ _ _ _
    (sampleAnswer_serve config text sampleConsumers)

/-! ### The authority over rows -/

/-- A write is a run of retention that was accepted, or a request with write scope. A reading
request leaves the store as it was, and a dry run does too. -/
theorem Step.writes {s t : Service} {ev : Event} (h_perm : Permitted s)
    (h : Step gcm config s ev t) (h_ne : t.store ≠ s.store) :
    (∃ p nowMs, ev = .retention p nowMs false ∧ p.Accepted) ∨
      ∃ c, ev.consumer = some c ∧ Scope.write ∈ c.scopes := by
  rcases h.op with h_same | ⟨op, h_calls, h_op⟩
  · exact absurd h_same h_ne
  · -- each handler has asked for the scope, the deletion in its first transaction
    cases h_calls with
    | contribute h_valid => exact Or.inr ⟨_, rfl, h_valid.write⟩
    | reportHit h_write => exact Or.inr ⟨_, rfl, h_write⟩
    | flag h_write => exact Or.inr ⟨_, rfl, h_write⟩
    | softDelete => exact Or.inr ⟨_, rfl, (h_perm _ _ (allowed_of_softDelete h)).1⟩
    | @retention p nowMs dryRun =>
      -- a run that is refused or dry writes nothing
      rcases s.store.applyRetention_cases p nowMs dryRun with ⟨-, -, h_call⟩ | ⟨h_accepted, h_call⟩
      · exact absurd (h_op.trans h_call) h_ne
      · cases dryRun with
        | true => exact absurd (h_op.trans (congrArg Prod.snd h_call)) h_ne
        | false => exact Or.inl ⟨p, nowMs, rfl, h_accepted⟩

/-- What the consumer of a step may have done to the row of an id. -/
structure Justified (threshold : ℕ) (st st' : Store) (id : ℤ) (record : ConsumerRecord) :
    Prop where
  /-- It renews its own rows. -/
  renewed : ∀ r', st'.row id = some r' → Renewed (st.row id) r' → r'.consumerId = record.id
  /-- It deletes its own rows, or any row as an admin. -/
  deleted : ∀ r r', st.row id = some r → r.Live → st'.row id = some r' → r'.status = .deleted →
    r.consumerId = record.id ∨ Scope.admin ∈ record.scopes
  /-- To the rows of others it does what every peer may do. -/
  others : Scope.admin ∉ record.scopes → ∀ r, st.row id = some r → r.consumerId ≠ record.id →
    ∃ ev r', st'.row id = some r' ∧ PeerChange st ev threshold r r'

section Authority

variable {a b : App} {e : AppEvent} {answer : Option Response}

/-- An admin is whoever has the scope. -/
theorem isAdmin_iff {c : Consumer} : c.isAdmin = true ↔ Scope.admin ∈ c.scopes := by
  simp [Consumer.isAdmin]

/-- What is known of the rows in runs of the service, for the consumer of one request. -/
theorem Step.justified {s t : Service} {ev : Event} {record : ConsumerRecord} (h_wf : s.store.Wf)
    (h_perm : Permitted s) (h : Step gcm config s ev t)
    (h_consumer : ev.consumer = some record.consumer) (id : ℤ) :
    Justified config.autoHideFlagThreshold s.store t.store id record where
  renewed := by
    intro r' h_row' h_new
    -- a row is only renewed by a contribution of its owner
    obtain ⟨ring, nonces, c, body, nowMs, rfl, h_owner, -⟩ :=
      contribute_of_renewed h_wf h h_row' h_new
    obtain rfl := Option.some.inj h_consumer
    exact h_owner
  deleted := by
    intro r r' h_row h_live h_row' h_deleted
    -- a tombstone comes of a deletion that was allowed
    obtain ⟨c, nowMs, rfl, -, h_owner⟩ :=
      softDelete_of_deleted h_wf h_perm h h_row h_live h_row' h_deleted
    obtain rfl := Option.some.inj h_consumer
    exact h_owner.imp_right isAdmin_iff.mp
  others := by
    intro h_admin r h_row h_other
    -- without the scope the consumer is a peer
    have h_no : record.consumer.isAdmin = false := by
      rw [← Bool.not_eq_true]
      exact fun h_yes => h_admin (isAdmin_iff.mp h_yes)
    obtain ⟨r', h_row', h_peer⟩ :=
      peerChange_of_request h_wf h_perm h h_consumer h_no h_row h_other
    exact ⟨ev, r', h_row', h_peer⟩

/-- **Changes need keys.** In every run of the application, whatever the order in which requests
are looked up, let through and handled and the operator acts: a step that changes the store is an
accepted run of retention, or it acts for the consumer that the key of a request found earlier in
the run, enabled and with write scope. That consumer is still in the table with this key and these
scopes, and what happens to the row of every id is what it may do.

The consumer may have been disabled after its key was looked up; what was in flight then is still
served. -/
theorem changes_need_keys (h_run : AppReaches sha256 rt gcm config rateLimit .start a)
    (h_step : AppStep sha256 rt gcm config rateLimit a e answer b)
    (h_changed : b.service.store ≠ a.service.store) :
    (∃ p nowMs, e = .retention p nowMs false ∧ p.Accepted) ∨
    ∃ req record, e.consumer = some record.consumer ∧ record.enabled = true ∧
      Scope.write ∈ record.scopes ∧ Found sha256 rt gcm config rateLimit a req record ∧
      (∃ r, a.consumers.row record.id = some r ∧ Consumers.SameKey record r) ∧
      ∀ id, Justified config.autoHideFlagThreshold a.service.store b.service.store id record := by
  have h_wf := h_run.wf.1
  have h_perm : Permitted a.service := .reaches h_run.service
  rcases h_step.service with h_same | ⟨ev, h_ev, h_makes⟩
  · exact absurd (congrArg Service.store h_same) h_changed
  · rcases h_ev.writes h_perm h_changed with ⟨p, nowMs, rfl, h_accepted⟩ | ⟨c, h_c, h_write⟩
    · exact Or.inl ⟨p, nowMs, h_makes.retention p nowMs false rfl, h_accepted⟩
    · have h_consumer : e.consumer = some c := h_makes.consumer.symm.trans h_c
      obtain ⟨req, record, rfl, h_enabled, h_found⟩ :=
        (Sound.reaches h_run).consumer h_step h_consumer
      exact Or.inr ⟨req, record, h_consumer, h_enabled, h_write, h_found, h_found.row,
        h_ev.justified h_wf h_perm h_c⟩

/-- The contribution of a consumer that was minted before changes the store, and its key was
looked up. -/
theorem changes_need_keys_post :
    ∃ req record, AppEvent.consumer (.handle (samplePost sampleText) sampleRecord
        FieldEncryption.sampleRing (fun _ => FieldEncryption.sampleNonce) 10) =
        some record.consumer ∧ Scope.write ∈ record.scopes ∧
      Found sampleSha256 sampleRuntime FieldEncryption.sampleGcm .default 5
        (sampleAdmitted (samplePost sampleText)) req record := by
  have h_changed : (sampleAnswered (samplePost sampleText)).service.store ≠
      (sampleAdmitted (samplePost sampleText)).service.store := by
    intro h_eq
    have h_lastId : (sampleAnswer (samplePost sampleText)).2.lastId = 1 := by
      rw [sampleAnswer_eq]
      decide +kernel
    rw [sampleAnswered_store, sampleAdmitted_store] at h_eq
    rw [h_eq] at h_lastId
    exact absurd h_lastId (by decide)
  rcases changes_need_keys (sampleAdmitted_reaches .default sampleText)
      (sampleAnswered_step .default sampleText) h_changed with
    ⟨p, nowMs, h_retention, -⟩ | ⟨req, record, h_consumer, -, h_write, h_found, -⟩
  · exact AppEvent.noConfusion h_retention
  · exact ⟨req, record, h_consumer, h_write, h_found⟩

/-! ### Failures -/

section Answers

variable {ring : Keyring} {nonces : ℕ → Nonce} {nowMs : ℤ} {c : Consumer} {s : Store}

/-- A contribution that is written is answered with 201: what was just sealed can be opened. So
one that is answered with an error has left the store alone, -/
theorem contributeFingerprint_failed (h_wf : s.Wf) {body : Body}
    (h_status : 400 ≤ (contributeFingerprint gcm ring nonces c body nowMs s).1.status) :
    (contributeFingerprint gcm ring nonces c body nowMs s).2 = s := by
  rcases contributeFingerprint_cases gcm ring nonces c body nowMs s with
    ⟨-, h_same⟩ | ⟨get, args, rfl, h_valid, h_call⟩
  · exact h_same
  · rw [h_call] at h_status ⊢
    -- a live row was found, or a row was written
    rcases h_wf.contribute_outcome (encryptWith gcm ring nonces) args with
      ⟨r, -, -, -, h_refused⟩ | ⟨-, r, h_result, h_created, -⟩
    · exact congrArg Prod.snd h_refused
    · -- the row has the texts of the body under the active key, and is shown to its owner
      have h_holds : Holds gcm [(ring.activeId, ring.activeKey)] get r :=
        .of_contributes (List.mem_singleton_self _) h_valid h_created.asInserted.contributed
      have h_sees : canSeeSecrets c r = true := by
        have h_owner := (congrArg Prod.snd h_created.owned).trans h_valid.consumerId
        simp only [canSeeSecrets, Bool.or_eq_true, decide_eq_true_eq]
        exact Or.inr h_owner
      have h_keys : ∀ k ∈ [(ring.activeId, ring.activeKey)], ring.get k.1.text = some k.2 := by
        intro k h_k
        obtain rfl := List.mem_singleton.mp h_k
        exact ring.get_active
      obtain ⟨shown, h_shown, -⟩ := h_holds.shows h_keys h_sees
      rw [h_result] at h_status
      simp [contributeResponse, h_shown] at h_status

/-- and so has a hit -/
theorem reportHit_failed {segment : PyStr} {body : Body}
    (h_status : 400 ≤ (reportHit gcm ring nonces c segment body nowMs s).1.status) :
    (reportHit gcm ring nonces c segment body nowMs s).2 = s := by
  rcases reportHit_cases gcm ring nonces c segment body nowMs s with
    h_same | ⟨args, -, -, -, -, h_call⟩
  · exact h_same
  · rw [h_call] at h_status ⊢
    rcases s.reportHit_cases (encryptWith gcm ring nonces) args with
      ⟨-, h_none⟩ | ⟨r, -, -, h_some⟩
    · exact congrArg Prod.snd h_none
    · rw [h_some] at h_status
      exact absurd h_status (by simp [hitResponse, Response.ok])

/-- and a flag. -/
theorem flagFingerprint_failed {segment : PyStr} {body : Body}
    (h_status : 400 ≤ (flagFingerprint gcm ring config nonces c segment body nowMs s).1.status) :
    (flagFingerprint gcm ring config nonces c segment body nowMs s).2 = s := by
  rcases flagFingerprint_cases gcm ring nonces config c segment body nowMs s with
    h_same | ⟨args, -, -, -, -, -, h_call⟩
  · exact h_same
  · rw [h_call] at h_status ⊢
    rcases s.flag_cases (encryptWith gcm ring nonces) args with
      ⟨-, h_none⟩ | ⟨r, -, -, -, h_some⟩ | ⟨r, -, -, -, h_some⟩
    · exact congrArg Prod.snd h_none
    · rw [h_some] at h_status
      exact absurd h_status (by simp [flagResponse, Response.ok])
    · rw [h_some] at h_status
      exact absurd h_status (by simp [flagResponse, Response.ok])

/-- A handler that answers with an error has left the store alone, whichever it is. -/
theorem serve_failed (h_wf : s.Wf) {req : HttpRequest} {cs : Consumers} {response : Response}
    {s' : Store}
    (h_serve : serve rt gcm config ring nonces nowMs req c s cs = .answered response s')
    (h_status : 400 ≤ response.status) : s' = s := by
  rcases serve_answered h_serve with h_same | ⟨body, h_call⟩ | ⟨segment, body, h_call⟩ |
    ⟨segment, body, h_call⟩
  · exact h_same
  · obtain ⟨h_response, h_store⟩ := Prod.mk.inj h_call
    rw [h_response] at h_status
    exact h_store.trans (contributeFingerprint_failed h_wf h_status)
  · obtain ⟨h_response, h_store⟩ := Prod.mk.inj h_call
    rw [h_response] at h_status
    exact h_store.trans (reportHit_failed h_status)
  · obtain ⟨h_response, h_store⟩ := Prod.mk.inj h_call
    rw [h_response] at h_status
    exact h_store.trans (flagFingerprint_failed h_status)

end Answers

/-- **Failures change nothing.** In every run, a step that answers with an error leaves the tables
as they are, and allows no deletion. What the process keeps in memory may change: a request that
is refused by the limiter has been counted. -/
theorem failures_change_nothing (h_run : AppReaches sha256 rt gcm config rateLimit .start a)
    {response : Response}
    (h_step : AppStep sha256 rt gcm config rateLimit a e (some response) b)
    (h_status : 400 ≤ response.status) : b.service = a.service ∧ b.consumers = a.consumers := by
  cases h_step with
  -- the answers before the handler do not reach the tables
  | isPublic => exact ⟨rfl, rfl⟩
  | noKey => exact ⟨rfl, rfl⟩
  | refuse => exact ⟨rfl, rfl⟩
  | answer h_at ring nonces nowMs h_serve =>
    obtain rfl := serve_failed h_run.wf.1 h_serve h_status
    exact ⟨rfl, rfl⟩
  -- the second transaction of a deletion answers 204
  | softDelete h_allowed nowMs => exact absurd h_status (by simp [deleted])

/-- A list is no contribution: it is answered 400, and the tables are as before. -/
theorem failures_change_nothing_list :
    (sampleAnswer (samplePost "[]")).1.status = 400 ∧
      (sampleAnswered (samplePost "[]")).service = (sampleAdmitted (samplePost "[]")).service := by
  have h_status : (sampleAnswer (samplePost "[]")).1.status = 400 := by decide +kernel
  have h_error : 400 ≤ (sampleAnswer (samplePost "[]")).1.status := h_status.ge
  exact ⟨h_status, (failures_change_nothing (sampleAdmitted_reaches .default "[]")
    (sampleAnswered_step .default "[]")
    h_error).1⟩

/-! ### The foreign keys on `consumers` -/

/-- A row of `fingerprints`, `fingerprint_flags` or `fingerprint_hits` has the consumer id. These
are the three columns with a foreign key on `consumers`. -/
def Refers (s : Store) (consumerId : ℤ) : Prop :=
  (∃ id r, s.row id = some r ∧ r.consumerId = consumerId) ∨
    (∃ k f, s.flags.get? k = some f ∧ f.consumerId = consumerId) ∨
    ∃ k h, s.hits.get? k = some h ∧ h.consumerId = consumerId

/-- A transaction writes the id of its own consumer only, which has write scope. The three cases
are the three tables. -/
theorem Step.refers {s t : Service} {ev : Event} {consumerId : ℤ} (h_wf : s.store.Wf)
    (h : Step gcm config s ev t) (h_refers : Refers t.store consumerId) :
    Refers s.store consumerId ∨
      ∃ c, ev.consumer = some c ∧ c.id = consumerId ∧ Scope.write ∈ c.scopes := by
  rcases h_refers with ⟨id, r', h_row', rfl⟩ | ⟨k, f, h_flag, rfl⟩ | ⟨k, hit, h_hit, rfl⟩
  · -- a fingerprint was there before, with this owner, or it is new
    cases h_row : s.store.row id with
    | some r =>
      have h_owned := (Keeps.step h_wf h).owned r r' h_row h_row'
      exact Or.inl (Or.inl ⟨id, r, h_row, (congrArg Prod.snd h_owned).symm⟩)
    | none =>
      obtain ⟨ring, nonces, c, body, nowMs, rfl, h_owner, h_write⟩ :=
        contribute_of_renewed h_wf h h_row' (by rw [h_row]; exact trivial)
      exact Or.inr ⟨c, rfl, h_owner.symm, h_write⟩
  · -- a flag was there before, cleared or not, or was recorded
    rcases h.op with h_same | ⟨op, h_calls, h_op⟩
    · exact Or.inl (Or.inr (Or.inl ⟨k, f, h_same ▸ h_flag, rfl⟩))
    · rw [h_op] at h_flag
      rcases Op.flags_cases h_flag with ⟨f₀, h_old, rfl | rfl⟩ | ⟨enc, args, r, rfl, rfl, -⟩
      · exact Or.inl (Or.inr (Or.inl ⟨k, f, h_old, rfl⟩))
      · exact Or.inl (Or.inr (Or.inl ⟨k, f₀, h_old, rfl⟩))
      · cases h_calls with
        | flag h_write h_consumer => exact Or.inr ⟨_, rfl, h_consumer.symm, h_write⟩
  · -- a hit was there before, or was recorded
    rcases h.op with h_same | ⟨op, h_calls, h_op⟩
    · exact Or.inl (Or.inr (Or.inr ⟨k, hit, h_same ▸ h_hit, rfl⟩))
    · rw [h_op] at h_hit
      rcases Op.hits_cases h_hit with h_old | ⟨enc, args, r, rfl, rfl, -⟩
      · exact Or.inl (Or.inr (Or.inr ⟨k, hit, h_old, rfl⟩))
      · cases h_calls with
        | reportHit h_write h_consumer => exact Or.inr ⟨_, rfl, h_consumer.symm, h_write⟩

/-- A consumer that a row refers to is in the table, with write scope: it was when the row was
written, and rows of `consumers` stay. -/
theorem Refers.consumer (h_run : AppReaches sha256 rt gcm config rateLimit .start a)
    {consumerId : ℤ} (h_refers : Refers a.service.store consumerId) :
    ∃ r, a.consumers.row consumerId = some r ∧ Scope.write ∈ r.scopes := by
  induction h_run with
  | refl =>
    rcases h_refers with ⟨id, r, h_row, -⟩ | ⟨k, f, h_flag, -⟩ | ⟨k, hit, h_hit, -⟩
    · exact absurd h_row (by simp [App.start, Service.start])
    · exact absurd h_flag (by simp [App.start, Service.start, Store.empty])
    · exact absurd h_hit (by simp [App.start, Service.start, Store.empty])
  | @tail u v h_run h_step ih =>
    obtain ⟨e, answer, h_step⟩ := h_step
    replace h_run : AppReaches sha256 rt gcm config rateLimit .start u := h_run
    -- the id was there before, or it is that of the consumer of the step, which was found
    have h_before : ∃ r, u.consumers.row consumerId = some r ∧ Scope.write ∈ r.scopes := by
      rcases h_step.service with h_same | ⟨ev, h_ev, h_makes⟩
      · exact ih (h_same ▸ h_refers)
      · rcases h_ev.refers h_run.wf.1 h_refers with h_old | ⟨c, h_c, rfl, h_write⟩
        · exact ih h_old
        · obtain ⟨req, record, rfl, -, h_found⟩ :=
            (Sound.reaches h_run).consumer h_step (h_makes.consumer.symm.trans h_c)
          obtain ⟨r, h_row, h_same⟩ := h_found.row
          refine ⟨r, h_row, ?_⟩
          rw [h_same.2.2]
          exact h_write
    -- the step keeps the row of the consumer
    obtain ⟨r, h_row, h_write⟩ := h_before
    obtain ⟨r', h_row', h_same⟩ := (h_step.consumers_wf h_run.wf.2).2.row _ r h_row
    refine ⟨r', h_row', ?_⟩
    rw [h_same.2.2]
    exact h_write

/-- **Rows stay attributed.** In every state the application reaches, a consumer id that a row of
one of the tables has is the id of a row of `consumers` with write scope, although no function
checks it; and whatever happens next, it stays the id of that consumer, with its name, its key and
its scopes. -/
theorem rows_stay_attributed (h_run : AppReaches sha256 rt gcm config rateLimit .start a)
    {consumerId : ℤ} (h_refers : Refers a.service.store consumerId) :
    ∃ r, a.consumers.row consumerId = some r ∧ Scope.write ∈ r.scopes ∧
      ∀ c, AppReaches sha256 rt gcm config rateLimit a c →
        ∃ r', c.consumers.row consumerId = some r' ∧ Consumers.SameKey r r' := by
  obtain ⟨r, h_row, h_write⟩ := h_refers.consumer h_run
  exact ⟨r, h_row, h_write, fun c h_later => (h_later.consumers_wf h_run.wf.2).2.row _ r h_row⟩

/-- The consumer of a contribution is in the table once it was answered. -/
theorem rows_stay_attributed_post :
    ∃ r, (sampleAnswered (samplePost sampleText)).consumers.row 1 = some r := by
  have h_refers : Refers (sampleAnswered (samplePost sampleText)).service.store 1 := by
    have h_row : ((sampleAnswer (samplePost sampleText)).2.row 1).map (·.consumerId) = some 1 := by
      rw [sampleAnswer_eq]
      decide +kernel
    obtain ⟨r, h_r, h_owner⟩ := Option.map_eq_some_iff.mp h_row
    rw [sampleAnswered_store]
    exact Or.inl ⟨1, r, h_r, h_owner⟩
  obtain ⟨r, h_row, -⟩ := rows_stay_attributed
    ((sampleAdmitted_reaches .default sampleText).tail
      ⟨_, _, sampleAnswered_step .default sampleText⟩) h_refers
  exact ⟨r, h_row⟩

end Authority

end Api
end FingerprintHub
