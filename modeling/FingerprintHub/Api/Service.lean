import Mathlib.Logic.Relation
import FingerprintHub.Api.Handlers
import FingerprintHub.Store.Runs

/-!
# The service

The state of the service between transactions: the store, and the deletions that
passed their ownership check and whose `soft_delete` has not run yet. An `Event` is
one transaction of a request, or one run of `apply_retention`; every request but
DELETE is a single transaction. The requests that only read leave the state alone
and are not listed.

The `…_cases` lemmas say what a writing handler does in terms of the store: it leaves
it alone, or it is one call of the store function with the arguments of the request.
`Step.op` draws the consequence: a step is at most one `Op`.
-/

namespace FingerprintHub
namespace Api

open FieldEncryption (AesGcm Keyring Nonce)

/-! ### What a writing handler passes on -/

section Handlers

variable (gcm : AesGcm) (ring : Keyring) (nonces : ℕ → Nonce)

/-- The arguments that a request with a valid body passes to `contribute`. Each field names the
check or the default of the handler that the argument comes from. -/
structure Contributes (c : Consumer) (get : String → Option Value) (nowMs : ℤ)
    (a : ContributeArgs) : Prop where
  write : Scope.write ∈ c.scopes
  consumerId : a.consumerId = c.id
  phashHex : phashHex (get "phash_hex") = some a.phashHex
  category : category? (get "category") = some a.category
  action : action? (get "action") = some a.action
  autoAdded : Value.boolOrNone (get "auto_added") = some a.autoAdded
  texts : privateTexts get = some ⟨a.sourceGuildId, a.reason, a.sourceUrl⟩
  triple : triple? get = some a.triple
  provenance : provenance? get = some a.provenance
  nowMs : a.nowMs = nowMs

/-- Past the checks, `contribute_fingerprint` leaves the store alone, or its texts can be sent and
it is one call of `contribute`. In the first case the answer is not 201. -/
theorem contributeValid_cases (c : Consumer) (get : String → Option Value) (hash : String)
    (category : Category) (action : Action) (autoAdded : Bool) (nowMs : ℤ) (s : Store) :
    ((contributeValid gcm ring nonces c get hash category action autoAdded nowMs s).1.status ≠ 201 ∧
      (contributeValid gcm ring nonces c get hash category action autoAdded nowMs s).2 = s) ∨
    ∃ texts triple provenance, privateTexts get = some texts ∧ triple? get = some triple ∧
      provenance? get = some provenance ∧
      ∃ a : ContributeArgs, a = ⟨c.id, hash, triple, category, action, texts.sourceGuildId,
          texts.reason, texts.sourceUrl, autoAdded, provenance, nowMs⟩ ∧
        contributeValid gcm ring nonces c get hash category action autoAdded nowMs s =
          (contributeResponse gcm ring c (s.contribute (encryptWith gcm ring nonces) a).1,
            (s.contribute (encryptWith gcm ring nonces) a).2) := by
  -- `encrypt_text` comes first, then the texts that psycopg gets
  unfold contributeValid
  split
  · exact Or.inl ⟨by simp [Response.internalServerError, Response.error], rfl⟩
  · next texts h_texts =>
    split
    -- all texts pass, and the store is called
    · next triple provenance h_triple h_provenance =>
      exact Or.inr ⟨texts, triple, provenance, h_texts, h_triple, h_provenance, _, rfl, rfl⟩
    · split
      · split
        · exact Or.inl ⟨by simp [duplicate], rfl⟩
        · exact Or.inl ⟨by simp [Response.internalServerError, Response.error], rfl⟩
      · exact Or.inl ⟨by simp [Response.internalServerError, Response.error], rfl⟩

/-- `contribute_fingerprint` leaves the store alone and does not answer 201, or it is one call of
`contribute` with the arguments of its body. -/
theorem contributeFingerprint_cases (c : Consumer) (body : Body) (nowMs : ℤ) (s : Store) :
    ((contributeFingerprint gcm ring nonces c body nowMs s).1.status ≠ 201 ∧
      (contributeFingerprint gcm ring nonces c body nowMs s).2 = s) ∨
    ∃ get a, body = .object get ∧ Contributes c get nowMs a ∧
      contributeFingerprint gcm ring nonces c body nowMs s =
        (contributeResponse gcm ring c (s.contribute (encryptWith gcm ring nonces) a).1,
          (s.contribute (encryptWith gcm ring nonces) a).2) := by
  unfold contributeFingerprint requireScope
  split
  · next h_write =>
    split
    -- a body that raises, one that is no JSON and one that is no object
    · exact Or.inl ⟨by simp [Response.internalServerError, Response.error], rfl⟩
    · exact Or.inl ⟨by simp, rfl⟩
    · exact Or.inl ⟨by simp [Response.error], rfl⟩
    · next get =>
      -- the checks of the body, in the order of the source
      split
      · exact Or.inl ⟨by simp [Response.error], rfl⟩
      · next hash h_hash =>
        split
        · exact Or.inl ⟨by simp [Response.error], rfl⟩
        · next category h_category =>
          split
          · exact Or.inl ⟨by simp [Response.error], rfl⟩
          · next action h_action =>
            split
            · exact Or.inl ⟨by simp [Response.error], rfl⟩
            · next autoAdded h_auto =>
              rcases contributeValid_cases gcm ring nonces c get hash category action autoAdded
                  nowMs s with h_left | ⟨texts, triple, provenance, h_texts, h_triple, h_prov, a,
                    rfl, h_call⟩
              · exact Or.inl h_left
              · exact Or.inr ⟨get, _, rfl, ⟨h_write, rfl, h_hash, h_category, h_action, h_auto,
                  h_texts, h_triple, h_prov, rfl⟩, h_call⟩
  · exact Or.inl ⟨by simp [Response.error], rfl⟩

/-- `report_hit` leaves the store alone, or it is one call of the store function, for the consumer
of the request and the row its path names. -/
theorem reportHit_cases (c : Consumer) (segment : PyStr) (body : Body) (nowMs : ℤ) (s : Store) :
    (reportHit gcm ring nonces c segment body nowMs s).2 = s ∨
    ∃ a : HitArgs, Scope.write ∈ c.scopes ∧ a.consumerId = c.id ∧ a.nowMs = nowMs ∧
      pathId segment = some a.fingerprintId ∧
      reportHit gcm ring nonces c segment body nowMs s =
        (hitResponse a.fingerprintId (s.reportHit (encryptWith gcm ring nonces) a).1,
          (s.reportHit (encryptWith gcm ring nonces) a).2) := by
  unfold reportHit requireScope
  split
  · next h_write =>
    split
    · exact Or.inl rfl
    · next id h_id =>
      split
      · exact Or.inl rfl
      · split
        · exact Or.inl rfl
        · split
          -- the only way to the store: a text that encrypts and a distance that fits
          · next guildId distance _ _ => exact Or.inr ⟨_, h_write, rfl, rfl, h_id, rfl⟩
          · split
            · exact Or.inl rfl
            · split
              · exact Or.inl rfl
              · exact Or.inl rfl
  · exact Or.inl rfl

/-- `flag_fingerprint` leaves the store alone, or it is one call of `flag`, with the configured
threshold. -/
theorem flagFingerprint_cases (config : ServiceConfig) (c : Consumer) (segment : PyStr)
    (body : Body) (nowMs : ℤ) (s : Store) :
    (flagFingerprint gcm ring config nonces c segment body nowMs s).2 = s ∨
    ∃ a : FlagArgs, Scope.write ∈ c.scopes ∧ a.consumerId = c.id ∧ a.nowMs = nowMs ∧
      a.autoHideThreshold = config.autoHideFlagThreshold ∧
      pathId segment = some a.fingerprintId ∧
      flagFingerprint gcm ring config nonces c segment body nowMs s =
        (flagResponse a.fingerprintId (s.flag (encryptWith gcm ring nonces) a).1,
          (s.flag (encryptWith gcm ring nonces) a).2) := by
  unfold flagFingerprint requireScope
  split
  · next h_write =>
    split
    · exact Or.inl rfl
    · next id h_id =>
      split
      · exact Or.inl rfl
      · split
        -- the only way to the store: a reason that encrypts
        · exact Or.inr ⟨_, h_write, rfl, rfl, rfl, h_id, rfl⟩
        · split
          · exact Or.inl rfl
          · split
            · exact Or.inl rfl
            · exact Or.inl rfl
  · exact Or.inl rfl

/-- A deletion is only let through to `soft_delete` for a consumer with write scope who
owns the row or is an admin. -/
theorem deleteCheck_ok {c : Consumer} {segment : PyStr} {s : Store} {id : ℤ}
    (h : deleteCheck c segment s = .ok id) :
    Scope.write ∈ c.scopes ∧ pathId segment = some id ∧
      ∃ r, s.row id = some r ∧ r.Live ∧ (r.consumerId = c.id ∨ c.isAdmin = true) := by
  unfold deleteCheck requireScope at h
  -- the scope, the path, the row and its owner, in the order of the source
  split at h
  · next h_write =>
    split at h
    · exact absurd h (by simp)
    · next id' h_id =>
      split at h
      · exact absurd h (by simp)
      · next r h_row =>
        split at h
        · exact absurd h (by simp)
        · next h_live =>
          split at h
          · next h_allowed =>
            obtain rfl := Except.ok.inj h
            exact ⟨h_write, h_id, r, h_row, h_live, h_allowed⟩
          · exact absurd h (by simp)
  · exact absurd h (by simp)

end Handlers

/-! ### Transactions -/

/-- The state of the service: the store, and the deletions that were allowed and not
run yet. -/
structure Service where
  store : Store
  allowed : List (Consumer × ℤ)

/-- The service on an empty database. -/
def Service.start : Service := ⟨.empty, []⟩

/-- A transaction of a request, with the consumer that sent it, or a run of
`apply_retention`. -/
inductive Event where
  | contribute (ring : Keyring) (nonces : ℕ → Nonce) (c : Consumer) (body : Body) (nowMs : ℤ)
  | reportHit (ring : Keyring) (nonces : ℕ → Nonce) (c : Consumer) (segment : PyStr) (body : Body)
      (nowMs : ℤ)
  | flag (ring : Keyring) (nonces : ℕ → Nonce) (c : Consumer) (segment : PyStr) (body : Body)
      (nowMs : ℤ)
  /-- The first transaction of a DELETE: `get` and the ownership check. -/
  | delete (c : Consumer) (segment : PyStr)
  /-- The second transaction of a DELETE. -/
  | softDelete (c : Consumer) (fingerprintId : ℤ) (nowMs : ℤ)
  | retention (p : RetentionPolicy) (nowMs : ℤ) (dryRun : Bool)

/-- The consumer whose request a transaction belongs to. -/
def Event.consumer : Event → Option Consumer
  | .contribute _ _ c _ _ => some c
  | .reportHit _ _ c _ _ _ => some c
  | .flag _ _ c _ _ _ => some c
  | .delete c _ => some c
  | .softDelete c _ _ => some c
  | .retention _ _ _ => none

section Steps

variable (gcm : AesGcm) (config : ServiceConfig)

/-- One transaction. A request that raises is a step too: what its handler returns as the new
store is the old one. A deletion runs in two steps, and any others may come between them. -/
inductive Step (s : Service) : Event → Service → Prop
  | contribute (ring : Keyring) (nonces : ℕ → Nonce) (c : Consumer) (body : Body) (nowMs : ℤ) :
      Step s (.contribute ring nonces c body nowMs)
        { s with store := (contributeFingerprint gcm ring nonces c body nowMs s.store).2 }
  | reportHit (ring : Keyring) (nonces : ℕ → Nonce) (c : Consumer) (segment : PyStr) (body : Body)
      (nowMs : ℤ) :
      Step s (.reportHit ring nonces c segment body nowMs)
        { s with store := (reportHit gcm ring nonces c segment body nowMs s.store).2 }
  | flag (ring : Keyring) (nonces : ℕ → Nonce) (c : Consumer) (segment : PyStr) (body : Body)
      (nowMs : ℤ) :
      Step s (.flag ring nonces c segment body nowMs)
        { s with store := (flagFingerprint gcm ring config nonces c segment body nowMs s.store).2 }
  | deleteRefused {c : Consumer} {segment : PyStr} {response : Response}
      (h_check : deleteCheck c segment s.store = .error response) :
      Step s (.delete c segment) s
  | deleteAllowed {c : Consumer} {segment : PyStr} {id : ℤ}
      (h_check : deleteCheck c segment s.store = .ok id) :
      Step s (.delete c segment) { s with allowed := (c, id) :: s.allowed }
  | softDelete {c : Consumer} {id : ℤ} (h_allowed : (c, id) ∈ s.allowed) (nowMs : ℤ) :
      Step s (.softDelete c id nowMs)
        { store := (s.store.softDelete id nowMs).2, allowed := s.allowed.erase (c, id) }
  | retention (p : RetentionPolicy) (nowMs : ℤ) (dryRun : Bool) :
      Step s (.retention p nowMs dryRun)
        { s with store := (s.store.applyRetention p nowMs dryRun).2 }

/-- Any number of transactions, in any order. -/
def Reaches : Service → Service → Prop :=
  Relation.ReflTransGen fun s t => ∃ e, Step gcm config s e t

/-- The store call an event makes, with what its handler has checked. The check of a deletion is
in its first event, so that the second only has the id. -/
inductive Calls : Event → Op → Prop
  | contribute {ring : Keyring} {nonces : ℕ → Nonce} {c : Consumer} {get : String → Option Value}
      {nowMs : ℤ} {a : ContributeArgs} (h_valid : Contributes c get nowMs a) :
      Calls (.contribute ring nonces c (.object get) nowMs)
        (.contribute (encryptWith gcm ring nonces) a)
  | reportHit {ring : Keyring} {nonces : ℕ → Nonce} {c : Consumer} {segment : PyStr} {body : Body}
      {nowMs : ℤ} {a : HitArgs} (h_write : Scope.write ∈ c.scopes)
      (h_consumer : a.consumerId = c.id) (h_now : a.nowMs = nowMs) :
      Calls (.reportHit ring nonces c segment body nowMs)
        (.reportHit (encryptWith gcm ring nonces) a)
  | flag {ring : Keyring} {nonces : ℕ → Nonce} {c : Consumer} {segment : PyStr} {body : Body}
      {nowMs : ℤ} {a : FlagArgs} (h_write : Scope.write ∈ c.scopes)
      (h_consumer : a.consumerId = c.id) (h_now : a.nowMs = nowMs)
      (h_threshold : a.autoHideThreshold = config.autoHideFlagThreshold) :
      Calls (.flag ring nonces c segment body nowMs) (.flag (encryptWith gcm ring nonces) a)
  | softDelete {c : Consumer} {id nowMs : ℤ} :
      Calls (.softDelete c id nowMs) (.softDelete id nowMs)
  | retention {p : RetentionPolicy} {nowMs : ℤ} {dryRun : Bool} :
      Calls (.retention p nowMs dryRun) (.applyRetention p nowMs dryRun)

variable {gcm config} {s t : Service} {e : Event}

/-- **A transaction is at most one call of a store function.** What the store lemmas say of every
call holds of every transaction of the service by this. -/
theorem Step.op (h : Step gcm config s e t) :
    t.store = s.store ∨ ∃ op, Calls gcm config e op ∧ t.store = op.apply s.store := by
  cases h with
  -- the three handlers that write in one transaction
  | contribute ring nonces c body nowMs =>
    rcases contributeFingerprint_cases gcm ring nonces c body nowMs s.store with
      ⟨-, h_same⟩ | ⟨get, a, rfl, h_valid, h_call⟩
    · exact Or.inl h_same
    · exact Or.inr ⟨_, .contribute h_valid, congrArg Prod.snd h_call⟩
  | reportHit ring nonces c segment body nowMs =>
    rcases reportHit_cases gcm ring nonces c segment body nowMs s.store with
      h_same | ⟨a, h_write, h_consumer, h_now, -, h_call⟩
    · exact Or.inl h_same
    · exact Or.inr ⟨_, .reportHit h_write h_consumer h_now, congrArg Prod.snd h_call⟩
  | flag ring nonces c segment body nowMs =>
    rcases flagFingerprint_cases gcm ring nonces config c segment body nowMs s.store with
      h_same | ⟨a, h_write, h_consumer, h_now, h_threshold, -, h_call⟩
    · exact Or.inl h_same
    · exact Or.inr ⟨_, .flag h_write h_consumer h_now h_threshold, congrArg Prod.snd h_call⟩
  -- the check of a deletion only reads
  | deleteRefused h_check => exact Or.inl rfl
  | deleteAllowed h_check => exact Or.inl rfl
  | softDelete h_allowed nowMs => exact Or.inr ⟨_, .softDelete, rfl⟩
  | retention p nowMs dryRun => exact Or.inr ⟨_, .retention, rfl⟩

/-- A transaction keeps the store well formed. -/
theorem Step.wf (h : Step gcm config s e t) (h_wf : s.store.Wf) : t.store.Wf := by
  rcases h.op with h_same | ⟨op, -, h_op⟩
  · rw [h_same]; exact h_wf
  · rw [h_op]; exact h_wf.step op

/-- A step on the row of an id: nothing happened to it, or the step called the store and the row
made one of the moves of `RowStep`. -/
theorem Step.rowStep (h : Step gcm config s e t) (h_wf : s.store.Wf) (id : ℤ) :
    t.store.row id = s.store.row id ∨
      ∃ op, Calls gcm config e op ∧ t.store = op.apply s.store ∧
        RowStep s.store op id (s.store.row id) (t.store.row id) := by
  rcases h.op with h_same | ⟨op, h_calls, h_op⟩
  · exact Or.inl (by rw [h_same])
  · refine Or.inr ⟨op, h_calls, h_op, ?_⟩
    rw [h_op]
    exact Op.rowStep h_wf.fresh op id

/-- Every run keeps the store well formed. -/
theorem Reaches.wf (h : Reaches gcm config s t) (h_wf : s.store.Wf) : t.store.Wf := by
  induction h with
  | refl => exact h_wf
  | tail _ h_step ih =>
    obtain ⟨e, h_step⟩ := h_step
    exact h_step.wf ih

end Steps

end Api

end FingerprintHub
