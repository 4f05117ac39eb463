import FingerprintHub.Api.Classify
import FingerprintHub.Api.Counters
import FingerprintHub.Api.RequestBody

/-!
# Which reports are recorded

The body of a hit and of a flag is optional. One that is no JSON object counts as empty, and
what cannot be used as a distance is stored as `NULL`, as long as only a `JSONDecodeError`, a
`TypeError` or a `ValueError` of `int` is in the way. Another exception drops the report:
`HitBody` and `FlagBody` say of which bodies there is none, and `reports_recorded` that the
others are not recorded.
-/

namespace FingerprintHub
namespace Api

open Base64 (Bytes)
open FieldEncryption (AesGcm Keyring Nonce)

/-- `int` overflows on the infinities only. Every other value is a number, or raises one of the
two exceptions that are caught. -/
theorem distance?_eq_none_iff {value : Option Value} :
    distance? value = none ↔ ∃ text, value = some (.float text .infinite) := by
  cases value with
  | none => simp [distance?]
  | some v =>
    cases v with
    | float text trunc => cases trunc <;> simp [distance?]
    | _ => simp [distance?]

/-- The distance of a report: the number that `int` makes of it, where it makes one and the column
takes it. -/
def usableDistance (value : Option Value) : Option ℤ := (distance? value).join.filter fitsInteger

/-- A body with which a hit is recorded. The first field is about the bytes, and the others about
the two fields a hit reads. -/
structure HitBody (rt : Runtime) (bytes : Bytes) : Prop where
  readable : Readable rt bytes
  finite : ∀ text, fieldsOfBody rt bytes "distance" ≠ some (.float text .infinite)
  fits : ∀ n, distance? (fieldsOfBody rt bytes "distance") = some (some n) → fitsInteger n = true
  guildId : ∀ t, Value.strOrNone (fieldsOfBody rt bytes "guild_id") = some t → PyStr.Encodable t

/-- A body with which a flag is recorded: it is readable, and its reason can be encoded. -/
structure FlagBody (rt : Runtime) (bytes : Bytes) : Prop where
  readable : Readable rt bytes
  reason : ∀ t, Value.strOrNone (fieldsOfBody rt bytes "reason") = some t → PyStr.Encodable t

/-- A hit on a row is recorded: it is answered 200, the counter of the row is one up, and a hit of
this consumer with the distance of the body comes after all earlier ones. -/
structure HitRecorded (rt : Runtime) (c : Consumer) (r : Fingerprint) (bytes : Bytes) (nowMs : ℤ)
    (s : Store) (answer : Response) (s' : Store) : Prop where
  status : answer.status = 200
  count : (s'.row r.id).map (·.hitCount) = some (r.hitCount + 1)
  hit : ∃ h, s'.hits.rows = s.hits.rows ++ [h] ∧ h.fingerprintId = r.id ∧ h.consumerId = c.id ∧
    h.hitAtMs = nowMs ∧ h.distance = usableDistance (fieldsOfBody rt bytes "distance")

/-- A flag on a row is recorded: it is answered 200, and the row has a flag of this consumer,
which it may have had before. -/
structure FlagRecorded (c : Consumer) (r : Fingerprint) (answer : Response) (s' : Store) :
    Prop where
  status : answer.status = 200
  flag : ∃ f, s'.flags.get? (r.id, c.id) = some f

section Reports

variable {rt : Runtime} {gcm : AesGcm} {ring : Keyring} {config : ServiceConfig}
  {nonces : ℕ → Nonce} {c : Consumer} {segment : PyStr} {bytes : Bytes} {nowMs : ℤ} {s : Store}
  {r : Fingerprint}

/-- For a consumer with write scope and a path that names a row, a hit is its body and then the
handler, -/
theorem postHit_eq (h_write : Scope.write ∈ c.scopes) (h_id : pathId segment = some r.id) :
    postHit rt gcm ring nonces c segment bytes nowMs s =
      withJsonBody rt bytes s fun body => reportHit gcm ring nonces c segment body nowMs s := by
  simp only [postHit, requireScope, if_pos h_write, h_id]

/-- and so is a flag. -/
theorem postFlag_eq (h_write : Scope.write ∈ c.scopes) (h_id : pathId segment = some r.id) :
    postFlag rt gcm ring config nonces c segment bytes nowMs s =
      withJsonBody rt bytes s fun body =>
        flagFingerprint gcm ring config nonces c segment body nowMs s := by
  simp only [postFlag, requireScope, if_pos h_write, h_id]

/-- A hit with a readable body goes through just when its distance and its guild id allow for
it. -/
theorem hitGoesThrough_iff (h : Readable rt bytes) :
    hitGoesThrough (parseJsonBody rt bytes) = true ↔ HitBody rt bytes := by
  unfold hitGoesThrough
  simp only [optionalBody_of_readable h]
  constructor
  · intro h_through
    -- the distance does not raise, since the report goes through
    split at h_through
    · exact absurd h_through (by simp)
    · next distance h_distance =>
      rw [Bool.and_eq_true, Option.isSome_iff_exists] at h_through
      refine ⟨h, fun text h_text => ?_, fun n h_n => ?_, ?_⟩
      · have h_none := distance?_eq_none_iff.mpr ⟨text, h_text⟩
        exact absurd (h_none.symm.trans h_distance) (by simp)
      · obtain rfl := Option.some.inj (h_n.symm.trans h_distance)
        exact h_through.2
      · exact plaintext?_strOrNone_iff.mp h_through.1
  · -- and from the conditions on the fields back to the two checks
    intro h_body
    split
    · next h_none =>
      obtain ⟨text, h_text⟩ := distance?_eq_none_iff.mp h_none
      exact absurd h_text (h_body.finite text)
    · next distance h_distance =>
      rw [Bool.and_eq_true, Option.isSome_iff_exists]
      refine ⟨plaintext?_strOrNone_iff.mpr h_body.guildId, ?_⟩
      cases distance with
      | none => rfl
      | some n => exact h_body.fits n h_distance

/-- A flag with a readable body goes through just when its reason allows for it. -/
theorem flagGoesThrough_iff (h : Readable rt bytes) :
    flagGoesThrough (parseJsonBody rt bytes) = true ↔ FlagBody rt bytes := by
  unfold flagGoesThrough
  simp only [optionalBody_of_readable h]
  rw [Option.isSome_iff_exists, plaintext?_strOrNone_iff]
  exact ⟨fun h_reason => ⟨h, h_reason⟩, FlagBody.reason⟩

/-- With such a body `int` does not overflow, and the column takes what it returns. -/
theorem HitBody.exists_distance (h : HitBody rt bytes) :
    ∃ distance, distance? (fieldsOfBody rt bytes "distance") = some distance ∧
      distance.all fitsInteger = true ∧
      distance = usableDistance (fieldsOfBody rt bytes "distance") := by
  have h_some : distance? (fieldsOfBody rt bytes "distance") ≠ none := by
    intro h_none
    obtain ⟨text, h_text⟩ := distance?_eq_none_iff.mp h_none
    exact h.finite text h_text
  obtain ⟨distance, h_distance⟩ := Option.ne_none_iff_exists'.mp h_some
  refine ⟨distance, h_distance, ?_, ?_⟩
  · cases distance with
    | none => rfl
    | some n => exact h.fits n h_distance
  · rw [usableDistance, h_distance, Option.join_some]
    cases distance with
    | none => rfl
    | some n => exact (Option.filter_eq_some_iff.mpr ⟨rfl, h.fits n h_distance⟩).symm

/-- **A hit that goes through is recorded**, on any well-formed store with the row: the id the hit
is inserted under is a new one. -/
theorem reportHit_recorded (h_wf : s.Wf) (h_write : Scope.write ∈ c.scopes)
    (h_id : pathId segment = some r.id) (h_row : s.row r.id = some r) (h_live : r.Live)
    (h : HitBody rt bytes) :
    HitRecorded rt c r bytes nowMs s
      (reportHit gcm ring nonces c segment (parseJsonBody rt bytes) nowMs s).1
      (reportHit gcm ring nonces c segment (parseJsonBody rt bytes) nowMs s).2 := by
  -- what the handler passes to the store
  obtain ⟨guildId, h_guild⟩ := plaintext?_strOrNone_iff.mpr h.guildId
  obtain ⟨distance, h_distance, h_fits, h_usable⟩ := h.exists_distance
  have h_call : reportHit gcm ring nonces c segment (parseJsonBody rt bytes) nowMs s =
      (hitResponse r.id (s.reportHit (encryptWith gcm ring nonces)
        ⟨r.id, c.id, guildId, distance, nowMs⟩).1,
      (s.reportHit (encryptWith gcm ring nonces) ⟨r.id, c.id, guildId, distance, nowMs⟩).2) := by
    simp only [reportHit, requireScope, if_pos h_write, h_id, optionalBody_of_readable h.readable,
      h_distance, h_guild, h_fits]
  -- the row is live, so that the store inserts
  rcases s.reportHit_cases (encryptWith gcm ring nonces)
    ⟨r.id, c.id, guildId, distance, nowMs⟩ with ⟨h_gone, -⟩ | ⟨r', h_row', -, h_store⟩
  · exact absurd (h_gone r h_row) h_live
  · obtain rfl := Option.some.inj (h_row.symm.trans h_row')
    rw [h_call, h_store]
    refine ⟨rfl, ?_, HitArgs.hit (encryptWith gcm ring nonces)
      ⟨r.id, c.id, guildId, distance, nowMs⟩ (s.lastHitId + 1), ?_, rfl, rfl, rfl, h_usable⟩
    · rw [Store.row_updateRow, if_pos rfl, Store.row_recordHit, h_row]
      rfl
    · -- the id of the new hit was not in use
      have h_free : s.hits.get? (s.lastHitId + 1) = none := by
        by_contra h_some
        obtain ⟨h', h_h'⟩ := Option.ne_none_iff_exists'.mp h_some
        have h_le := h_wf.hit_le _ h' h_h'
        omega
      exact Table.rows_insert_of_none h_free

/-- **A flag that goes through is recorded.** -/
theorem flagFingerprint_recorded (h_write : Scope.write ∈ c.scopes)
    (h_id : pathId segment = some r.id) (h_row : s.row r.id = some r) (h_live : r.Live)
    (h : FlagBody rt bytes) :
    FlagRecorded c r
      (flagFingerprint gcm ring config nonces c segment (parseJsonBody rt bytes) nowMs s).1
      (flagFingerprint gcm ring config nonces c segment (parseJsonBody rt bytes) nowMs s).2 := by
  obtain ⟨reason, h_reason⟩ := plaintext?_strOrNone_iff.mpr h.reason
  have h_call :
      flagFingerprint gcm ring config nonces c segment (parseJsonBody rt bytes) nowMs s =
      (flagResponse r.id (s.flag (encryptWith gcm ring nonces)
        ⟨r.id, c.id, reason, nowMs, config.autoHideFlagThreshold⟩).1,
      (s.flag (encryptWith gcm ring nonces)
        ⟨r.id, c.id, reason, nowMs, config.autoHideFlagThreshold⟩).2) := by
    simp only [flagFingerprint, requireScope, if_pos h_write, h_id,
      optionalBody_of_readable h.readable, h_reason]
  -- hidden by it or not, the row keeps the flag
  have h_flag := s.flags.exists_get?_insert (FlagArgs.flag (encryptWith gcm ring nonces)
    ⟨r.id, c.id, reason, nowMs, config.autoHideFlagThreshold⟩ (s.lastFlagId + 1))
  rcases s.flag_cases (encryptWith gcm ring nonces)
      ⟨r.id, c.id, reason, nowMs, config.autoHideFlagThreshold⟩ with
    ⟨h_gone, -⟩ | ⟨r', -, -, -, h_store⟩ | ⟨r', -, -, -, h_store⟩
  · exact absurd (h_gone r h_row) h_live
  · rw [h_call, h_store]
    exact ⟨rfl, h_flag⟩
  · rw [h_call, h_store]
    exact ⟨rfl, h_flag⟩

/-- A report that is answered 200 goes through and has a readable body. Both handlers are
instances, each with its own condition. -/
theorem withJsonBody_status {k : Body → Response × Store} {goesThrough : Body → Bool} {good : Prop}
    (h_none : ∀ body, optionalBody body = none → goesThrough body = false)
    (h_answer : ∀ body, goesThrough body = false → (k body).1.status ≠ 200)
    (h_good : Readable rt bytes → goesThrough (parseJsonBody rt bytes) = true → good)
    (h_status : (withJsonBody rt bytes s k).1.status = 200) : good := by
  unfold withJsonBody at h_status
  split at h_status
  · exact absurd h_status (by simp [entityTooLarge])
  · next h_size =>
    have h_through : goesThrough (parseJsonBody rt bytes) = true := by
      by_contra h_not
      exact h_answer _ (Bool.eq_false_of_not_eq_true h_not) h_status
    -- a body that is not readable is too large, or raises
    refine h_good ?_ h_through
    by_contra h_not
    rcases of_not_readable h_not with h_large | h_raises
    · exact h_size h_large
    · exact absurd h_through (by simp [h_none _ h_raises])

/-- **Which reports are recorded**: a hit on a live row exactly if nothing raises on its body, its
distance and its guild id, and a flag exactly if nothing raises on its body and its reason.

Both are for every byte string as body and on any runtime. A body that is no JSON, or no object,
is readable and reports with nothing in it; the bytes that are dropped are those on which
something raises. -/
theorem reports_recorded (h_wf : s.Wf) (h_write : Scope.write ∈ c.scopes)
    (h_id : pathId segment = some r.id) (h_row : s.row r.id = some r) (h_live : r.Live) :
    (HitRecorded rt c r bytes nowMs s (postHit rt gcm ring nonces c segment bytes nowMs s).1
      (postHit rt gcm ring nonces c segment bytes nowMs s).2 ↔ HitBody rt bytes) ∧
    (FlagRecorded c r (postFlag rt gcm ring config nonces c segment bytes nowMs s).1
      (postFlag rt gcm ring config nonces c segment bytes nowMs s).2 ↔ FlagBody rt bytes) := by
  rw [postHit_eq h_write h_id, postFlag_eq h_write h_id]
  constructor
  · constructor
    · -- what is recorded was answered 200
      intro h
      refine withJsonBody_status (fun body h_none => ?_) (fun body h_not => ?_)
        (fun h_readable => (hitGoesThrough_iff h_readable).mp) h.status
      · simp only [hitGoesThrough, h_none]
      · rw [reportHit_of_live h_write h_id h_row h_live, h_not]
        simp [Response.internalServerError, Response.error]
    · -- the body is not too large, and the handler gets it
      intro h
      rw [withJsonBody, h.readable.size]
      exact reportHit_recorded h_wf h_write h_id h_row h_live h
  · constructor
    · -- the same for a flag, which has no distance
      intro h
      refine withJsonBody_status (fun body h_none => ?_) (fun body h_not => ?_)
        (fun h_readable => (flagGoesThrough_iff h_readable).mp) h.status
      · simp only [flagGoesThrough, h_none]
      · obtain ⟨h_answer, -⟩ := @flagFingerprint_of_live gcm ring config c segment r.id s r body
          nonces nowMs h_write h_id h_row h_live
        rw [h_answer, h_not]
        simp [Response.internalServerError, Response.error]
    · intro h
      rw [withJsonBody, h.readable.size]
      exact flagFingerprint_recorded h_write h_id h_row h_live h

end Reports

/-! ### Concrete bodies -/

/-- A runtime for concrete bodies without a fraction. Its limits are the defaults of aiohttp and
of CPython. -/
def sampleRuntime : Runtime where
  tooLarge := fun size => 2 ^ 20 < size
  depth := 1000
  float := fun literal => (literal, .nan)
  containerText := fun _ => []
  details := fun _ => "Expecting value"

/-- A store with one fingerprint. -/
def sampleReported : Store :=
  Store.empty.run [.contribute (fun _ t => t) (sampleContribution "00ff")]

/-- Its row. -/
def sampleRow : Fingerprint := freshRow (fun _ t => t) (sampleContribution "00ff") 1 1

/-- A hit of another consumer with this text as body. -/
def sampleHit (bytes : Bytes) : Response × Store :=
  postHit sampleRuntime FieldEncryption.sampleGcm FieldEncryption.sampleRing
    (fun _ => FieldEncryption.sampleNonce) ⟨2, [.write]⟩ (PyStr.ofString "1") bytes 20
    sampleReported

/-- The same for a flag. -/
def sampleFlag (bytes : Bytes) : Response × Store :=
  postFlag sampleRuntime FieldEncryption.sampleGcm FieldEncryption.sampleRing .default
    (fun _ => FieldEncryption.sampleNonce) ⟨2, [.write]⟩ (PyStr.ofString "1") bytes 20
    sampleReported

/-- A report with a distance and without texts is recorded, as a hit and as a flag. -/
theorem reports_recorded_sample :
    let bytes := FieldEncryption.utf8 "\x7b\"distance\": 3\x7d"
    HitRecorded sampleRuntime ⟨2, [.write]⟩ sampleRow bytes 20 sampleReported
      (sampleHit bytes).1 (sampleHit bytes).2 ∧
    FlagRecorded ⟨2, [.write]⟩ sampleRow (sampleFlag bytes).1 (sampleFlag bytes).2 := by
  intro bytes
  -- the fields of the body, evaluated
  have h_distance : fieldsOfBody sampleRuntime bytes "distance" = some (.int 3) := by decide +kernel
  have h_guild : fieldsOfBody sampleRuntime bytes "guild_id" = none := by decide +kernel
  have h_reason : fieldsOfBody sampleRuntime bytes "reason" = none := by decide +kernel
  have h_readable : Readable sampleRuntime bytes := readable_of_field (by decide +kernel) h_distance
  have h_wf : sampleReported.Wf := Store.Wf.empty.run _
  obtain ⟨h_hit, h_flag⟩ := @reports_recorded sampleRuntime FieldEncryption.sampleGcm
    FieldEncryption.sampleRing .default (fun _ => FieldEncryption.sampleNonce) ⟨2, [.write]⟩
    (PyStr.ofString "1") bytes 20 sampleReported sampleRow h_wf (List.mem_singleton_self _)
    (by decide +kernel) rfl (by decide)
  refine ⟨h_hit.mpr ⟨h_readable, ?_, ?_, ?_⟩, h_flag.mpr ⟨h_readable, ?_⟩⟩
  · simp [h_distance]
  · intro n h_n
    rw [h_distance] at h_n
    obtain rfl : 3 = n := by simpa [distance?] using h_n
    decide
  · simp [h_guild, Value.strOrNone]
  · simp [h_reason, Value.strOrNone]

/-- **Reports are dropped**: by a byte that is not UTF-8, by an infinite distance, by one that the
column does not take, and by half a surrogate pair. They are answered 500, and nothing is stored.
-/
theorem reports_dropped :
    (∀ bytes ∈ [[0xff], FieldEncryption.utf8 "\x7b\"distance\": Infinity\x7d",
        FieldEncryption.utf8 "\x7b\"distance\": 2147483648\x7d",
        FieldEncryption.utf8 "\x7b\"guild_id\": \"\\ud800\"\x7d"],
      (sampleHit bytes).1.status = 500 ∧ (sampleHit bytes).2.hits.rows = [] ∧
      ¬ HitRecorded sampleRuntime ⟨2, [.write]⟩ sampleRow bytes 20 sampleReported
        (sampleHit bytes).1 (sampleHit bytes).2) ∧
    ∀ bytes ∈ [[0xff], FieldEncryption.utf8 "\x7b\"reason\": \"\\ud800\"\x7d"],
      (sampleFlag bytes).1.status = 500 ∧ (sampleFlag bytes).2.flags.rows = [] ∧
      ¬ FlagRecorded ⟨2, [.write]⟩ sampleRow (sampleFlag bytes).1 (sampleFlag bytes).2 := by
  constructor
  · intro bytes h_bytes
    have h_status : (sampleHit bytes).1.status = 500 ∧ (sampleHit bytes).2.hits.rows = [] := by
      revert bytes
      decide +kernel
    refine ⟨h_status.1, h_status.2, fun h => ?_⟩
    exact absurd (h_status.1.symm.trans h.status) (by decide)
  · intro bytes h_bytes
    have h_status : (sampleFlag bytes).1.status = 500 ∧ (sampleFlag bytes).2.flags.rows = [] := by
      revert bytes
      decide +kernel
    refine ⟨h_status.1, h_status.2, fun h => ?_⟩
    exact absurd (h_status.1.symm.trans h.status) (by decide)

end Api
end FingerprintHub
