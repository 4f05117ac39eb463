import FingerprintHub.Api.Access
import FingerprintHub.Store.Trust

/-!
# `config.py`

The configuration is read from environment variables, and what a variable holds that is no
integer is as good as nothing. `load_config_from_env` keeps the threshold of `flag` at 1 or
above; the two limits of the page sizes and the rate limit are taken as they are, and it is the
handlers and the limiter that have to live with any integer.

`hiding_takes_flaggers` is what the threshold comes to in a run of the application: whatever the
environment says, a live row is out of service exactly when enough consumers have flagged it.
-/

namespace FingerprintHub
namespace Api

open Base64 (Bytes)
open Auth (rateLimited)
open FieldEncryption (AesGcm)

/-! ### The environment -/

/-- `os.getenv`: every variable has a text or is not set. The text may have surrogates, which is
how the bytes of a variable that are no UTF-8 come out. -/
abbrev Environment := String → Option PyStr

/-- `_int_env`: a variable that is not set, blank or no integer has its default. -/
def intEnv (env : Environment) (name : String) (default : ℤ) : ℤ :=
  match env name with
  | none => default
  | some raw => if PyStr.strip raw = [] then default else (PyStr.int raw).getD default

/-- The integers of `ServiceConfig`, apart from the port. Each may be any integer. -/
structure EnvConfig where
  rateLimitPerMinute : ℤ
  autoHideFlagThreshold : ℤ
  maxSyncLimit : ℤ
  defaultSyncLimit : ℤ
  maxListLimit : ℤ
  deriving DecidableEq, Repr

/-- `load_config_from_env`. The threshold is the only one that is kept in a range here. -/
def loadConfigFromEnv (env : Environment) : EnvConfig where
  rateLimitPerMinute := intEnv env "FINGERPRINTHUB_RATE_LIMIT" 300
  autoHideFlagThreshold := max 1 (intEnv env "FINGERPRINTHUB_AUTO_HIDE_FLAG_THRESHOLD" 2)
  maxSyncLimit := intEnv env "FINGERPRINTHUB_MAX_SYNC_LIMIT" 500
  defaultSyncLimit := intEnv env "FINGERPRINTHUB_DEFAULT_SYNC_LIMIT" 200
  maxListLimit := intEnv env "FINGERPRINTHUB_MAX_LIST_LIMIT" 200

/-- What the handlers read of the configuration. The threshold is a natural number, since it is at
least 1. -/
def EnvConfig.service (cfg : EnvConfig) : ServiceConfig where
  autoHideFlagThreshold := cfg.autoHideFlagThreshold.toNat
  maxSyncLimit := cfg.maxSyncLimit
  defaultSyncLimit := cfg.defaultSyncLimit
  maxListLimit := cfg.maxListLimit

-- a threshold of 0 is one of 1, and one that is no integer is the default
example : (loadConfigFromEnv (fun name =>
      if name = "FINGERPRINTHUB_AUTO_HIDE_FLAG_THRESHOLD" then some (PyStr.ofString " 0 ")
      else if name = "FINGERPRINTHUB_RATE_LIMIT" then some (PyStr.ofString "many") else none)) =
    ⟨300, 1, 500, 200, 200⟩ := by decide +kernel

/-- The threshold is at least 1, so that no row is hidden without a flag. -/
theorem one_le_threshold (env : Environment) :
    1 ≤ (loadConfigFromEnv env).service.autoHideFlagThreshold := by
  have h_le : (1 : ℤ) ≤ (loadConfigFromEnv env).autoHideFlagThreshold := le_max_left _ _
  show 1 ≤ ((loadConfigFromEnv env).autoHideFlagThreshold).toNat
  omega

/-! ### Hidden rows -/

section Hidden

variable {gcm : AesGcm} {config : ServiceConfig} {s t : Service} {id : ℤ}

/-- The store shows a standing of the row throughout every run: every flag of the run was counted
under the threshold of the configuration. -/
theorem Reaches.shows (h_pos : 1 ≤ config.autoHideFlagThreshold) (h : Reaches gcm config .start s) :
    ∃ st, s.store.Shows config.autoHideFlagThreshold id st := by
  induction h with
  | refl => exact ⟨.absent, .empty⟩
  | tail h_run h_step ih =>
    obtain ⟨st, h_shows⟩ := ih
    obtain ⟨e, h_step⟩ := h_step
    -- the standing follows the call of the step
    rcases h_step.op with h_same | ⟨op, h_calls, h_op⟩
    · rw [h_same]
      exact ⟨st, h_shows⟩
    · rw [h_op]
      refine ⟨_, h_shows.step (Reaches.wf h_run .empty) h_pos op ?_⟩
      cases h_calls with
      -- the threshold of a flag is the configured one
      | flag h_write h_consumer h_now h_threshold => exact h_threshold
      | _ => trivial

end Hidden

/-- **Hiding takes flaggers.** In every state that the application reaches under the configuration
of an environment, whatever the environment says: a live row is hidden exactly when its flaggers
are as many as the threshold, which is at least 1, and active otherwise; `flag_count` is their
number, and every one of them is a consumer with write scope.

The flaggers are those since the row was last contributed: a resurrection clears them. -/
theorem hiding_takes_flaggers (env : Environment) {sha256 : Bytes → String} {rt : Runtime}
    {gcm : AesGcm} {a : App}
    (h_run : AppReaches sha256 rt gcm (loadConfigFromEnv env).service
      (loadConfigFromEnv env).rateLimitPerMinute .start a)
    {id : ℤ} {r : Fingerprint} (h_row : a.service.store.row id = some r) (h_live : r.Live) :
    ∃ F : Finset ℤ, r.flagCount = F.card ∧
      (r.status = .hidden ↔
        max 1 (intEnv env "FINGERPRINTHUB_AUTO_HIDE_FLAG_THRESHOLD" 2) ≤ F.card) ∧
      (r.status = .active ↔
        (F.card : ℤ) < max 1 (intEnv env "FINGERPRINTHUB_AUTO_HIDE_FLAG_THRESHOLD" 2)) ∧
      ∀ c, c ∈ F ↔ a.service.store.Flagged id c ∧
        ∃ record, a.consumers.row c = some record ∧ Scope.write ∈ record.scopes := by
  obtain ⟨st, h_shows⟩ : ∃ st, a.service.store.Shows
      (loadConfigFromEnv env).service.autoHideFlagThreshold id st :=
    Reaches.shows (one_le_threshold env) h_run.service
  -- the standing says the status, the count and the flaggers
  have h_status := h_shows.status
  rw [h_row, Option.map_some] at h_status
  have h_threshold : (((loadConfigFromEnv env).service.autoHideFlagThreshold : ℕ) : ℤ) =
      max 1 (intEnv env "FINGERPRINTHUB_AUTO_HIDE_FLAG_THRESHOLD" 2) :=
    Int.toNat_of_nonneg (zero_le_one.trans (le_max_left _ _))
  rw [← h_threshold]
  -- a live row is hidden just when its flaggers reach the threshold
  have h_by_count : r.status =
      if (loadConfigFromEnv env).service.autoHideFlagThreshold ≤ st.flaggers.card then .hidden
      else .active := by
    cases st with
    | absent => exact absurd h_status (by simp [Trust.Standing.status])
    | live F => exact Option.some.inj h_status
    | tombstone F => exact absurd (Option.some.inj h_status) h_live
  refine ⟨st.flaggers, h_shows.flagCount r h_row, ?_, ?_, fun c => ?_⟩
  · rw [h_by_count, Nat.cast_le]
    split
    · next h_le => exact ⟨fun _ => h_le, fun _ => rfl⟩
    · next h_lt => exact ⟨fun h => Status.noConfusion h, fun h => absurd h h_lt⟩
  · rw [h_by_count, Nat.cast_lt, ← not_le]
    split
    · next h_le => exact ⟨fun h => Status.noConfusion h, fun h => absurd h_le h⟩
    · next h_lt => exact ⟨fun _ => h_lt, fun _ => rfl⟩
  · -- a flagger was let through, and its row in `consumers` has stayed
    rw [← h_shows.flagged c, iff_self_and]
    rintro ⟨f, h_flag⟩
    have h_key := Table.key_of_get? h_flag
    exact Refers.consumer h_run (Or.inr (Or.inl ⟨_, f, h_flag, congrArg Prod.snd h_key⟩))

/-! ### A row that one flag hides -/

/-- An environment with a rate limit of 5, and a threshold below the least that is kept. -/
def sampleEnv : Environment := fun name =>
  if name = "FINGERPRINTHUB_RATE_LIMIT" then some (PyStr.ofString "5")
  else if name = "FINGERPRINTHUB_AUTO_HIDE_FLAG_THRESHOLD" then some (PyStr.ofString "0")
  else none

/-- A flag of the contributor on its own row, with no body. -/
def sampleFlagPost : HttpRequest :=
  { samplePost "" with
    path := [PyStr.ofString "v1", PyStr.ofString "fingerprints", PyStr.ofString "1",
      PyStr.ofString "flag"] }

/-- The answer to it after the contribution, and the store it leaves. It is irreducible, so that
no proof about the steps evaluates it. -/
@[irreducible] def sampleFlagged (config : ServiceConfig) : Response × Store :=
  postFlag sampleRuntime FieldEncryption.sampleGcm FieldEncryption.sampleRing config
    (fun _ => FieldEncryption.sampleNonce) sampleRecord.consumer (PyStr.ofString "1")
    sampleFlagPost.body 20 (sampleAnswer (samplePost sampleText)).2

/-- The application once the key of the flag was looked up. -/
def sampleFlagLookedUp : App :=
  { sampleAnswered (samplePost sampleText) with lookedUp := [(sampleFlagPost, some sampleRecord)] }

/-- The application once the limiter has let the flag through. -/
def sampleFlagAdmitted : App :=
  { sampleFlagLookedUp with
    lookedUp := []
    auth := (authenticate 5 sampleFlagLookedUp.auth (some sampleRecord) 0).2
    admitted := [⟨sampleFlagPost, sampleRecord, false⟩] }

/-- The application after the answer to the flag. -/
def sampleFlagAnswered (config : ServiceConfig) : App :=
  { sampleFlagAdmitted with
    admitted := []
    service := { sampleFlagAdmitted.service with store := (sampleFlagged config).2 } }

/-- Before the flag the store is the one of the contribution. -/
theorem sampleFlagAdmitted_store :
    sampleFlagAdmitted.service.store = (sampleAnswer (samplePost sampleText)).2 :=
  sampleAnswered_store (samplePost sampleText)

/-- The flag arrives, and its key is looked up. -/
theorem sampleFlagLookedUp_step (config : ServiceConfig) :
    AppStep sampleSha256 sampleRuntime FieldEncryption.sampleGcm config 5
      (sampleAnswered (samplePost sampleText)) (.arrive sampleFlagPost) none
      sampleFlagLookedUp := by
  have h_find : sampleConsumers.findByKeyHash "fph_k" = some sampleRecord := by decide +kernel
  have h_hash : hashApiKey sampleSha256 sampleFlagPost.apiKey = some "fph_k" := by
    show hashApiKey sampleSha256 (PyStr.ofString "fph_k") = _
    decide +kernel
  have h_lookup : lookupKey sampleSha256 sampleFlagPost
      (sampleAnswered (samplePost sampleText)).consumers = .ok (some sampleRecord) := by
    rw [lookupKey_of_hash (List.cons_ne_nil _ _) h_hash]
    exact congrArg _ h_find
  exact .lookup (by decide +kernel) h_lookup

/-- The limiter lets it through: it is the second request, and the limit is 5. -/
theorem sampleFlagAdmitted_step (config : ServiceConfig) :
    AppStep sampleSha256 sampleRuntime FieldEncryption.sampleGcm config 5 sampleFlagLookedUp
      (.authenticate sampleFlagPost (some sampleRecord) 0) none sampleFlagAdmitted := by
  have h_free : (rateLimited 5 sampleFlagLookedUp.auth.requestTimes 1 0).1 = false := by
    decide +kernel
  have h_marked : sampleFlagLookedUp.auth.lastSeenMarked 1 = 0 := by decide +kernel
  have h_auth : (authenticate 5 sampleFlagLookedUp.auth (some sampleRecord) 0).1 =
      .ok (sampleRecord, false) := by
    have h_recent : ¬ (60 : ℚ) ≤ 0 - 0 := by norm_num
    simp only [authenticate, sampleRecord, h_free, h_marked, h_recent]
    rfl
  exact @AppStep.authenticate _ _ _ _ _ sampleFlagLookedUp [] [] _ _ rfl _ _ _ h_auth

/-- The flag is handled. -/
theorem sampleFlagAnswered_step (config : ServiceConfig) :
    AppStep sampleSha256 sampleRuntime FieldEncryption.sampleGcm config 5 sampleFlagAdmitted
      (.handle sampleFlagPost sampleRecord FieldEncryption.sampleRing
        (fun _ => FieldEncryption.sampleNonce) 20)
      (some (sampleFlagged config).1) (sampleFlagAnswered config) := by
  have h_resolve : resolve sampleFlagPost.method sampleFlagPost.path =
      .ok (.flagFingerprint, PyStr.ofString "1") := by decide
  have h_serve : serve sampleRuntime FieldEncryption.sampleGcm config FieldEncryption.sampleRing
      (fun _ => FieldEncryption.sampleNonce) 20 sampleFlagPost sampleRecord.consumer
      sampleFlagAdmitted.service.store sampleFlagAdmitted.consumers =
        .answered (sampleFlagged config).1 (sampleFlagged config).2 := by
    rw [sampleFlagAdmitted_store, serve, h_resolve, sampleFlagged]
  exact @AppStep.answer _ _ _ _ _ sampleFlagAdmitted [] [] _ _ rfl _ _ _ _ _ h_serve

/-- After the flag the store is the one the answer came with. -/
theorem sampleFlagAnswered_store (config : ServiceConfig) :
    (sampleFlagAnswered config).service.store = (sampleFlagged config).2 := rfl

/-- The application reaches the store of the flag. -/
theorem sampleFlagged_reaches (config : ServiceConfig) :
    AppReaches sampleSha256 sampleRuntime FieldEncryption.sampleGcm config 5 .start
      (sampleFlagAnswered config) :=
  ((((sampleAdmitted_reaches config sampleText).tail
    ⟨_, _, sampleAnswered_step config sampleText⟩).tail ⟨_, _, sampleFlagLookedUp_step config⟩).tail
      ⟨_, _, sampleFlagAdmitted_step config⟩).tail ⟨_, _, sampleFlagAnswered_step config⟩

/-- One flag hides the row: the threshold of the environment is 0, which counts as 1. -/
theorem hiding_takes_flaggers_flagged :
    ∃ b r, AppReaches sampleSha256 sampleRuntime FieldEncryption.sampleGcm
        (loadConfigFromEnv sampleEnv).service (loadConfigFromEnv sampleEnv).rateLimitPerMinute
        .start b ∧ b.service.store.row 1 = some r ∧ r.flagCount = 1 ∧ r.status = .hidden := by
  have h_config : loadConfigFromEnv sampleEnv = ⟨5, 1, 500, 200, 200⟩ := by decide +kernel
  have h_rate : (loadConfigFromEnv sampleEnv).rateLimitPerMinute = 5 := by rw [h_config]
  have h_run : AppReaches sampleSha256 sampleRuntime FieldEncryption.sampleGcm
      (loadConfigFromEnv sampleEnv).service (loadConfigFromEnv sampleEnv).rateLimitPerMinute .start
      (sampleFlagAnswered (loadConfigFromEnv sampleEnv).service) := by
    rw [h_rate]
    exact sampleFlagged_reaches _
  -- the contributor has flagged its own row
  have h_sample : ((sampleFlagged (loadConfigFromEnv sampleEnv).service).2.row 1).map
      (fun r => (r.flagCount, decide (r.status = .deleted))) = some (1, false) := by
    rw [h_config, sampleFlagged, sampleAnswer_eq]
    decide +kernel
  obtain ⟨r, h_row, h_r⟩ := Option.map_eq_some_iff.mp h_sample
  obtain ⟨h_count, h_status⟩ := Prod.mk.inj h_r
  rw [← sampleFlagAnswered_store] at h_row
  obtain ⟨F, h_card, h_iff, -⟩ :=
    hiding_takes_flaggers sampleEnv h_run h_row (of_decide_eq_false h_status)
  refine ⟨_, r, h_run, h_row, h_count, h_iff.mpr ?_⟩
  rw [← h_card, h_count]
  decide +kernel

end Api
end FingerprintHub
