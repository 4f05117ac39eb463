import FingerprintHub.Api.Handlers
import FingerprintHub.Store.FlagCount
import FingerprintHub.Store.HitCount

/-!
# What the answers to writes tell

`report_hit` answers with the `hit_count` of the row and `flag_fingerprint` with its
`flag_count`, whoever asks. Take two histories that leave a row with the same peer fields.
A peer's hit is answered alike exactly if both recorded equally many hits on it, and a flag
that hides it in neither exactly if equally many other consumers have flagged it
(`answers_reveal`). Nothing else about the histories shows.
-/

namespace FingerprintHub
namespace Api

open FieldEncryption (AesGcm Keyring Nonce sampleGcm sampleRing sampleNonce)

/-! ### The answers on a live row -/

/-- `report_hit` on a live row gets as far as its `INSERT`: the distance converts and fits the
column, and the guild id can be encrypted. This depends on the body alone. -/
def hitGoesThrough (body : Body) : Bool :=
  match optionalBody body with
  | none => false
  | some get =>
    match distance? (get "distance") with
    | none => false
    | some distance =>
      (plaintext? (Value.strOrNone (get "guild_id"))).isSome && distance.all fitsInteger

/-- `flag_fingerprint` on a live row gets as far as its `INSERT`. -/
def flagGoesThrough (body : Body) : Bool :=
  match optionalBody body with
  | none => false
  | some get => (plaintext? (Value.strOrNone (get "reason"))).isSome

/-- A flag of `me` would hide the row: with it the threshold is reached. A flag of `me` that is
there already does not count twice. -/
def WouldHide (s : Store) (me id : ℤ) (threshold : ℕ) : Prop :=
  ∃ r, s.row id = some r ∧ r.status = .active ∧ threshold ≤ (s.otherFlaggers me id).card + 1

/-- What a flag returns on a live row of a status, when `others` other consumers have
flagged it. -/
def flagOutcome (others threshold : ℕ) (status : Status) : FlagResult :=
  if threshold ≤ others + 1 ∧ status = .active then ⟨others + 1, .hidden, true⟩
  else ⟨others + 1, status, false⟩

section Answers

variable {gcm : AesGcm} {ring : Keyring} {config : ServiceConfig} {c : Consumer}
  {segment : PyStr} {id : ℤ} {s : Store} {r : Fingerprint} {body : Body} {nonces : ℕ → Nonce}
  {nowMs : ℤ}

/-- The answer of `report_hit` on a live row depends on the body and on `hit_count`. -/
theorem reportHit_of_live (h_write : Scope.write ∈ c.scopes) (h_id : pathId segment = some id)
    (h_row : s.row id = some r) (h_live : r.Live) :
    (reportHit gcm ring nonces c segment body nowMs s).1 =
      if hitGoesThrough body then hitResponse id (some (r.hitCount + 1))
      else .internalServerError := by
  have h_get : s.get id = some r := h_row
  -- the store counts a hit on a live row, whatever else the arguments are
  have h_store : ∀ enc (a : HitArgs), a.fingerprintId = id →
      (s.reportHit enc a).1 = some (r.hitCount + 1) := by
    rintro enc a rfl
    rcases s.reportHit_cases enc a with ⟨h_gone, -⟩ | ⟨r', h_row', -, h⟩
    · exact absurd (h_gone r h_row) h_live
    · obtain rfl := Option.some.inj (h_row'.symm.trans h_row)
      rw [h]
  unfold reportHit requireScope hitGoesThrough
  rw [if_pos h_write]
  simp only [h_id]
  cases optionalBody body with
  | none => rfl
  | some get =>
    cases h_distance : distance? (get "distance") with
    | none => simp only [h_distance]; rfl
    | some distance =>
      simp only [h_distance]
      cases plaintext? (Value.strOrNone (get "guild_id")) with
      -- `encrypt_text` raises, after the row was found to be live
      | none =>
        simp only [h_get]
        rw [if_neg h_live]
        rfl
      | some guildId =>
        cases h_fits : distance.all fitsInteger with
        -- the column refuses the distance
        | false =>
          simp only [h_get]
          rw [if_neg h_live]
          rfl
        | true =>
          simp only [h_store]
          rfl

/-- `flag` on a live row returns its outcome and leaves its status in the row. The outcome depends
on how many others have flagged the row, and not on who they are. -/
theorem flag_of_live (h_row : s.row id = some r) (h_live : r.Live) (enc : EncryptText)
    {a : FlagArgs} (h_a : a.fingerprintId = id) :
    let outcome :=
      flagOutcome (s.otherFlaggers a.consumerId id).card a.autoHideThreshold r.status
    (s.flag enc a).1 = some outcome ∧
      ((s.flag enc a).2.row id).map (·.status) = some outcome.status := by
  intro outcome
  subst h_a
  have h_count := s.flagCountAfter_eq enc a
  rcases s.flag_cases enc a with
    ⟨h_gone, -⟩ | ⟨r', h_row', h_active, h_le, h⟩ | ⟨r', h_row', -, h_not, h⟩
  · exact absurd (h_gone r h_row) h_live
  · obtain rfl := Option.some.inj (h_row'.symm.trans h_row)
    rw [h_count] at h_le h
    -- the flag hides the row
    have h_outcome : outcome = ⟨_, .hidden, true⟩ := if_pos ⟨h_le, h_active⟩
    rw [h, h_outcome, Store.row_updateRow, if_pos rfl, Store.row_nextSeq, Store.row_recordFlag,
      h_row']
    exact ⟨rfl, rfl⟩
  · obtain rfl := Option.some.inj (h_row'.symm.trans h_row)
    rw [h_count] at h_not h
    -- the flag is counted only
    have h_outcome : outcome = ⟨_, r'.status, false⟩ := if_neg h_not
    rw [h, h_outcome, Store.row_updateRow, if_pos rfl, Store.row_recordFlag, h_row']
    exact ⟨rfl, rfl⟩

/-- The answer of `flag_fingerprint` on a live row, and the status it leaves, in terms of the
body, the status and the number of other flaggers. -/
theorem flagFingerprint_of_live (h_write : Scope.write ∈ c.scopes)
    (h_id : pathId segment = some id) (h_row : s.row id = some r) (h_live : r.Live) :
    let outcome :=
      flagOutcome (s.otherFlaggers c.id id).card config.autoHideFlagThreshold r.status
    let flagged := flagFingerprint gcm ring config nonces c segment body nowMs s
    flagged.1 = (if flagGoesThrough body then flagResponse id (some outcome)
      else .internalServerError) ∧
      (flagged.2.row id).map (·.status) =
        some (if flagGoesThrough body then outcome.status else r.status) := by
  have h_get : s.get id = some r := h_row
  intro outcome flagged
  unfold flagged flagFingerprint requireScope flagGoesThrough
  rw [if_pos h_write]
  simp only [h_id]
  cases optionalBody body with
  | none => exact ⟨rfl, congrArg (Option.map _) h_row⟩
  | some get =>
    cases h_reason : plaintext? (Value.strOrNone (get "reason")) with
    | none =>
      -- a reason that cannot be encrypted leaves the row as it was
      simp only [h_get, h_reason]
      rw [if_neg h_live]
      exact ⟨rfl, congrArg (Option.map _) h_row⟩
    | some reason =>
      simp only [h_reason]
      obtain ⟨h_result, h_status⟩ := flag_of_live h_row h_live (encryptWith gcm ring nonces)
        (a := ⟨id, c.id, reason, nowMs, config.autoHideFlagThreshold⟩) rfl
      rw [h_result]
      exact ⟨rfl, h_status⟩

/-- The status shows in the outcome just when the flag does not hide the row, -/
theorem status_flagOutcome (others threshold : ℕ) (status : Status) :
    (flagOutcome others threshold status).status = status ↔
      ¬ (threshold ≤ others + 1 ∧ status = .active) := by
  unfold flagOutcome
  split
  · next h =>
    rw [h.2]
    exact ⟨fun e => Status.noConfusion e, fun h_not => absurd ⟨h.1, rfl⟩ h_not⟩
  · next h => exact iff_of_true rfl h

/-- and then the outcome says the count besides. -/
theorem flagOutcome_of_not {others threshold : ℕ} {status : Status}
    (h : ¬ (threshold ≤ others + 1 ∧ status = .active)) :
    flagOutcome others threshold status = ⟨others + 1, status, false⟩ :=
  if_neg h

/-- What `WouldHide` says of a row that is there. -/
theorem wouldHide_iff (h_row : s.row id = some r) {threshold : ℕ} :
    WouldHide s c.id id threshold ↔
      threshold ≤ (s.otherFlaggers c.id id).card + 1 ∧ r.status = .active := by
  constructor
  · rintro ⟨r', h_row', h_active, h_le⟩
    obtain rfl := Option.some.inj (h_row'.symm.trans h_row)
    exact ⟨h_le, h_active⟩
  · rintro ⟨h_le, h_active⟩
    exact ⟨r, h_row, h_active, h_le⟩

/-- The count can be read off the answer to a hit -/
theorem hitResponse_inj {n n' : ℕ} (h : hitResponse id (some n) = hitResponse id (some n')) :
    n = n' := by
  simpa [hitResponse, Response.ok] using h

/-- and off the answer to a flag. -/
theorem flagResponse_inj {result result' : FlagResult}
    (h : flagResponse id (some result) = flagResponse id (some result')) :
    result.flagCount = result'.flagCount := by
  have h_fields := by simpa [flagResponse, Response.ok] using h
  exact h_fields.1

end Answers

/-! ### Two histories -/

/-- What a call does in the name of `me` on the fingerprint `id`. -/
def ownCall (me id : ℤ) : Op → Option (HitArgs ⊕ FlagArgs)
  | .reportHit _ a => if a.consumerId = me ∧ a.fingerprintId = id then some (.inl a) else none
  | .flag _ a => if a.consumerId = me ∧ a.fingerprintId = id then some (.inr a) else none
  | _ => none

/-- Two histories that are the same to a peer of the row `id`: it is there, of another consumer,
with the same peer fields, and the peer's own hits and flags on it are the same. This is all that
`_peer_fp` shows and all that the peer knows of itself. -/
structure PeerAlike (c : Consumer) (id : ℤ) (ops ops' : List Op) : Prop where
  not_admin : c.isAdmin = false
  row : ∃ r r', (Store.empty.run ops).row id = some r ∧ (Store.empty.run ops').row id = some r' ∧
    r.syncColumns = r'.syncColumns ∧ r.Live ∧ r.consumerId ≠ c.id ∧ r'.consumerId ≠ c.id
  own : ops.filterMap (ownCall c.id id) = ops'.filterMap (ownCall c.id id)

/-- The consumer's hits are answered alike in two stores: every body gets the same answer, and the
nonces and the clock may differ. -/
def HitsAlike (gcm : AesGcm) (ring : Keyring) (c : Consumer) (segment : PyStr) (s s' : Store) :
    Prop :=
  ∀ nonces nonces' body nowMs nowMs',
    (reportHit gcm ring nonces c segment body nowMs s).1 =
      (reportHit gcm ring nonces' c segment body nowMs' s').1

/-- The consumer's flags on the fingerprint `id` are answered alike in two stores, if they change
its status in neither. A flag that hides the row shows in its status anyway. -/
def FlagsAlike (gcm : AesGcm) (ring : Keyring) (config : ServiceConfig) (c : Consumer)
    (segment : PyStr) (id : ℤ) (s s' : Store) : Prop :=
  ∀ nonces nonces' body nowMs nowMs',
    let flagged := flagFingerprint gcm ring config nonces c segment body nowMs s
    let flagged' := flagFingerprint gcm ring config nonces' c segment body nowMs' s'
    (flagged.2.row id).map (·.status) = (s.row id).map (·.status) →
      (flagged'.2.row id).map (·.status) = (s'.row id).map (·.status) → flagged.1 = flagged'.1

section Histories

variable {gcm : AesGcm} {ring : Keyring} {config : ServiceConfig} {c : Consumer}
  {segment : PyStr} {id : ℤ} {s s' : Store} {r r' : Fingerprint}

/-- Who may not write is refused before the store is looked at. -/
theorem reportHit_of_not_write (h_write : Scope.write ∉ c.scopes) (nonces : ℕ → Nonce)
    (body : Body) (nowMs : ℤ) : (reportHit gcm ring nonces c segment body nowMs s).1 =
      .error 403 ("missing required scope: " ++ Scope.write.text) := by
  rw [reportHit, requireScope, if_neg h_write]

/-- The same for a flag. -/
theorem flagFingerprint_of_not_write (h_write : Scope.write ∉ c.scopes) (nonces : ℕ → Nonce)
    (body : Body) (nowMs : ℤ) :
    (flagFingerprint gcm ring config nonces c segment body nowMs s).1 =
      .error 403 ("missing required scope: " ++ Scope.write.text) := by
  rw [flagFingerprint, requireScope, if_neg h_write]

/-- Hits on two live rows are answered alike exactly if the rows have the same count, or the
consumer may not write. -/
theorem hitsAlike_iff (h_id : pathId segment = some id) (h_row : s.row id = some r)
    (h_row' : s'.row id = some r') (h_live : r.Live) (h_live' : r'.Live) :
    HitsAlike gcm ring c segment s s' ↔ (Scope.write ∈ c.scopes → r.hitCount = r'.hitCount) := by
  constructor
  · intro h h_write
    -- a hit without a body goes through
    have h_answers := h (fun _ => sampleNonce) (fun _ => sampleNonce) .notObject 0 0
    rw [reportHit_of_live h_write h_id h_row h_live,
      reportHit_of_live h_write h_id h_row' h_live'] at h_answers
    exact Nat.succ.inj (hitResponse_inj h_answers)
  · intro h nonces nonces' body nowMs nowMs'
    by_cases h_write : Scope.write ∈ c.scopes
    · rw [reportHit_of_live h_write h_id h_row h_live,
        reportHit_of_live h_write h_id h_row' h_live', h h_write]
    · rw [reportHit_of_not_write h_write, reportHit_of_not_write h_write]

/-- Flags on two live rows of one status are answered alike exactly if they are hidden by the flag
or flagged by equally many others. One flag that hides neither is enough to tell the two counts
apart. -/
theorem flagsAlike_iff (h_id : pathId segment = some id) (h_row : s.row id = some r)
    (h_row' : s'.row id = some r') (h_live : r.Live) (h_live' : r'.Live)
    (h_status : r.status = r'.status) :
    FlagsAlike gcm ring config c segment id s s' ↔ (Scope.write ∈ c.scopes →
      ¬ WouldHide s c.id id config.autoHideFlagThreshold →
      ¬ WouldHide s' c.id id config.autoHideFlagThreshold →
      (s.otherFlaggers c.id id).card = (s'.otherFlaggers c.id id).card) := by
  rw [wouldHide_iff h_row, wouldHide_iff h_row']
  constructor
  · intro h h_write h_not h_not'
    -- a flag without a body goes through
    have h_flag := @flagFingerprint_of_live gcm ring config c segment id s r .notObject
      (fun _ => sampleNonce) 0 h_write h_id h_row h_live
    have h_flag' := @flagFingerprint_of_live gcm ring config c segment id s' r' .notObject
      (fun _ => sampleNonce) 0 h_write h_id h_row' h_live'
    have h_answers := h (fun _ => sampleNonce) (fun _ => sampleNonce) .notObject 0 0
      (by rw [h_flag.2, h_row, flagOutcome_of_not h_not]; rfl)
      (by rw [h_flag'.2, h_row', flagOutcome_of_not h_not']; rfl)
    rw [h_flag.1, h_flag'.1, flagOutcome_of_not h_not, flagOutcome_of_not h_not'] at h_answers
    exact Nat.succ.inj (flagResponse_inj h_answers)
  · intro h nonces nonces' body nowMs nowMs' flagged flagged' h_keeps h_keeps'
    by_cases h_write : Scope.write ∈ c.scopes
    · have h_flag : flagged.1 = _ ∧ _ := flagFingerprint_of_live h_write h_id h_row h_live
      have h_flag' : flagged'.1 = _ ∧ _ := flagFingerprint_of_live h_write h_id h_row' h_live'
      rw [h_flag.1, h_flag'.1]
      cases h_body : flagGoesThrough body with
      | false => rfl
      | true =>
        -- a flag that goes through and keeps the status is none that hides
        rw [h_flag.2, h_row, h_body, if_pos rfl, Option.map_some, Option.some.injEq,
          status_flagOutcome] at h_keeps
        rw [h_flag'.2, h_row', h_body, if_pos rfl, Option.map_some, Option.some.injEq,
          status_flagOutcome] at h_keeps'
        rw [flagOutcome_of_not h_keeps, flagOutcome_of_not h_keeps', h h_write h_keeps h_keeps',
          h_status]
    · exact (flagFingerprint_of_not_write h_write nonces body nowMs).trans
        (flagFingerprint_of_not_write h_write nonces' body nowMs').symm

variable (gcm ring config) in
/-- **What the answers to writes reveal** of two histories that are the same to a peer: of the
hits on the row how many there were, and of its flags how many other consumers have one. -/
theorem answers_reveal {ops ops' : List Op} (h : PeerAlike c id ops ops')
    (h_id : pathId segment = some id) :
    let s := Store.empty.run ops
    let s' := Store.empty.run ops'
    (HitsAlike gcm ring c segment s s' ↔
      (Scope.write ∈ c.scopes → Store.recordedHits ops id = Store.recordedHits ops' id)) ∧
    (FlagsAlike gcm ring config c segment id s s' ↔ (Scope.write ∈ c.scopes →
      ¬ WouldHide s c.id id config.autoHideFlagThreshold →
      ¬ WouldHide s' c.id id config.autoHideFlagThreshold →
      (s.otherFlaggers c.id id).card = (s'.otherFlaggers c.id id).card)) := by
  intro s s'
  obtain ⟨r, r', h_row, h_row', h_columns, h_live, -, -⟩ := h.row
  have h_status : r.status = r'.status := congrArg SyncRow.status h_columns
  have h_live' : r'.Live := fun h_deleted => h_live (h_status.trans h_deleted)
  refine ⟨?_, flagsAlike_iff h_id h_row h_row' h_live h_live' h_status⟩
  -- `hit_count` is the number of hits the history recorded on the row
  rw [← Store.hitCount_eq_recordedHits h_row, ← Store.hitCount_eq_recordedHits h_row']
  exact hitsAlike_iff h_id h_row h_row' h_live h_live'

end Histories

/-! ### A hit and a flag that show -/

/-- The history of a fingerprint of consumer 1. -/
def sampleQuiet : List Op := [.contribute (fun _ t => t) (sampleContribution "00ff")]

/-- The same with a hit and a flag of the consumer `k`, below the threshold 3. -/
def sampleBusy (k : ℤ) : List Op :=
  sampleQuiet ++ [.reportHit (fun _ t => t) ⟨1, k, none, none, 11⟩,
    .flag (fun _ t => t) ⟨1, k, none, 12, 3⟩]

/-- A consumer that may read and write, but is no admin and owns nothing. -/
def samplePeer : Consumer := ⟨9, [.read, .write]⟩

/-- A service that hides a fingerprint at three flags. -/
def sampleConfig : ServiceConfig := { ServiceConfig.default with autoHideFlagThreshold := 3 }

/-- The path of the fingerprint 1. -/
theorem pathId_one : pathId (PyStr.ofString "1") = some 1 := by decide +kernel

/-- **A hit and a flag of another consumer reach a peer**: its own hit is answered with a
`hit_count` of 2 instead of 1, and its own flag with a `flag_count` of 2 instead of 1. The peer
records of the two histories are equal. -/
theorem counters_reach_peer :
    let s := Store.empty.run sampleQuiet
    let s' := Store.empty.run (sampleBusy 2)
    PeerAlike samplePeer 1 sampleQuiet (sampleBusy 2) ∧
      ¬ HitsAlike sampleGcm sampleRing samplePeer (PyStr.ofString "1") s s' ∧
      ¬ FlagsAlike sampleGcm sampleRing sampleConfig samplePeer (PyStr.ofString "1") 1 s s' := by
  intro s s'
  have h_alike : PeerAlike samplePeer 1 sampleQuiet (sampleBusy 2) :=
    ⟨by decide, ⟨_, _, rfl, rfl, by decide, by decide, by decide, by decide⟩, rfl⟩
  obtain ⟨r, r', h_row, h_row', h_columns, h_live, -, -⟩ := h_alike.row
  have h_status : r.status = r'.status := congrArg SyncRow.status h_columns
  have h_live' : r'.Live := fun h_deleted => h_live (h_status.trans h_deleted)
  have h_write : Scope.write ∈ samplePeer.scopes := by decide
  refine ⟨h_alike, ?_, ?_⟩
  · rw [hitsAlike_iff pathId_one h_row h_row' h_live h_live', Store.hitCount_eq_recordedHits h_row,
      Store.hitCount_eq_recordedHits h_row']
    intro h
    exact absurd (h h_write) (by decide)
  · rw [flagsAlike_iff pathId_one h_row h_row' h_live h_live' h_status, wouldHide_iff h_row,
      wouldHide_iff h_row']
    intro h
    -- neither of the two flags reaches the threshold
    have h_below : ¬ 3 ≤ 1 ∧ ¬ 3 ≤ 2 := by decide
    exact absurd (h h_write (fun e => h_below.1 e.1) (fun e => h_below.2 e.1)) (by decide)

/-- Whether consumer 2 or consumer 3 hit and flagged does not show: the two histories are answered
alike. -/
theorem answers_reveal_busy :
    let s := Store.empty.run (sampleBusy 2)
    let s' := Store.empty.run (sampleBusy 3)
    HitsAlike sampleGcm sampleRing samplePeer (PyStr.ofString "1") s s' ∧
      FlagsAlike sampleGcm sampleRing sampleConfig samplePeer (PyStr.ofString "1") 1 s s' := by
  intro s s'
  have h_alike : PeerAlike samplePeer 1 (sampleBusy 2) (sampleBusy 3) :=
    ⟨by decide, ⟨_, _, rfl, rfl, by decide, by decide, by decide, by decide⟩, rfl⟩
  have h_reveal := answers_reveal sampleGcm sampleRing sampleConfig h_alike pathId_one
  exact ⟨h_reveal.1.mpr (fun _ => by decide), h_reveal.2.mpr (fun _ _ _ => by decide)⟩

end Api
end FingerprintHub
