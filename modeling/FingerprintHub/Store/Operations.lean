import FingerprintHub.Library.Keyset
import FingerprintHub.Store.Schema

/-!
# The operations of `api/fingerprint_store.py`

Each function of the module as one atomic step on a `Store`: it returns what the
Python function returns, and the store after its transaction. An `UPDATE`, a
`DELETE` or an `INSERT … ON CONFLICT DO NOTHING` of the source is the operation
of the same name on the table, and the row it writes is a function of its own
(`freshRow`, `resurrectRow`, `hideRow`, …).

The calls of `encrypt_text` an operation makes are given by a function `enc`: `enc
i text` is what the `i`-th of them returns for `text`. A `NULL` stays `NULL`. Every
call draws a nonce of its own, so nothing is assumed about `enc` at different
positions.
-/

namespace FingerprintHub

/-- The results of the calls of `encrypt_text` in one operation, by position. -/
abbrev EncryptText := ℕ → String → String

/-- `encrypt_text` on an optional text: `None` stays `None`. -/
def encryptText (enc : EncryptText) (i : ℕ) (plaintext : Option String) : Option String :=
  plaintext.map (enc i)

/-! ### Arguments and results -/

/-- The arguments of `contribute`. -/
structure ContributeArgs where
  consumerId : ℤ
  phashHex : String
  triple : Triple
  category : Category
  action : Action
  sourceGuildId : Option String
  reason : Option String
  sourceUrl : Option String
  autoAdded : Bool
  provenance : String
  nowMs : ℤ

/-- The key `(phash_hex, consumer_id)` a contribution is for. -/
def ContributeArgs.owned (a : ContributeArgs) : String × ℤ := (a.phashHex, a.consumerId)

/-- The row `contribute` returns: the two columns of its `SELECT id, status`, or
the whole row of a `RETURNING *`. -/
inductive ContributeRow where
  | existing (id : ℤ) (status : Status)
  | written (row : Fingerprint)

/-- What `contribute` returns: `(row, created)`. The row is absent when the
statement that was to return it matched nothing. -/
abbrev ContributeResult := Option ContributeRow × Bool

/-- The arguments of `report_hit`. -/
structure HitArgs where
  fingerprintId : ℤ
  consumerId : ℤ
  guildId : Option String
  distance : Option ℤ
  nowMs : ℤ

/-- The arguments of `flag`. -/
structure FlagArgs where
  fingerprintId : ℤ
  consumerId : ℤ
  reason : Option String
  nowMs : ℤ
  autoHideThreshold : ℕ

/-- What `flag` returns. -/
structure FlagResult where
  flagCount : ℕ
  status : Status
  hidden : Bool
  deriving DecidableEq, Repr

/-- The four periods of a retention policy. -/
structure RetentionPolicy where
  hitRetentionMs : ℤ
  flagReasonRetentionMs : ℤ
  tombstoneMetadataRetentionMs : ℤ
  tombstoneRetentionMs : ℤ
  deriving DecidableEq, Repr

/-- What `apply_retention` returns. -/
structure RetentionCounts where
  hitsDeleted : ℕ
  flagReasonsCleared : ℕ
  tombstonesAnonymized : ℕ
  tombstonesDeleted : ℕ
  deriving DecidableEq, Repr

/-! ### The rows the statements write -/

section Rows

variable (enc : EncryptText) (a : ContributeArgs)

/-- The row of the `INSERT` in `contribute`: its values, and the column defaults for the rest. The
positions of the encrypted texts are those of the calls in the source. -/
def freshRow (id : ℤ) (seq : ℕ) : Fingerprint where
  id := id
  syncSeq := seq
  phashHex := a.phashHex
  triple := a.triple
  category := a.category
  action := a.action
  consumerId := a.consumerId
  sourceGuildId := encryptText enc 2 a.sourceGuildId
  reason := encryptText enc 0 a.reason
  sourceUrl := encryptText enc 1 a.sourceUrl
  addedAtMs := a.nowMs
  updatedAtMs := a.nowMs
  hitCount := 0
  lastHitAtMs := none
  autoAdded := a.autoAdded
  provenance := a.provenance
  status := .active
  flagCount := 0

/-- The `SET` of the resurrecting `UPDATE` in `contribute`. What it does not list, the id, the key
and the hit statistics, stays as it was in the former life. -/
def resurrectRow (seq : ℕ) (r : Fingerprint) : Fingerprint :=
  { r with
    syncSeq := seq
    triple := a.triple
    category := a.category
    action := a.action
    sourceGuildId := encryptText enc 2 a.sourceGuildId
    reason := encryptText enc 0 a.reason
    sourceUrl := encryptText enc 1 a.sourceUrl
    autoAdded := a.autoAdded
    provenance := a.provenance
    status := .active
    addedAtMs := a.nowMs
    updatedAtMs := a.nowMs
    flagCount := 0 }

end Rows

/-- The `SET` of the `UPDATE` in `report_hit`. -/
def hitRow (nowMs : ℤ) (r : Fingerprint) : Fingerprint :=
  { r with hitCount := r.hitCount + 1, lastHitAtMs := some nowMs }

/-- The `SET` of the `UPDATE` in `flag` that hides. -/
def hideRow (flagCount : ℕ) (seq : ℕ) (nowMs : ℤ) (r : Fingerprint) : Fingerprint :=
  { r with status := .hidden, flagCount := flagCount, syncSeq := seq, updatedAtMs := nowMs }

/-- The `SET` of the `UPDATE` in `flag` that only counts. -/
def countFlagRow (flagCount : ℕ) (nowMs : ℤ) (r : Fingerprint) : Fingerprint :=
  { r with flagCount := flagCount, updatedAtMs := nowMs }

/-- The `SET` of the `UPDATE` in `soft_delete`. -/
def deleteRow (seq : ℕ) (nowMs : ℤ) (r : Fingerprint) : Fingerprint :=
  { r with status := .deleted, syncSeq := seq, updatedAtMs := nowMs }

/-- The `SET` of the `UPDATE` in `apply_retention` that clears metadata. -/
def anonymizeRow (r : Fingerprint) : Fingerprint :=
  { r with sourceGuildId := none, reason := none, sourceUrl := none }

/-- The `SET` of the `UPDATE` in `apply_retention` that clears flag reasons. -/
def clearReason (f : Flag) : Flag := { f with reason := none }

@[simp] theorem resurrectRow_id (enc : EncryptText) (a : ContributeArgs) (seq : ℕ)
    (r : Fingerprint) : (resurrectRow enc a seq r).id = r.id := rfl

@[simp] theorem hitRow_id (nowMs : ℤ) (r : Fingerprint) : (hitRow nowMs r).id = r.id := rfl

@[simp] theorem hideRow_id (flagCount seq : ℕ) (nowMs : ℤ) (r : Fingerprint) :
    (hideRow flagCount seq nowMs r).id = r.id := rfl

@[simp] theorem countFlagRow_id (flagCount : ℕ) (nowMs : ℤ) (r : Fingerprint) :
    (countFlagRow flagCount nowMs r).id = r.id := rfl

@[simp] theorem deleteRow_id (seq : ℕ) (nowMs : ℤ) (r : Fingerprint) :
    (deleteRow seq nowMs r).id = r.id := rfl

@[simp] theorem anonymizeRow_id (r : Fingerprint) : (anonymizeRow r).id = r.id := rfl

@[simp] theorem clearReason_key (f : Flag) : (clearReason f).key = f.key := rfl

/-- The row of the `INSERT` in `report_hit`. -/
def HitArgs.hit (enc : EncryptText) (a : HitArgs) (id : ℤ) : Hit where
  id := id
  fingerprintId := a.fingerprintId
  consumerId := a.consumerId
  guildId := encryptText enc 0 a.guildId
  distance := a.distance
  hitAtMs := a.nowMs

/-- The row of the `INSERT` in `flag`. -/
def FlagArgs.flag (enc : EncryptText) (a : FlagArgs) (id : ℤ) : Flag where
  id := id
  fingerprintId := a.fingerprintId
  consumerId := a.consumerId
  reason := encryptText enc 0 a.reason
  createdAtMs := a.nowMs

/-! ### The retention guards -/

namespace RetentionPolicy

variable (p : RetentionPolicy) (nowMs : ℤ)

/-- The arguments `apply_retention` does not raise on. -/
def Accepted : Prop :=
  0 ≤ p.hitRetentionMs ∧ 0 ≤ p.flagReasonRetentionMs ∧ 0 ≤ p.tombstoneMetadataRetentionMs ∧
    0 ≤ p.tombstoneRetentionMs ∧ p.tombstoneMetadataRetentionMs ≤ p.tombstoneRetentionMs

instance : Decidable p.Accepted := by
  unfold Accepted
  infer_instance

/-- The `WHERE` of the hit deletion. -/
def expiresHit (h : Hit) : Bool := h.hitAtMs < nowMs - p.hitRetentionMs

/-- The `WHERE` of the flag-reason update. -/
def clearsReason (f : Flag) : Bool :=
  f.reason.isSome && f.createdAtMs < nowMs - p.flagReasonRetentionMs

/-- The `WHERE` of the tombstone deletion. -/
def purges (r : Fingerprint) : Bool :=
  r.status = .deleted && r.updatedAtMs < nowMs - p.tombstoneRetentionMs

/-- The `WHERE` of the tombstone-metadata update. -/
def anonymizes (r : Fingerprint) : Bool :=
  r.status = .deleted && r.updatedAtMs < nowMs - p.tombstoneMetadataRetentionMs &&
    (r.sourceGuildId.isSome || r.reason.isSome || r.sourceUrl.isSome)

end RetentionPolicy

namespace Store

variable (s : Store)

/-! ### Statements -/

/-- `nextval('fingerprints_sync_seq')`. -/
def nextSeq : Store := { s with syncSeq := s.syncSeq + 1 }

/-- `SELECT id, status FROM fingerprints WHERE phash_hex = … AND consumer_id = …`. -/
def findOwned (key : String × ℤ) : Option Fingerprint :=
  s.fingerprints.rows.find? (fun r => r.owned = key)

/-- `UPDATE fingerprints SET … WHERE id = …`. -/
def updateRow (id : ℤ) (set : Fingerprint → Fingerprint)
    (h : ∀ r, (set r).id = r.id) : Store :=
  { s with fingerprints := s.fingerprints.update (fun r => r.id = id) set h }

/-- `DELETE FROM fingerprint_flags WHERE fingerprint_id = …`. -/
def deleteFlags (id : ℤ) : Store :=
  { s with flags := s.flags.delete (fun f => f.fingerprintId = id) }

/-- `INSERT INTO fingerprint_hits`. -/
def recordHit (enc : EncryptText) (a : HitArgs) : Store :=
  { s with lastHitId := s.lastHitId + 1, hits := s.hits.insert (a.hit enc (s.lastHitId + 1)) }

/-- `INSERT INTO fingerprint_flags … ON CONFLICT (fingerprint_id, consumer_id) DO
NOTHING`. -/
def recordFlag (enc : EncryptText) (a : FlagArgs) : Store :=
  { s with lastFlagId := s.lastFlagId + 1, flags := s.flags.insert (a.flag enc (s.lastFlagId + 1)) }

/-- `SELECT COUNT(DISTINCT consumer_id) FROM fingerprint_flags WHERE
fingerprint_id = …`. -/
def countFlaggers (id : ℤ) : ℕ :=
  ((s.flagsOf id).map (·.consumerId)).dedup.length

/-! ### Writes -/

/-- The resurrecting branch of `contribute` for the tombstone `id`. -/
def resurrect (enc : EncryptText) (a : ContributeArgs) (id : ℤ) : ContributeResult × Store :=
  -- the flags of the former life do not count against the new one
  let s₁ := (s.deleteFlags id).nextSeq
  let s₂ := s₁.updateRow id (resurrectRow enc a s₁.syncSeq) (resurrectRow_id enc a _)
  (((s₂.row id).map .written, true), s₂)

/-- The inserting branch of `contribute`. The defaults of `id` and `sync_seq` are
drawn before the conflict is looked for, so a conflict costs one value of each. -/
def insertFingerprint (enc : EncryptText) (a : ContributeArgs) : ContributeResult × Store :=
  let s₁ := { s.nextSeq with lastId := s.lastId + 1 }
  match s₁.findOwned a.owned with
  | none =>
    let row := freshRow enc a s₁.lastId s₁.syncSeq
    ((some (.written row), true), { s₁ with fingerprints := s₁.fingerprints.insert row })
  -- `ON CONFLICT DO NOTHING` returned no row, so the one in the way is read
  | some r => ((some (.existing r.id r.status), false), s₁)

/-- `contribute`: insert a fingerprint, or resurrect this consumer's tombstone of it. `created =
false` is the duplicate answer, and leaves the store as it is. Here the `SELECT` and what follows
it are one step; what another transaction may do in between is the subject of `Concurrent`. -/
def contribute (enc : EncryptText) (a : ContributeArgs) : ContributeResult × Store :=
  match s.findOwned a.owned with
  | some existing =>
    -- a hidden row is a duplicate like an active one
    if existing.status ≠ .deleted then
      ((some (.existing existing.id existing.status), false), s)
    else
      s.resurrect enc a existing.id
  | none => s.insertFingerprint enc a

/-- `report_hit`: the new hit count, or `none` when the row is missing or
deleted. -/
def reportHit (enc : EncryptText) (a : HitArgs) : Option ℕ × Store :=
  match s.row a.fingerprintId with
  | none => (none, s)
  | some fp =>
    if fp.status = .deleted then
      (none, s)
    else
      let s₁ := (s.recordHit enc a).updateRow a.fingerprintId (hitRow a.nowMs) (hitRow_id a.nowMs)
      ((s₁.row a.fingerprintId).map (·.hitCount), s₁)

/-- `flag`: record a flag once per consumer and hide the row when the distinct flaggers reach the
threshold; `none` when the row is missing or deleted. The count is written in both branches, and
read back from the flag rows rather than incremented. -/
def flag (enc : EncryptText) (a : FlagArgs) : Option FlagResult × Store :=
  match s.row a.fingerprintId with
  | none => (none, s)
  | some fp =>
    if fp.status = .deleted then
      (none, s)
    else
      -- a second flag of the same consumer changes nothing, but is counted all the same
      let s₁ := s.recordFlag enc a
      let flagCount := s₁.countFlaggers a.fingerprintId
      if a.autoHideThreshold ≤ flagCount ∧ fp.status = .active then
        -- only hiding is replicated, so only this branch draws a `sync_seq`
        let s₂ := s₁.nextSeq
        (some ⟨flagCount, .hidden, true⟩,
          s₂.updateRow a.fingerprintId (hideRow flagCount s₂.syncSeq a.nowMs)
            (hideRow_id flagCount _ a.nowMs))
      else
        (some ⟨flagCount, fp.status, false⟩,
          s₁.updateRow a.fingerprintId (countFlagRow flagCount a.nowMs)
            (countFlagRow_id flagCount a.nowMs))

/-- `soft_delete`: whether a non-deleted row was turned into a tombstone. -/
def softDelete (fingerprintId : ℤ) (nowMs : ℤ) : Bool × Store :=
  match s.row fingerprintId with
  | none => (false, s)
  | some fp =>
    if fp.status = .deleted then
      (false, s)
    else
      (true, s.nextSeq.updateRow fingerprintId (deleteRow s.nextSeq.syncSeq nowMs)
        (deleteRow_id _ nowMs))

/-- `DELETE FROM fingerprints WHERE p`, with the `ON DELETE CASCADE` of the hit
and flag rows of what is deleted. -/
def purge (p : Fingerprint → Bool) : Store :=
  -- read before the rows are gone
  let gone := (s.fingerprints.select p).map (·.id)
  { s with
    fingerprints := s.fingerprints.delete p
    hits := s.hits.delete (fun h => h.fingerprintId ∈ gone)
    flags := s.flags.delete (fun f => f.fingerprintId ∈ gone) }

/-- The four statements of the transaction of `apply_retention`, with their row counts. Each
statement sees what the ones before it left, and each count is that of the rows its own `WHERE`
matched. -/
def retain (p : RetentionPolicy) (nowMs : ℤ) : RetentionCounts × Store :=
  -- `DELETE FROM fingerprint_hits`
  let s₁ := { s with hits := s.hits.delete (p.expiresHit nowMs) }
  -- `UPDATE fingerprint_flags SET reason = NULL`
  let s₂ := { s₁ with flags := s₁.flags.update (p.clearsReason nowMs) clearReason clearReason_key }
  -- `DELETE FROM fingerprints`, so that the last statement finds only what survives
  let s₃ := s₂.purge (p.purges nowMs)
  -- `UPDATE fingerprints SET source_guild_id = NULL, reason = NULL, source_url = NULL`
  let s₄ := { s₃ with
    fingerprints := s₃.fingerprints.update (p.anonymizes nowMs) anonymizeRow anonymizeRow_id }
  ({ hitsDeleted := (s.hits.select (p.expiresHit nowMs)).length
     flagReasonsCleared := (s₁.flags.select (p.clearsReason nowMs)).length
     tombstonesDeleted := (s₂.fingerprints.select (p.purges nowMs)).length
     tombstonesAnonymized := (s₃.fingerprints.select (p.anonymizes nowMs)).length }, s₄)

/-- `apply_retention`: raise on a policy that is not accepted, else run the
transaction, and roll it back after counting when `dry_run` is set. -/
def applyRetention (p : RetentionPolicy) (nowMs : ℤ) (dryRun : Bool) :
    Except String RetentionCounts × Store :=
  if min (min p.hitRetentionMs p.flagReasonRetentionMs)
      (min p.tombstoneMetadataRetentionMs p.tombstoneRetentionMs) < 0 then
    (.error "retention periods must be non-negative", s)
  else if p.tombstoneMetadataRetentionMs > p.tombstoneRetentionMs then
    (.error "tombstone metadata retention cannot exceed tombstone retention", s)
  else
    let (counts, s') := s.retain p nowMs
    -- the counts of a dry run are taken before its rollback
    (.ok counts, if dryRun then s else s')

/-! ### Reads -/

/-- `get`. -/
def get (fingerprintId : ℤ) : Option Fingerprint := s.row fingerprintId

end Store

/-- An optional `WHERE column = value`: the source adds it when the value is truthy, that is
neither `None` nor the empty string. An empty parameter is no filter. -/
def clause (value : Option String) (column : String) : Bool :=
  match value with
  | some v => v = "" || column = v
  | none => true

/-- The optional compatibility filter of `sync`. -/
structure SyncFilter where
  algorithm : Option String
  algorithmVersion : Option String
  normalizationVersion : Option String
  deriving DecidableEq, Repr

namespace SyncFilter

/-- No filter. -/
def all : SyncFilter := ⟨none, none, none⟩

/-- The clauses a filter adds to the `WHERE` of `sync`. -/
def accepts (f : SyncFilter) (t : Triple) : Bool :=
  clause f.algorithm t.algorithm && clause f.algorithmVersion t.algorithmVersion &&
    clause f.normalizationVersion t.normalizationVersion

@[simp] theorem accepts_all (t : Triple) : all.accepts t = true := rfl

end SyncFilter

/-- The columns of `_SYNC_COLUMNS`. -/
structure SyncRow where
  id : ℤ
  syncSeq : ℕ
  phashHex : String
  triple : Triple
  category : Category
  action : Action
  status : Status
  deriving DecidableEq, Repr

/-- `SELECT {_SYNC_COLUMNS}` of a row. -/
def Fingerprint.syncColumns (r : Fingerprint) : SyncRow where
  id := r.id
  syncSeq := r.syncSeq
  phashHex := r.phashHex
  triple := r.triple
  category := r.category
  action := r.action
  status := r.status

namespace Store

/-- The `WHERE` of `list_fingerprints`. -/
def listWhere (category algorithm : Option String) (consumerId : Option ℤ) (includeHidden : Bool)
    (r : Fingerprint) : Bool :=
  (if includeHidden then r.status ≠ .deleted else r.status = .active) &&
    clause category r.category.text && clause algorithm r.triple.algorithm &&
    (match consumerId with
      | some c => decide (r.consumerId = c)
      | none => true)

/-- `list_fingerprints`, newest id first: the `OFFSET` is skipped before the `LIMIT` is taken. -/
def listFingerprints (s : Store) (category algorithm : Option String) (consumerId : Option ℤ)
    (includeHidden : Bool) (limit offset : ℕ) : List Fingerprint :=
  (((s.fingerprints.select (listWhere category algorithm consumerId includeHidden)).insertionSort
    (fun r r' => r'.id ≤ r.id)).drop offset).take limit

/-- The `WHERE` of `sync` apart from its cursor. -/
def syncWhere (requester : ℤ) (filter : SyncFilter) (r : Fingerprint) : Bool :=
  r.consumerId ≠ requester && filter.accepts r.triple

/-- `sync`: the rows of a page, `next_since` and `has_more`. The page is in the order of
`sync_seq`, and the cursor moves to its last row. -/
def sync (s : Store) (requester : ℤ) (since : ℕ) (limit : ℕ) (filter : SyncFilter) :
    List SyncRow × ℕ × Bool :=
  -- one row more than asked for tells whether there are more
  let fetched := (((s.fingerprints.select (fun r =>
      decide (since < r.syncSeq) && syncWhere requester filter r)).insertionSort
      (fun r r' => r.syncSeq ≤ r'.syncSeq)).take (limit + 1)).map (·.syncColumns)
  let hasMore := decide (limit < fetched.length)
  let rows := fetched.take limit
  let nextSince := match rows.getLast? with
    | some last => last.syncSeq
    -- an empty page leaves the cursor where it is
    | none => since
  (rows, nextSince, hasMore)

/-- Projecting the columns before or after cutting the page is the same. -/
private theorem page_of_fetched (fetched : List Fingerprint) (since limit : ℕ) :
    (((fetched.map (·.syncColumns)).take limit,
      (match ((fetched.map (·.syncColumns)).take limit).getLast? with
        | some last => last.syncSeq
        | none => since),
      decide (limit < (fetched.map (·.syncColumns)).length)) : List SyncRow × ℕ × Bool)
    = ((fetched.take limit).map (·.syncColumns),
        ((fetched.take limit).getLast?.map Fingerprint.syncSeq).getD since,
        decide (limit < fetched.length)) := by
  rw [← List.map_take, List.getLast?_map, List.length_map]
  cases (fetched.take limit).getLast? <;> rfl

/-- `sync` is a page of the keyset scan by `sync_seq`. Everything that is said of paging and of
mirrors comes from the scan through this equation. -/
theorem sync_eq_pull (s : Store) (requester : ℤ) (since limit : ℕ) (filter : SyncFilter) :
    s.sync requester since limit filter =
      let page := Keyset.pull Fingerprint.syncSeq (syncWhere requester filter)
        s.fingerprints.rows since limit
      (page.rows.map (·.syncColumns), page.next, page.more) :=
  page_of_fetched _ _ _

end Store

end FingerprintHub
