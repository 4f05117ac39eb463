import FingerprintHub.Library.Table

/-!
# The database schema

The three tables of `alembic/versions/0001_init.py` that the store works on, and
the sequences behind them. A row type lists the columns of its table. The three
columns of the compatibility triple are one field, `triple`.

The constraints of the schema appear as follows. A primary key, and the `UNIQUE
(fingerprint_id, consumer_id)` of `fingerprint_flags`, is the key of a `Table`.
The `CHECK`s on `action`, `category` and `status` are the types `Action`,
`Category` and `Status`, those on the counters the type `ℕ`. `UNIQUE (phash_hex,
consumer_id)` and the unique index on `sync_seq` are not part of the types: that
no operation can violate them is proved, not assumed.

Times are the integer milliseconds of `now_ms`, identifiers and consumer ids the
integers of their `BIGINT` columns. Columns stored encrypted hold whatever
`encrypt_text` returned for them.
-/

namespace FingerprintHub

/-- `CHECK (action IN ('kick', 'timeout'))`. -/
inductive Action where
  | kick
  | timeout
  deriving DecidableEq, Repr

/-- `CHECK (category IN ('scam', 'nsfw', 'crypto', 'phishing', 'other'))`. -/
inductive Category where
  | scam
  | nsfw
  | crypto
  | phishing
  | other
  deriving DecidableEq, Repr

/-- `CHECK (status IN ('active', 'hidden', 'deleted'))`. -/
inductive Status where
  | active
  | hidden
  | deleted
  deriving DecidableEq, Repr

/-- The text of an action in its column and in JSON. -/
def Action.text : Action → String
  | .kick => "kick"
  | .timeout => "timeout"

/-- The text of a category in its column and in JSON. -/
def Category.text : Category → String
  | .scam => "scam"
  | .nsfw => "nsfw"
  | .crypto => "crypto"
  | .phishing => "phishing"
  | .other => "other"

/-- The text of a status in its column and in JSON. -/
def Status.text : Status → String
  | .active => "active"
  | .hidden => "hidden"
  | .deleted => "deleted"

/-- The compatibility triple: two hashes are comparable only if all three columns agree. -/
structure Triple where
  algorithm : String
  algorithmVersion : String
  normalizationVersion : String
  deriving DecidableEq, Repr

/-- A row of `fingerprints`. -/
structure Fingerprint where
  id : ℤ
  syncSeq : ℕ
  phashHex : String
  triple : Triple
  category : Category
  action : Action
  consumerId : ℤ
  sourceGuildId : Option String
  reason : Option String
  sourceUrl : Option String
  addedAtMs : ℤ
  updatedAtMs : ℤ
  hitCount : ℕ
  lastHitAtMs : Option ℤ
  autoAdded : Bool
  provenance : String
  status : Status
  flagCount : ℕ
  deriving DecidableEq, Repr

/-- A row of `fingerprint_hits`. -/
structure Hit where
  id : ℤ
  fingerprintId : ℤ
  consumerId : ℤ
  guildId : Option String
  distance : Option ℤ
  hitAtMs : ℤ
  deriving DecidableEq, Repr

/-- A row of `fingerprint_flags`. -/
structure Flag where
  id : ℤ
  fingerprintId : ℤ
  consumerId : ℤ
  reason : Option String
  createdAtMs : ℤ
  deriving DecidableEq, Repr

/-- The unique key `(fingerprint_id, consumer_id)` of `fingerprint_flags`. -/
def Flag.key (f : Flag) : ℤ × ℤ := (f.fingerprintId, f.consumerId)

/-- A row that clients should enforce or that may still be flagged: `status <> 'deleted'`. Hidden
rows are live: they are withheld from enforcement, but count as duplicates. -/
def Fingerprint.Live (r : Fingerprint) : Prop := r.status ≠ .deleted

instance (r : Fingerprint) : Decidable r.Live := inferInstanceAs (Decidable (r.status ≠ .deleted))

/-- The key of `UNIQUE (phash_hex, consumer_id)`. -/
def Fingerprint.owned (r : Fingerprint) : String × ℤ := (r.phashHex, r.consumerId)

/-- The state of the database: the tables, the last value handed out by `fingerprints_sync_seq`,
and the last value of each identity column. Consumers are not part of it; the service has them
beside the store. -/
structure Store where
  fingerprints : Table Fingerprint.id
  hits : Table Hit.id
  flags : Table Flag.key
  syncSeq : ℕ
  lastId : ℤ
  lastHitId : ℤ
  lastFlagId : ℤ

namespace Store

/-- The database right after `upgrade()` of `0001_init`. -/
def empty : Store where
  fingerprints := .empty _
  hits := .empty _
  flags := .empty _
  syncSeq := 0
  lastId := 0
  lastHitId := 0
  lastFlagId := 0

/-- The row of a fingerprint id. -/
abbrev row (s : Store) (id : ℤ) : Option Fingerprint := s.fingerprints.get? id

/-- The flag rows of a fingerprint. -/
def flagsOf (s : Store) (id : ℤ) : List Flag :=
  s.flags.select (fun f => f.fingerprintId = id)

@[simp] theorem row_empty (id : ℤ) : empty.row id = none := rfl

@[simp] theorem flagsOf_empty (id : ℤ) : empty.flagsOf id = [] := rfl

/-- A flag of a fingerprint is found under its own key. -/
theorem mem_flagsOf {s : Store} {id : ℤ} {f : Flag} :
    f ∈ s.flagsOf id ↔ s.flags.get? f.key = some f ∧ f.fingerprintId = id := by
  rw [flagsOf, Table.mem_select, decide_eq_true_eq]

/-- The row of an id carries that id. -/
theorem id_of_row {s : Store} {id : ℤ} {r : Fingerprint} (h : s.row id = some r) : r.id = id :=
  Table.key_of_get? h

end Store

end FingerprintHub
