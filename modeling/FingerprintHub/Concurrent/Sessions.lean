import Mathlib.Logic.Function.Basic
import Mathlib.Logic.Relation
import FingerprintHub.Library.ReadCommitted
import FingerprintHub.Store.Runs

/-!
# The operations, statement by statement

The five writing functions of `api/fingerprint_store.py` as transactions that run
side by side. A session is one call in progress: which statement is next, and the
local variables the statements after it read. `Exec` has one rule, or a few, for
each statement; its premises say when PostgreSQL runs the statement at READ
COMMITTED and its conclusion what the statement does.

* A plain `SELECT` reads what is committed.
* `SELECT … FOR UPDATE`, `UPDATE` and `DELETE` wait for the lock of a row and then
  read the newest committed version. A statement whose `WHERE` the committed version
  does not meet finds no row, whoever holds the lock.
* `nextval` takes effect at once. The `SET` list of an `UPDATE` is evaluated when the
  statement finds its row, which may be before it gets the lock, and once more on
  every newer version it then finds; so `sync_seq = nextval(…)` may be drawn early,
  and twice.
* `INSERT … ON CONFLICT DO NOTHING` draws its defaults, waits for whoever is writing
  a row with the same key, and then inserts or does nothing.
* A statement over many rows is a `Sweep`.

A transaction whose statements are done commits, or rolls back when it is the dry
run of `apply_retention`. Any transaction may be aborted instead at any time.
-/

namespace FingerprintHub
namespace Concurrent

/-- The database: the versions of the rows of each table, and the sequences. `lastId`, `lastHitId`
and `lastFlagId` are the last values of the identity columns; like `syncSeq` they go on when a
transaction rolls back. -/
structure Db where
  rows : Versioned ℤ Fingerprint
  flags : Versioned (ℤ × ℤ) Flag
  hits : Versioned ℤ Hit
  syncSeq : ℕ
  lastId : ℤ
  lastHitId : ℤ
  lastFlagId : ℤ

namespace Db

/-- A database in which everything is committed. -/
def ofStore (s : Store) : Db where
  rows := .ofTable s.fingerprints
  flags := .ofTable s.flags
  hits := .ofTable s.hits
  syncSeq := s.syncSeq
  lastId := s.lastId
  lastHitId := s.lastHitId
  lastFlagId := s.lastFlagId

/-- What is committed. -/
def snapshot (db : Db) : Store where
  fingerprints := db.rows.snapshot _
  hits := db.hits.snapshot _
  flags := db.flags.snapshot _
  syncSeq := db.syncSeq
  lastId := db.lastId
  lastHitId := db.lastHitId
  lastFlagId := db.lastFlagId

/-- The committed row of a fingerprint. -/
abbrev row (db : Db) (id : ℤ) : Option Fingerprint := (db.rows.cell id).committed

/-- A transaction commits. -/
def commit (tx : ℕ) (db : Db) : Db :=
  { db with rows := db.rows.commit tx, flags := db.flags.commit tx, hits := db.hits.commit tx }

/-- A transaction rolls back. The sequences do not. -/
def rollback (tx : ℕ) (db : Db) : Db :=
  { db with
    rows := db.rows.rollback tx
    flags := db.flags.rollback tx
    hits := db.hits.rollback tx }

/-- `SELECT COUNT(DISTINCT consumer_id) FROM fingerprint_flags WHERE fingerprint_id = …`
in a transaction. -/
def countFlaggers (tx : ℕ) (db : Db) (id : ℤ) : ℕ :=
  (((db.flags.viewRows tx).filter (fun f => f.fingerprintId = id)).map (·.consumerId)).dedup.length

end Db

/-- What a call returns. -/
inductive Reply where
  | contribute (result : ContributeResult)
  | reportHit (result : Option ℕ)
  | flag (result : Option FlagResult)
  | softDelete (result : Bool)
  | applyRetention (result : Except String RetentionCounts)

/-- The statement a session is at. The argument of an `UPDATE` that draws a `sync_seq` is the
version its `SET` list was evaluated on, that of an `INSERT` the id it drew, that of a sweep the
keys it has still to visit, where `none` is a statement that has not begun. -/
inductive Pc where
  -- `contribute`
  | select
  | clearFlags (todo : Option (List (ℤ × ℤ)))
  | resurrect (seen : Option Fingerprint)
  | insert (id : Option ℤ)
  | reselect
  -- `report_hit` and `flag`
  | lock
  | insertHit
  | bumpHit
  | insertFlag (status : Status)
  | count (status : Status)
  | update (status : Status) (flagCount : ℕ)
  -- `soft_delete`
  | delete (seen : Option Fingerprint)
  -- `apply_retention`
  | check
  | expireHits (todo : Option (List ℤ)) (counts : RetentionCounts)
  | clearReasons (todo : Option (List (ℤ × ℤ))) (counts : RetentionCounts)
  | purge (todo : Option (List ℤ)) (gone : List ℤ) (counts : RetentionCounts)
  | cascadeHits (todo : Option (List ℤ)) (gone : List ℤ) (counts : RetentionCounts)
  | cascadeFlags (todo : Option (List (ℤ × ℤ))) (gone : List ℤ) (counts : RetentionCounts)
  | anonymize (todo : Option (List ℤ)) (counts : RetentionCounts)
  -- the statements are done
  | finish (reply : Reply)

/-- A call in progress: its next statement, the id `existing` of the tombstone its first `SELECT`
found, and the `sync_seq` it has drawn and not given up. `drawn` models no variable of the source,
where the value is inside the statement; it is kept so that invariants can speak of it. -/
structure Session where
  call : Op
  pc : Pc
  existing : Option ℤ
  drawn : Option ℕ

/-- A session before its first statement. -/
def Session.start : Op → Session
  | .contribute enc a => ⟨.contribute enc a, .select, none, none⟩
  | .reportHit enc a => ⟨.reportHit enc a, .lock, none, none⟩
  | .flag enc a => ⟨.flag enc a, .lock, none, none⟩
  | .softDelete id nowMs => ⟨.softDelete id nowMs, .delete none, none, none⟩
  | .applyRetention p nowMs dryRun => ⟨.applyRetention p nowMs dryRun, .check, none, none⟩

/-- Another transaction is writing a row with the key. An `INSERT` that meets one in the unique
index waits until that transaction ends. -/
def Db.KeyInProgress (tx : ℕ) (db : Db) (key : String × ℤ) : Prop :=
  ∃ i l r, (db.rows.cell i).lock = some l ∧ l.holder ≠ tx ∧ l.draft = some (some r) ∧
    r.owned = key

/-- The next statement of a session, or the next row of a statement over many. What a rule
requires of locks is when PostgreSQL lets the statement go on; a session for which no rule applies
waits. -/
inductive Exec (tx : ℕ) : Db → Session → Db → Session → Prop
  -- `contribute`: the first `SELECT`
  | selectLive {db : Db} {enc : EncryptText} {a : ContributeArgs} {r : Fingerprint}
      (h_found : db.snapshot.findOwned a.owned = some r) (h_live : r.Live) :
      Exec tx db ⟨.contribute enc a, .select, none, none⟩ db
        ⟨.contribute enc a, .finish (.contribute (some (.existing r.id r.status), false)),
          none, none⟩
  | selectTombstone {db : Db} {enc : EncryptText} {a : ContributeArgs} {r : Fingerprint}
      (h_found : db.snapshot.findOwned a.owned = some r) (h_deleted : r.status = .deleted) :
      Exec tx db ⟨.contribute enc a, .select, none, none⟩ db
        ⟨.contribute enc a, .clearFlags none, some r.id, none⟩
  | selectNone {db : Db} {enc : EncryptText} {a : ContributeArgs}
      (h_found : db.snapshot.findOwned a.owned = none) :
      Exec tx db ⟨.contribute enc a, .select, none, none⟩ db
        ⟨.contribute enc a, .insert none, none, none⟩
  -- `DELETE FROM fingerprint_flags WHERE fingerprint_id = existing`
  | clearFlags {db : Db} {enc : EncryptText} {a : ContributeArgs} {i : ℤ}
      {todo : Option (List (ℤ × ℤ))} {flags : Versioned (ℤ × ℤ) Flag} {todo' : List (ℤ × ℤ)}
      {acted : Bool}
      (h_sweep : Versioned.Sweep tx (fun f : Flag => f.fingerprintId = i) (fun _ => none)
        db.flags todo flags todo' acted) :
      Exec tx db ⟨.contribute enc a, .clearFlags todo, some i, none⟩ { db with flags := flags }
        ⟨.contribute enc a, .clearFlags (some todo'), some i, none⟩
  | clearFlagsDone {db : Db} {enc : EncryptText} {a : ContributeArgs} {i : ℤ} :
      Exec tx db ⟨.contribute enc a, .clearFlags (some []), some i, none⟩ db
        ⟨.contribute enc a, .resurrect none, some i, none⟩
  -- `UPDATE fingerprints SET … WHERE id = existing RETURNING *`
  -- evaluates `SET` on a version of the row it has not seen, whoever holds the row
  | resurrectEval {db : Db} {enc : EncryptText} {a : ContributeArgs} {i : ℤ} {r : Fingerprint}
      {seen : Option Fingerprint} {drawn : Option ℕ} (h_row : db.row i = some r)
      (h_new : seen ≠ some r) :
      Exec tx db ⟨.contribute enc a, .resurrect seen, some i, drawn⟩
        { db with syncSeq := db.syncSeq + 1 }
        ⟨.contribute enc a, .resurrect (some r), some i, some (db.syncSeq + 1)⟩
  -- has the lock, and the version is the one evaluated: the `WHERE` asks for no status
  | resurrectWrite {db : Db} {enc : EncryptText} {a : ContributeArgs} {i : ℤ} {r : Fingerprint}
      {v : ℕ} (h_free : (db.rows.cell i).lock = none) (h_row : db.row i = some r) :
      Exec tx db ⟨.contribute enc a, .resurrect (some r), some i, some v⟩
        { db with
          rows := db.rows.set i ((db.rows.cell i).write tx (some (resurrectRow enc a v r))) }
        ⟨.contribute enc a,
          .finish (.contribute (some (.written (resurrectRow enc a v r)), true)), some i, some v⟩
  -- the row is gone: `UPDATE` finds none, and `fetchone` gives `None`
  | resurrectMiss {db : Db} {enc : EncryptText} {a : ContributeArgs} {i : ℤ}
      {seen : Option Fingerprint} {drawn : Option ℕ} (h_row : db.row i = none) :
      Exec tx db ⟨.contribute enc a, .resurrect seen, some i, drawn⟩ db
        ⟨.contribute enc a, .finish (.contribute (none, true)), some i, none⟩
  -- `INSERT INTO fingerprints … ON CONFLICT (phash_hex, consumer_id) DO NOTHING RETURNING *`
  -- the defaults are drawn before the index is looked at
  | insertAllot {db : Db} {enc : EncryptText} {a : ContributeArgs} :
      Exec tx db ⟨.contribute enc a, .insert none, none, none⟩
        { db with syncSeq := db.syncSeq + 1, lastId := db.lastId + 1 }
        ⟨.contribute enc a, .insert (some (db.lastId + 1)), none, some (db.syncSeq + 1)⟩
  -- no committed row has the key, and nobody is about to commit one
  | insertWrite {db : Db} {enc : EncryptText} {a : ContributeArgs} {id : ℤ} {v : ℕ}
      (h_key : ∀ i r, db.row i = some r → r.owned ≠ a.owned)
      (h_wait : ¬ db.KeyInProgress tx a.owned) :
      Exec tx db ⟨.contribute enc a, .insert (some id), none, some v⟩
        { db with rows := db.rows.set id ((db.rows.cell id).write tx (some (freshRow enc a id v))) }
        ⟨.contribute enc a, .finish (.contribute (some (.written (freshRow enc a id v)), true)),
          none, some v⟩
  -- a committed row has it, and nobody is about to change that
  | insertConflict {db : Db} {enc : EncryptText} {a : ContributeArgs} {id i : ℤ} {v : ℕ}
      {r : Fingerprint} (h_row : db.row i = some r) (h_key : r.owned = a.owned)
      (h_wait : ¬ (db.rows.cell i).InProgress tx) :
      Exec tx db ⟨.contribute enc a, .insert (some id), none, some v⟩ db
        ⟨.contribute enc a, .reselect, none, none⟩
  -- the `SELECT` after a conflict
  | reselectSome {db : Db} {enc : EncryptText} {a : ContributeArgs} {r : Fingerprint}
      (h_found : db.snapshot.findOwned a.owned = some r) :
      Exec tx db ⟨.contribute enc a, .reselect, none, none⟩ db
        ⟨.contribute enc a, .finish (.contribute (some (.existing r.id r.status), false)),
          none, none⟩
  | reselectNone {db : Db} {enc : EncryptText} {a : ContributeArgs}
      (h_found : db.snapshot.findOwned a.owned = none) :
      Exec tx db ⟨.contribute enc a, .reselect, none, none⟩ db
        ⟨.contribute enc a, .finish (.contribute (none, false)), none, none⟩
  -- `report_hit`: `SELECT … FOR UPDATE`
  | hitMissing {db : Db} {enc : EncryptText} {a : HitArgs} (h_row : db.row a.fingerprintId = none) :
      Exec tx db ⟨.reportHit enc a, .lock, none, none⟩ db
        ⟨.reportHit enc a, .finish (.reportHit none), none, none⟩
  -- the lock is taken and kept although the row is a tombstone
  | hitDeleted {db : Db} {enc : EncryptText} {a : HitArgs} {r : Fingerprint}
      (h_free : (db.rows.cell a.fingerprintId).lock = none)
      (h_row : db.row a.fingerprintId = some r) (h_deleted : r.status = .deleted) :
      Exec tx db ⟨.reportHit enc a, .lock, none, none⟩
        { db with
          rows := db.rows.set a.fingerprintId ((db.rows.cell a.fingerprintId).acquire tx) }
        ⟨.reportHit enc a, .finish (.reportHit none), none, none⟩
  | hitLock {db : Db} {enc : EncryptText} {a : HitArgs} {r : Fingerprint}
      (h_free : (db.rows.cell a.fingerprintId).lock = none)
      (h_row : db.row a.fingerprintId = some r) (h_live : r.Live) :
      Exec tx db ⟨.reportHit enc a, .lock, none, none⟩
        { db with
          rows := db.rows.set a.fingerprintId ((db.rows.cell a.fingerprintId).acquire tx) }
        ⟨.reportHit enc a, .insertHit, none, none⟩
  -- `INSERT INTO fingerprint_hits`
  | insertHit {db : Db} {enc : EncryptText} {a : HitArgs} :
      Exec tx db ⟨.reportHit enc a, .insertHit, none, none⟩
        { db with
          lastHitId := db.lastHitId + 1
          hits := db.hits.set (db.lastHitId + 1)
            ((db.hits.cell (db.lastHitId + 1)).write tx (some (a.hit enc (db.lastHitId + 1)))) }
        ⟨.reportHit enc a, .bumpHit, none, none⟩
  -- `UPDATE fingerprints SET hit_count = hit_count + 1, … RETURNING hit_count`
  | bumpHit {db : Db} {enc : EncryptText} {a : HitArgs} {r : Fingerprint}
      (h_view : (db.rows.cell a.fingerprintId).view tx = some r) :
      Exec tx db ⟨.reportHit enc a, .bumpHit, none, none⟩
        { db with
          rows := db.rows.set a.fingerprintId
            ((db.rows.cell a.fingerprintId).write tx (some (hitRow a.nowMs r))) }
        ⟨.reportHit enc a, .finish (.reportHit (some (r.hitCount + 1))), none, none⟩
  -- `flag`: `SELECT … FOR UPDATE`
  | flagMissing {db : Db} {enc : EncryptText} {a : FlagArgs}
      (h_row : db.row a.fingerprintId = none) :
      Exec tx db ⟨.flag enc a, .lock, none, none⟩ db
        ⟨.flag enc a, .finish (.flag none), none, none⟩
  | flagDeleted {db : Db} {enc : EncryptText} {a : FlagArgs} {r : Fingerprint}
      (h_free : (db.rows.cell a.fingerprintId).lock = none)
      (h_row : db.row a.fingerprintId = some r) (h_deleted : r.status = .deleted) :
      Exec tx db ⟨.flag enc a, .lock, none, none⟩
        { db with
          rows := db.rows.set a.fingerprintId ((db.rows.cell a.fingerprintId).acquire tx) }
        ⟨.flag enc a, .finish (.flag none), none, none⟩
  | flagLock {db : Db} {enc : EncryptText} {a : FlagArgs} {r : Fingerprint}
      (h_free : (db.rows.cell a.fingerprintId).lock = none)
      (h_row : db.row a.fingerprintId = some r) (h_live : r.Live) :
      Exec tx db ⟨.flag enc a, .lock, none, none⟩
        { db with
          rows := db.rows.set a.fingerprintId ((db.rows.cell a.fingerprintId).acquire tx) }
        ⟨.flag enc a, .insertFlag r.status, none, none⟩
  -- `INSERT INTO fingerprint_flags … ON CONFLICT (fingerprint_id, consumer_id) DO NOTHING`
  | insertFlag {db : Db} {enc : EncryptText} {a : FlagArgs} {status : Status}
      (h_wait : (db.flags.cell (a.fingerprintId, a.consumerId)).Free tx)
      (h_none : (db.flags.cell (a.fingerprintId, a.consumerId)).view tx = none) :
      Exec tx db ⟨.flag enc a, .insertFlag status, none, none⟩
        { db with
          lastFlagId := db.lastFlagId + 1
          flags := db.flags.set (a.fingerprintId, a.consumerId)
            ((db.flags.cell (a.fingerprintId, a.consumerId)).write tx
              (some (a.flag enc (db.lastFlagId + 1)))) }
        ⟨.flag enc a, .count status, none, none⟩
  -- the identity column goes on: a conflict has drawn its id
  | flagConflict {db : Db} {enc : EncryptText} {a : FlagArgs} {status : Status} {f : Flag}
      (h_wait : (db.flags.cell (a.fingerprintId, a.consumerId)).Free tx)
      (h_some : (db.flags.cell (a.fingerprintId, a.consumerId)).view tx = some f) :
      Exec tx db ⟨.flag enc a, .insertFlag status, none, none⟩
        { db with lastFlagId := db.lastFlagId + 1 }
        ⟨.flag enc a, .count status, none, none⟩
  -- `SELECT COUNT(DISTINCT consumer_id)`
  | count {db : Db} {enc : EncryptText} {a : FlagArgs} {status : Status} :
      Exec tx db ⟨.flag enc a, .count status, none, none⟩ db
        ⟨.flag enc a, .update status (db.countFlaggers tx a.fingerprintId), none, none⟩
  -- the `UPDATE` that hides, and the one that only counts
  | hide {db : Db} {enc : EncryptText} {a : FlagArgs} {n : ℕ} {r : Fingerprint}
      (h_threshold : a.autoHideThreshold ≤ n)
      (h_view : (db.rows.cell a.fingerprintId).view tx = some r) :
      Exec tx db ⟨.flag enc a, .update .active n, none, none⟩
        { db with
          syncSeq := db.syncSeq + 1
          rows := db.rows.set a.fingerprintId
            ((db.rows.cell a.fingerprintId).write tx
              (some (hideRow n (db.syncSeq + 1) a.nowMs r))) }
        ⟨.flag enc a, .finish (.flag (some ⟨n, .hidden, true⟩)), none, some (db.syncSeq + 1)⟩
  -- also of a row that is hidden already
  | keep {db : Db} {enc : EncryptText} {a : FlagArgs} {status : Status} {n : ℕ} {r : Fingerprint}
      (h_keep : ¬ (a.autoHideThreshold ≤ n ∧ status = .active))
      (h_view : (db.rows.cell a.fingerprintId).view tx = some r) :
      Exec tx db ⟨.flag enc a, .update status n, none, none⟩
        { db with
          rows := db.rows.set a.fingerprintId
            ((db.rows.cell a.fingerprintId).write tx (some (countFlagRow n a.nowMs r))) }
        ⟨.flag enc a, .finish (.flag (some ⟨n, status, false⟩)), none, none⟩
  -- `soft_delete`: `UPDATE … WHERE id = … AND status <> 'deleted'`
  | deleteEval {db : Db} {id nowMs : ℤ} {r : Fingerprint} {seen : Option Fingerprint}
      {drawn : Option ℕ} (h_row : db.row id = some r) (h_live : r.Live) (h_new : seen ≠ some r) :
      Exec tx db ⟨.softDelete id nowMs, .delete seen, none, drawn⟩
        { db with syncSeq := db.syncSeq + 1 }
        ⟨.softDelete id nowMs, .delete (some r), none, some (db.syncSeq + 1)⟩
  | deleteWrite {db : Db} {id nowMs : ℤ} {r : Fingerprint} {v : ℕ}
      (h_free : (db.rows.cell id).lock = none) (h_row : db.row id = some r) (h_live : r.Live) :
      Exec tx db ⟨.softDelete id nowMs, .delete (some r), none, some v⟩
        { db with rows := db.rows.set id ((db.rows.cell id).write tx (some (deleteRow v nowMs r))) }
        ⟨.softDelete id nowMs, .finish (.softDelete true), none, some v⟩
  -- the committed version does not meet the `WHERE`
  | deleteMiss {db : Db} {id nowMs : ℤ} {seen : Option Fingerprint} {drawn : Option ℕ}
      (h_gone : ∀ r, db.row id = some r → r.status = .deleted) :
      Exec tx db ⟨.softDelete id nowMs, .delete seen, none, drawn⟩ db
        ⟨.softDelete id nowMs, .finish (.softDelete false), none, none⟩
  -- `apply_retention`: the guards
  | refuse {db : Db} {p : RetentionPolicy} {nowMs : ℤ} {dryRun : Bool} {msg : String}
      (h_refused : (Store.empty.applyRetention p nowMs dryRun).1 = .error msg) :
      Exec tx db ⟨.applyRetention p nowMs dryRun, .check, none, none⟩ db
        ⟨.applyRetention p nowMs dryRun, .finish (.applyRetention (.error msg)), none, none⟩
  | accept {db : Db} {p : RetentionPolicy} {nowMs : ℤ} {dryRun : Bool} (h_accepted : p.Accepted) :
      Exec tx db ⟨.applyRetention p nowMs dryRun, .check, none, none⟩ db
        ⟨.applyRetention p nowMs dryRun, .expireHits none ⟨0, 0, 0, 0⟩, none, none⟩
  -- `DELETE FROM fingerprint_hits`
  | expireHits {db : Db} {p : RetentionPolicy} {nowMs : ℤ} {dryRun : Bool} {n : RetentionCounts}
      {todo : Option (List ℤ)} {hits : Versioned ℤ Hit} {todo' : List ℤ} {acted : Bool}
      (h_sweep : Versioned.Sweep tx (p.expiresHit nowMs) (fun _ => none) db.hits todo hits todo'
        acted) :
      Exec tx db ⟨.applyRetention p nowMs dryRun, .expireHits todo n, none, none⟩
        { db with hits := hits }
        ⟨.applyRetention p nowMs dryRun,
          .expireHits (some todo') { n with hitsDeleted := n.hitsDeleted + acted.toNat },
          none, none⟩
  | expireHitsDone {db : Db} {p : RetentionPolicy} {nowMs : ℤ} {dryRun : Bool}
      {n : RetentionCounts} :
      Exec tx db ⟨.applyRetention p nowMs dryRun, .expireHits (some []) n, none, none⟩ db
        ⟨.applyRetention p nowMs dryRun, .clearReasons none n, none, none⟩
  -- `UPDATE fingerprint_flags SET reason = NULL`
  | clearReasons {db : Db} {p : RetentionPolicy} {nowMs : ℤ} {dryRun : Bool}
      {n : RetentionCounts} {todo : Option (List (ℤ × ℤ))} {flags : Versioned (ℤ × ℤ) Flag}
      {todo' : List (ℤ × ℤ)} {acted : Bool}
      (h_sweep : Versioned.Sweep tx (p.clearsReason nowMs) (fun f => some (clearReason f)) db.flags
        todo flags todo' acted) :
      Exec tx db ⟨.applyRetention p nowMs dryRun, .clearReasons todo n, none, none⟩
        { db with flags := flags }
        ⟨.applyRetention p nowMs dryRun, .clearReasons (some todo')
          { n with flagReasonsCleared := n.flagReasonsCleared + acted.toNat }, none, none⟩
  | clearReasonsDone {db : Db} {p : RetentionPolicy} {nowMs : ℤ} {dryRun : Bool}
      {n : RetentionCounts} :
      Exec tx db ⟨.applyRetention p nowMs dryRun, .clearReasons (some []) n, none, none⟩ db
        ⟨.applyRetention p nowMs dryRun, .purge none [] n, none, none⟩
  -- `DELETE FROM fingerprints`
  | purge {db : Db} {p : RetentionPolicy} {nowMs : ℤ} {dryRun : Bool} {n : RetentionCounts}
      {todo : Option (List ℤ)} {rows : Versioned ℤ Fingerprint} {todo' gone : List ℤ}
      {acted : Bool}
      (h_sweep : Versioned.Sweep tx (p.purges nowMs) (fun _ => none) db.rows todo rows todo'
        acted) :
      Exec tx db ⟨.applyRetention p nowMs dryRun, .purge todo gone n, none, none⟩
        { db with rows := rows }
        ⟨.applyRetention p nowMs dryRun,
          .purge (some todo')
            (if acted then (todo.getD []).head?.toList ++ gone else gone)
            { n with tombstonesDeleted := n.tombstonesDeleted + acted.toNat }, none, none⟩
  | purgeDone {db : Db} {p : RetentionPolicy} {nowMs : ℤ} {dryRun : Bool} {n : RetentionCounts}
      {gone : List ℤ} :
      Exec tx db ⟨.applyRetention p nowMs dryRun, .purge (some []) gone n, none, none⟩ db
        ⟨.applyRetention p nowMs dryRun, .cascadeHits none gone n, none, none⟩
  -- `ON DELETE CASCADE`
  | cascadeHits {db : Db} {p : RetentionPolicy} {nowMs : ℤ} {dryRun : Bool} {n : RetentionCounts}
      {todo : Option (List ℤ)} {hits : Versioned ℤ Hit} {todo' gone : List ℤ} {acted : Bool}
      (h_sweep : Versioned.Sweep tx (fun h : Hit => h.fingerprintId ∈ gone) (fun _ => none)
        db.hits todo hits todo' acted) :
      Exec tx db ⟨.applyRetention p nowMs dryRun, .cascadeHits todo gone n, none, none⟩
        { db with hits := hits }
        ⟨.applyRetention p nowMs dryRun, .cascadeHits (some todo') gone n, none, none⟩
  | cascadeHitsDone {db : Db} {p : RetentionPolicy} {nowMs : ℤ} {dryRun : Bool}
      {n : RetentionCounts} {gone : List ℤ} :
      Exec tx db ⟨.applyRetention p nowMs dryRun, .cascadeHits (some []) gone n, none, none⟩ db
        ⟨.applyRetention p nowMs dryRun, .cascadeFlags none gone n, none, none⟩
  | cascadeFlags {db : Db} {p : RetentionPolicy} {nowMs : ℤ} {dryRun : Bool}
      {n : RetentionCounts} {todo : Option (List (ℤ × ℤ))} {flags : Versioned (ℤ × ℤ) Flag}
      {todo' : List (ℤ × ℤ)} {gone : List ℤ} {acted : Bool}
      (h_sweep : Versioned.Sweep tx (fun f : Flag => f.fingerprintId ∈ gone) (fun _ => none)
        db.flags todo flags todo' acted) :
      Exec tx db ⟨.applyRetention p nowMs dryRun, .cascadeFlags todo gone n, none, none⟩
        { db with flags := flags }
        ⟨.applyRetention p nowMs dryRun, .cascadeFlags (some todo') gone n, none, none⟩
  | cascadeFlagsDone {db : Db} {p : RetentionPolicy} {nowMs : ℤ} {dryRun : Bool}
      {n : RetentionCounts} {gone : List ℤ} :
      Exec tx db ⟨.applyRetention p nowMs dryRun, .cascadeFlags (some []) gone n, none, none⟩ db
        ⟨.applyRetention p nowMs dryRun, .anonymize none n, none, none⟩
  -- `UPDATE fingerprints SET source_guild_id = NULL, …`
  | anonymize {db : Db} {p : RetentionPolicy} {nowMs : ℤ} {dryRun : Bool} {n : RetentionCounts}
      {todo : Option (List ℤ)} {rows : Versioned ℤ Fingerprint} {todo' : List ℤ} {acted : Bool}
      (h_sweep : Versioned.Sweep tx (p.anonymizes nowMs) (fun r => some (anonymizeRow r)) db.rows
        todo rows todo' acted) :
      Exec tx db ⟨.applyRetention p nowMs dryRun, .anonymize todo n, none, none⟩
        { db with rows := rows }
        ⟨.applyRetention p nowMs dryRun, .anonymize (some todo')
          { n with tombstonesAnonymized := n.tombstonesAnonymized + acted.toNat }, none, none⟩
  | anonymizeDone {db : Db} {p : RetentionPolicy} {nowMs : ℤ} {dryRun : Bool}
      {n : RetentionCounts} :
      Exec tx db ⟨.applyRetention p nowMs dryRun, .anonymize (some []) n, none, none⟩ db
        ⟨.applyRetention p nowMs dryRun, .finish (.applyRetention (.ok n)), none, none⟩

/-- A session keeps its call. -/
theorem Exec.call_eq {tx : ℕ} {db db' : Db} {s s' : Session} (h : Exec tx db s db' s') :
    s'.call = s.call := by
  cases h <;> rfl

/-- The id of the tombstone is what the first `SELECT` of `contribute` found. No later statement
changes it. -/
theorem Exec.existing_cases {tx : ℕ} {db db' : Db} {s s' : Session} (h : Exec tx db s db' s') :
    s'.existing = s.existing ∨
    ∃ enc a r, s = ⟨.contribute enc a, .select, none, none⟩ ∧
      s' = ⟨.contribute enc a, .clearFlags none, some r.id, none⟩ ∧
      db.snapshot.findOwned a.owned = some r ∧ r.status = .deleted := by
  cases h with
  | selectTombstone h_found h_deleted => exact Or.inr ⟨_, _, _, rfl, rfl, h_found, h_deleted⟩
  | _ => exact Or.inl rfl

/-- A session runs the call it was started with. -/
@[simp] theorem Session.start_call (op : Op) : (Session.start op).call = op := by
  cases op <;> rfl

/-- A session that starts has read no row, -/
@[simp] theorem Session.start_existing (op : Op) : (Session.start op).existing = none := by
  cases op <;> rfl

/-- and drawn no value. -/
@[simp] theorem Session.start_drawn (op : Op) : (Session.start op).drawn = none := by
  cases op <;> rfl

/-! ### Sessions side by side -/

/-- What has become of a transaction. `done` keeps what was returned, and `aborted` is a call that
an error or a lost connection has ended: its caller gets no answer. -/
inductive Activity where
  | idle
  | running (s : Session)
  | done (call : Op) (reply : Reply)
  | aborted (call : Op)

/-- The database, and the transactions on it, by number. There is no bound on how many are
running. -/
structure System where
  db : Db
  activity : ℕ → Activity

/-- A database nobody is working on. -/
def System.quiet (s : Store) : System := ⟨.ofStore s, fun _ => .idle⟩

/-- The transaction keeps nothing: it is the dry run of `apply_retention`. -/
def dryRuns : Op → Bool
  | .applyRetention _ _ dryRun => dryRun
  | _ => false

/-- The database at the end of a transaction: what it has drafted is committed, or rolled back
after a dry run. -/
def endOf (tx : ℕ) (call : Op) (db : Db) : Db :=
  if dryRuns call then db.rollback tx else db.commit tx

/-- A step of a system whose calls are those allowed: a transaction begins, runs its next
statement, commits when its statements are done, or is aborted. Which transaction takes the step
is left open, and so are all interleavings. -/
inductive Step (allowed : Op → Prop) : System → System → Prop
  | begin {sys : System} {tx : ℕ} {op : Op} (h_idle : sys.activity tx = .idle)
      (h_allowed : allowed op) :
      Step allowed sys
        { sys with activity := Function.update sys.activity tx (.running (.start op)) }
  | exec {sys : System} {tx : ℕ} {s s' : Session} {db : Db} (h_run : sys.activity tx = .running s)
      (h_exec : Exec tx sys.db s db s') :
      Step allowed sys ⟨db, Function.update sys.activity tx (.running s')⟩
  | commit {sys : System} {tx : ℕ} {op : Op} {reply : Reply} {existing : Option ℤ}
      {drawn : Option ℕ} (h_run : sys.activity tx = .running ⟨op, .finish reply, existing, drawn⟩) :
      Step allowed sys
        ⟨endOf tx op sys.db, Function.update sys.activity tx (.done op reply)⟩
  | abort {sys : System} {tx : ℕ} {s : Session} (h_run : sys.activity tx = .running s) :
      Step allowed sys
        ⟨sys.db.rollback tx, Function.update sys.activity tx (.aborted s.call)⟩

/-- A step with fewer calls allowed is one with more. -/
theorem Step.mono {allowed allowed' : Op → Prop} (h_allowed : ∀ op, allowed op → allowed' op)
    {sys sys' : System} (h : Step allowed sys sys') : Step allowed' sys sys' := by
  cases h with
  | begin h_idle h_op => exact .begin h_idle (h_allowed _ h_op)
  | exec h_run h_exec => exact .exec h_run h_exec
  | commit h_run => exact .commit h_run
  | abort h_run => exact .abort h_run

/-- After one activity changed, a running session is the one that moved, or an old
one. -/
theorem running_update {act : ℕ → Activity} {tx tx' : ℕ} {a : Activity} {s : Session}
    (h : Function.update act tx a tx' = .running s) :
    (tx' = tx ∧ a = .running s) ∨ (tx' ≠ tx ∧ act tx' = .running s) := by
  by_cases h_tx : tx' = tx
  · subst h_tx
    rw [Function.update_self] at h
    exact Or.inl ⟨rfl, h⟩
  · rw [Function.update_of_ne h_tx] at h
    exact Or.inr ⟨h_tx, h⟩

/-- What the transaction that takes a step does, without what it does to the activities of the
others, which is nothing. -/
inductive Acts (tx : ℕ) (sys sys' : System) : Prop
  | begin (h_db : sys'.db = sys.db)
  | exec {s s' : Session} (h_run : sys.activity tx = .running s)
      (h_exec : Exec tx sys.db s sys'.db s')
  | commit {op : Op} {reply : Reply} {existing : Option ℤ} {drawn : Option ℕ}
      (h_run : sys.activity tx = .running ⟨op, .finish reply, existing, drawn⟩)
      (h_done : sys'.activity tx = .done op reply) (h_db : sys'.db = endOf tx op sys.db)
  | abort (h_db : sys'.db = sys.db.rollback tx)

/-- What a step is to one transaction: another's, or one of its own. The last two arguments are
its activity before and after, so that `cases` gives the steps that lead to an activity. -/
inductive Moves (allowed : Op → Prop) (tx : ℕ) (sys sys' : System) : Activity → Activity → Prop
  | other {a : Activity} {tx' : ℕ} (h_ne : tx' ≠ tx) (h_acts : Acts tx' sys sys') :
      Moves allowed tx sys sys' a a
  | begin {op : Op} (h_allowed : allowed op) (h_db : sys'.db = sys.db) :
      Moves allowed tx sys sys' .idle (.running (.start op))
  | exec {s s' : Session} (h_exec : Exec tx sys.db s sys'.db s') :
      Moves allowed tx sys sys' (.running s) (.running s')
  | commit {op : Op} {reply : Reply} {existing : Option ℤ} {drawn : Option ℕ}
      (h_db : sys'.db = endOf tx op sys.db) :
      Moves allowed tx sys sys' (.running ⟨op, .finish reply, existing, drawn⟩) (.done op reply)
  | abort {s : Session} (h_db : sys'.db = sys.db.rollback tx) :
      Moves allowed tx sys sys' (.running s) (.aborted s.call)

/-- A step is one of these to each transaction. -/
theorem Step.moves {allowed : Op → Prop} {sys sys' : System} (h : Step allowed sys sys') (tx : ℕ) :
    Moves allowed tx sys sys' (sys.activity tx) (sys'.activity tx) := by
  cases h with
  | @begin tx' op h_idle h_allowed =>
    -- the step is its own, or one of another
    by_cases h_tx : tx = tx'
    · subst h_tx
      rw [h_idle]
      simp only [Function.update_self]
      exact .begin h_allowed rfl
    · simp only [Function.update_of_ne h_tx]
      exact .other (fun h_eq => h_tx h_eq.symm) (.begin rfl)
  | @exec tx' s s' db h_run h_exec =>
    by_cases h_tx : tx = tx'
    · subst h_tx
      rw [h_run]
      simp only [Function.update_self]
      exact .exec h_exec
    · simp only [Function.update_of_ne h_tx]
      exact .other (fun h_eq => h_tx h_eq.symm) (.exec h_run h_exec)
  | @commit tx' op reply existing drawn h_run =>
    by_cases h_tx : tx = tx'
    · subst h_tx
      rw [h_run]
      simp only [Function.update_self]
      exact .commit rfl
    · simp only [Function.update_of_ne h_tx]
      exact .other (fun h_eq => h_tx h_eq.symm) (.commit h_run (Function.update_self _ _ _) rfl)
  | @abort tx' s h_run =>
    by_cases h_tx : tx = tx'
    · subst h_tx
      rw [h_run]
      simp only [Function.update_self]
      exact .abort rfl
    · simp only [Function.update_of_ne h_tx]
      exact .other (fun h_eq => h_tx h_eq.symm) (.abort rfl)

/-- Every step is somebody's. -/
theorem Step.acts {allowed : Op → Prop} {sys sys' : System} (h : Step allowed sys sys') :
    ∃ tx, Acts tx sys sys' := by
  cases h with
  | @begin tx _ _ _ => exact ⟨tx, .begin rfl⟩
  | exec h_run h_exec => exact ⟨_, .exec h_run h_exec⟩
  | commit h_run => exact ⟨_, .commit h_run (Function.update_self _ _ _) rfl⟩
  | @abort tx _ _ => exact ⟨tx, .abort rfl⟩

/-! ### Runs -/

/-- A run that starts on a database nobody is working on. The store is that of the theorem, often
any that is reachable. -/
def Reaches (allowed : Op → Prop) (s : Store) (sys : System) : Prop :=
  Relation.ReflTransGen (Step allowed) (.quiet s) sys

/-- A run whose every step meets a condition, from the state before the step to the state after
it. -/
def ReachesBy (allowed : Op → Prop) (cond : System → System → Prop) (s : Store)
    (sys : System) : Prop :=
  Relation.ReflTransGen (fun x y => Step allowed x y ∧ cond x y) (.quiet s) sys

/-- It is a run. -/
theorem ReachesBy.reaches {allowed : Op → Prop} {cond : System → System → Prop} {s : Store}
    {sys : System} (h : ReachesBy allowed cond s sys) : Reaches allowed s sys :=
  Relation.ReflTransGen.mono (fun _ _ h_step => h_step.1) _ _ h

namespace Reaches

variable {allowed : Op → Prop} {s : Store} {sys : System}

theorem quiet : Reaches allowed s (.quiet s) := .refl

theorem step {sys' : System} (h : Reaches allowed s sys) (h_step : Step allowed sys sys') :
    Reaches allowed s sys' := .tail h h_step

/-- A condition that every step of every run meets. -/
theorem reachesBy {cond : System → System → Prop} (h : Reaches allowed s sys)
    (h_cond : ∀ x y, Reaches allowed s x → Step allowed x y → cond x y) :
    ReachesBy allowed cond s sys := by
  induction h with
  | refl => exact .refl
  | tail h_run h_step ih => exact .tail ih ⟨h_step, h_cond _ _ h_run h_step⟩

/-! One step more, over a database and the activities on it. -/

section Extend

variable {db : Db} {act : ℕ → Activity}

theorem begin (h : Reaches allowed s ⟨db, act⟩) (tx : ℕ) (op : Op) (h_idle : act tx = .idle)
    (h_allowed : allowed op) :
    Reaches allowed s ⟨db, Function.update act tx (.running (.start op))⟩ :=
  h.step (@Step.begin _ ⟨db, act⟩ tx op h_idle h_allowed)

theorem exec (h : Reaches allowed s ⟨db, act⟩) (tx : ℕ) {c c' : Session} {db' : Db}
    (h_run : act tx = .running c) (h_exec : Exec tx db c db' c') :
    Reaches allowed s ⟨db', Function.update act tx (.running c')⟩ :=
  h.step (@Step.exec _ ⟨db, act⟩ tx c c' db' h_run h_exec)

theorem commit (h : Reaches allowed s ⟨db, act⟩) (tx : ℕ) {op : Op} {reply : Reply}
    {existing : Option ℤ} {drawn : Option ℕ}
    (h_run : act tx = .running ⟨op, .finish reply, existing, drawn⟩) :
    Reaches allowed s ⟨endOf tx op db, Function.update act tx (.done op reply)⟩ :=
  h.step (@Step.commit _ ⟨db, act⟩ tx op reply existing drawn h_run)

end Extend

/-- The sessions run the calls that are allowed. -/
theorem allowed_call (h : Reaches allowed s sys) (tx : ℕ) {c : Session}
    (h_run : sys.activity tx = .running c) : allowed c.call := by
  induction h generalizing c with
  | refl => exact Activity.noConfusion h_run
  | tail _ h_step ih =>
    have h_moves := h_step.moves tx
    generalize h_a : System.activity _ tx = act at h_moves
    generalize h_a' : System.activity _ tx = act' at h_moves h_run
    cases h_moves with
    | other _ _ => exact ih (h_a.trans h_run)
    | begin h_op _ =>
      obtain rfl := Activity.running.inj h_run
      rw [Session.start_call]
      exact h_op
    | exec h_exec =>
      obtain rfl := Activity.running.inj h_run
      rw [h_exec.call_eq]
      exact ih h_a
    | commit _ => exact Activity.noConfusion h_run
    | abort _ => exact Activity.noConfusion h_run

end Reaches

/-- A contribution of `00ff`. -/
def sampleCall : Op := .contribute (fun _ t => t) (sampleContribution "00ff")

end Concurrent
end FingerprintHub
