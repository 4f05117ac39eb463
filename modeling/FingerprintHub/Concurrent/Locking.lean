import FingerprintHub.Concurrent.Sessions

/-!
# What a lock on a fingerprint means

Every version of a fingerprint is written under its row lock, and the lock is kept
until the transaction ends. `Owns` lists what a session may hold on a row, and with
which draft, at each of its statements. `Locking` says that in every state the locks
on the rows are held so, by sessions that are running, and that a session that has
reached the statements after its lock has it. It holds of every run of every mix of
calls.

Two lemmas carry every later invariant. While a statement runs, nothing that is
committed changes (`Exec.rows_cases`). At a commit a row changes only to the draft its
session owned (`Locking.row_commit`).
-/

namespace FingerprintHub
namespace Concurrent

/-- The statements of `apply_retention` from the purge on. -/
def Pc.AfterPurge : Pc → Prop
  | .purge _ _ _ | .cascadeHits _ _ _ | .cascadeFlags _ _ _ | .anonymize _ _ | .finish _ => True
  | _ => False

/-- The statements of `apply_retention` from the anonymising on. -/
def Pc.AfterAnonymize : Pc → Prop
  | .anonymize _ _ | .finish _ => True
  | _ => False

/-- What a session holds on the row of an id, over the committed version: its lock, and its draft
if it has written one. Each rule names the statements at which the session holds the row so, and
what it knows of the committed version: nobody else changes it until the session ends. -/
inductive Owns : Session → ℤ → Option Fingerprint → Option (Option Fingerprint) → Prop
  | insert {enc : EncryptText} {a : ContributeArgs} {id : ℤ} {v : ℕ} {row : Fingerprint}
      (h_row : row = freshRow enc a id v) :
      Owns ⟨.contribute enc a, .finish (.contribute (some (.written row), true)), none, some v⟩
        id none (some (some row))
  | resurrect {enc : EncryptText} {a : ContributeArgs} {i : ℤ} {r row : Fingerprint} {v : ℕ}
      (h_row : row = resurrectRow enc a v r) :
      Owns ⟨.contribute enc a, .finish (.contribute (some (.written row), true)), some i, some v⟩
        i (some r) (some (some row))
  | hitGone {enc : EncryptText} {a : HitArgs} {i : ℤ} {r : Fingerprint}
      (h_target : a.fingerprintId = i) (h_deleted : r.status = .deleted) :
      Owns ⟨.reportHit enc a, .finish (.reportHit none), none, none⟩ i (some r) none
  | hitLock {enc : EncryptText} {a : HitArgs} {i : ℤ} {r : Fingerprint}
      (h_target : a.fingerprintId = i) (h_live : r.Live) :
      Owns ⟨.reportHit enc a, .insertHit, none, none⟩ i (some r) none
  | hitInserted {enc : EncryptText} {a : HitArgs} {i : ℤ} {r : Fingerprint}
      (h_target : a.fingerprintId = i) (h_live : r.Live) :
      Owns ⟨.reportHit enc a, .bumpHit, none, none⟩ i (some r) none
  | hit {enc : EncryptText} {a : HitArgs} {i : ℤ} {r row : Fingerprint} {n : ℕ}
      (h_target : a.fingerprintId = i) (h_live : r.Live) (h_n : n = r.hitCount + 1)
      (h_row : row = hitRow a.nowMs r) :
      Owns ⟨.reportHit enc a, .finish (.reportHit (some n)), none, none⟩ i (some r)
        (some (some row))
  | flagGone {enc : EncryptText} {a : FlagArgs} {i : ℤ} {r : Fingerprint}
      (h_target : a.fingerprintId = i) (h_deleted : r.status = .deleted) :
      Owns ⟨.flag enc a, .finish (.flag none), none, none⟩ i (some r) none
  | flagLock {enc : EncryptText} {a : FlagArgs} {i : ℤ} {r : Fingerprint} {status : Status}
      (h_target : a.fingerprintId = i) (h_live : r.Live) (h_status : r.status = status) :
      Owns ⟨.flag enc a, .insertFlag status, none, none⟩ i (some r) none
  | flagInserted {enc : EncryptText} {a : FlagArgs} {i : ℤ} {r : Fingerprint} {status : Status}
      (h_target : a.fingerprintId = i) (h_live : r.Live) (h_status : r.status = status) :
      Owns ⟨.flag enc a, .count status, none, none⟩ i (some r) none
  | flagCounted {enc : EncryptText} {a : FlagArgs} {i : ℤ} {r : Fingerprint} {status : Status}
      {n : ℕ} (h_target : a.fingerprintId = i) (h_live : r.Live) (h_status : r.status = status) :
      Owns ⟨.flag enc a, .update status n, none, none⟩ i (some r) none
  | hide {enc : EncryptText} {a : FlagArgs} {i : ℤ} {r row : Fingerprint} {n v : ℕ}
      (h_target : a.fingerprintId = i) (h_active : r.status = .active)
      (h_threshold : a.autoHideThreshold ≤ n) (h_row : row = hideRow n v a.nowMs r) :
      Owns ⟨.flag enc a, .finish (.flag (some ⟨n, .hidden, true⟩)), none, some v⟩ i
        (some r) (some (some row))
  | keep {enc : EncryptText} {a : FlagArgs} {i : ℤ} {r row : Fingerprint} {status : Status} {n : ℕ}
      (h_target : a.fingerprintId = i) (h_live : r.Live) (h_status : r.status = status)
      (h_keep : ¬ (a.autoHideThreshold ≤ n ∧ status = .active))
      (h_row : row = countFlagRow n a.nowMs r) :
      Owns ⟨.flag enc a, .finish (.flag (some ⟨n, status, false⟩)), none, none⟩ i
        (some r) (some (some row))
  | delete {id nowMs : ℤ} {r row : Fingerprint} {v : ℕ} (h_live : r.Live)
      (h_row : row = deleteRow v nowMs r) :
      Owns ⟨.softDelete id nowMs, .finish (.softDelete true), none, some v⟩ id (some r)
        (some (some row))
  | purge {p : RetentionPolicy} {nowMs : ℤ} {dryRun : Bool} {pc : Pc} {i : ℤ} {r : Fingerprint}
      (h_pc : pc.AfterPurge) (h_purges : p.purges nowMs r = true) :
      Owns ⟨.applyRetention p nowMs dryRun, pc, none, none⟩ i (some r) (some none)
  | anonymize {p : RetentionPolicy} {nowMs : ℤ} {dryRun : Bool} {pc : Pc} {i : ℤ}
      {r row : Fingerprint} (h_pc : pc.AfterAnonymize) (h_anonymizes : p.anonymizes nowMs r = true)
      (h_row : row = anonymizeRow r) :
      Owns ⟨.applyRetention p nowMs dryRun, pc, none, none⟩ i (some r) (some (some row))

/-- The row a session must hold at its statement: what the statements before it have locked. -/
def Session.target (s : Session) : Option ℤ :=
  match s.call, s.pc with
  | .contribute _ _, .finish (.contribute (some (.written row), true)) => some row.id
  | .reportHit _ a, .insertHit | .reportHit _ a, .bumpHit => some a.fingerprintId
  | .reportHit _ a, .finish (.reportHit (some _)) => some a.fingerprintId
  | .flag _ a, .insertFlag _ | .flag _ a, .count _ | .flag _ a, .update _ _ => some a.fingerprintId
  | .flag _ a, .finish (.flag (some _)) => some a.fingerprintId
  | .softDelete id _, .finish (.softDelete true) => some id
  | _, _ => none

/-- The id a session has drawn and not used yet. No row has it until the session writes one. -/
def Session.allotted (s : Session) : Option ℤ :=
  match s.pc with
  | .insert id => id
  | _ => none

/-- A running session owns what its transaction holds. `own` says what that may be, and is `Owns`
for rows and another relation for each other table. -/
def System.Owner {ρ : Type} (sys : System)
    (own : Session → Option ρ → Option (Option ρ) → Prop) (tx : ℕ) (o : Option ρ)
    (d : Option (Option ρ)) : Prop :=
  ∃ s, sys.activity tx = .running s ∧ own s o d

/-- The locks on the rows are what the sessions say they are. `owns` and `holds` are the two
directions: every lock belongs to a session that has come to it, and a session that has come to a
lock has it. The other clauses say that an `INSERT` writes where no row has been. -/
structure Locking (sys : System) : Prop where
  /-- A row beyond the identity column has never been touched. -/
  fresh : ∀ i, sys.db.lastId < i → sys.db.rows.cell i = .empty
  /-- An id a session has drawn is its own. -/
  allotted : ∀ tx s id, sys.activity tx = .running s → s.allotted = some id →
    sys.db.rows.cell id = .empty ∧ id ≤ sys.db.lastId
  allotted_inj : ∀ tx tx' s s' id, sys.activity tx = .running s → sys.activity tx' = .running s' →
    s.allotted = some id → s'.allotted = some id → tx = tx'
  /-- A lock is held by a running session that owns it. -/
  owns : ∀ i, (sys.db.rows.cell i).OwnedBy (sys.Owner (fun s => Owns s i))
  /-- A session has the lock its next statement relies on. -/
  holds : ∀ tx s i, sys.activity tx = .running s → s.target = some i →
    (sys.db.rows.cell i).Held tx
  /-- A committed row lies under its id. -/
  keyed : ∀ i r, sys.db.row i = some r → r.id = i

section Owner

variable {ρ : Type} {own own' : ℕ → Session → Option ρ → Option (Option ρ) → Prop} {sys : System}
  {c c' : Cell ρ} {tx : ℕ}

/-- A transaction that begins leaves what is owned: it was idle and owned nothing. -/
theorem OwnedBy.begun (h : c.OwnedBy fun tx => sys.Owner (own tx) tx)
    (h_idle : sys.activity tx = .idle) (a : Activity) :
    c.OwnedBy fun tx' =>
      System.Owner ⟨sys.db, Function.update sys.activity tx a⟩ (own tx') tx' := by
  intro l h_lock
  obtain ⟨s, h_run, h_owns⟩ := h l h_lock
  have h_ne : l.holder ≠ tx := by
    rintro rfl
    exact Activity.noConfusion (h_idle.symm.trans h_run)
  exact ⟨s, (Function.update_of_ne h_ne _ _).trans h_run, h_owns⟩

/-- A statement moves only what its own session owns. What the others own may change its
description, as when a statement draws a value, and `h_other` says that it may not change more. -/
theorem OwnedBy.exec (h : c.OwnedBy fun tx => sys.Owner (own tx) tx) {s s' : Session}
    (h_run : sys.activity tx = .running s) (db : Db) (h_move : c.Move (own tx s) (own' tx s') tx c')
    (h_other : ∀ tx' s o d, tx' ≠ tx → own tx' s o d → own' tx' s o d) :
    c'.OwnedBy fun tx' =>
      System.Owner ⟨db, Function.update sys.activity tx (.running s')⟩ (own' tx') tx' := by
  refine h.move (h_move.mono (fun o d => ?_) (fun o d h_owns => ?_)) (fun tx' o d h_tx => ?_)
  · rintro ⟨s₀, h_run₀, h_owns₀⟩
    exact Activity.running.inj (h_run₀.symm.trans h_run) ▸ h_owns₀
  · exact ⟨s', Function.update_self _ _ _, h_owns⟩
  · rintro ⟨s₀, h_run₀, h_owns₀⟩
    exact ⟨s₀, (Function.update_of_ne h_tx _ _).trans h_run₀, h_other tx' s₀ o d h_tx h_owns₀⟩

/-- The end of a transaction leaves what the others own. -/
theorem OwnedBy.ended (h : c.OwnedBy fun tx => sys.Owner (own tx) tx) (h_ends : c.Ends tx c')
    (db : Db) (a : Activity) (h_other : ∀ tx' s o d, tx' ≠ tx → own tx' s o d → own' tx' s o d) :
    c'.OwnedBy fun tx' =>
      System.Owner ⟨db, Function.update sys.activity tx a⟩ (own' tx') tx' := by
  refine h.ends h_ends (fun tx' o d h_tx => ?_)
  rintro ⟨s₀, h_run₀, h_owns₀⟩
  exact ⟨s₀, (Function.update_of_ne h_tx _ _).trans h_run₀, h_other tx' s₀ o d h_tx h_owns₀⟩

end Owner

/-! ### What a draft keeps -/

/-- A draft is of the row it is held on: it keeps the id, and a new row has the id it is written
under. -/
theorem Owns.id_eq {s : Session} {i : ℤ} {o : Option Fingerprint} {r' : Fingerprint}
    (h : Owns s i o (some (some r'))) (h_key : ∀ r, o = some r → r.id = i) : r'.id = i := by
  cases h with
  | insert h_row => rw [h_row]; rfl
  | resurrect h_row => have h_id := h_key _ rfl; rw [h_row]; exact h_id
  | hit _ _ _ h_row => have h_id := h_key _ rfl; rw [h_row]; exact h_id
  | hide _ _ _ h_row => have h_id := h_key _ rfl; rw [h_row]; exact h_id
  | keep _ _ _ _ h_row => have h_id := h_key _ rfl; rw [h_row]; exact h_id
  | delete _ h_row => have h_id := h_key _ rfl; rw [h_row]; exact h_id
  | anonymize _ _ h_row => have h_id := h_key _ rfl; rw [h_row]; exact h_id

/-- A draft keeps owner and hash, which no statement sets. -/
theorem Owns.owned_eq {s : Session} {i : ℤ} {r r' : Fingerprint}
    (h : Owns s i (some r) (some (some r'))) : r'.owned = r.owned := by
  cases h with
  | resurrect h_row => rw [h_row]; rfl
  | hit _ _ _ h_row => rw [h_row]; rfl
  | hide _ _ _ h_row => rw [h_row]; rfl
  | keep _ _ _ _ h_row => rw [h_row]; rfl
  | delete _ h_row => rw [h_row]; rfl
  | anonymize _ _ h_row => rw [h_row]; rfl

/-- What retention holds it keeps from statement to statement. -/
theorem Owns.retain {p : RetentionPolicy} {nowMs : ℤ} {dryRun : Bool} {pc pc' : Pc} {i : ℤ}
    {o : Option Fingerprint} {d : Option (Option Fingerprint)}
    (h_purge : pc.AfterPurge → pc'.AfterPurge)
    (h_anonymize : pc.AfterAnonymize → pc'.AfterAnonymize)
    (h : Owns ⟨.applyRetention p nowMs dryRun, pc, none, none⟩ i o d) :
    Owns ⟨.applyRetention p nowMs dryRun, pc', none, none⟩ i o d := by
  cases h with
  | purge h_pc h_p => exact .purge (h_purge h_pc) h_p
  | anonymize h_pc h_p h_row => exact .anonymize (h_anonymize h_pc) h_p h_row

/-! ### One statement -/

/-- What a statement does to the row of an id. -/
abbrev RowMove (tx : ℕ) (s s' : Session) (i : ℤ) : Cell Fingerprint → Cell Fingerprint → Prop :=
  Cell.Move (Owns s i) (Owns s' i) tx

/-- What a running session holds on a row. -/
theorem Locking.owns_of_held {sys : System} (h : Locking sys) {tx : ℕ} {s : Session}
    (h_run : sys.activity tx = .running s) {i : ℤ} (h_held : (sys.db.rows.cell i).Held tx) :
    ∃ l, (sys.db.rows.cell i).lock = some l ∧ l.holder = tx ∧ Owns s i (sys.db.row i) l.draft := by
  obtain ⟨l, h_lock, rfl⟩ := h_held
  obtain ⟨s', h_run', h_owns⟩ := h.owns i l h_lock
  have h_same : s' = s := Activity.running.inj (h_run'.symm.trans h_run)
  exact ⟨l, h_lock, rfl, h_same ▸ h_owns⟩

/-- What a session reads in a row it has locked and not written: the committed version, as nobody
else may write it. -/
theorem Locking.view_of_held {sys : System} (h : Locking sys) {tx : ℕ} {s : Session}
    (h_run : sys.activity tx = .running s) {i : ℤ} (h_held : (sys.db.rows.cell i).Held tx)
    (h_clean : ∀ o d, Owns s i o d → d = none) :
    (sys.db.rows.cell i).view tx = sys.db.row i ∧ Owns s i (sys.db.row i) none := by
  obtain ⟨l, h_lock, h_holder, h_owns⟩ := h.owns_of_held h_run h_held
  have h_draft := h_clean _ _ h_owns
  rw [h_draft] at h_owns
  refine ⟨?_, h_owns⟩
  rw [Cell.view_of_lock h_lock h_holder, h_draft]
  rfl

/-- A sweep of retention writes only on rows it finds free or holds without a draft. A row that it
has written before no longer meets its `WHERE`. -/
theorem Locking.rowMove_sweep {sys : System} (h : Locking sys) {tx : ℕ} {s s' : Session}
    (h_run : sys.activity tx = .running s) {p : Fingerprint → Bool}
    {act : Fingerprint → Option Fingerprint} {todo : Option (List ℤ)}
    {rows : Versioned ℤ Fingerprint} {todo' : List ℤ} {acted : Bool}
    (h_sweep : Versioned.Sweep tx p act sys.db.rows todo rows todo' acted) (i : ℤ)
    (h_keep : ∀ o d, Owns s i o d → Owns s' i o d)
    (h_draft : ∀ o d r, Owns s i o (some d) → d = some r → p r = false)
    (h_clean : ∀ o, ¬ Owns s i o none)
    (h_act : ∀ r, p r = true → Owns s' i (some r) (some (act r))) :
    RowMove tx s s' i (sys.db.rows.cell i) (rows.cell i) := by
  rcases h_sweep.touch i with h_same | ⟨r, h_free, h_view, h_where, h_cell⟩
  · rw [h_same]
    exact .same h_keep
  · rw [h_cell]
    cases h_lock : (sys.db.rows.cell i).lock with
    | none =>
      have h_row : sys.db.row i = some r := by
        rw [← h_view, Cell.view_of_lock_none h_lock]
      refine .taken h_lock ?_
      have h_own := h_act r h_where
      rw [← h_row] at h_own
      exact h_own
    | some l =>
      -- what it holds already it has purged or anonymised, and does not match again
      exfalso
      have h_holder := h_free l h_lock
      obtain ⟨l', h_lock', -, h_owns⟩ := h.owns_of_held h_run ⟨l, h_lock, h_holder⟩
      obtain rfl : l = l' := Option.some.inj (h_lock.symm.trans h_lock')
      rw [Cell.view_of_lock h_lock h_holder] at h_view
      cases h_d : l.draft with
      | none =>
        rw [h_d] at h_owns
        exact h_clean _ h_owns
      | some d =>
        rw [h_d] at h_owns h_view
        have h_no := h_draft _ d r h_owns h_view
        exact absurd (h_where.symm.trans h_no) (by simp)

/-- A statement that sets one cell moves only that row, and of the others the session owns what it
did. -/
theorem rowMove_set {db : Db} {tx : ℕ} {s s' : Session} {i : ℤ} {c : Cell Fingerprint}
    (h_keep : ∀ j o d, j ≠ i → Owns s j o d → Owns s' j o d)
    (h_move : RowMove tx s s' i (db.rows.cell i) c) (j : ℤ) :
    RowMove tx s s' j (db.rows.cell j) ((db.rows.set i c).cell j) := by
  by_cases h_j : j = i
  · subst h_j
    rw [Versioned.cell_set_self]
    exact h_move
  · rw [Versioned.cell_set_of_ne _ h_j]
    exact .same (fun o d => h_keep j o d h_j)

/-- A `SELECT … FOR UPDATE` of a session that held nothing takes the lock of a free row. -/
theorem rowMove_acquire {db : Db} {tx : ℕ} {s s' : Session} {i : ℤ} {o : Option Fingerprint}
    (h_none : ∀ j o d, ¬ Owns s j o d) (h_free : (db.rows.cell i).lock = none)
    (h_row : db.row i = o) (h_owns : Owns s' i o none) (j : ℤ) :
    RowMove tx s s' j (db.rows.cell j) ((db.rows.set i ((db.rows.cell i).acquire tx)).cell j) := by
  refine rowMove_set (fun j o d _ h' => absurd h' (h_none j o d)) ?_ j
  rw [Cell.acquire_of_lock_none h_free]
  refine .taken h_free ?_
  rw [show (db.rows.cell i).committed = o from h_row]
  exact h_owns

/-- A write of a session that held nothing, on a free row. -/
theorem rowMove_write {db : Db} {tx : ℕ} {s s' : Session} {i : ℤ} {o v : Option Fingerprint}
    (h_none : ∀ j o d, ¬ Owns s j o d) (h_free : (db.rows.cell i).lock = none)
    (h_row : db.row i = o) (h_owns : Owns s' i o (some v)) (j : ℤ) :
    RowMove tx s s' j (db.rows.cell j)
      ((db.rows.set i ((db.rows.cell i).write tx v)).cell j) := by
  refine rowMove_set (fun j o d _ h' => absurd h' (h_none j o d)) (.taken h_free ?_) j
  rw [show (db.rows.cell i).committed = o from h_row]
  exact h_owns

/-- A write on the row a session has locked and not written yet: what it sees there is what
is committed. -/
theorem Locking.rowMove_held {sys : System} (h : Locking sys) {tx : ℕ} {s s' : Session}
    (h_run : sys.activity tx = .running s) {i : ℤ} (h_target : s.target = some i)
    {r : Fingerprint} {v : Option Fingerprint} (h_view : (sys.db.rows.cell i).view tx = some r)
    (h_clean : ∀ j o d, Owns s j o d → j = i ∧ d = none)
    (h_owns : Owns s i (some r) none → Owns s' i (some r) (some v)) (j : ℤ) :
    RowMove tx s s' j (sys.db.rows.cell j)
      ((sys.db.rows.set i ((sys.db.rows.cell i).write tx v)).cell j) := by
  have h_held := h.holds tx s i h_run h_target
  obtain ⟨h_eq, h_own⟩ := h.view_of_held h_run h_held (fun o d h' => (h_clean i o d h').2)
  have h_row : sys.db.row i = some r := h_eq.symm.trans h_view
  refine rowMove_set (fun j o d h_ne h' => absurd (h_clean j o d h').1 h_ne) (.written h_held ?_) j
  rw [h_row] at h_own
  rw [show (sys.db.rows.cell i).committed = _ from h_row]
  exact h_owns h_own

/-- **What a statement does to a row.** One case for each rule: most leave the row as it is and
have only to say that the session owns it as before, and the writes are instances of the lemmas
above. -/
theorem Locking.rowMove {sys : System} (h : Locking sys) {tx : ℕ} {s s' : Session} {db : Db}
    (h_run : sys.activity tx = .running s) (h_exec : Exec tx sys.db s db s') (i : ℤ) :
    RowMove tx s s' i (sys.db.rows.cell i) (db.rows.cell i) := by
  cases h_exec with
  -- `contribute` holds nothing before its write
  | selectLive _ _ => exact .same (fun o d h' => by cases h')
  | selectTombstone _ _ => exact .same (fun o d h' => by cases h')
  | selectNone _ => exact .same (fun o d h' => by cases h')
  | clearFlags _ => exact .same (fun o d h' => by cases h')
  | clearFlagsDone => exact .same (fun o d h' => by cases h')
  | resurrectEval _ _ => exact .same (fun o d h' => by cases h')
  | resurrectWrite h_free h_row =>
    exact rowMove_write (fun j o d h' => by cases h') h_free h_row (.resurrect rfl) i
  | resurrectMiss _ => exact .same (fun o d h' => by cases h')
  | insertAllot => exact .same (fun o d h' => by cases h')
  | @insertWrite enc a id v _ _ =>
    obtain ⟨h_empty, -⟩ := h.allotted tx _ id h_run rfl
    exact rowMove_write (fun j o d h' => by cases h') (by rw [h_empty]; rfl)
      (show (sys.db.rows.cell id).committed = none by rw [h_empty]; rfl) (.insert rfl) i
  | insertConflict _ _ _ => exact .same (fun o d h' => by cases h')
  | reselectSome _ => exact .same (fun o d h' => by cases h')
  | reselectNone _ => exact .same (fun o d h' => by cases h')
  -- `report_hit` and `flag` lock the row first and write it last
  | hitMissing _ => exact .same (fun o d h' => by cases h')
  | hitDeleted h_free h_row h_deleted =>
    exact rowMove_acquire (fun j o d h' => by cases h') h_free h_row (.hitGone rfl h_deleted) i
  | hitLock h_free h_row h_live =>
    exact rowMove_acquire (fun j o d h' => by cases h') h_free h_row (.hitLock rfl h_live) i
  | insertHit =>
    refine .same (fun o d h' => ?_)
    cases h' with
    | hitLock h_target h_live => exact .hitInserted h_target h_live
  | @bumpHit enc a r h_view =>
    refine h.rowMove_held h_run rfl h_view (fun j o d h' => ?_) (fun h' => ?_) i
    · cases h' with
      | hitInserted h_target _ => exact ⟨h_target.symm, rfl⟩
    · cases h' with
      | hitInserted _ h_live => exact .hit rfl h_live rfl rfl
  | flagMissing _ => exact .same (fun o d h' => by cases h')
  | flagDeleted h_free h_row h_deleted =>
    exact rowMove_acquire (fun j o d h' => by cases h') h_free h_row (.flagGone rfl h_deleted) i
  | flagLock h_free h_row h_live =>
    exact rowMove_acquire (fun j o d h' => by cases h') h_free h_row (.flagLock rfl h_live rfl) i
  | insertFlag _ _ =>
    refine .same (fun o d h' => ?_)
    cases h' with
    | flagLock h_target h_live h_status => exact .flagInserted h_target h_live h_status
  | flagConflict _ _ =>
    refine .same (fun o d h' => ?_)
    cases h' with
    | flagLock h_target h_live h_status => exact .flagInserted h_target h_live h_status
  | count =>
    refine .same (fun o d h' => ?_)
    cases h' with
    | flagInserted h_target h_live h_status => exact .flagCounted h_target h_live h_status
  | @hide enc a n r h_threshold h_view =>
    refine h.rowMove_held h_run rfl h_view (fun j o d h' => ?_) (fun h' => ?_) i
    · cases h' with
      | flagCounted h_target _ _ => exact ⟨h_target.symm, rfl⟩
    · cases h' with
      | flagCounted _ _ h_status => exact .hide rfl h_status h_threshold rfl
  | @keep enc a status n r h_keep h_view =>
    refine h.rowMove_held h_run rfl h_view (fun j o d h' => ?_) (fun h' => ?_) i
    · cases h' with
      | flagCounted h_target _ _ => exact ⟨h_target.symm, rfl⟩
    · cases h' with
      | flagCounted _ h_live h_status => exact .keep rfl h_live h_status h_keep rfl
  -- `soft_delete` is one `UPDATE`
  | deleteEval _ _ _ => exact .same (fun o d h' => by cases h')
  | deleteWrite h_free h_row h_live =>
    exact rowMove_write (fun j o d h' => by cases h') h_free h_row (.delete h_live rfl) i
  | deleteMiss _ => exact .same (fun o d h' => by cases h')
  -- retention writes rows in its two sweeps only
  | refuse _ => exact .same (fun o d => Owns.retain False.elim False.elim)
  | accept _ => exact .same (fun o d => Owns.retain False.elim False.elim)
  | expireHits _ => exact .same (fun o d => Owns.retain False.elim False.elim)
  | expireHitsDone => exact .same (fun o d => Owns.retain False.elim False.elim)
  | clearReasons _ => exact .same (fun o d => Owns.retain False.elim False.elim)
  | clearReasonsDone => exact .same (fun o d => Owns.retain False.elim False.elim)
  | purge h_sweep =>
    refine h.rowMove_sweep h_run h_sweep i (fun o d => Owns.retain id False.elim)
      (fun o d r h' h_d => ?_) (fun o h' => by cases h') (fun r h_p => .purge trivial h_p)
    · cases h' with
      | purge _ _ => exact absurd h_d (by simp)
      | anonymize h_pc _ _ => exact h_pc.elim
  | purgeDone => exact .same (fun o d => Owns.retain id False.elim)
  | cascadeHits _ => exact .same (fun o d => Owns.retain id False.elim)
  | cascadeHitsDone => exact .same (fun o d => Owns.retain id False.elim)
  | cascadeFlags _ => exact .same (fun o d => Owns.retain id False.elim)
  | cascadeFlagsDone => exact .same (fun o d => Owns.retain id False.elim)
  | anonymize h_sweep =>
    refine h.rowMove_sweep h_run h_sweep i (fun o d => Owns.retain id id)
      (fun o d r h' h_d => ?_) (fun o h' => by cases h') (fun r h_p => .anonymize trivial h_p rfl)
    · cases h' with
      | purge _ _ => exact absurd h_d (by simp)
      | anonymize _ _ h_row =>
        -- nothing is left to clear
        obtain rfl := Option.some.inj h_d
        rw [h_row]
        simp [RetentionPolicy.anonymizes, anonymizeRow]
  | anonymizeDone => exact .same (fun o d => Owns.retain id id)

/-! ### The statements between them -/

/-- Nothing a statement does is committed by it. This is the first of the two lemmas. -/
theorem Locking.row_exec {sys : System} (h : Locking sys) {tx : ℕ} {s s' : Session} {db : Db}
    (h_run : sys.activity tx = .running s) (h_exec : Exec tx sys.db s db s') (i : ℤ) :
    db.row i = sys.db.row i :=
  (h.rowMove h_run h_exec i).committed

/-- Sequences only go up. -/
theorem Exec.sequences_le {tx : ℕ} {s s' : Session} {db db' : Db} (h : Exec tx db s db' s') :
    db.syncSeq ≤ db'.syncSeq ∧ db.lastId ≤ db'.lastId ∧ db.lastHitId ≤ db'.lastHitId := by
  cases h with
  | resurrectEval _ _ => exact ⟨Nat.le_succ _, le_rfl, le_rfl⟩
  | insertAllot => exact ⟨Nat.le_succ _, Int.le_add_one le_rfl, le_rfl⟩
  | insertHit => exact ⟨le_rfl, le_rfl, Int.le_add_one le_rfl⟩
  | hide _ _ => exact ⟨Nat.le_succ _, le_rfl, le_rfl⟩
  | deleteEval _ _ _ => exact ⟨Nat.le_succ _, le_rfl, le_rfl⟩
  | _ => exact ⟨le_rfl, le_rfl, le_rfl⟩

/-- An untouched row is touched only by the session that drew its id. All other statements lock
rows that are committed. -/
theorem Locking.empty_exec {sys : System} (h : Locking sys) {tx : ℕ} {s s' : Session} {db : Db}
    (h_run : sys.activity tx = .running s) (h_exec : Exec tx sys.db s db s') {id : ℤ}
    (h_empty : sys.db.rows.cell id = .empty) (h_other : s.allotted ≠ some id) :
    db.rows.cell id = .empty := by
  have h_move := h.rowMove h_run h_exec id
  rw [h_empty] at h_move
  generalize db.rows.cell id = c at h_move
  cases h_move with
  | same _ => rfl
  | taken _ h_owns =>
    change Owns s' id none _ at h_owns
    -- what is taken where nothing is, is taken by an insertion under its drawn id
    cases h_owns with
    | insert h_row =>
      cases h_exec with
      | insertWrite _ _ =>
        have h_id := congrArg Fingerprint.id h_row
        exact absurd (congrArg some h_id) h_other
  | written h_held _ =>
    obtain ⟨l, h_lock, -⟩ := h_held
    exact absurd h_lock (by simp [Cell.empty])

/-- After a statement, the session holds the lock its next statement relies on: it had it before,
or takes it here. -/
theorem Locking.holds_exec {sys : System} (h : Locking sys) {tx : ℕ} {s s' : Session} {db : Db}
    (h_run : sys.activity tx = .running s) (h_exec : Exec tx sys.db s db s') {i : ℤ}
    (h_target : s'.target = some i) : (db.rows.cell i).Held tx := by
  have h_set : ∀ (rows : Versioned ℤ Fingerprint) (j : ℤ) (c : Cell Fingerprint), j = i →
      c.Held tx → ((rows.set j c).cell i).Held tx := by
    rintro rows j c rfl h_c
    rw [Versioned.cell_set_self]
    exact h_c
  have h_write : ∀ (c : Cell Fingerprint) v, (c.write tx v).Held tx :=
    fun c v => ⟨_, c.lock_write tx v, rfl⟩
  have h_acquire : ∀ c : Cell Fingerprint, c.lock = none → (c.acquire tx).Held tx := by
    intro c h_free
    rw [Cell.acquire_of_lock_none h_free]
    exact ⟨_, rfl, rfl⟩
  -- a statement takes the lock it needs next, or keeps the one it has
  cases h_exec with
  | @resurrectWrite enc a j r v h_free h_row =>
    have h_id : r.id = j := h.keyed j r h_row
    exact h_set _ _ _ (h_id.symm.trans (Option.some.inj h_target)) (h_write _ _)
  | insertWrite _ _ => exact h_set _ _ _ (Option.some.inj h_target) (h_write _ _)
  | hitLock h_free _ _ => exact h_set _ _ _ (Option.some.inj h_target) (h_acquire _ h_free)
  | insertHit => exact h.holds tx _ i h_run h_target
  | bumpHit _ => exact h_set _ _ _ (Option.some.inj h_target) (h_write _ _)
  | flagLock h_free _ _ => exact h_set _ _ _ (Option.some.inj h_target) (h_acquire _ h_free)
  | insertFlag _ _ => exact h.holds tx _ i h_run h_target
  | flagConflict _ _ => exact h.holds tx _ i h_run h_target
  | count => exact h.holds tx _ i h_run h_target
  | hide _ _ => exact h_set _ _ _ (Option.some.inj h_target) (h_write _ _)
  | keep _ _ => exact h_set _ _ _ (Option.some.inj h_target) (h_write _ _)
  | deleteWrite _ _ _ => exact h_set _ _ _ (Option.some.inj h_target) (h_write _ _)
  | _ => exact absurd h_target (by simp [Session.target])

/-- A statement that draws an id draws the next one, beyond all rows. -/
theorem Exec.allotted_cases {tx : ℕ} {s s' : Session} {db db' : Db} (h : Exec tx db s db' s')
    {id : ℤ} (h_id : s'.allotted = some id) :
    db.lastId < id ∧ id ≤ db'.lastId ∧ db'.rows.cell id = db.rows.cell id := by
  cases h with
  | insertAllot =>
    obtain rfl := Option.some.inj h_id
    refine ⟨by omega, le_rfl, rfl⟩
  | _ => exact absurd h_id (by simp [Session.allotted])

/-! ### The invariant -/

/-- A database nobody is working on has the rows of its store. -/
theorem System.row_quiet (s : Store) (i : ℤ) : (System.quiet s).db.row i = s.row i := by
  show ((Versioned.ofTable s.fingerprints).cell i).committed = s.row i
  rw [Versioned.cell_ofTable]

/-- At the start nothing is locked. -/
theorem Locking.quiet {s : Store} (h_wf : s.Wf) : Locking (.quiet s) where
  fresh := by
    intro i h_lt
    change (Versioned.ofTable s.fingerprints).cell i = .empty
    rw [Versioned.cell_ofTable]
    cases h_row : s.row i with
    | none =>
      rw [show s.fingerprints.get? i = none from h_row]
      rfl
    | some r => exact absurd (h_wf.id_le i r h_row) (not_le.mpr h_lt)
  allotted := fun tx s' id h_run => absurd h_run (by simp [System.quiet])
  allotted_inj := fun tx tx' s' s'' id h_run => absurd h_run (by simp [System.quiet])
  owns := fun i => Versioned.ownedBy_ofTable s.fingerprints i _
  holds := fun tx s' i h_run => absurd h_run (by simp [System.quiet])
  keyed := by
    intro i r h_row
    rw [System.row_quiet] at h_row
    exact Store.id_of_row h_row

/-- A statement keeps the invariant. -/
theorem Locking.exec {sys : System} (h : Locking sys) {tx : ℕ} {s s' : Session} {db : Db}
    (h_run : sys.activity tx = .running s) (h_exec : Exec tx sys.db s db s') :
    Locking ⟨db, Function.update sys.activity tx (.running s')⟩ := by
  have h_move := h.rowMove h_run h_exec
  have h_le := h_exec.sequences_le
  have h_other : ∀ tx' s'' id, tx' ≠ tx → sys.activity tx' = .running s'' →
      s''.allotted = some id → s.allotted ≠ some id := by
    intro tx' s'' id h_tx h_run' h_id h_s
    exact h_tx (h.allotted_inj tx' tx s'' s id h_run' h_run h_id h_s)
  refine ⟨fun i h_lt => ?_, fun tx' s'' id h_run' h_id => ?_,
    fun tx₁ tx₂ s₁ s₂ id h₁ h₂ h_id₁ h_id₂ => ?_, fun i l h_lock => ?_,
    fun tx' s'' i h_run' h_t => ?_, fun i r h_row => ?_⟩
  · -- an id nobody has drawn yet is none of the session's
    have h_lt : sys.db.lastId < i := lt_of_le_of_lt h_le.2.1 h_lt
    refine h.empty_exec h_run h_exec (h.fresh i h_lt) (fun h_id => ?_)
    exact absurd (h.allotted tx s i h_run h_id).2 (not_le.mpr h_lt)
  · rcases running_update h_run' with ⟨rfl, h_eq⟩ | ⟨h_tx, h_run'⟩
    · obtain rfl := Activity.running.inj h_eq
      obtain ⟨h_lt, h_id_le, h_cell⟩ := h_exec.allotted_cases h_id
      exact ⟨h_cell.trans (h.fresh id h_lt), h_id_le⟩
    · obtain ⟨h_empty, h_id_le⟩ := h.allotted tx' s'' id h_run' h_id
      exact ⟨h.empty_exec h_run h_exec h_empty (h_other tx' s'' id h_tx h_run' h_id),
        h_id_le.trans h_le.2.1⟩
  · rcases running_update h₁ with ⟨rfl, h_eq₁⟩ | ⟨-, h_old₁⟩ <;>
      rcases running_update h₂ with ⟨rfl, h_eq₂⟩ | ⟨-, h_old₂⟩
    · rfl
    · -- an id just drawn is beyond those drawn before
      obtain rfl := Activity.running.inj h_eq₁
      have h_lt := (h_exec.allotted_cases h_id₁).1
      exact absurd (h.allotted tx₂ s₂ id h_old₂ h_id₂).2 (not_le.mpr h_lt)
    · obtain rfl := Activity.running.inj h_eq₂
      have h_lt := (h_exec.allotted_cases h_id₂).1
      exact absurd (h.allotted tx₁ s₁ id h_old₁ h_id₁).2 (not_le.mpr h_lt)
    · exact h.allotted_inj tx₁ tx₂ s₁ s₂ id h_old₁ h_old₂ h_id₁ h_id₂
  · exact OwnedBy.exec (h.owns i) h_run db (h_move i) (fun _ _ _ _ _ => id) l h_lock
  · rcases running_update h_run' with ⟨rfl, h_eq⟩ | ⟨h_tx, h_run'⟩
    · obtain rfl := Activity.running.inj h_eq
      exact h.holds_exec h_run h_exec h_t
    · -- a lock of another session stays where it is
      obtain ⟨l, h_lock, rfl⟩ := h.holds tx' s'' i h_run' h_t
      show (db.rows.cell i).Held l.holder
      rw [(h_move i).eq_of_ne h_lock h_tx]
      exact ⟨l, h_lock, rfl⟩
  · change (db.rows.cell i).committed = some r at h_row
    rw [(h_move i).committed] at h_row
    exact h.keyed i r h_row

/-- The end of a transaction releases its rows, with or without its drafts. -/
theorem rows_endOf (tx : ℕ) (call : Op) (db : Db) (i : ℤ) :
    (db.rows.cell i).Ends tx ((endOf tx call db).rows.cell i) := by
  unfold endOf
  split
  · exact db.rows.ends_rollback tx i
  · exact db.rows.ends_commit tx i

/-- So does an abort. -/
theorem rows_rollback (tx : ℕ) (db : Db) (i : ℤ) :
    (db.rows.cell i).Ends tx ((db.rollback tx).rows.cell i) :=
  db.rows.ends_rollback tx i

/-- The activity of a transaction that is not running any more. -/
def Activity.Over (a : Activity) : Prop := ∀ s, a ≠ .running s

/-- A step that ends a transaction keeps the locks of the others, and the session that held the
rest is over. -/
theorem Locking.ends {sys : System} (h : Locking sys) {tx : ℕ} {db : Db} {a : Activity}
    (h_over : a.Over) (h_rows : ∀ i, (sys.db.rows.cell i).Ends tx (db.rows.cell i))
    (h_last : db.lastId = sys.db.lastId) : Locking ⟨db, Function.update sys.activity tx a⟩ := by
  -- no session is new
  have h_sessions : ∀ tx' s', Function.update sys.activity tx a tx' = .running s' →
      tx' ≠ tx ∧ sys.activity tx' = .running s' :=
    fun tx' s' h_run' => (running_update h_run').resolve_left (fun h_new => h_over s' h_new.2)
  have h_empty : ∀ i, sys.db.rows.cell i = .empty → db.rows.cell i = .empty := by
    intro i h_i
    have h_ends := h_rows i
    rw [h_i] at h_ends
    exact h_ends.of_empty
  refine ⟨fun i h_lt => ?_, fun tx' s' id h_run' h_id => ?_,
    fun tx₁ tx₂ s₁ s₂ id h₁ h₂ h_id₁ h_id₂ => ?_, fun i l h_lock => ?_,
    fun tx' s' i h_run' h_t => ?_, fun i r h_row => ?_⟩
  · change db.lastId < i at h_lt
    rw [h_last] at h_lt
    exact h_empty i (h.fresh i h_lt)
  · obtain ⟨-, h_run'⟩ := h_sessions tx' s' h_run'
    obtain ⟨h_cell, h_le⟩ := h.allotted tx' s' id h_run' h_id
    refine ⟨h_empty id h_cell, ?_⟩
    change id ≤ db.lastId
    rw [h_last]
    exact h_le
  · obtain ⟨-, h_run₁⟩ := h_sessions tx₁ s₁ h₁
    obtain ⟨-, h_run₂⟩ := h_sessions tx₂ s₂ h₂
    exact h.allotted_inj tx₁ tx₂ s₁ s₂ id h_run₁ h_run₂ h_id₁ h_id₂
  · exact OwnedBy.ended (h.owns i) (h_rows i) db a (fun _ _ _ _ _ => id) l h_lock
  · obtain ⟨h_tx, h_run'⟩ := h_sessions tx' s' h_run'
    exact (h_rows i).held_of_ne h_tx (h.holds tx' s' i h_run' h_t)
  · change (db.rows.cell i).committed = some r at h_row
    rcases (h_rows i).committed with h_same | ⟨l, d, h_lock, h_holder, h_d, h_c⟩
    · rw [h_same] at h_row
      exact h.keyed i r h_row
    · -- what was committed is the draft that was owned
      obtain ⟨s', -, h_owns⟩ := h.owns i l h_lock
      rw [h_c] at h_row
      rw [h_d, h_row] at h_owns
      exact h_owns.id_eq (h.keyed i)

/-- **The invariant holds over every step**, of every mix of calls: by what the step is to the
transaction that takes it. -/
theorem Locking.step {allowed : Op → Prop} {sys sys' : System} (h : Locking sys)
    (h_step : Step allowed sys sys') : Locking sys' := by
  cases h_step with
  | @begin tx op h_idle h_allowed =>
    -- the new session holds nothing and has drawn nothing
    have h_sessions : ∀ tx' s', Function.update sys.activity tx (.running (.start op)) tx'
        = .running s' → s' = .start op ∨ sys.activity tx' = .running s' :=
      fun tx' s' h_run' => (running_update h_run').imp
        (fun h_new => (Activity.running.inj h_new.2).symm) And.right
    have h_target : (Session.start op).target = none := by cases op <;> rfl
    have h_allotted : (Session.start op).allotted = none := by cases op <;> rfl
    refine ⟨h.fresh, fun tx' s' id h_run' h_id => ?_,
      fun tx₁ tx₂ s₁ s₂ id h₁ h₂ h_id₁ h_id₂ => ?_, fun i l h_lock => ?_,
      fun tx' s' i h_run' h_t => ?_, h.keyed⟩
    · rcases h_sessions tx' s' h_run' with rfl | h_old
      · exact absurd (h_allotted.symm.trans h_id) (by simp)
      · exact h.allotted tx' s' id h_old h_id
    · rcases h_sessions tx₁ s₁ h₁ with rfl | h_old₁
      · exact absurd (h_allotted.symm.trans h_id₁) (by simp)
      · rcases h_sessions tx₂ s₂ h₂ with rfl | h_old₂
        · exact absurd (h_allotted.symm.trans h_id₂) (by simp)
        · exact h.allotted_inj tx₁ tx₂ s₁ s₂ id h_old₁ h_old₂ h_id₁ h_id₂
    · exact OwnedBy.begun (h.owns i) h_idle _ l h_lock
    · rcases h_sessions tx' s' h_run' with rfl | h_old
      · exact absurd (h_target.symm.trans h_t) (by simp)
      · exact h.holds tx' s' i h_old h_t
  | exec h_run h_exec => exact h.exec h_run h_exec
  | @commit tx op reply existing drawn h_run =>
    refine h.ends (fun s h_s => by simp at h_s) (rows_endOf tx op sys.db) ?_
    unfold endOf
    split <;> rfl
  | @abort tx s h_run =>
    exact h.ends (fun s h_s => by simp at h_s) (rows_rollback tx sys.db) rfl

/-- **The locks of every run** are what its sessions say. -/
theorem Locking.reaches {allowed : Op → Prop} {s : Store} (h_s : s.Reachable) {sys : System}
    (h : Reaches allowed s sys) : Locking sys := by
  induction h with
  | refl => exact Locking.quiet h_s.wf
  | tail _ h_step ih => exact ih.step h_step

/-- **Induction along a run** whose steps meet a condition, with its locks at hand. Every
invariant about concurrent calls is proved by this rule. -/
theorem ReachesBy.invariant {allowed : Op → Prop} {cond : System → System → Prop} {s : Store}
    (h_s : s.Reachable) {sys : System} (h : ReachesBy allowed cond s sys) (inv : System → Prop)
    (h_start : inv (.quiet s))
    (h_step : ∀ x y, Locking x → inv x → Step allowed x y → cond x y → inv y) : inv sys := by
  induction h with
  | refl => exact h_start
  | tail h_run h_st ih =>
    have h_lock := Locking.reaches h_s (ReachesBy.reaches h_run)
    exact h_step _ _ h_lock ih h_st.1 h_st.2

/-- **A row changes only by a commit**, to the draft the committing session owned. This is the
second of the two lemmas, and an invariant about rows follows from it by cases on `Owns`. -/
theorem Locking.row_step {allowed : Op → Prop} {sys sys' : System} (h : Locking sys)
    (h_step : Step allowed sys sys') (i : ℤ) :
    sys'.db.row i = sys.db.row i ∨
    ∃ tx op reply existing drawn d,
      sys.activity tx = .running ⟨op, .finish reply, existing, drawn⟩ ∧
      sys' = ⟨endOf tx op sys.db, Function.update sys.activity tx (.done op reply)⟩ ∧
      dryRuns op = false ∧ (sys.db.rows.cell i).lock = some ⟨tx, some d⟩ ∧
      Owns ⟨op, .finish reply, existing, drawn⟩ i (sys.db.row i) (some d) ∧ sys'.db.row i = d := by
  cases h_step with
  | begin _ _ => exact Or.inl rfl
  | exec h_run h_exec => exact Or.inl (h.row_exec h_run h_exec i)
  | @commit tx op reply existing drawn h_run =>
    cases h_dry : dryRuns op with
    | true =>
      -- a preview is rolled back
      refine Or.inl ?_
      show ((endOf tx op sys.db).rows.cell i).committed = _
      rw [endOf, h_dry, if_pos rfl]
      show ((sys.db.rows.rollback tx).cell i).committed = _
      rw [Versioned.committed_cell_rollback]
    | false =>
      rcases (rows_endOf tx op sys.db i).committed with h_same | ⟨l, d, h_lock, h_holder, h_d, h_c⟩
      · exact Or.inl h_same
      · obtain ⟨s', h_run', h_owns⟩ := h.owns i l h_lock
        rw [h_holder] at h_run'
        obtain rfl := Activity.running.inj (h_run.symm.trans h_run')
        rw [h_d] at h_owns
        have h_cell : (sys.db.rows.cell i).lock = some ⟨tx, some d⟩ := by
          rw [h_lock, ← h_holder, ← h_d]
        exact Or.inr ⟨tx, op, reply, existing, drawn, d, h_run, rfl, h_dry, h_cell, h_owns, h_c⟩
  | @abort tx s h_run =>
    refine Or.inl ?_
    show ((sys.db.rows.rollback tx).cell i).committed = _
    rw [Versioned.committed_cell_rollback]

/-! ### Reading by key -/

/-- A row of the committed store is a committed row. -/
theorem Locking.snapshot_row {sys : System} (h : Locking sys) (i : ℤ) :
    sys.db.snapshot.row i = sys.db.row i :=
  Versioned.get?_snapshot h.keyed i

/-- A `SELECT` by key finds a committed row with the key, -/
theorem Locking.row_of_findOwned {sys : System} (h : Locking sys) {key : String × ℤ}
    {r : Fingerprint} (h_found : sys.db.snapshot.findOwned key = some r) :
    sys.db.row r.id = some r ∧ r.owned = key := by
  obtain ⟨h_row, h_key⟩ := Store.row_of_findOwned h_found
  exact ⟨(h.snapshot_row r.id).symm.trans h_row, h_key⟩

/-- or there is none. -/
theorem Locking.owned_ne_of_findOwned {sys : System} (h : Locking sys) {key : String × ℤ}
    (h_found : sys.db.snapshot.findOwned key = none) {i : ℤ} {r : Fingerprint}
    (h_row : sys.db.row i = some r) : r.owned ≠ key :=
  Store.owned_ne_of_findOwned h_found ((h.snapshot_row i).trans h_row)

/-! ### Steps of others -/

/-- A row that a transaction holds is left alone by the others: they neither write it nor commit a
change of it. -/
theorem Locking.row_other {sys sys' : System} (h : Locking sys) {tx tx' : ℕ}
    (h_acts : Acts tx' sys sys') (h_ne : tx' ≠ tx) {i : ℤ} (h_held : (sys.db.rows.cell i).Held tx) :
    sys'.db.rows.cell i = sys.db.rows.cell i := by
  have h_not : ¬ (sys.db.rows.cell i).Held tx' := fun h' => h_ne (h'.unique h_held)
  obtain ⟨l, h_lock, rfl⟩ := h_held
  cases h_acts with
  | begin h_db => rw [h_db]
  | exec h_run h_exec =>
    exact (h.rowMove h_run h_exec i).eq_of_ne h_lock (fun h_eq => h_ne h_eq.symm)
  | commit _ _ h_db => rw [h_db]; exact (rows_endOf _ _ _ i).same h_not
  | abort h_db => rw [h_db]; exact (rows_rollback _ _ i).same h_not

end Concurrent
end FingerprintHub
