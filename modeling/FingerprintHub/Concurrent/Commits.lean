import FingerprintHub.Concurrent.Drafts
import FingerprintHub.Library.Linearizable

/-!
# A commit is a call made by itself

`Contents` is what the tables hold, key by key, whatever the order of their rows.
`Atomically` is the sequential specification: a call of `Operations.lean` on a store with
the contents, which draws from the sequences values that are not in use. Nothing more is
said of the values, since calls that run at the same time draw from the same sequences.

A transaction that has written reads, in the end, what its call makes of what is
committed (`Orderly.commit`), and a transaction that has not has read a reply its call
would give (`Orderly.decide`).
-/

namespace FingerprintHub

/-- What the tables hold, by key. Two stores with the same contents answer every read alike, in
whatever order their rows were written. -/
@[ext] structure Contents where
  row : ℤ → Option Fingerprint
  hit : ℤ → Option Hit
  flag : ℤ × ℤ → Option Flag

namespace Store

/-- The contents of a store. -/
def contents (s : Store) : Contents := ⟨s.row, s.hits.get?, s.flags.get?⟩

/-- The next value of each sequence is in no row, so that a call may draw it. -/
structure Unused (s : Store) : Prop where
  id : s.row (s.lastId + 1) = none
  hitId : s.hits.get? (s.lastHitId + 1) = none
  syncSeq : ∀ i r, s.row i = some r → r.syncSeq ≠ s.syncSeq + 1

end Store

/-- What a call returns on a store. -/
def Op.reply (s : Store) : Op → Concurrent.Reply
  | .contribute enc a => .contribute (s.contribute enc a).1
  | .reportHit enc a => .reportHit (s.reportHit enc a).1
  | .flag enc a => .flag (s.flag enc a).1
  | .softDelete id nowMs => .softDelete (s.softDelete id nowMs).1
  | .applyRetention p nowMs dryRun => .applyRetention (s.applyRetention p nowMs dryRun).1

namespace Concurrent

/-- A call made by itself, on some store with the contents `c`. The store may differ from the
database in what its sequences draw next, and in that alone. -/
def Atomically (call : Op) (reply : Reply) (c c' : Contents) : Prop :=
  ∃ s : Store, s.contents = c ∧ s.Unused ∧ call.reply s = reply ∧ (call.apply s).contents = c'

namespace Db

variable (db : Db)

/-- What is committed, by key. -/
def contents : Contents where
  row i := (db.rows.cell i).committed
  hit k := (db.hits.cell k).committed
  flag k := (db.flags.cell k).committed

/-- What a transaction reads, by key. -/
def seen (tx : ℕ) : Contents where
  row i := (db.rows.cell i).view tx
  hit k := (db.hits.cell k).view tx
  flag k := (db.flags.cell k).view tx

/-- What a transaction commits is what it reads: what is committed, with its own drafts in it. -/
theorem contents_commit (tx : ℕ) : (db.commit tx).contents = db.seen tx := by
  ext k : 2
  · show ((db.rows.commit tx).cell k).committed = _
    rw [Versioned.cell_commit, Cell.committed_commit]
    rfl
  · show ((db.hits.commit tx).cell k).committed = _
    rw [Versioned.cell_commit, Cell.committed_commit]
    rfl
  · show ((db.flags.commit tx).cell k).committed = _
    rw [Versioned.cell_commit, Cell.committed_commit]
    rfl

/-- A transaction that rolls back changes nothing. -/
theorem contents_rollback (tx : ℕ) : (db.rollback tx).contents = db.contents := by
  ext k : 2
  · exact Versioned.committed_cell_rollback _ _ _
  · exact Versioned.committed_cell_rollback _ _ _
  · exact Versioned.committed_cell_rollback _ _ _

end Db

/-! ### Calls that change nothing -/

/-- The duplicate answer: no row is written when the first row with the key is live. -/
theorem contribute_readsOnly (enc : EncryptText) (a : ContributeArgs) (id : ℤ) (status : Status) :
    ReadsOnly Atomically (.contribute enc a)
      (.contribute (some (.existing id status), false)) := by
  rintro c c' ⟨s, h_c, -, h_reply, h_c'⟩
  have h_result := Reply.contribute.inj h_reply
  rcases s.contribute_cases enc a with ⟨r, -, -, h⟩ | ⟨r, -, -, h⟩ | ⟨-, h⟩
  · rw [Op.apply, h] at h_c'
    exact h_c'.symm.trans h_c
  · rw [h] at h_result
    exact absurd h_result (by simp)
  · rw [h] at h_result
    exact absurd h_result (by simp)

/-- A hit of a row that is gone. -/
theorem reportHit_readsOnly (enc : EncryptText) (a : HitArgs) :
    ReadsOnly Atomically (.reportHit enc a) (.reportHit none) := by
  rintro c c' ⟨s, h_c, -, h_reply, h_c'⟩
  have h_result := Reply.reportHit.inj h_reply
  rcases s.reportHit_cases enc a with ⟨-, h⟩ | ⟨r, -, -, h⟩
  · rw [Op.apply, h] at h_c'
    exact h_c'.symm.trans h_c
  · rw [h] at h_result
    exact absurd h_result (by simp)

/-- A flag of a row that is gone. -/
theorem flag_readsOnly (enc : EncryptText) (a : FlagArgs) :
    ReadsOnly Atomically (.flag enc a) (.flag none) := by
  rintro c c' ⟨s, h_c, -, h_reply, h_c'⟩
  have h_result := Reply.flag.inj h_reply
  rcases s.flag_cases enc a with ⟨-, h⟩ | ⟨r, -, -, -, h⟩ | ⟨r, -, -, -, h⟩
  · rw [Op.apply, h] at h_c'
    exact h_c'.symm.trans h_c
  · rw [h] at h_result
    exact absurd h_result (by simp)
  · rw [h] at h_result
    exact absurd h_result (by simp)

/-- A deletion of a row that is gone. -/
theorem softDelete_readsOnly (id nowMs : ℤ) :
    ReadsOnly Atomically (.softDelete id nowMs) (.softDelete false) := by
  rintro c c' ⟨s, h_c, -, h_reply, h_c'⟩
  have h_result := Reply.softDelete.inj h_reply
  rcases s.softDelete_cases id nowMs with ⟨-, h⟩ | ⟨r, -, -, h⟩
  · rw [Op.apply, h] at h_c'
    exact h_c'.symm.trans h_c
  · rw [h] at h_result
    exact absurd h_result (by simp)

/-! ### What is committed, as a store -/

/-- A state of a run in which contributions are exclusive and undisturbed: the locks on all
tables, rows and flags in agreement, the order of the drawn values, truthful answers, and what is
about to be committed. -/
structure Orderly (sys : System) : Prop where
  lock : Locking sys
  tidy : Tidy sys
  flags : FlagLocks sys
  hits : HitLocks sys
  seq : Sequenced sys
  answers : Answers sys
  drafted : Drafted sys

section Committed

variable {sys : System}

/-- A store with what is committed has its rows, -/
theorem row_of_contents {s : Store} (h : s.contents = sys.db.contents) (i : ℤ) :
    s.row i = sys.db.row i :=
  congrFun (congrArg Contents.row h) i

/-- its hits, -/
theorem hit_of_contents {s : Store} (h : s.contents = sys.db.contents) (k : ℤ) :
    s.hits.get? k = (sys.db.hits.cell k).committed :=
  congrFun (congrArg Contents.hit h) k

/-- and its flags. -/
theorem flag_of_contents {s : Store} (h : s.contents = sys.db.contents) (k : ℤ × ℤ) :
    s.flags.get? k = (sys.db.flags.cell k).committed :=
  congrFun (congrArg Contents.flag h) k

/-- The values a call draws: they are in no committed row. Others may have drawn beyond them in
the meantime. -/
structure Db.Drawable (db : Db) (v : ℕ) (id hitId : ℤ) : Prop where
  pos : 0 < v
  syncSeq : ∀ i r, db.row i = some r → r.syncSeq ≠ v
  id : db.row id = none
  hitId : (db.hits.cell hitId).committed = none

/-- The next values are drawable, -/
theorem Orderly.drawable (h : Orderly sys) :
    sys.db.Drawable (sys.db.syncSeq + 1) (sys.db.lastId + 1) (sys.db.lastHitId + 1) where
  pos := Nat.succ_pos _
  syncSeq := fun i r h_row => Nat.ne_of_lt (Nat.lt_succ_of_le (h.seq.committed_le i r h_row))
  id := congrArg Cell.committed (h.lock.fresh _ (Int.lt_succ _))
  hitId := congrArg Cell.committed (h.hits.fresh _ (Int.lt_succ _))

/-- and so is a value that has been drawn and not committed. -/
theorem Orderly.drawable_drawn (h : Orderly sys) {tx : ℕ} {s : Session} {v : ℕ}
    (h_run : sys.activity tx = .running s) (h_v : s.drawn = some v) {id : ℤ}
    (h_id : sys.db.row id = none) : sys.db.Drawable v id (sys.db.lastHitId + 1) where
  pos := h.drafted.drawn_pos tx s v h_run h_v
  syncSeq := fun i r h_row => h.seq.drawn_ne tx s v i r h_run h_v h_row
  id := h_id
  hitId := h.drawable.hitId

/-- A call may find what is committed, and draw what is drawable. The store is built from the
committed tables with other sequences. -/
theorem Orderly.store (h : Orderly sys) {v : ℕ} {id hitId : ℤ}
    (h_draw : sys.db.Drawable v id hitId) (flagId : ℤ) :
    ∃ s : Store, s.contents = sys.db.contents ∧ s.Unused ∧ s.syncSeq + 1 = v ∧
      s.lastId + 1 = id ∧ s.lastHitId + 1 = hitId ∧ s.lastFlagId + 1 = flagId := by
  have h_c : Store.contents { sys.db.snapshot with
      syncSeq := v - 1, lastId := id - 1, lastHitId := hitId - 1, lastFlagId := flagId - 1 } =
      sys.db.contents := by
    ext k : 2
    · exact h.lock.snapshot_row k
    · exact Versioned.get?_snapshot h.drafted.hitKeyed k
    · exact Versioned.get?_snapshot h.flags.keyed k
  have h_v : v - 1 + 1 = v := Nat.sub_add_cancel h_draw.pos
  refine ⟨_, h_c, ⟨?_, ?_, fun i r h_row => ?_⟩, h_v, sub_add_cancel id 1,
    sub_add_cancel hitId 1, sub_add_cancel flagId 1⟩
  · rw [sub_add_cancel]
    exact (row_of_contents h_c id).trans h_draw.id
  · rw [sub_add_cancel]
    exact (hit_of_contents h_c hitId).trans h_draw.hitId
  · rw [h_v]
    exact h_draw.syncSeq i r ((row_of_contents h_c i).symm.trans h_row)

/-- A row that has the key of a version is that version's: keys are unique, also among rows that
are about to be committed. -/
theorem Orderly.id_of_owned (h : Orderly sys) {i j : ℤ} {r r' : Fingerprint}
    (h_r : (sys.db.rows.cell i).Version r) (h_row : sys.db.row j = some r')
    (h_key : r'.owned = r.owned) : j = i :=
  h.drafted.keys j i r' r (Or.inl h_row) h_r h_key

end Committed

/-! ### What a transaction reads -/

section Seen

variable {sys : System} {tx : ℕ} {s : Session}

/-- A row it has written, -/
theorem seen_row_of_lock {i : ℤ} {d : Option Fingerprint}
    (h_l : (sys.db.rows.cell i).lock = some ⟨tx, some d⟩) : (sys.db.seen tx).row i = d :=
  Cell.view_of_lock h_l rfl

/-- one it does not hold, -/
theorem Orderly.seen_row (h : Orderly sys) (h_run : sys.activity tx = .running s) {i : ℤ}
    (h_not : ∀ o d, ¬ Owns s i o d) : (sys.db.seen tx).row i = sys.db.row i := by
  refine Cell.view_of_not_held (fun h_held => ?_)
  obtain ⟨l, -, -, h_owns⟩ := h.lock.owns_of_held h_run h_held
  exact h_not _ _ h_owns

/-- a flag, -/
theorem Orderly.seen_flag (h : Orderly sys) (h_run : sys.activity tx = .running s) {k : ℤ × ℤ}
    (h_not : ∀ o d, ¬ OwnsFlag s k o d) :
    (sys.db.seen tx).flag k = (sys.db.flags.cell k).committed := by
  refine Cell.view_of_not_held ?_
  rintro ⟨l, h_l, h_holder⟩
  exact h_not _ _ (h.flags.owns_of_lock h_run h_l h_holder)

/-- a hit. -/
theorem Orderly.seen_hit (h : Orderly sys) (h_run : sys.activity tx = .running s)
    (h_not : ∀ enc a pc, s ≠ ⟨.reportHit enc a, pc, none, none⟩) (k : ℤ) :
    (sys.db.seen tx).hit k = (sys.db.hits.cell k).committed := by
  refine Cell.view_of_not_held (fun h_held => ?_)
  obtain ⟨enc, a, pc, h_eq, -⟩ := h.hits.owns_of_held h_run h_held
  exact h_not enc a pc h_eq

end Seen

/-! ### Commits -/

section Commits

variable {sys : System} {tx : ℕ}

/-- An insertion is a contribution that finds no row with its key: the row that will have it is
not committed. -/
theorem Orderly.commit_insert (h : Orderly sys) {enc : EncryptText} {a : ContributeArgs}
    {i : ℤ} {v : ℕ}
    (h_run : sys.activity tx = .running ⟨.contribute enc a,
      .finish (.contribute (some (.written (freshRow enc a i v)), true)), none, some v⟩)
    (h_row : sys.db.row i = none)
    (h_l : (sys.db.rows.cell i).lock = some ⟨tx, some (some (freshRow enc a i v))⟩) :
    Atomically (.contribute enc a) (.contribute (some (.written (freshRow enc a i v)), true))
      sys.db.contents (sys.db.seen tx) := by
  obtain ⟨s, h_c, h_unused, rfl, rfl, -, -⟩ := h.store (h.drawable_drawn h_run rfl h_row) 0
  have h_version : (sys.db.rows.cell (s.lastId + 1)).Version
      (freshRow enc a (s.lastId + 1) (s.syncSeq + 1)) := Or.inr ⟨_, h_l, rfl⟩
  -- no committed row has the key: it would be this one, which is not committed
  have h_free : ∀ r, s.findOwned a.owned ≠ some r := by
    intro r h_found
    obtain ⟨h_r, h_key⟩ := Store.row_of_findOwned h_found
    rw [row_of_contents h_c] at h_r
    have h_id := h.id_of_owned h_version h_r h_key
    rw [h_id, h_row] at h_r
    exact absurd h_r (by simp)
  refine ⟨s, h_c, h_unused, ?_⟩
  rcases s.contribute_cases enc a with ⟨r, h_found, -, -⟩ | ⟨r, h_found, -, -⟩ | ⟨-, h_eq⟩
  · exact absurd h_found (h_free r)
  · exact absurd h_found (h_free r)
  refine ⟨congrArg Reply.contribute (congrArg Prod.fst h_eq), ?_⟩
  rw [Op.apply, h_eq]
  ext k : 2
  · -- the row at the drawn id, and all others
    refine (Store.row_inserted enc a h_unused.id k).trans ?_
    by_cases h_k : s.lastId + 1 = k
    · subst h_k
      rw [seen_row_of_lock h_l, if_pos rfl]
    · rw [if_neg h_k, row_of_contents h_c, h.seen_row h_run]
      intro o d h_owns
      cases h_owns with
      | insert h_eq' => exact h_k (congrArg Fingerprint.id h_eq')
  · -- the hits, and then the flags, are those there were
    rw [h.seen_hit h_run (fun _ _ _ h_s => by cases h_s)]
    exact hit_of_contents h_c k
  · rw [h.seen_flag h_run (fun o d h_owns => by cases h_owns)]
    exact flag_of_contents h_c k

/-- A resurrection is a contribution that finds the tombstone, clears its flags and rewrites it.
`Tidy` says that the tombstone is still there and that all its flags are cleared. -/
theorem Orderly.commit_resurrect (h : Orderly sys) {enc : EncryptText} {a : ContributeArgs}
    {i : ℤ} {v : ℕ} {r : Fingerprint}
    (h_run : sys.activity tx = .running ⟨.contribute enc a,
      .finish (.contribute (some (.written (resurrectRow enc a v r)), true)), some i, some v⟩)
    (h_row : sys.db.row i = some r)
    (h_l : (sys.db.rows.cell i).lock = some ⟨tx, some (some (resurrectRow enc a v r))⟩) :
    Atomically (.contribute enc a)
      (.contribute (some (.written (resurrectRow enc a v r)), true))
      sys.db.contents (sys.db.seen tx) := by
  obtain ⟨s, h_c, h_unused, rfl, -, -, -⟩ := h.store (h.drawable_drawn h_run rfl h.drawable.id) 0
  have h_owned : r.owned = a.owned := (h.answers.expects tx enc a _ _ _ h_run).owned
  obtain ⟨r₀, h_r₀, h_deleted⟩ := h.tidy.tombstone tx enc a _ i _ h_run
  obtain rfl := Option.some.inj (h_row.symm.trans h_r₀)
  -- the row found by the key is the tombstone
  have h_found : ∀ r', s.findOwned a.owned = some r' → r' = r := by
    intro r' h_found
    obtain ⟨h_r', h_key⟩ := Store.row_of_findOwned h_found
    rw [row_of_contents h_c] at h_r'
    have h_id := h.id_of_owned (Or.inl h_row) h_r' (h_key.trans h_owned.symm)
    rw [h_id, h_row] at h_r'
    exact (Option.some.inj h_r').symm
  obtain rfl : r.id = i := h.lock.keyed i r h_row
  refine ⟨s, h_c, h_unused, ?_⟩
  rcases s.contribute_cases enc a with
    ⟨r', h_r', h_live, -⟩ | ⟨r', h_r', -, h_eq⟩ | ⟨h_none, -⟩
  · exact absurd (h_found r' h_r' ▸ h_deleted) h_live
  · obtain rfl := h_found r' h_r'
    refine ⟨congrArg Reply.contribute (congrArg Prod.fst h_eq), ?_⟩
    rw [Op.apply, h_eq]
    ext k : 2
    · -- the rows: the tombstone is rewritten
      refine (Store.row_updateRow r'.id _ _ k).trans ?_
      rw [Store.row_nextSeq, Store.row_deleteFlags, Store.row_nextSeq, Store.row_deleteFlags]
      by_cases h_k : k = r'.id
      · subst h_k
        rw [seen_row_of_lock h_l, if_pos rfl, row_of_contents h_c, h_row]
        rfl
      · rw [if_neg h_k, row_of_contents h_c, h.seen_row h_run]
        intro o d h_owns
        cases h_owns with
        | resurrect _ => exact h_k rfl
    · rw [h.seen_hit h_run (fun _ _ _ h_s => by cases h_s)]
      exact hit_of_contents h_c k
    · obtain ⟨i, c⟩ := k
      show (s.flags.delete _).get? (i, c) = _
      rw [Table.get?_delete, flag_of_contents h_c]
      by_cases h_i : i = r'.id
      · -- every flag of the tombstone is cleared
        subst h_i
        refine Eq.trans ?_ (h.tidy.view_resurrected h.flags h_run c).symm
        refine Option.filter_eq_none_iff.mpr (fun f h_f => ?_)
        have h_key : f.fingerprintId = r'.id := congrArg Prod.fst (h.flags.keyed _ f h_f)
        simpa using h_key
      · rw [h.seen_flag h_run]
        · cases h_f : (sys.db.flags.cell (i, c)).committed with
          | none => rfl
          | some f =>
            have h_key : f.fingerprintId = i := congrArg Prod.fst (h.flags.keyed _ f h_f)
            exact Option.filter_eq_some_iff.mpr ⟨rfl, by simpa [h_key] using h_i⟩
        · intro o d h_owns
          cases h_owns with
          | clear _ => exact h_i rfl
  · exact absurd h_owned (Store.owned_ne_of_findOwned h_none
      ((row_of_contents h_c r.id).trans h_row))

/-- A hit is one row in `fingerprint_hits` and one more in `hit_count`, on the version the
transaction has locked. -/
theorem Orderly.commit_hit (h : Orderly sys) {enc : EncryptText} {a : HitArgs} {r : Fingerprint}
    (h_run : sys.activity tx = .running
      ⟨.reportHit enc a, .finish (.reportHit (some (r.hitCount + 1))), none, none⟩)
    (h_row : sys.db.row a.fingerprintId = some r) (h_live : r.Live)
    (h_l : (sys.db.rows.cell a.fingerprintId).lock = some ⟨tx, some (some (hitRow a.nowMs r))⟩) :
    Atomically (.reportHit enc a) (.reportHit (some (r.hitCount + 1))) sys.db.contents
      (sys.db.seen tx) := by
  obtain ⟨k, h_cell, h_one⟩ := h.drafted.hit tx enc a _ h_run trivial
  have h_draw : sys.db.Drawable (sys.db.syncSeq + 1) (sys.db.lastId + 1) k :=
    { h.drawable with hitId := congrArg Cell.committed h_cell }
  obtain ⟨s, h_c, h_unused, -, -, rfl, -⟩ := h.store h_draw 0
  refine ⟨s, h_c, h_unused, ?_⟩
  rcases s.reportHit_cases enc a with ⟨h_gone, -⟩ | ⟨r', h_r', -, h_eq⟩
  · exact absurd (h_gone r ((row_of_contents h_c _).trans h_row)) h_live
  rw [row_of_contents h_c, h_row] at h_r'
  obtain rfl := Option.some.inj h_r'
  refine ⟨congrArg Reply.reportHit (congrArg Prod.fst h_eq), ?_⟩
  rw [Op.apply, h_eq]
  ext k : 2
  · -- the row that is hit
    refine (Store.row_updateRow a.fingerprintId _ _ k).trans ?_
    rw [Store.row_recordHit, Store.row_recordHit]
    by_cases h_k : k = a.fingerprintId
    · subst h_k
      rw [seen_row_of_lock h_l, if_pos rfl, row_of_contents h_c, h_row]
      rfl
    · rw [if_neg h_k, row_of_contents h_c, h.seen_row h_run]
      intro o d h_owns
      cases h_owns with
      | hit h_target _ _ _ => exact h_k h_target.symm
  · -- the hit, under the id the transaction has drawn
    show (s.hits.insert (a.hit enc (s.lastHitId + 1))).get? k = (sys.db.hits.cell k).view tx
    rw [Table.get?_insert_of_none h_unused.hitId]
    by_cases h_k : s.lastHitId + 1 = k
    · subst h_k
      rw [h_cell]
      exact (if_pos rfl).trans (Cell.view_write (c := .empty) _).symm
    · rw [Cell.view_of_not_held (fun h_held => h_k (h_one k h_held).symm), ← hit_of_contents h_c]
      exact if_neg h_k
  · rw [h.seen_flag h_run (fun o d h_owns => by cases h_owns)]
    exact flag_of_contents h_c k

/-- A deletion rewrites the row it has found live. -/
theorem Orderly.commit_delete (h : Orderly sys) {id nowMs : ℤ} {v : ℕ} {r : Fingerprint}
    (h_run : sys.activity tx = .running
      ⟨.softDelete id nowMs, .finish (.softDelete true), none, some v⟩)
    (h_row : sys.db.row id = some r) (h_live : r.Live)
    (h_l : (sys.db.rows.cell id).lock = some ⟨tx, some (some (deleteRow v nowMs r))⟩) :
    Atomically (.softDelete id nowMs) (.softDelete true) sys.db.contents (sys.db.seen tx) := by
  obtain ⟨s, h_c, h_unused, rfl, -, -, -⟩ := h.store (h.drawable_drawn h_run rfl h.drawable.id) 0
  refine ⟨s, h_c, h_unused, ?_⟩
  -- the call finds the row live as well
  rcases s.softDelete_cases id nowMs with ⟨h_gone, -⟩ | ⟨r', -, -, h_eq⟩
  · exact absurd (h_gone r ((row_of_contents h_c _).trans h_row)) h_live
  refine ⟨congrArg Reply.softDelete (congrArg Prod.fst h_eq), ?_⟩
  rw [Op.apply, h_eq]
  ext k : 2
  · refine (Store.row_updateRow id _ _ k).trans ?_
    rw [Store.row_nextSeq, Store.row_nextSeq]
    -- the row is the one the transaction has written, and the others are as committed
    by_cases h_k : k = id
    · subst h_k
      rw [seen_row_of_lock h_l, if_pos rfl, row_of_contents h_c, h_row]
      rfl
    · rw [if_neg h_k, row_of_contents h_c, h.seen_row h_run]
      intro o d h_owns
      cases h_owns with
      | delete _ _ => exact h_k rfl
  · rw [h.seen_hit h_run (fun _ _ _ h_s => by cases h_s)]
    exact hit_of_contents h_c k
  · rw [h.seen_flag h_run (fun o d h_owns => by cases h_owns)]
    exact flag_of_contents h_c k

/-- The flag table after a flag is what the transaction reads: with its own flag, or with the one
in its place. The id of a flag that is in place already is drawn and in no row. -/
theorem Orderly.flags_recorded (h : Orderly sys) {enc : EncryptText} {a : FlagArgs} {pc : Pc}
    {drawn : Option ℕ} (h_run : sys.activity tx = .running ⟨.flag enc a, pc, none, drawn⟩)
    (h_pc : pc.AfterInsert) :
    ∃ flagId, ∀ s : Store, s.contents = sys.db.contents → s.lastFlagId + 1 = flagId →
      ∀ k, (s.recordFlag enc a).flags.get? k = (sys.db.seen tx).flag k := by
  have h_other : ∀ k, k ≠ (a.fingerprintId, a.consumerId) →
      (sys.db.seen tx).flag k = (sys.db.flags.cell k).committed := by
    intro k h_k
    refine h.seen_flag h_run (fun o d h_owns => ?_)
    cases h_owns with
    | insert h_target _ _ => exact h_k h_target.symm
  have h_insert : ∀ (s : Store) k, (s.recordFlag enc a).flags.get? k =
      if (a.fingerprintId, a.consumerId) = k ∧ s.flags.get? k = none
      then some (a.flag enc (s.lastFlagId + 1)) else s.flags.get? k :=
    fun s k => Table.get?_insert s.flags (a.flag enc (s.lastFlagId + 1)) k
  -- its flag is among its writes, or one was in place
  rcases h.drafted.flag tx enc a pc drawn h_run h_pc with ⟨id, h_cell⟩ | ⟨⟨f, h_f⟩, h_not⟩
  · refine ⟨id, fun s h_c h_id k => ?_⟩
    rw [h_insert, flag_of_contents h_c]
    by_cases h_k : (a.fingerprintId, a.consumerId) = k
    · subst h_k
      have h_seen : (sys.db.seen tx).flag (a.fingerprintId, a.consumerId) =
          some (a.flag enc id) := by
        show (sys.db.flags.cell _).view tx = _
        rw [h_cell]
        exact Cell.view_write (c := .empty) _
      rw [h_seen, if_pos ⟨rfl, congrArg Cell.committed h_cell⟩, h_id]
    · rw [if_neg (fun h_and => h_k h_and.1), h_other k (fun h_eq => h_k h_eq.symm)]
  · refine ⟨0, fun s h_c _ k => ?_⟩
    rw [h_insert, flag_of_contents h_c]
    by_cases h_k : k = (a.fingerprintId, a.consumerId)
    · subst h_k
      rw [if_neg (fun h_and => absurd (h_and.2.symm.trans h_f) (by simp))]
      exact (Cell.view_of_not_held h_not).symm
    · rw [if_neg (fun h_and => h_k h_and.1.symm), h_other k h_k]

/-- What a flag counted is what its call counts, since both read the same flags. -/
theorem Orderly.flagCountAfter_eq (h : Orderly sys) {enc : EncryptText} {a : FlagArgs} {pc : Pc}
    {drawn : Option ℕ} {n : ℕ}
    (h_run : sys.activity tx = .running ⟨.flag enc a, pc, none, drawn⟩) (h_n : pc.counted = some n)
    {s : Store} (h_flags : ∀ k, (s.recordFlag enc a).flags.get? k = (sys.db.seen tx).flag k) :
    s.flagCountAfter enc a = n := by
  rw [h.tidy.counted tx enc a pc drawn n h_run h_n]
  refine (Store.countFlaggers_eq_ncard _ _).trans (congrArg Set.ncard (Set.ext fun c => ?_))
  show (∃ f, _ = some f) ↔ ∃ f, _ = some f
  rw [h_flags]
  rfl

/-- A flag that hides: the call finds the row active and counts to the threshold. -/
theorem Orderly.commit_hide (h : Orderly sys) {enc : EncryptText} {a : FlagArgs} {n v : ℕ}
    {r : Fingerprint}
    (h_run : sys.activity tx = .running
      ⟨.flag enc a, .finish (.flag (some ⟨n, .hidden, true⟩)), none, some v⟩)
    (h_row : sys.db.row a.fingerprintId = some r) (h_active : r.status = .active)
    (h_threshold : a.autoHideThreshold ≤ n)
    (h_l : (sys.db.rows.cell a.fingerprintId).lock =
      some ⟨tx, some (some (hideRow n v a.nowMs r))⟩) :
    Atomically (.flag enc a) (.flag (some ⟨n, .hidden, true⟩)) sys.db.contents
      (sys.db.seen tx) := by
  obtain ⟨flagId, h_flags⟩ := h.flags_recorded h_run trivial
  obtain ⟨s, h_c, h_unused, rfl, -, -, h_flagId⟩ :=
    h.store (h.drawable_drawn h_run rfl h.drawable.id) flagId
  have h_flags := h_flags s h_c h_flagId
  have h_n : s.flagCountAfter enc a = n := h.flagCountAfter_eq h_run rfl h_flags
  have h_live : r.Live := fun h_deleted => Status.noConfusion (h_active.symm.trans h_deleted)
  refine ⟨s, h_c, h_unused, ?_⟩
  -- with the same count the call comes to the same decision
  rcases s.flag_cases enc a with ⟨h_gone, -⟩ | ⟨r', -, -, -, h_eq⟩ | ⟨r', h_r', -, h_keep, -⟩
  · exact absurd (h_gone r ((row_of_contents h_c _).trans h_row)) h_live
  · rw [h_n] at h_eq
    refine ⟨congrArg Reply.flag (congrArg Prod.fst h_eq), ?_⟩
    rw [Op.apply, h_eq]
    ext k : 2
    · refine (Store.row_updateRow a.fingerprintId _ _ k).trans ?_
      rw [Store.row_nextSeq, Store.row_recordFlag, Store.row_nextSeq, Store.row_recordFlag]
      -- the row is hidden in both, and the others are as committed
      by_cases h_k : k = a.fingerprintId
      · subst h_k
        rw [seen_row_of_lock h_l, if_pos rfl, row_of_contents h_c, h_row]
        rfl
      · rw [if_neg h_k, row_of_contents h_c, h.seen_row h_run]
        intro o d h_owns
        cases h_owns with
        | hide h_target _ _ _ => exact h_k h_target.symm
    · rw [h.seen_hit h_run (fun _ _ _ h_s => by cases h_s)]
      exact hit_of_contents h_c k
    · exact h_flags k
  · rw [row_of_contents h_c, h_row] at h_r'
    obtain rfl := Option.some.inj h_r'
    exact absurd ⟨h_n ▸ h_threshold, h_active⟩ h_keep

/-- A flag that only counts, on a row that is hidden or short of the threshold. -/
theorem Orderly.commit_keep (h : Orderly sys) {enc : EncryptText} {a : FlagArgs} {n : ℕ}
    {r : Fingerprint} {status : Status}
    (h_run : sys.activity tx = .running
      ⟨.flag enc a, .finish (.flag (some ⟨n, status, false⟩)), none, none⟩)
    (h_row : sys.db.row a.fingerprintId = some r) (h_live : r.Live) (h_status : r.status = status)
    (h_keep : ¬ (a.autoHideThreshold ≤ n ∧ status = .active))
    (h_l : (sys.db.rows.cell a.fingerprintId).lock =
      some ⟨tx, some (some (countFlagRow n a.nowMs r))⟩) :
    Atomically (.flag enc a) (.flag (some ⟨n, status, false⟩)) sys.db.contents
      (sys.db.seen tx) := by
  obtain ⟨flagId, h_flags⟩ := h.flags_recorded h_run trivial
  obtain ⟨s, h_c, h_unused, -, -, -, h_flagId⟩ := h.store h.drawable flagId
  have h_flags := h_flags s h_c h_flagId
  have h_n : s.flagCountAfter enc a = n := h.flagCountAfter_eq h_run rfl h_flags
  have h_row_s : s.row a.fingerprintId = some r := (row_of_contents h_c _).trans h_row
  refine ⟨s, h_c, h_unused, ?_⟩
  -- with the same count the call comes to the same decision
  rcases s.flag_cases enc a with
    ⟨h_gone, -⟩ | ⟨r', h_r', h_active, h_threshold, -⟩ | ⟨r', h_r', -, -, h_eq⟩
  · exact absurd (h_gone r h_row_s) h_live
  · obtain rfl := Option.some.inj (h_row_s.symm.trans h_r')
    exact absurd ⟨h_n ▸ h_threshold, h_status.symm.trans h_active⟩ h_keep
  · obtain rfl := Option.some.inj (h_row_s.symm.trans h_r')
    rw [h_n, h_status] at h_eq
    refine ⟨congrArg Reply.flag (congrArg Prod.fst h_eq), ?_⟩
    rw [Op.apply, h_eq]
    ext k : 2
    · refine (Store.row_updateRow a.fingerprintId _ _ k).trans ?_
      rw [Store.row_recordFlag, Store.row_recordFlag]
      -- the row has the count in both, and the others are as committed
      by_cases h_k : k = a.fingerprintId
      · subst h_k
        rw [seen_row_of_lock h_l, if_pos rfl, h_row_s]
        rfl
      · rw [if_neg h_k, row_of_contents h_c, h.seen_row h_run]
        intro o d h_owns
        cases h_owns with
        | keep h_target _ _ _ _ => exact h_k h_target.symm
    · rw [h.seen_hit h_run (fun _ _ _ h_s => by cases h_s)]
      exact hit_of_contents h_c k
    · exact h_flags k

end Commits

end Concurrent
end FingerprintHub
