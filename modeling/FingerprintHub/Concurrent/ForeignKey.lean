import FingerprintHub.Concurrent.Cascade
import FingerprintHub.Concurrent.Resurrect

/-!
# The foreign key of the flags

`fingerprint_flags.fingerprint_id` references `fingerprints`, and a purge cascades. The
cascade is a statement of its own, and the tables are locked row by row, so that no flag
ever outlives its fingerprint takes an argument.

`ForeignKey.cascaded` says that the cascade leaves nothing out: once it is done, the
transaction sees no flag of a fingerprint it is purging. Nobody adds one in the meantime,
because `flag` inserts under the lock of the fingerprint, and the purge has that lock.

A contribution that reads a tombstone takes no lock on it, so the row may be gone when it
comes to rewrite it. `Used` says that an id that has been read is nobody's new id: a row
that is gone stays gone. By the foreign key its flags are gone as well, so whoever
commits that flags were cleared also commits the row they were cleared for
(`ForeignKey.resurrects`).
-/

namespace FingerprintHub
namespace Concurrent

variable {allowed : Op → Prop} {sys sys' : System} {tx : ℕ} {c c' : Session} {db : Db} {i : ℤ}

/-! ### Ids that have been used -/

/-- An id that has been used: it is nobody's new id, and if its row is gone, nobody is writing it.
The identity column never gives it again, so that this is for ever. -/
structure Used (sys : System) (i : ℤ) : Prop where
  le : i ≤ sys.db.lastId
  allotted : ∀ tx c, sys.activity tx = .running c → c.allotted ≠ some i
  gone : sys.db.row i = none → sys.db.rows.cell i = .empty

/-- The id of a committed row has been used: it was drawn before the row was written. -/
theorem Locking.used (h_lock : Locking sys) {r : Fingerprint} (h_row : sys.db.row i = some r) :
    Used sys i where
  le := by
    by_contra h_lt
    have h_empty := h_lock.fresh i (not_le.mp h_lt)
    unfold Db.row at h_row
    rw [h_empty] at h_row
    exact absurd h_row (by simp [Cell.empty])
  allotted := by
    intro tx c h_run h_id
    have h_empty := (h_lock.allotted tx c i h_run h_id).1
    unfold Db.row at h_row
    rw [h_empty] at h_row
    exact absurd h_row (by simp [Cell.empty])
  gone := fun h_none => absurd (h_none.symm.trans h_row) (by simp)

/-- A statement leaves it used, -/
theorem Used.exec (h : Used sys i) (h_lock : Locking sys) (h_run : sys.activity tx = .running c)
    (h_exec : Exec tx sys.db c db c') :
    Used ⟨db, Function.update sys.activity tx (.running c')⟩ i where
  le := h.le.trans h_exec.sequences_le.2.1
  allotted := by
    intro tx' c'' h_run' h_id
    rcases running_update h_run' with ⟨rfl, h_eq⟩ | ⟨-, h_run'⟩
    · -- an id that is drawn is a new one
      obtain rfl := Activity.running.inj h_eq
      exact absurd h.le (not_le.mpr (h_exec.allotted_cases h_id).1)
    · exact h.allotted tx' c'' h_run' h_id
  gone := by
    intro h_none
    have h_empty := h.gone ((h_lock.row_exec h_run h_exec i).symm.trans h_none)
    exact h_lock.empty_exec h_run h_exec h_empty (h.allotted tx c h_run)

/-- and so does the end of a transaction, -/
theorem Used.ends (h : Used sys i) {a : Activity} (h_over : a.Over)
    (h_rows : ∀ i, (sys.db.rows.cell i).Ends tx (db.rows.cell i))
    (h_last : db.lastId = sys.db.lastId) : Used ⟨db, Function.update sys.activity tx a⟩ i where
  le := h_last ▸ h.le
  allotted := by
    intro tx' c h_run
    rcases running_update h_run with ⟨-, h_eq⟩ | ⟨-, h_run⟩
    · exact absurd h_eq (h_over c)
    · exact h.allotted tx' c h_run
  gone := by
    intro h_none
    change (db.rows.cell i).committed = none at h_none
    -- what the transaction deleted is free of locks after the commit
    by_cases h_held : (sys.db.rows.cell i).Held tx
    · have h_free := (h_rows i).lock_none h_held
      show db.rows.cell i = .empty
      generalize db.rows.cell i = cell at h_none h_free
      obtain ⟨committed, lock⟩ := cell
      obtain rfl := h_none
      obtain rfl := h_free
      rfl
    · have h_same := (h_rows i).same h_held
      rw [h_same] at h_none
      exact h_same.trans (h.gone h_none)

/-- and therefore every step. -/
theorem Used.step (h : Used sys i) (h_lock : Locking sys) (h_step : Step allowed sys sys') :
    Used sys' i := by
  cases h_step with
  | @begin tx op h_idle h_op =>
    refine ⟨h.le, fun tx' c h_run h_id => ?_, h.gone⟩
    rcases running_update h_run with ⟨-, h_eq⟩ | ⟨-, h_run⟩
    · obtain rfl := Activity.running.inj h_eq
      exact absurd h_id (by cases op <;> simp [Session.start, Session.allotted])
    · exact h.allotted tx' c h_run h_id
  | exec h_run h_exec => exact h.exec h_lock h_run h_exec
  | @commit tx op reply existing drawn h_run =>
    refine h.ends (fun s h_s => by simp at h_s) (rows_endOf tx op sys.db) ?_
    unfold endOf
    split <;> rfl
  | @abort tx s h_run =>
    exact h.ends (fun s h_s => by simp at h_s) (rows_rollback tx sys.db) rfl

/-- **A row that is gone stays gone.** Only an insertion fills an id, and it takes one that was
never used. -/
theorem Used.row_none (h : Used sys i) (h_lock : Locking sys) (h_step : Step allowed sys sys')
    (h_none : sys.db.row i = none) : sys'.db.row i = none := by
  rcases h_lock.row_step h_step i with
    h_same | ⟨tx, op, reply, existing, drawn, d, -, -, -, h_cell, -, -⟩
  · exact h_same.trans h_none
  · rw [h.gone h_none] at h_cell
    exact absurd h_cell (by simp [Cell.empty])

/-- What `contribute` has read as a tombstone has been used. -/
def Seen (sys : System) : Prop :=
  ∀ tx c i, sys.activity tx = .running c → c.existing = some i → Used sys i

/-- At the start nobody has read anything. -/
theorem Seen.quiet (s : Store) : Seen (.quiet s) :=
  fun _ _ _ h_run => Activity.noConfusion h_run

/-- What is read is committed, and so its id has been used. -/
theorem Seen.step (h : Seen sys) (h_lock : Locking sys) (h_step : Step allowed sys sys') :
    Seen sys' := by
  intro tx c' i h_run' h_existing
  refine Used.step ?_ h_lock h_step
  have h_moves := h_step.moves tx
  generalize h_a : sys.activity tx = act at h_moves
  generalize sys'.activity tx = act' at h_moves h_run'
  cases h_moves with
  | other _ _ => exact h tx c' i (h_a.trans h_run') h_existing
  | @begin op _ _ =>
    obtain rfl := Activity.running.inj h_run'
    exact absurd h_existing (by simp)
  | exec h_exec =>
    obtain rfl := Activity.running.inj h_run'
    rcases h_exec.existing_cases with h_same | ⟨enc, a, r, -, h_s', h_found, -⟩
    · exact h tx _ i h_a (h_same.symm.trans h_existing)
    · -- it has just read it
      rw [h_s'] at h_existing
      obtain rfl := Option.some.inj h_existing
      exact h_lock.used (h_lock.row_of_findOwned h_found).1
  | commit _ => exact Activity.noConfusion h_run'
  | abort _ => exact Activity.noConfusion h_run'

/-- A contribution that has read a tombstone and is done has rewritten it, or the row is gone.
This is `Tidy.holds` for runs with retention, where the tombstone may be purged. -/
def Rewritten (sys : System) : Prop :=
  ∀ tx enc a reply i drawn,
    sys.activity tx = .running ⟨.contribute enc a, .finish reply, some i, drawn⟩ →
    sys.db.row i = none ∨ (sys.db.rows.cell i).Held tx

/-- At the start nobody is done. -/
theorem Rewritten.quiet (s : Store) : Rewritten (.quiet s) :=
  fun _ _ _ _ _ _ h_run => Activity.noConfusion h_run

/-- By what the step is to the contribution. -/
theorem Rewritten.step (h : Rewritten sys) (h_lock : Locking sys) (h_seen : Seen sys)
    (h_step : Step allowed sys sys') : Rewritten sys' := by
  intro tx enc a reply i drawn h_run'
  have h_moves := h_step.moves tx
  generalize h_a : sys.activity tx = act at h_moves
  generalize sys'.activity tx = act' at h_moves h_run'
  cases h_moves with
  -- a row that is gone stays gone, and one that is locked stays locked
  | other h_ne h_acts =>
    refine (h tx enc a reply i drawn (h_a.trans h_run')).imp ?_ ?_
    · exact (h_seen tx _ i (h_a.trans h_run') rfl).row_none h_lock h_step
    · intro h_held
      rw [h_lock.row_other h_acts h_ne h_held]
      exact h_held
  | @begin op _ _ =>
    have h_s := congrArg Session.existing (Activity.running.inj h_run')
    exact absurd h_s (by simp)
  | exec h_exec =>
    obtain rfl := Activity.running.inj h_run'
    generalize sys'.db = db at h_exec
    cases h_exec with
    -- the write itself takes the lock
    | resurrectWrite h_free h_row =>
      refine Or.inr ?_
      show (Versioned.cell (Versioned.set _ _ _) _).Held tx
      rw [Versioned.cell_set_self]
      exact ⟨_, Cell.lock_write _ _ _, rfl⟩
    | resurrectMiss h_none => exact Or.inl h_none
  | commit _ => exact Activity.noConfusion h_run'
  | abort _ => exact Activity.noConfusion h_run'

/-! ### The cascade -/

/-- The cascade has still to visit the flag: it has not begun, or the flag is on its list. -/
def Pc.Spared (k : ℤ × ℤ) : Pc → Prop
  | .anonymize _ _ | .finish _ => False
  | .cascadeFlags (some todo) _ _ => k ∈ todo
  | _ => True

/-- Fingerprints and flags disappear together. `flagRow` is the constraint of the schema, and
`cascaded` what keeps it when a purge commits. -/
structure ForeignKey (sys : System) : Prop where
  /-- The cascade deletes every flag of what is purged. -/
  cascaded : ∀ tx c k, sys.activity tx = .running c → sys.db.Purging tx k.1 →
    c.pc.Spared k ∨ (sys.db.flags.cell k).view tx = none
  /-- A flag has its fingerprint. -/
  flagRow : ∀ k f, (sys.db.flags.cell k).committed = some f → ∃ r, sys.db.row k.1 = some r

/-- At the start nothing is purged, and a reachable store has the constraint. -/
theorem ForeignKey.quiet {s : Store} (h_s : s.Reachable) : ForeignKey (.quiet s) where
  cascaded := fun _ _ _ h_run => Activity.noConfusion h_run
  flagRow := fun k f h_f => (Tidy.quiet h_s).flagRow k.1 k.2 f h_f

/-- **A flag appears** only under the lock of its fingerprint, which is live. It is the one way in
which `flagRow` could be lost beside a purge. -/
theorem FlagCells.appears (h : FlagCells sys) (h_lock : Locking sys) (h_purges : Purges sys)
    (h_step : Step allowed sys sys') {k : ℤ × ℤ} {f : Flag}
    (h_none : (sys.db.flags.cell k).committed = none)
    (h_some : (sys'.db.flags.cell k).committed = some f) :
    ∃ tx enc a pc drawn, sys.activity tx = .running ⟨.flag enc a, pc, none, drawn⟩ ∧
      (sys.db.rows.cell k.1).Held tx ∧ ∃ r, sys.db.row k.1 = some r := by
  rcases h.flag_step h_lock h_purges h_step k with
    h_same | ⟨tx, op, reply, existing, drawn, d, h_run, -, -, h_sheds, h_d⟩
  · exact absurd (h_none.symm.trans (h_same.symm.trans h_some)) (by simp)
  · rw [h_none, ← h_d, h_some] at h_sheds
    cases h_sheds with
    | own h_owns =>
      cases h_owns with
      -- only an insertion makes a flag appear, and it has its fingerprint locked
      | insert h_target h_key h_pc =>
        obtain ⟨h_held, r, h_row, -⟩ := h_lock.live_of_insert h_run h_pc
        rw [← h_target]
        exact ⟨tx, _, _, _, _, h_run, h_held, r, h_row⟩

/-- Whoever purges a fingerprint keeps flags away from it: it holds the lock that an insertion
needs. -/
theorem FlagCells.none_of_purging (h : FlagCells sys) (h_lock : Locking sys)
    (h_purges : Purges sys) (h_step : Step allowed sys sys') {k : ℤ × ℤ}
    (h_purging : sys.db.Purging tx k.1) (h_none : (sys.db.flags.cell k).committed = none) :
    (sys'.db.flags.cell k).committed = none := by
  cases h_some : (sys'.db.flags.cell k).committed with
  | none => rfl
  | some f =>
    obtain ⟨tx', enc, a, pc, drawn, h_run, h_held, -⟩ :=
      h.appears h_lock h_purges h_step h_none h_some
    obtain ⟨p, nowMs, dryRun, pc', r, h_run', -⟩ := h_lock.purging h_purging
    obtain rfl := h_held.unique ⟨_, h_purging, rfl⟩
    exact absurd (Activity.running.inj (h_run.symm.trans h_run')) (by simp)

/-- **The cascade leaves nothing out**, statement by statement. The sweep lists the flags it sees
when it starts, and those are all: none comes while the purge has the fingerprint. -/
theorem ForeignKey.cascaded_exec (h : ForeignKey sys) (h_lock : Locking sys)
    (h_purges : Purges sys) (h_flags : FlagCells sys) (h_run : sys.activity tx = .running c)
    (h_exec : Exec tx sys.db c db c') {k : ℤ × ℤ} (h_purging : db.Purging tx k.1)
    (h_pc : ∃ p nowMs dryRun pc, c' = ⟨.applyRetention p nowMs dryRun, pc, none, none⟩ ∧
      pc.AfterPurge) :
    c'.pc.Spared k ∨ (db.flags.cell k).view tx = none := by
  obtain ⟨p, nowMs, dryRun, pc, rfl, h_pc⟩ := h_pc
  have h_old := h.cascaded tx c k h_run
  cases h_exec with
  | refuse _ =>
    -- nothing is purged before the guards
    obtain ⟨p', nowMs', dryRun', pc', r, h_run', h_pc', -⟩ := h_lock.purging h_purging
    obtain h_eq := Activity.running.inj (h_run.symm.trans h_run')
    injection h_eq with _ h_pc_eq
    rw [← h_pc_eq] at h_pc'
    exact h_pc'.elim
  | accept _ => exact h_pc.elim
  | expireHits _ => exact h_pc.elim
  | expireHitsDone => exact h_pc.elim
  | clearReasons _ => exact h_pc.elim
  | clearReasonsDone => exact Or.inl trivial
  | purge _ => exact Or.inl trivial
  | purgeDone => exact Or.inl trivial
  | cascadeHits _ => exact Or.inl trivial
  | cascadeHitsDone => exact Or.inl trivial
  | @cascadeFlags _ _ _ n todo flags todo' gone acted h_sweep =>
    refine h_sweep.deletes (fun f h_view => ?_) ((h_old h_purging).imp_left ?_)
    · have h_mem := (h_purges tx _ gone h_run rfl k.1).mpr h_purging
      rw [← h_flags.view_keyed h_view] at h_mem
      exact decide_eq_true h_mem
    · rintro h_spared l rfl
      exact h_spared
  | cascadeFlagsDone => exact Or.inr ((h_old h_purging).resolve_left (fun h_mem => by cases h_mem))
  | anonymize h_sweep =>
    have h_before : sys.db.Purging tx k.1 := by
      rcases h_sweep.touch k.1 with h_same | ⟨r, -, -, -, h_cell⟩
      · exact (congrArg Cell.lock h_same).symm.trans h_purging
      · -- what is anonymised is not deleted
        change (Versioned.cell _ _).lock = _ at h_purging
        rw [h_cell] at h_purging
        exact absurd h_purging (by simp)
    exact Or.inr ((h_old h_before).resolve_left id)
  | anonymizeDone => exact Or.inr ((h_old h_purging).resolve_left id)

/-- The clause `cascaded`, by what the step is to the transaction that purges. -/
theorem ForeignKey.step_cascaded (h : ForeignKey sys) (h_lock : Locking sys)
    (h_purges : Purges sys) (h_flags : FlagCells sys) (h_step : Step allowed sys sys') (tx : ℕ)
    (c : Session) (k : ℤ × ℤ) (h_run : sys'.activity tx = .running c)
    (h_purging : sys'.db.Purging tx k.1) :
    c.pc.Spared k ∨ (sys'.db.flags.cell k).view tx = none := by
  obtain ⟨p, nowMs, dryRun, pc, r, h_run', h_pc, -⟩ := (h_lock.step h_step).purging h_purging
  obtain rfl := Activity.running.inj (h_run.symm.trans h_run')
  have h_moves := h_step.moves tx
  generalize h_a : sys.activity tx = act at h_moves
  generalize sys'.activity tx = act' at h_moves h_run'
  cases h_moves with
  | @other _ tx' h_ne h_acts =>
    have h_before := (h_lock.purging_other h_acts h_ne).mp h_purging
    refine (h.cascaded tx _ k (h_a.trans h_run') h_before).imp_right (fun h_view => ?_)
    -- a flag it has deleted is under its lock; another one it saw gone, and it stays gone
    by_cases h_held : (sys.db.flags.cell k).Held tx
    · rw [h_flags.flag_other h_lock h_purges h_acts h_ne h_held]
      exact h_view
    · have h_none := (Cell.view_of_not_held h_held).symm.trans h_view
      have h_none' := h_flags.none_of_purging h_lock h_purges h_step h_before h_none
      cases h_acts with
      | begin h_db => rw [h_db]; exact h_view
      | exec h_run₀ h_exec =>
        have h_move := h_flags.move h_lock h_purges h_run₀ h_exec k
        exact (h_move.view_of_ne (fun h_eq => h_ne h_eq.symm)).trans h_view
      | commit _ _ h_db =>
        rw [h_db] at h_none' ⊢
        exact ((flags_endOf _ _ _ k).view_of_not_held h_held).trans h_none'
      | abort h_db =>
        rw [h_db] at h_none' ⊢
        exact ((flags_rollback _ _ k).view_of_not_held h_held).trans h_none'
  | begin _ h_db =>
    rw [h_db] at h_purging
    obtain ⟨p', nowMs', dryRun', pc', r', h_run₀, -⟩ := h_lock.purging h_purging
    exact Activity.noConfusion (h_a.symm.trans h_run₀)
  | exec h_exec =>
    obtain rfl := Activity.running.inj h_run'
    exact h.cascaded_exec h_lock h_purges h_flags h_a h_exec h_purging
      ⟨p, nowMs, dryRun, pc, rfl, h_pc⟩
  | commit _ => exact Activity.noConfusion h_run'
  | abort _ => exact Activity.noConfusion h_run'

/-- The clause `flagRow`: a row goes when its purge commits, and the flags it had are then deleted
by the same transaction. -/
theorem ForeignKey.step_flagRow (h : ForeignKey sys) (h_lock : Locking sys)
    (h_purges : Purges sys) (h_flags : FlagCells sys) (h_step : Step allowed sys sys') (k : ℤ × ℤ)
    (f : Flag) (h_f : (sys'.db.flags.cell k).committed = some f) :
    ∃ r, sys'.db.row k.1 = some r := by
  -- the fingerprint was there before the step
  have h_before : ∃ r, sys.db.row k.1 = some r := by
    cases h_o : (sys.db.flags.cell k).committed with
    | some f₀ => exact h.flagRow k f₀ h_o
    | none =>
      obtain ⟨tx, enc, a, pc, drawn, h_run, h_held, h_row⟩ :=
        h_flags.appears h_lock h_purges h_step h_o h_f
      exact h_row
  obtain ⟨r, h_row⟩ := h_before
  rcases h_lock.row_step h_step k.1 with
    h_same | ⟨tx, op, reply, existing, drawn, d, h_run, h_eq, h_dry, h_cell, -, h_d⟩
  · exact ⟨r, h_same.trans h_row⟩
  · cases d with
    | some r' => exact ⟨r', h_d⟩
    | none =>
      -- a purge takes the flags along
      exfalso
      have h_view := (h.cascaded tx _ k h_run h_cell).resolve_left id
      rw [h_eq, endOf, h_dry] at h_f
      change ((sys.db.flags.commit tx).cell k).committed = some f at h_f
      rw [Versioned.cell_commit, Cell.committed_commit, h_view] at h_f
      exact absurd h_f (by simp)

/-- **The foreign key holds over every step**, whatever runs beside a purge. -/
theorem ForeignKey.step (h : ForeignKey sys) (h_lock : Locking sys) (h_purges : Purges sys)
    (h_flags : FlagCells sys) (h_step : Step allowed sys sys') : ForeignKey sys' where
  cascaded := h.step_cascaded h_lock h_purges h_flags h_step
  flagRow := h.step_flagRow h_lock h_purges h_flags h_step

/-! ### Every run -/

/-- The invariants of runs with retention: who holds which row, hit and flag, the keys of the
purges, the foreign key, and what contributions have read. -/
structure Cascades (sys : System) : Prop where
  locks : Locking sys
  purges : Purges sys
  hits : HitCells sys
  flags : FlagCells sys
  key : ForeignKey sys
  seen : Seen sys
  rewritten : Rewritten sys

/-- They hold in every run of any calls. -/
theorem Cascades.reaches {s : Store} (h_s : s.Reachable) (h : Reaches allowed s sys) :
    Cascades sys := by
  induction h with
  | refl =>
    exact ⟨.quiet h_s.wf, .quiet s, .quiet h_s.wf, .quiet s, .quiet h_s, .quiet s, .quiet s⟩
  | tail h_run h_step ih =>
    have h_lock := ih.locks
    exact ⟨h_lock.step h_step, ih.purges.step h_lock h_step, ih.hits.step h_lock ih.purges h_step,
      ih.flags.step h_lock ih.purges h_step, ih.key.step h_lock ih.purges ih.flags h_step,
      ih.seen.step h_lock h_step, ih.rewritten.step h_lock ih.seen h_step⟩

/-- **Whoever has cleared a flag has a row to show for it**: the tombstone is still there,
and the contribution has rewritten it. -/
theorem Cascades.resurrects (h : Cascades sys) {enc : EncryptText} {a : ContributeArgs}
    {reply : Reply} {drawn : Option ℕ}
    (h_run : sys.activity tx = .running ⟨.contribute enc a, .finish reply, some i, drawn⟩)
    {consumer : ℤ} {f : Flag} (h_f : (sys.db.flags.cell (i, consumer)).committed = some f) :
    ∃ r v, sys.db.row i = some r ∧
      reply = .contribute (some (.written (resurrectRow enc a v r)), true) ∧
      (sys.db.rows.cell i).lock = some ⟨tx, some (some (resurrectRow enc a v r))⟩ := by
  obtain ⟨r, h_row⟩ := h.key.flagRow (i, consumer) f h_f
  change sys.db.row i = some r at h_row
  -- the flag proves the row there, so that the session has rewritten it
  have h_held : (sys.db.rows.cell i).Held tx :=
    (h.rewritten tx enc a reply i drawn h_run).resolve_left (fun h_none =>
      absurd (h_none.symm.trans h_row) (by simp))
  obtain ⟨⟨holder, draft⟩, h_l, rfl, h_owns⟩ := h.locks.owns_of_held h_run h_held
  rw [h_row] at h_owns
  change Owns _ i (some r) draft at h_owns
  cases h_owns with
  | @resurrect _ _ _ _ row v h_eq =>
    obtain rfl := h_eq
    exact ⟨r, v, h_row, rfl, h_l⟩

end Concurrent
end FingerprintHub
