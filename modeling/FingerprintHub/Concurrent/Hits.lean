import FingerprintHub.Concurrent.Flags

/-!
# Hits under locks

`report_hit` inserts a hit row under a fresh id, while it holds the lock on the
fingerprint. `HitLocks` says that every lock on a hit row is held so, apart from
retention, which is left out here. A hit is therefore recorded only for a live row
(`HitLocks.hit_kept`).
-/

namespace FingerprintHub
namespace Concurrent

/-- The statements of `report_hit` after its `INSERT`. -/
def Pc.AfterHit : Pc → Prop
  | .bumpHit | .finish (.reportHit (some _)) => True
  | _ => False

/-- What a session holds on a hit row: a hit it has inserted, for the fingerprint of its
arguments. -/
inductive OwnsHit : Session → Option Hit → Option (Option Hit) → Prop
  | insert {enc : EncryptText} {a : HitArgs} {pc : Pc} {hit : Hit}
      (h_target : hit.fingerprintId = a.fingerprintId) (h_pc : pc.AfterHit) :
      OwnsHit ⟨.reportHit enc a, pc, none, none⟩ none (some (some hit))

/-- The locks on the hit rows are what the sessions say they are, and a hit is written where no
row has been. -/
structure HitLocks (sys : System) : Prop where
  calls : ∀ tx s, sys.activity tx = .running s → NoRetention s.call
  /-- A row beyond the identity column has never been touched. -/
  fresh : ∀ k, sys.db.lastHitId < k → sys.db.hits.cell k = .empty
  owns : ∀ k, (sys.db.hits.cell k).OwnedBy (sys.Owner OwnsHit)

/-- **What a statement does to a hit row.** Without retention only the `INSERT` of `report_hit`
writes one. -/
theorem HitLocks.move {sys : System} (h : HitLocks sys) {tx : ℕ} {s s' : Session} {db : Db}
    (h_run : sys.activity tx = .running s) (h_exec : Exec tx sys.db s db s') (k : ℤ) :
    (sys.db.hits.cell k).Move (OwnsHit s) (OwnsHit s') tx (db.hits.cell k) := by
  have h_call := h.calls tx s h_run
  cases h_exec with
  | @insertHit enc a =>
    by_cases h_k : k = sys.db.lastHitId + 1
    · subst h_k
      -- an id beyond the identity column was never touched
      have h_empty := h.fresh (sys.db.lastHitId + 1) (Int.lt_succ _)
      change Cell.Move _ _ tx _ (Versioned.cell (Versioned.set _ _ _) _)
      rw [Versioned.cell_set_self, h_empty]
      exact .taken rfl (.insert rfl trivial)
    · change Cell.Move _ _ tx _ (Versioned.cell (Versioned.set _ _ _) _)
      rw [Versioned.cell_set_of_ne _ h_k]
      exact .same (fun o d h' => by cases h' with | insert _ h_pc => exact h_pc.elim)
  | bumpHit _ =>
    refine .same (fun o d h' => ?_)
    cases h' with
    | insert h_target _ => exact .insert h_target trivial
  | hitMissing _ => exact .same (fun o d h' => by cases h' with | insert _ h_pc => exact h_pc.elim)
  | hitDeleted _ _ _ =>
    exact .same (fun o d h' => by cases h' with | insert _ h_pc => exact h_pc.elim)
  | hitLock _ _ _ =>
    exact .same (fun o d h' => by cases h' with | insert _ h_pc => exact h_pc.elim)
  | _ => first | exact absurd h_call id | exact .same (fun o d h' => by cases h')

/-! ### The invariant -/

/-- The end of a transaction releases its hit rows. -/
theorem hits_endOf (tx : ℕ) (call : Op) (db : Db) (k : ℤ) :
    (db.hits.cell k).Ends tx ((endOf tx call db).hits.cell k) := by
  unfold endOf
  split
  · exact db.hits.ends_rollback tx k
  · exact db.hits.ends_commit tx k

/-- So does an abort. -/
theorem hits_rollback (tx : ℕ) (db : Db) (k : ℤ) :
    (db.hits.cell k).Ends tx ((db.rollback tx).hits.cell k) :=
  db.hits.ends_rollback tx k

/-- At the start no hit is locked. -/
theorem HitLocks.quiet {s : Store} (h_wf : s.Wf) : HitLocks (.quiet s) where
  calls := fun tx s h_run => Activity.noConfusion h_run
  fresh := by
    intro k h_lt
    change (Versioned.ofTable s.hits).cell k = .empty
    rw [Versioned.cell_ofTable]
    cases h_hit : s.hits.get? k with
    | none => rfl
    | some hit => exact absurd (h_wf.hit_le k hit h_hit) (not_le.mpr h_lt)
  owns := fun k => Versioned.ownedBy_ofTable s.hits k _

/-- A step that ends a transaction keeps the locks of the others. -/
theorem HitLocks.ends {sys : System} (h : HitLocks sys) {tx : ℕ} {db : Db} {a : Activity}
    (h_calls : ∀ tx' s, Function.update sys.activity tx a tx' = .running s → NoRetention s.call)
    (h_hits : ∀ k, (sys.db.hits.cell k).Ends tx (db.hits.cell k))
    (h_last : db.lastHitId = sys.db.lastHitId) :
    HitLocks ⟨db, Function.update sys.activity tx a⟩ := by
  refine ⟨h_calls, fun k h_lt => ?_, fun k => OwnedBy.ended (h.owns k) (h_hits k) db a
    (fun _ _ _ _ _ => id)⟩
  change db.lastHitId < k at h_lt
  rw [h_last] at h_lt
  have h_empty := h.fresh k h_lt
  have h_ends := h_hits k
  rw [h_empty] at h_ends
  exact h_ends.of_empty

/-- Every step keeps the locks on the hit rows. -/
theorem HitLocks.step {sys sys' : System} (h : HitLocks sys)
    (h_calls : ∀ tx s, sys'.activity tx = .running s → NoRetention s.call)
    {allowed : Op → Prop} (h_step : Step allowed sys sys') : HitLocks sys' := by
  cases h_step with
  | @begin tx op h_idle _ =>
    exact ⟨h_calls, h.fresh, fun k => OwnedBy.begun (h.owns k) h_idle _⟩
  | @exec tx s s' db h_run h_exec =>
    refine ⟨h_calls, fun k h_lt => ?_,
      fun k => OwnedBy.exec (h.owns k) h_run db (h.move h_run h_exec k) (fun _ _ _ _ _ => id)⟩
    change db.lastHitId < k at h_lt
    have h_empty := h.fresh k (lt_of_le_of_lt h_exec.sequences_le.2.2 h_lt)
    change db.hits.cell k = .empty
    cases h_exec with
    | insertHit =>
      -- the id it inserts under is not beyond the column any more
      have h_k : k ≠ sys.db.lastHitId + 1 := h_lt.ne'
      exact (Versioned.cell_set_of_ne _ h_k _).trans h_empty
    | expireHits _ => exact (h.calls tx _ h_run).elim
    | cascadeHits _ => exact (h.calls tx _ h_run).elim
    | _ => exact h_empty
  | @commit tx op reply existing drawn h_run =>
    refine h.ends h_calls (hits_endOf tx op sys.db) ?_
    unfold endOf
    split <;> rfl
  | @abort tx s h_run => exact h.ends h_calls (hits_rollback tx sys.db) rfl

/-- **The locks on the hit rows of every run** without retention are what its sessions say. -/
theorem HitLocks.reaches {allowed : Op → Prop} (h_allowed : ∀ op, allowed op → NoRetention op)
    {s : Store} (h_s : s.Reachable) {sys : System} (h : Reaches allowed s sys) :
    HitLocks sys := by
  induction h with
  | refl => exact .quiet h_s.wf
  | tail h_run h_step ih =>
    refine ih.step (fun tx c h_c => h_allowed _ ?_) h_step
    exact Reaches.allowed_call (Reaches.step h_run h_step) tx h_c

/-! ### Recording a hit -/

/-- A session that has inserted a hit holds the row, and the row is live. -/
theorem Locking.live_of_hit {sys : System} (h_lock : Locking sys) {tx : ℕ} {enc : EncryptText}
    {a : HitArgs} {pc : Pc} (h_run : sys.activity tx = .running ⟨.reportHit enc a, pc, none, none⟩)
    (h_pc : pc.AfterHit) : ∃ r, sys.db.row a.fingerprintId = some r ∧ r.Live := by
  -- after the insertion it holds the row to the end
  have h_target : (⟨.reportHit enc a, pc, none, none⟩ : Session).target = some a.fingerprintId := by
    cases pc with
    | bumpHit => rfl
    | finish reply =>
      cases reply with
      | reportHit result =>
        cases result with
        | some n => rfl
        | none => exact h_pc.elim
      | _ => exact h_pc.elim
    | _ => exact h_pc.elim
  obtain ⟨l, -, -, h_owns⟩ := h_lock.owns_of_held h_run (h_lock.holds tx _ _ h_run h_target)
  generalize h_o : sys.db.row a.fingerprintId = o at h_owns
  generalize l.draft = d at h_owns
  cases h_owns with
  | hitGone _ _ => exact h_pc.elim
  | hitLock _ h_live => exact ⟨_, rfl, h_live⟩
  | hitInserted _ h_live => exact ⟨_, rfl, h_live⟩
  | hit _ h_live _ _ => exact ⟨_, rfl, h_live⟩

/-- **Nobody hits a tombstone**: a hit of it that is there after the step was there before.
Whoever commits a hit holds the row, and has found it live. -/
theorem HitLocks.hit_kept {allowed : Op → Prop} {sys sys' : System} (h : HitLocks sys)
    (h_lock : Locking sys) (h_step : Step allowed sys sys') {i k : ℤ} {hit : Hit}
    (h_tomb : ∃ r, sys.db.row i = some r ∧ r.status = .deleted) (h_i : hit.fingerprintId = i)
    (h_hit : (sys'.db.hits.cell k).committed = some hit) :
    (sys.db.hits.cell k).committed = some hit := by
  obtain ⟨tx, h_acts⟩ := h_step.acts
  cases h_acts with
  | begin h_db => rw [h_db] at h_hit; exact h_hit
  | exec h_run h_exec => exact (h.move h_run h_exec k).committed.symm.trans h_hit
  | @commit op reply existing drawn h_run _ h_db =>
    rw [h_db] at h_hit
    rcases (hits_endOf tx op sys.db k).committed with h_same | ⟨l, d, h_l, h_holder, h_d, h_c⟩
    · exact h_same.symm.trans h_hit
    -- a hit that is new was inserted under the lock of its row, which is live
    exfalso
    rw [h_c] at h_hit
    obtain ⟨s, h_run', h_owns⟩ := h.owns k l h_l
    rw [h_holder] at h_run'
    rw [h_d, h_hit] at h_owns
    generalize (sys.db.hits.cell k).committed = o at h_owns
    cases h_owns with
    | insert h_target h_pc =>
      obtain ⟨r, h_row, h_live⟩ := h_lock.live_of_hit h_run' h_pc
      obtain ⟨r', h_row', h_deleted⟩ := h_tomb
      rw [← h_target, h_i, h_row'] at h_row
      exact h_live (Option.some.inj h_row ▸ h_deleted)
  | abort h_db =>
    rw [h_db] at h_hit
    change ((sys.db.hits.rollback tx).cell k).committed = some hit at h_hit
    rwa [Versioned.committed_cell_rollback] at h_hit

end Concurrent
end FingerprintHub
