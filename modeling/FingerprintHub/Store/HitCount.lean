import FingerprintHub.Store.Runs

/-!
# What `hit_count` counts

`hit_count` is a column that starts at 0 and that only `report_hit` writes: neither the
resurrecting `UPDATE` nor the one that hides touches it. After a run it is the number of
hits recorded for the fingerprint (`Store.hitCount_eq_recordedHits`), by whomever.
-/

namespace FingerprintHub

/-- The call records a hit on the fingerprint `id`. -/
def Op.hits (s : Store) (id : ℤ) : Op → Bool
  | .reportHit enc a => a.fingerprintId = id ∧ (s.reportHit enc a).1.isSome
  | _ => false

namespace Store

/-- The hits that a run from a store records on a fingerprint. -/
def recordedHitsFrom (id : ℤ) : Store → List Op → ℕ
  | _, [] => 0
  | s, op :: ops => (op.hits s id).toNat + recordedHitsFrom id (op.apply s) ops

/-- The hits recorded on a fingerprint in a run from the empty database. -/
def recordedHits (ops : List Op) (id : ℤ) : ℕ :=
  recordedHitsFrom id .empty ops

/-- `n` hits are recorded on the fingerprint `id`, which may be still to come. Of a row that was
purged nothing is said. -/
structure HitCounted (s : Store) (id : ℤ) (n : ℕ) : Prop where
  count : ∀ r, s.row id = some r → r.hitCount = n
  unborn : s.lastId < id → n = 0

/-- No hit is recorded at first. -/
theorem HitCounted.empty (id : ℤ) : Store.empty.HitCounted id 0 where
  count := fun r h_row => absurd h_row (by simp)
  unborn := fun _ => rfl

variable {s : Store} {id : ℤ} {n : ℕ}

/-- Only on a row that is there is a hit recorded. -/
theorem row_of_hits {op : Op} (h : op.hits s id = true) :
    ∃ r enc a, op = .reportHit enc a ∧ a.fingerprintId = id ∧ s.row id = some r := by
  cases op with
  | reportHit enc a =>
    obtain ⟨rfl, h_some⟩ := of_decide_eq_true h
    rcases s.reportHit_cases enc a with ⟨-, h'⟩ | ⟨r, h_row, -, -⟩
    · rw [h'] at h_some
      exact absurd h_some (by simp)
    · exact ⟨r, enc, a, rfl, rfl, h_row⟩
  | contribute enc a => exact Bool.noConfusion h
  | flag enc a => exact Bool.noConfusion h
  | softDelete fid nowMs => exact Bool.noConfusion h
  | applyRetention p nowMs dryRun => exact Bool.noConfusion h

/-- A row after a call that is no hit has the hits it had, or it is new and has none. -/
theorem hitCount_of_rowStep {op : Op} {o : Option Fingerprint} {r' : Fingerprint}
    (h_op : ∀ enc a, op ≠ .reportHit enc a) (h : RowStep s op id o (some r')) :
    (∃ r, o = some r ∧ r'.hitCount = r.hitCount) ∨ (s.lastId < id ∧ r'.hitCount = 0) := by
  cases h with
  | keep => exact Or.inl ⟨_, rfl, rfl⟩
  | insert _ _ => exact Or.inr ⟨by omega, rfl⟩
  | resurrect _ _ _ => exact Or.inl ⟨_, rfl, rfl⟩
  | hit _ => exact absurd rfl (h_op _ _)
  | hide _ _ _ => exact Or.inl ⟨_, rfl, rfl⟩
  | count _ _ => exact Or.inl ⟨_, rfl, rfl⟩
  | delete _ _ => exact Or.inl ⟨_, rfl, rfl⟩
  | anonymize _ _ => exact Or.inl ⟨_, rfl, rfl⟩

/-- The count of a row after `report_hit`. -/
theorem HitCounted.reportHit (h : s.HitCounted id n) (enc : EncryptText) (a : HitArgs)
    {r' : Fingerprint} (h_row' : ((Op.reportHit enc a).apply s).row id = some r') :
    r'.hitCount = n + ((Op.reportHit enc a).hits s id).toNat := by
  rcases s.reportHit_cases enc a with ⟨-, h'⟩ | ⟨r, h_row, -, h'⟩
  · have h_hits : (Op.reportHit enc a).hits s id = false := by simp [Op.hits, h']
    rw [Op.apply, h'] at h_row'
    rw [h_hits]
    exact h.count r' h_row'
  · rw [Op.apply, h', row_updateRow, row_recordHit] at h_row'
    by_cases h_id : id = a.fingerprintId
    · have h_hits : (Op.reportHit enc a).hits s id = true := by simp [Op.hits, h', h_id]
      subst h_id
      -- the row read back is the one before, with one hit more
      rw [if_pos rfl, h_row] at h_row'
      obtain rfl := Option.some.inj h_row'
      have h_count : r.hitCount = n := h.count r h_row
      rw [h_hits, ← h_count]
      rfl
    · have h_hits : (Op.reportHit enc a).hits s id = false :=
        decide_eq_false (fun e => h_id e.1.symm)
      rw [if_neg h_id] at h_row'
      rw [h_hits]
      exact h.count r' h_row'

/-- **Every call keeps the count of the hits.** -/
theorem HitCounted.step (h : s.HitCounted id n) (h_wf : s.Wf) (op : Op) :
    (op.apply s).HitCounted id (n + (op.hits s id).toNat) where
  count := by
    intro r' h_row'
    by_cases h_op : ∃ enc a, op = .reportHit enc a
    · obtain ⟨enc, a, rfl⟩ := h_op
      exact h.reportHit enc a h_row'
    · have h_not : ∀ enc a, op ≠ .reportHit enc a := fun enc a e => h_op ⟨enc, a, e⟩
      have h_hits : op.hits s id = false := by
        by_contra h_true
        obtain ⟨-, enc, a, h_eq, -⟩ := row_of_hits (Bool.eq_true_of_not_eq_false h_true)
        exact h_not enc a h_eq
      have h_step := Op.rowStep h_wf.fresh op id
      rw [h_row'] at h_step
      rw [h_hits]
      -- no other call touches the count of a row that is there
      rcases hitCount_of_rowStep h_not h_step with ⟨r, h_row, h_eq⟩ | ⟨h_new, h_eq⟩
      · exact h_eq.trans (h.count r h_row)
      · rw [h_eq, h.unborn h_new]
        rfl
  unborn := by
    intro h_new
    -- an id beyond the identity column has no row to hit
    have h_last : s.lastId < id := (Op.sequences_le s op).2.1.trans_lt h_new
    have h_hits : op.hits s id = false := by
      by_contra h_true
      obtain ⟨r, -, -, -, -, h_row⟩ := row_of_hits (Bool.eq_true_of_not_eq_false h_true)
      exact absurd (h_wf.id_le id r h_row) (not_le.mpr h_last)
    rw [h_hits, h.unborn h_last]
    rfl

/-- So does a run, with the hits it records. -/
theorem HitCounted.run (h : s.HitCounted id n) (h_wf : s.Wf) (ops : List Op) :
    (s.run ops).HitCounted id (n + recordedHitsFrom id s ops) := by
  -- along the run, with the hits so far as the count
  induction ops generalizing s n with
  | nil => exact h
  | cons op ops ih =>
    have h_rest := ih (h.step h_wf op) (h_wf.step op)
    rw [Nat.add_assoc] at h_rest
    exact h_rest

/-- **`hit_count` counts the hits** recorded in the run, those of former lives of the row
included. -/
theorem hitCount_eq_recordedHits {ops : List Op} {r : Fingerprint}
    (h_row : (Store.empty.run ops).row id = some r) : r.hitCount = recordedHits ops id := by
  have h_run := (HitCounted.empty id).run Wf.empty ops
  exact (h_run.count r h_row).trans (Nat.zero_add _)

end Store
end FingerprintHub
