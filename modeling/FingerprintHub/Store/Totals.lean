import FingerprintHub.Library.Tally
import FingerprintHub.Store.Runs

/-!
# What the answers of a run add up to

The rows that are live, the tombstones and the hits of all rows, as sums over the table. A call
changes them by what its answer says (`Op.balance`), and a run by what all of its answers add up
to (`Balance.run`).
-/

namespace FingerprintHub

/-- `status = …`. -/
def hasStatus (status : Status) (r : Fingerprint) : Bool := r.status = status

namespace Op

/-- A contribution that was answered `created`. -/
def created (s : Store) : Op → ℤ
  | .contribute enc a => if (s.contribute enc a).1.2 then 1 else 0
  | _ => 0

/-- A deletion that was answered `True`. -/
def deleted (s : Store) : Op → ℤ
  | .softDelete id nowMs => if (s.softDelete id nowMs).1 then 1 else 0
  | _ => 0

/-- A hit that was answered with a count. -/
def reported (s : Store) : Op → ℤ
  | .reportHit enc a => if (s.reportHit enc a).1.isSome then 1 else 0
  | _ => 0

/-- The `tombstones_deleted` of a run of `apply_retention` that committed. -/
def purged (s : Store) : Op → ℤ
  | .applyRetention p nowMs false =>
    match (s.applyRetention p nowMs false).1 with
    | .ok counts => counts.tombstonesDeleted
    | .error _ => 0
  | _ => 0

end Op

namespace Store

/-- What the answers of a run add up to, each taken in the store the call is made on. -/
def total (answer : Store → Op → ℤ) : Store → List Op → ℤ
  | _, [] => 0
  | s, op :: ops => answer s op + total answer (op.apply s) ops

/-- A row that is no tombstone counts. -/
def live (r : Fingerprint) : ℤ := Table.one (fun r => r.status ≠ .deleted) r

/-- A tombstone counts. -/
def dead (r : Fingerprint) : ℤ := Table.one (hasStatus .deleted) r

/-- The hits of all rows. -/
def totalHits (s : Store) : ℤ := s.fingerprints.tally (fun r => r.hitCount)

end Store

/-- What a call, or a run of calls, with such answers does to the totals.

The live rows change by what was created and deleted, exactly. Tombstones are only bounded: a
resurrection takes one away and is answered as a creation. Hits are exact as long as nothing is
purged, since a purged row takes its count along. -/
structure Balance (s s' : Store) (created deleted reported purged : ℤ) : Prop where
  live : s'.fingerprints.tally Store.live + deleted = s.fingerprints.tally Store.live + created
  dead : s'.fingerprints.tally Store.dead + purged ≤ s.fingerprints.tally Store.dead + deleted
  hits_le : s'.totalHits ≤ s.totalHits + reported
  hits : purged = 0 → s'.totalHits = s.totalHits + reported
  purged_nonneg : 0 ≤ purged

namespace Balance

variable {s s' s'' : Store}

theorem refl (s : Store) : Balance s s 0 0 0 0 :=
  ⟨rfl, le_refl _, by omega, fun _ => by omega, le_refl _⟩

/-- Balances add up: the answers of two runs one after the other are those of both. -/
theorem trans {c d h p c' d' h' p' : ℤ} (first : Balance s s' c d h p)
    (next : Balance s' s'' c' d' h' p') :
    Balance s s'' (c + c') (d + d') (h + h') (p + p') := by
  have h_live := first.live
  have h_live' := next.live
  have h_dead := first.dead
  have h_dead' := next.dead
  have h_hits := first.hits_le
  have h_hits' := next.hits_le
  have h_p := first.purged_nonneg
  have h_p' := next.purged_nonneg
  -- nothing is purged in both only if nothing is purged in either
  refine ⟨by omega, by omega, by omega, fun h_zero => ?_, by omega⟩
  have h_eq := first.hits (by omega)
  have h_eq' := next.hits (by omega)
  omega

/-- An update of one row counts by what it does to the row. The other rows cancel out. -/
theorem updateRow {id : ℤ} {set : Fingerprint → Fingerprint} {h_id : ∀ r, (set r).id = r.id}
    {r : Fingerprint} (h_row : s.row id = some r) (h_same : s'.fingerprints = s.fingerprints)
    {c d h : ℤ} (h_live : Store.live (set r) + d = Store.live r + c)
    (h_dead : Store.dead (set r) ≤ Store.dead r + d)
    (h_hits : ((set r).hitCount : ℤ) = r.hitCount + h) :
    Balance s (s'.updateRow id set h_id) c d h 0 := by
  have h_tally : ∀ w, (s'.updateRow id set h_id).fingerprints.tally w =
      s.fingerprints.tally w + (w (set r) - w r) := by
    intro w
    show (s'.fingerprints.update (fun r => r.id = id) set h_id).tally w = _
    rw [h_same]
    exact Table.tally_update_key h_row h_id w
  have h_total : (s'.updateRow id set h_id).totalHits = s.totalHits + h := by
    rw [Store.totalHits, h_tally, Store.totalHits, h_hits]
    omega
  refine ⟨?_, ?_, h_total.le, fun _ => h_total, le_refl _⟩
  · rw [h_tally]
    omega
  · rw [h_tally]
    omega

/-- An insertion counts as its row. -/
theorem inserted (h_fresh : s.row (s.lastId + 1) = none) (enc : EncryptText) (a : ContributeArgs) :
    Balance s (s.inserted enc a) 1 0 0 0 := by
  have h_none : s.fingerprints.get? (freshRow enc a (s.lastId + 1) (s.syncSeq + 1)).id = none :=
    h_fresh
  have h_tally : ∀ w, (s.inserted enc a).fingerprints.tally w =
      s.fingerprints.tally w + w (freshRow enc a (s.lastId + 1) (s.syncSeq + 1)) :=
    fun w => Table.tally_insert h_none w
  have h_total : (s.inserted enc a).totalHits = s.totalHits + 0 := by
    rw [Store.totalHits, h_tally, Store.totalHits]
    rfl
  refine ⟨?_, ?_, h_total.le, fun _ => h_total, le_refl _⟩
  · rw [h_tally]
    simp [Store.live, Table.one, freshRow]
  · rw [h_tally]
    simp [Store.dead, Table.one, hasStatus, freshRow]

/-- The statements of retention purge tombstones, and nothing else that counts. -/
theorem retain (s : Store) (p : RetentionPolicy) (nowMs : ℤ) :
    Balance s (s.retain p nowMs).2 0 0 0 (s.retain p nowMs).1.tombstonesDeleted := by
  -- what a purge takes away, whatever is counted
  have h_tally : ∀ w : Fingerprint → ℤ, (∀ r, w (anonymizeRow r) = w r) →
      (s.retain p nowMs).2.fingerprints.tally w = s.fingerprints.tally w -
        ((s.fingerprints.select (p.purges nowMs)).map w).sum := by
    intro w h_w
    show ((s.fingerprints.delete (p.purges nowMs)).update (p.anonymizes nowMs) anonymizeRow
      anonymizeRow_id).tally w = _
    rw [Table.tally_update_of_eq _ _ _ (fun r _ => h_w r), Table.tally_delete]
  -- it takes tombstones only
  have h_status : ∀ r ∈ s.fingerprints.select (p.purges nowMs), r.status = .deleted := by
    intro r h_r
    have h_purges := (List.mem_filter.mp h_r).2
    simp only [RetentionPolicy.purges, Bool.and_eq_true, decide_eq_true_eq] at h_purges
    exact h_purges.1
  -- which count as nothing alive, and as one each among the dead
  have h_sum : ∀ (l : List Fingerprint), (∀ r ∈ l, r.status = .deleted) →
      (l.map Store.live).sum = 0 ∧ (l.map Store.dead).sum = l.length := by
    intro l
    induction l with
    | nil => exact fun _ => ⟨rfl, rfl⟩
    | cons r l ih =>
      intro h_l
      have h_r := h_l r (List.mem_cons_self ..)
      obtain ⟨ih_live, ih_dead⟩ := ih (fun r' h_r' => h_l r' (List.mem_cons_of_mem _ h_r'))
      simp only [List.map_cons, List.sum_cons, ih_live, ih_dead, List.length_cons]
      simp [Store.live, Store.dead, Table.one, hasStatus, h_r]
      omega
  obtain ⟨h_live, h_dead⟩ := h_sum _ h_status
  have h_count : (s.retain p nowMs).1.tombstonesDeleted =
      (s.fingerprints.select (p.purges nowMs)).length := rfl
  -- their hits go with them
  have h_gone : 0 ≤ ((s.fingerprints.select (p.purges nowMs)).map
      (fun r => (r.hitCount : ℤ))).sum := by
    refine List.sum_nonneg (fun n h_n => ?_)
    obtain ⟨r, -, rfl⟩ := List.mem_map.mp h_n
    exact Int.natCast_nonneg _
  refine ⟨?_, ?_, ?_, ?_, Int.natCast_nonneg _⟩
  · rw [h_tally Store.live (fun _ => rfl), h_live]
    omega
  · rw [h_tally Store.dead (fun _ => rfl), h_dead, h_count]
    omega
  · rw [Store.totalHits, h_tally _ (fun _ => rfl), Store.totalHits]
    omega
  · intro h_zero
    -- nothing is purged, so no hits are lost
    rw [h_count, Int.natCast_eq_zero, List.length_eq_zero_iff] at h_zero
    rw [Store.totalHits, h_tally _ (fun _ => rfl), h_zero, Store.totalHits]
    rfl

end Balance

/-- **What a call does to the totals** is what its answer says. The cases are those of the
operations; where a call does nothing its answer counts as nothing. -/
theorem Op.balance {s : Store} (h_fresh : s.row (s.lastId + 1) = none) (op : Op) :
    Balance s (op.apply s) (op.created s) (op.deleted s) (op.reported s) (op.purged s) := by
  cases op with
  | contribute enc a =>
    rcases s.contribute_cases enc a with ⟨r, -, -, h⟩ | ⟨r, h_found, h_deleted, h⟩ | ⟨-, h⟩
    · simp only [apply, created, deleted, reported, purged, h]
      exact .refl s
    · simp only [apply, created, deleted, reported, purged, h, if_true]
      -- a tombstone becomes a live row, and keeps its hits
      refine .updateRow (Store.row_of_findOwned h_found).1 ?_ ?_ ?_ ?_
      · rfl
      · simp [Store.live, Table.one, resurrectRow, h_deleted]
      · simp [Store.dead, Table.one, hasStatus, resurrectRow, h_deleted]
      · simp [resurrectRow]
    · simp only [apply, created, deleted, reported, purged, h, if_true]
      exact .inserted h_fresh enc a
  | reportHit enc a =>
    rcases s.reportHit_cases enc a with ⟨-, h⟩ | ⟨r, h_row, -, h⟩
    · simp only [apply, created, deleted, reported, purged, h]
      exact .refl s
    · simp only [apply, created, deleted, reported, purged, h, Option.isSome_some, if_true]
      -- one hit more on the row
      refine .updateRow h_row ?_ ?_ ?_ ?_
      · rfl
      · rfl
      · exact (add_zero (Store.dead r)).ge
      · simp [hitRow]
  | flag enc a =>
    rcases s.flag_cases enc a with ⟨-, h⟩ | ⟨r, h_row, h_active, -, h⟩ | ⟨r, h_row, -, -, h⟩
    · simp only [apply, created, deleted, reported, purged, h]
      exact .refl s
    · simp only [apply, created, deleted, reported, purged, h]
      -- hidden rows are live
      refine .updateRow h_row ?_ ?_ ?_ ?_
      · rfl
      · simp [Store.live, Table.one, hideRow, h_active]
      · simp [Store.dead, Table.one, hasStatus, hideRow, h_active]
      · simp [hideRow]
    · simp only [apply, created, deleted, reported, purged, h]
      refine .updateRow h_row ?_ ?_ ?_ ?_
      · rfl
      · rfl
      · exact (add_zero (Store.dead r)).ge
      · simp [countFlagRow]
  | softDelete id nowMs =>
    rcases s.softDelete_cases id nowMs with ⟨-, h⟩ | ⟨r, h_row, h_live, h⟩
    · simp only [apply, created, deleted, reported, purged, h]
      exact .refl s
    · -- a live row becomes a tombstone
      have h_status : r.status ≠ .deleted := h_live
      simp only [apply, created, deleted, reported, purged, h, if_true]
      refine .updateRow h_row ?_ ?_ ?_ ?_
      · rfl
      · simp [Store.live, Table.one, deleteRow, h_status]
      · simp [Store.dead, Table.one, hasStatus, deleteRow, h_status]
      · simp [deleteRow]
  | applyRetention p nowMs dryRun =>
    rcases s.applyRetention_cases p nowMs dryRun with ⟨-, ⟨msg, h_error⟩, h⟩ | ⟨-, h⟩
    · -- refused: there is no count to answer with
      have h_purged : (Op.applyRetention p nowMs dryRun).purged s = 0 := by
        cases dryRun with
        | true => rfl
        | false => simp only [purged, h_error]
      rw [h_purged]
      simp only [apply, created, deleted, reported, h]
      exact .refl s
    · cases dryRun with
      | true =>
        simp only [apply, created, deleted, reported, purged, h, if_true]
        exact .refl s
      | false =>
        simp only [apply, created, deleted, reported, purged, h]
        exact .retain s p nowMs

/-- **What a run does to the totals** is what its answers add up to. -/
theorem Balance.run {s : Store} (h_wf : s.Wf) (ops : List Op) :
    Balance s (s.run ops) (s.total Op.created ops) (s.total Op.deleted ops)
      (s.total Op.reported ops) (s.total Op.purged ops) := by
  induction ops generalizing s with
  | nil => exact .refl s
  | cons op ops ih => exact (op.balance h_wf.fresh).trans (ih (h_wf.step op))

end FingerprintHub
