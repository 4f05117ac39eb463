import FingerprintHub.Store.Runs

/-!
# What retention leaves

The four statements of `apply_retention` as operations on whole tables. Their cutoffs only
move forward in time, and a deletion or a redaction that is due at an earlier time is due
at every later one, so that a run at a later time does all that was missed.
-/

namespace FingerprintHub

namespace RetentionPolicy

variable {p : RetentionPolicy} {t t' : ℤ}

/-! ### What is due -/

/-- A tombstone is purged when it is older than the tombstone period, -/
theorem purges_iff {r : Fingerprint} : p.purges t r = true ↔
    r.status = .deleted ∧ r.updatedAtMs < t - p.tombstoneRetentionMs := by
  rw [purges, Bool.and_eq_true, decide_eq_true_eq, decide_eq_true_eq]

/-- and redacted when it is older than the metadata period and has something to redact. -/
theorem anonymizes_iff {r : Fingerprint} : p.anonymizes t r = true ↔
    (r.status = .deleted ∧ r.updatedAtMs < t - p.tombstoneMetadataRetentionMs) ∧
      ¬ (r.sourceGuildId = none ∧ r.reason = none ∧ r.sourceUrl = none) := by
  rw [anonymizes, Bool.and_eq_true, Bool.and_eq_true, decide_eq_true_eq, decide_eq_true_eq]
  simp only [Bool.or_eq_true, Option.isSome_iff_ne_none]
  tauto

/-! ### Due once, due for ever -/

/-- What is due at a time is due at every later one: a hit, -/
theorem expiresHit_mono (h_le : t ≤ t') {h : Hit} (h_due : p.expiresHit t h = true) :
    p.expiresHit t' h = true := by
  rw [expiresHit, decide_eq_true_eq] at h_due ⊢
  omega

/-- the reason of a flag, -/
theorem clearsReason_mono (h_le : t ≤ t') {f : Flag} (h_due : p.clearsReason t f = true) :
    p.clearsReason t' f = true := by
  rw [clearsReason, Bool.and_eq_true, decide_eq_true_eq] at h_due ⊢
  exact ⟨h_due.1, by omega⟩

/-- a tombstone, -/
theorem purges_mono (h_le : t ≤ t') {r : Fingerprint} (h_due : p.purges t r = true) :
    p.purges t' r = true := by
  rw [purges, Bool.and_eq_true, decide_eq_true_eq] at h_due ⊢
  exact ⟨h_due.1, by simp only [decide_eq_true_eq] at *; omega⟩

/-- and its metadata. -/
theorem anonymizes_mono (h_le : t ≤ t') {r : Fingerprint} (h_due : p.anonymizes t r = true) :
    p.anonymizes t' r = true := by
  simp only [anonymizes, Bool.and_eq_true, decide_eq_true_eq] at h_due ⊢
  exact ⟨⟨h_due.1.1, by omega⟩, h_due.2⟩

/-! ### Done once, done -/

/-- A redacted flag has nothing left to clear, -/
theorem clearsReason_clearReason (p : RetentionPolicy) (t : ℤ) (f : Flag) :
    p.clearsReason t (clearReason f) = false := rfl

/-- and a redacted tombstone nothing to redact. -/
theorem anonymizes_anonymizeRow (p : RetentionPolicy) (t : ℤ) (r : Fingerprint) :
    p.anonymizes t (anonymizeRow r) = false := by
  simp [anonymizes, anonymizeRow]

/-- Redaction does not hide a tombstone from its purge. -/
theorem purges_anonymizeRow (p : RetentionPolicy) (t : ℤ) (r : Fingerprint) :
    p.purges t (anonymizeRow r) = p.purges t r := rfl

end RetentionPolicy

namespace Store

variable (s : Store) (p : RetentionPolicy) (t : ℤ)

/-! ### The tables after retention -/

/-- The id is of a tombstone that is purged at a time. -/
def purged (i : ℤ) : Bool :=
  decide (i ∈ (s.fingerprints.select (p.purges t)).map (·.id))

/-- Such a tombstone is there, and due. -/
theorem purged_iff {i : ℤ} :
    s.purged p t i = true ↔ ∃ r, s.row i = some r ∧ p.purges t r = true := by
  rw [purged, decide_eq_true_eq, mem_purged]

/-- The rows of `fingerprints`: the purge, and the redaction of what survives, -/
theorem retain_fingerprints : (s.retain p t).2.fingerprints =
    (s.fingerprints.delete (p.purges t)).update (p.anonymizes t) anonymizeRow anonymizeRow_id := rfl

/-- the hits: those past their period, and those the cascade takes, -/
theorem retain_hits : (s.retain p t).2.hits =
    (s.hits.delete (p.expiresHit t)).delete (fun h => s.purged p t h.fingerprintId) := rfl

/-- and the flags: cleared, or taken by the cascade. -/
theorem retain_flags : (s.retain p t).2.flags =
    (s.flags.update (p.clearsReason t) clearReason clearReason_key).delete
      (fun f => s.purged p t f.fingerprintId) := rfl

variable {t} {t' : ℤ}

/-- What was purged at some time, or is purged of what is left, is what a later purge
takes alone. -/
theorem purged_retain (h_le : t ≤ t') (i : ℤ) :
    (s.purged p t i || (s.retain p t).2.purged p t' i) = s.purged p t' i := by
  rw [Bool.eq_iff_iff, Bool.or_eq_true, purged_iff, purged_iff, purged_iff, row_retain]
  constructor
  · rintro (⟨r, h_row, h_due⟩ | ⟨r', h_row', h_due⟩)
    · exact ⟨r, h_row, RetentionPolicy.purges_mono h_le h_due⟩
    -- what is left of a row is due when the row was
    · obtain ⟨r, h_r, rfl⟩ := Option.map_eq_some_iff.mp h_row'
      refine ⟨r, (Option.filter_eq_some_iff.mp h_r).1, ?_⟩
      split at h_due
      · exact h_due
      · exact h_due
  · rintro ⟨r, h_row, h_due⟩
    -- a tombstone due at `t'` goes at `t`, or is still there and goes then
    by_cases h_early : p.purges t r = true
    · exact Or.inl ⟨r, h_row, h_early⟩
    · refine Or.inr ⟨_, by rw [h_row, Option.filter_some, if_pos (by simpa using h_early)]; rfl, ?_⟩
      show p.purges t' (if p.anonymizes t r then anonymizeRow r else r) = true
      split
      · exact h_due
      · exact h_due

/-! ### Composition -/

/-- A later run leaves the rows that it would leave alone. The redaction of the first run is moved
behind the purge of the second, which covers that of the first. -/
theorem retain_retain_fingerprints (h_le : t ≤ t') :
    ((s.retain p t).2.retain p t').2.fingerprints = (s.retain p t').2.fingerprints := by
  have h_purge : s.fingerprints.delete (fun r => p.purges t r || p.purges t' r)
      = s.fingerprints.delete (p.purges t') := by
    refine Table.delete_congr (fun r _ => ?_)
    cases h_early : p.purges t r with
    | false => rfl
    | true => exact (RetentionPolicy.purges_mono h_le h_early).symm
  -- the redaction does not hide a row from the later purge, and the purge covers the earlier
  calc ((s.retain p t).2.retain p t').2.fingerprints
      = (((s.fingerprints.delete (p.purges t)).update (p.anonymizes t) anonymizeRow
          anonymizeRow_id).delete (p.purges t')).update (p.anonymizes t') anonymizeRow
          anonymizeRow_id := by
        rw [retain_fingerprints, retain_fingerprints]
    _ = ((s.fingerprints.delete (p.purges t')).update (p.anonymizes t) anonymizeRow
          anonymizeRow_id).update (p.anonymizes t') anonymizeRow anonymizeRow_id := by
        rw [Table.delete_update _ _ _ (p.purges_anonymizeRow t'), Table.delete_delete, h_purge]
    _ = (s.fingerprints.delete (p.purges t')).update (p.anonymizes t') anonymizeRow
          anonymizeRow_id := by
        refine Table.update_update _ _ _ (fun r _ => ?_)
        by_cases h_early : p.anonymizes t r = true
        · rw [if_pos h_early, RetentionPolicy.anonymizes_anonymizeRow,
            if_pos (RetentionPolicy.anonymizes_mono h_le h_early)]
          rfl
        · rw [if_neg h_early]
    _ = (s.retain p t').2.fingerprints := (s.retain_fingerprints p t').symm

/-- It leaves the hits it would leave alone, -/
theorem retain_retain_hits (h_le : t ≤ t') :
    ((s.retain p t).2.retain p t').2.hits = (s.retain p t').2.hits := by
  rw [retain_hits, retain_hits, retain_hits]
  simp only [Table.delete_delete]
  refine Table.delete_congr (fun h _ => ?_)
  -- a hit goes by its age, or with its fingerprint
  rw [← s.purged_retain p h_le]
  cases h_early : p.expiresHit t h with
  | false => cases p.expiresHit t' h <;> simp
  | true => simp [RetentionPolicy.expiresHit_mono h_le h_early]

/-- and the flags. -/
theorem retain_retain_flags (h_le : t ≤ t') :
    ((s.retain p t).2.retain p t').2.flags = (s.retain p t').2.flags := by
  have h_key : ∀ (q : ℤ → Bool) (f : Flag),
      q (clearReason f).fingerprintId = q f.fingerprintId := fun _ _ => rfl
  -- the deletions look only at the fingerprint, so that they may all come first
  calc ((s.retain p t).2.retain p t').2.flags
      = (((s.flags.delete (fun f => s.purged p t f.fingerprintId)).delete
          (fun f => (s.retain p t).2.purged p t' f.fingerprintId)).update (p.clearsReason t)
          clearReason clearReason_key).update (p.clearsReason t') clearReason clearReason_key := by
        rw [retain_flags, retain_flags, Table.delete_update _ _ _ (h_key _),
          Table.delete_update _ _ _ (h_key _), Table.delete_update _ _ _ (h_key _)]
    _ = ((s.flags.delete (fun f => s.purged p t' f.fingerprintId)).update (p.clearsReason t)
          clearReason clearReason_key).update (p.clearsReason t') clearReason clearReason_key := by
        rw [Table.delete_delete]
        simp only [s.purged_retain p h_le]
    _ = (s.flags.delete (fun f => s.purged p t' f.fingerprintId)).update (p.clearsReason t')
          clearReason clearReason_key := by
        refine Table.update_update _ _ _ (fun f _ => ?_)
        by_cases h_early : p.clearsReason t f = true
        · rw [if_pos h_early, RetentionPolicy.clearsReason_clearReason,
            if_pos (RetentionPolicy.clearsReason_mono h_le h_early)]
          rfl
        · rw [if_neg h_early]
    _ = (s.retain p t').2.flags := by rw [retain_flags, Table.delete_update _ _ _ (h_key _)]

/-! ### A second run -/

/-- After retention nothing is due. This is stronger than that a second run changes nothing: its
counts are 0 as well. -/
structure Settled (s : Store) (p : RetentionPolicy) (t : ℤ) : Prop where
  hits : ∀ h ∈ s.hits.rows, p.expiresHit t h = false
  flags : ∀ f ∈ s.flags.rows, p.clearsReason t f = false
  rows : ∀ r ∈ s.fingerprints.rows, p.purges t r = false ∧ p.anonymizes t r = false

/-- A run leaves its store settled for the time it was made at. -/
theorem settled_retain : (s.retain p t).2.Settled p t where
  hits := by
    intro h h_mem
    rw [retain_hits, Table.delete_delete] at h_mem
    -- a hit that is left was not past its period
    obtain ⟨-, h_kept⟩ := List.mem_filter.mp h_mem
    rw [Bool.not_or, Bool.and_eq_true, Bool.not_eq_true'] at h_kept
    exact h_kept.1
  flags := by
    intro f h_mem
    rw [retain_flags] at h_mem
    -- a flag that is left was cleared, or was not due
    obtain ⟨g, -, rfl⟩ := List.mem_map.mp (List.mem_filter.mp h_mem).1
    split
    · rfl
    · next h_not => exact Bool.eq_false_of_not_eq_true h_not
  rows := by
    intro r h_mem
    rw [retain_fingerprints] at h_mem
    -- a row that is left was redacted, or was not due; in neither case is it purged
    obtain ⟨q, h_q, rfl⟩ := List.mem_map.mp h_mem
    have h_kept : p.purges t q = false := by simpa using (List.mem_filter.mp h_q).2
    split
    · exact ⟨h_kept, RetentionPolicy.anonymizes_anonymizeRow p t q⟩
    · next h_not => exact ⟨h_kept, Bool.eq_false_of_not_eq_true h_not⟩

variable {s p} in
/-- Where nothing is due, retention does and counts nothing. -/
theorem Settled.retain (h : s.Settled p t) : s.retain p t = (⟨0, 0, 0, 0⟩, s) := by
  have h_hits : s.hits.delete (p.expiresHit t) = s.hits := Table.delete_eq_self h.hits
  have h_flags : s.flags.update (p.clearsReason t) clearReason clearReason_key = s.flags :=
    Table.update_eq_self h.flags
  -- nothing is purged, so nothing cascades
  have h_purge : ∀ t₀ : Store, t₀.fingerprints = s.fingerprints → t₀.purge (p.purges t) = t₀ := by
    intro t₀ h_t₀
    have h_none : t₀.fingerprints.select (p.purges t) = [] := by
      rw [h_t₀]
      exact List.filter_eq_nil_iff.mpr (fun r h_r => by rw [(h.rows r h_r).1]; simp)
    unfold purge
    rw [h_none, Table.delete_eq_self (fun r h_r => (h.rows r (h_t₀ ▸ h_r)).1)]
    simp only [List.map_nil]
    rw [Table.delete_eq_self (fun _ _ => decide_eq_false List.not_mem_nil),
      Table.delete_eq_self (fun _ _ => decide_eq_false List.not_mem_nil)]
  have h_rows : s.fingerprints.update (p.anonymizes t) anonymizeRow anonymizeRow_id
      = s.fingerprints := Table.update_eq_self (fun r h_r => (h.rows r h_r).2)
  -- and every count is 0
  have h_select : ∀ {ρ κ : Type} {key : ρ → κ} (u : Table key) (q : ρ → Bool),
      (∀ r ∈ u.rows, q r = false) → (u.select q).length = 0 := by
    intro ρ κ key u q h_q
    rw [List.length_eq_zero_iff]
    exact List.filter_eq_nil_iff.mpr (fun r h_r => by rw [h_q r h_r]; simp)
  unfold Store.retain
  simp only [h_hits, h_flags]
  rw [h_purge s rfl]
  simp only [h_rows]
  rw [h_select _ _ h.hits, h_select _ _ h.flags, h_select _ _ (fun r h_r => (h.rows r h_r).1),
    h_select _ _ (fun r h_r => (h.rows r h_r).2)]

/-- **Retention composes.** A run leaves the tables that it would leave if every earlier run had
been skipped, and a second run at the same time does nothing. So it does not matter how often the
tool is run, nor that a run is missed. -/
theorem retention_composes (s : Store) (p : RetentionPolicy) (h_p : p.Accepted) {t t' : ℤ}
    (h_le : t ≤ t') :
    ((s.applyRetention p t false).2.applyRetention p t' false).2.fingerprints
      = (s.applyRetention p t' false).2.fingerprints ∧
    ((s.applyRetention p t false).2.applyRetention p t' false).2.hits
      = (s.applyRetention p t' false).2.hits ∧
    ((s.applyRetention p t false).2.applyRetention p t' false).2.flags
      = (s.applyRetention p t' false).2.flags ∧
    (s.applyRetention p t false).2.applyRetention p t false
      = (.ok ⟨0, 0, 0, 0⟩, (s.applyRetention p t false).2) := by
  -- the policy is accepted in every store and at every time
  have h_run : ∀ (u : Store) (now : ℤ),
      u.applyRetention p now false = (.ok (u.retain p now).1, (u.retain p now).2) := by
    intro u now
    rcases u.applyRetention_cases p now false with ⟨h_not, -⟩ | ⟨-, h_run⟩
    · exact absurd h_p h_not
    · exact h_run
  simp only [h_run]
  refine ⟨s.retain_retain_fingerprints p h_le, s.retain_retain_hits p h_le,
    s.retain_retain_flags p h_le, ?_⟩
  rw [(s.settled_retain p).retain]

/-- A skipped run and a late one, over a deleted fingerprint. -/
theorem retention_composes_late :
    let s := Store.empty.run [.contribute (fun _ t => t) (sampleContribution "00ff"),
      .softDelete 1 20]
    ((s.applyRetention ⟨5, 5, 5, 10⟩ 28 false).2.applyRetention ⟨5, 5, 5, 10⟩ 40
      false).2.fingerprints = (s.applyRetention ⟨5, 5, 5, 10⟩ 40 false).2.fingerprints :=
  (retention_composes _ ⟨5, 5, 5, 10⟩ (by decide) (by decide)).1

end Store
end FingerprintHub
