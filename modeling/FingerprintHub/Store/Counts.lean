import FingerprintHub.Store.Retention

/-!
# What retention reports

`apply_retention` returns the row counts of its statements. A statement counts the rows it
matches, not those that `ON DELETE CASCADE` takes along: `hits_deleted` leaves out the hits of
a purged tombstone. `Reports` says that the counts are those of the rows that are gone, and
`CascadesExpired` what that takes.

A hit is reported on a live row, so that it is no younger than the tombstone the row becomes
(`Aged`). With a hit period of at most the tombstone period a purge then takes only hits that
are past their own period and counted as such.
-/

namespace FingerprintHub

/-- The row is still there in the later store and has lost its community, its reason or its
URL. -/
def Store.lostMetadata (s' : Store) (r : Fingerprint) : Bool :=
  match s'.row r.id with
  | none => false
  | some r' =>
    (r.sourceGuildId.isSome && r'.sourceGuildId.isNone) || (r.reason.isSome && r'.reason.isNone) ||
      (r.sourceUrl.isSome && r'.sourceUrl.isNone)

/-- The counts are those of the rows that are gone or have lost something. -/
structure RetentionCounts.Exact (c : RetentionCounts) (s s' : Store) : Prop where
  hits : c.hitsDeleted = (s.hits.lost s'.hits).length
  tombstones : c.tombstonesDeleted = (s.fingerprints.lost s'.fingerprints).length
  metadata : c.tombstonesAnonymized = (s.fingerprints.select s'.lostMetadata).length

/-- A run on the store reports what it removes, and its preview reports the same and removes
nothing. What was removed is read off the two stores, not off the statements. -/
def Store.Reports (s : Store) (p : RetentionPolicy) (t : ℤ) : Prop :=
  ∃ c s', s.applyRetention p t false = (.ok c, s') ∧ s.applyRetention p t true = (.ok c, s) ∧
    c.Exact s s'

/-- Every hit on a tombstone that is purged is past the hit period itself. A condition on the
store before the run: it says that the cascade finds nothing the first statement has not taken. -/
def Store.CascadesExpired (s : Store) (p : RetentionPolicy) (t : ℤ) : Prop :=
  ∀ h ∈ s.hits.rows, s.purged p t h.fingerprintId = true → p.expiresHit t h = true

/-- The calls come in the order of their times, none after `t`. Several may have the same time. -/
def Chronological (ops : List Op) (t : ℤ) : Prop :=
  ops.Pairwise (fun op op' => op.nowMs ≤ op'.nowMs) ∧ ∀ op ∈ ops, op.nowMs ≤ t

namespace Store

variable (s : Store) (p : RetentionPolicy) (t : ℤ)

/-! ### What is gone -/

/-- The hits that go are those past their period and those of purged tombstones. -/
theorem lost_hits : s.hits.lost (s.retain p t).2.hits
    = s.hits.select (fun h => p.expiresHit t h || s.purged p t h.fingerprintId) := by
  rw [retain_hits, Table.delete_delete, Table.lost_delete]

/-- The fingerprints that go are those purged. -/
theorem lost_fingerprints : s.fingerprints.lost (s.retain p t).2.fingerprints
    = s.fingerprints.select (p.purges t) := by
  rw [retain_fingerprints, Table.lost_update, Table.lost_delete]

/-- The rows that lose something are those redacted. The deletion runs first, so that none of
them goes after it was counted. -/
theorem select_lostMetadata : s.fingerprints.select (s.retain p t).2.lostMetadata
    = (s.fingerprints.delete (p.purges t)).select (p.anonymizes t) := by
  show s.fingerprints.rows.filter _ = (s.fingerprints.rows.filter _).filter _
  rw [List.filter_filter]
  refine List.filter_congr (fun r h_r => ?_)
  unfold lostMetadata
  rw [row_retain, row, s.fingerprints.mem_rows.mp h_r, Option.filter_some]
  cases h_purges : p.purges t r with
  | true => simp
  | false =>
    show _ = (p.anonymizes t r && true)
    rw [Bool.and_true, Bool.not_false, if_pos rfl, Option.map_some]
    cases h_due : p.anonymizes t r with
    | true =>
      rw [RetentionPolicy.anonymizes, Bool.and_eq_true] at h_due
      simpa [anonymizeRow] using h_due.2
    | false =>
      have h_kept : ∀ o : Option String, (o.isSome && o.isNone) = false := fun o => by
        cases o <;> rfl
      simp only [Bool.false_eq_true, if_false, h_kept, Bool.or_false]

/-- **The counts are exact just when every hit that goes with a tombstone is past its own
period.** -/
theorem reports_iff {p : RetentionPolicy} (h_p : p.Accepted) (t : ℤ) :
    s.Reports p t ↔ s.CascadesExpired p t := by
  -- an accepted policy is run, and its preview counts the same
  have h_run : ∀ dryRun, s.applyRetention p t dryRun
      = (.ok (s.retain p t).1, if dryRun then s else (s.retain p t).2) := by
    intro dryRun
    rcases s.applyRetention_cases p t dryRun with ⟨h_not, -⟩ | ⟨-, h_run⟩
    · exact absurd h_p h_not
    · exact h_run
  -- the hits that are gone are those past their period and those of purged rows; they are as many
  -- as the first kind when the second adds none
  have h_hits : (s.retain p t).1.hitsDeleted = (s.hits.lost (s.retain p t).2.hits).length ↔
      s.CascadesExpired p t := by
    rw [lost_hits]
    exact s.hits.length_select_or (p.expiresHit t) (fun h => s.purged p t h.fingerprintId)
  constructor
  · rintro ⟨c, s', h_false, -, h_exact⟩
    rw [h_run] at h_false
    obtain ⟨h_c, rfl⟩ := Prod.mk.inj h_false
    obtain rfl := Except.ok.inj h_c
    exact h_hits.mp h_exact.hits
  · intro h_expired
    -- the other two counts are exact in any case
    refine ⟨_, _, h_run false, h_run true, h_hits.mpr h_expired, ?_, ?_⟩
    · exact congrArg List.length (s.lost_fingerprints p t).symm
    · exact congrArg List.length (s.select_lostMetadata p t).symm

end Store

/-! ### The age of hits -/

/-- No hit is younger than the clock, and none is younger than its tombstone. -/
structure Aged (s : Store) (clock : ℤ) : Prop where
  hits : ∀ k h, s.hits.get? k = some h → h.hitAtMs ≤ clock
  tombstones : ∀ k h r, s.hits.get? k = some h → s.row h.fingerprintId = some r →
    r.status = .deleted → h.hitAtMs ≤ r.updatedAtMs

namespace Aged

variable {s : Store} {clock : ℤ}

theorem empty (clock : ℤ) : Aged .empty clock where
  hits := fun _ _ h => absurd h (by simp [Store.empty])
  tombstones := fun _ _ _ h => absurd h (by simp [Store.empty])

/-- The clock may go on. -/
theorem mono (h : Aged s clock) {t : ℤ} (h_le : clock ≤ t) : Aged s t :=
  ⟨fun k x h_x => (h.hits k x h_x).trans h_le, h.tombstones⟩

/-- A call that comes no earlier keeps the hits older than their tombstones: a hit that is new is
on a live row, and a tombstone that is new is the latest of all. -/
theorem step (h : Aged s clock) (h_wf : s.Wf) {op : Op} (h_le : clock ≤ op.nowMs) :
    Aged (op.apply s) op.nowMs where
  hits := by
    intro k x h_x
    rcases Op.hits_cases h_x with h_old | ⟨enc, a, r, rfl, rfl, -⟩
    · exact (h.hits k x h_old).trans h_le
    · exact le_refl a.nowMs
  tombstones := by
    intro k x r' h_x h_row' h_deleted
    have h_step := Op.rowStep h_wf.fresh op x.fingerprintId
    rw [h_row'] at h_step
    rcases Op.hits_cases h_x with h_old | ⟨enc, a, q, rfl, rfl, -, h_q, h_live⟩
    · rcases h_step.tombstone_cases h_deleted with
        ⟨r, h_row, h_was, h_time⟩ | ⟨nowMs, r, rfl, -, -, h_time⟩
      · rw [h_time]
        exact h.tombstones k x r h_old h_row h_was
      · -- the deletion is the latest event
        rw [h_time]
        exact (h.hits k x h_old).trans h_le
    · -- the row of a hit that is new is live, and stays so
      rcases h_step.tombstone_cases h_deleted with ⟨r, h_row, h_was, -⟩ | ⟨nowMs, r, h_op, -⟩
      · obtain rfl := Option.some.inj (h_q.symm.trans h_row)
        exact absurd h_was h_live
      · exact Op.noConfusion h_op

/-- So does a run of calls in order. -/
theorem run {ops : List Op} {t : ℤ} (h : Aged s clock) (h_wf : s.Wf)
    (h_clock : ∀ op ∈ ops, clock ≤ op.nowMs) (h_ops : Chronological ops t) (h_le : clock ≤ t) :
    Aged (s.run ops) t := by
  induction ops generalizing s clock with
  | nil => exact h.mono h_le
  | cons op ops ih =>
    obtain ⟨h_later, h_sorted⟩ := List.pairwise_cons.mp h_ops.1
    have h_next := h.step h_wf (h_clock op List.mem_cons_self)
    exact ih h_next (h_wf.step op) h_later
      ⟨h_sorted, fun op' h_op' => h_ops.2 op' (List.mem_cons_of_mem _ h_op')⟩
      (h_ops.2 op List.mem_cons_self)

/-- **No hit is younger than its tombstone**, in every store that calls in order reach. -/
theorem reached {ops : List Op} {t : ℤ} (h_ops : Chronological ops t) :
    Aged (Store.empty.run ops) t := by
  cases ops with
  | nil => exact empty t
  | cons op ops =>
    obtain ⟨h_later, -⟩ := List.pairwise_cons.mp h_ops.1
    refine (empty op.nowMs).run .empty (fun op' h_op' => ?_) h_ops (h_ops.2 op List.mem_cons_self)
    rcases List.mem_cons.mp h_op' with rfl | h_mem
    · exact le_refl _
    · exact h_later op' h_mem

/-- With a hit period of at most the tombstone period a purge takes expired hits only. -/
theorem cascadesExpired {p : RetentionPolicy} (h : Aged s clock)
    (h_p : p.hitRetentionMs ≤ p.tombstoneRetentionMs) (t : ℤ) : s.CascadesExpired p t := by
  intro x h_x h_purged
  -- the hit is as old as its tombstone, which is past the longer period
  obtain ⟨r, h_row, h_purges⟩ := (s.purged_iff p t).mp h_purged
  obtain ⟨h_deleted, h_old⟩ := RetentionPolicy.purges_iff.mp h_purges
  have h_le := h.tombstones x.id x r (s.hits.mem_rows.mp h_x) h_row h_deleted
  rw [RetentionPolicy.expiresHit, decide_eq_true_eq]
  omega

end Aged

/-! ### The reports of a policy -/

/-- A fingerprint that is contributed, hit and deleted at 0. -/
def hitAndDeleted : List Op :=
  [.contribute (fun _ t => t) { sampleContribution "00ff" with nowMs := 0 },
    .reportHit (fun _ t => t) ⟨1, 2, none, none, 0⟩, .softDelete 1 0]

/-- With a longer hit period its hit goes uncounted as soon as the tombstone does. -/
theorem not_cascadesExpired {p : RetentionPolicy}
    (h_p : p.tombstoneRetentionMs < p.hitRetentionMs) :
    ¬ (Store.empty.run hitAndDeleted).CascadesExpired p (p.tombstoneRetentionMs + 1) := by
  intro h_expired
  have h_hit : (⟨1, 1, 2, none, none, 0⟩ : Hit) ∈ (Store.empty.run hitAndDeleted).hits.rows := by
    decide
  obtain ⟨r, h_row, h_deleted, h_time⟩ : ∃ r, (Store.empty.run hitAndDeleted).row 1 = some r ∧
      r.status = .deleted ∧ r.updatedAtMs = 0 := ⟨_, rfl, rfl, rfl⟩
  -- at this time the tombstone is due, and the hit is not
  have h_purges : p.purges (p.tombstoneRetentionMs + 1) r = true :=
    RetentionPolicy.purges_iff.mpr ⟨h_deleted, by omega⟩
  have h_purged := (Store.purged_iff _ p _).mpr ⟨r, h_row, h_purges⟩
  have h_due : (0 : ℤ) < p.tombstoneRetentionMs + 1 - p.hitRetentionMs :=
    of_decide_eq_true (h_expired _ h_hit h_purged)
  omega

/-- **What retention reports.** The counts of a run are exact just when every hit on a purged
tombstone is past its own period, and those of a policy are exact after every run just when its
hit period is at most its tombstone period.

The first condition is on the store before the run, and the second on the policy alone. That the
second is necessary is shown by one run, of a fingerprint that is hit and deleted at the same
moment. -/
theorem retention_reports (p : RetentionPolicy) (h_p : p.Accepted) :
    (∀ ops t, Chronological ops t →
      ((Store.empty.run ops).Reports p t ↔ (Store.empty.run ops).CascadesExpired p t)) ∧
    ((∀ ops t, Chronological ops t → (Store.empty.run ops).Reports p t) ↔
      p.hitRetentionMs ≤ p.tombstoneRetentionMs) := by
  refine ⟨fun ops t _ => Store.reports_iff _ h_p t, ?_⟩
  constructor
  · -- one run of which a longer hit period misses a hit
    intro h_reports
    by_contra h_longer
    have h_tombstone : 0 ≤ p.tombstoneRetentionMs := h_p.2.2.2.1
    have h_order : Chronological hitAndDeleted (p.tombstoneRetentionMs + 1) := by
      refine ⟨by decide, fun op h_op => ?_⟩
      have h_zero : ∀ op ∈ hitAndDeleted, op.nowMs = 0 := by decide
      rw [h_zero op h_op]
      omega
    exact not_cascadesExpired (not_le.mp h_longer)
      ((Store.reports_iff _ h_p _).mp (h_reports _ _ h_order))
  · intro h_le ops t h_ops
    exact (Store.reports_iff _ h_p t).mpr ((Aged.reached h_ops).cascadesExpired h_le t)

/-- A purge under the default periods, in days. -/
theorem retention_reports_default :
    (Store.empty.run hitAndDeleted).Reports ⟨90, 90, 30, 180⟩ 200 :=
  (retention_reports ⟨90, 90, 30, 180⟩ (by decide)).2.mpr (by decide) hitAndDeleted 200
    ⟨by decide, by decide⟩

/-- **A hit goes uncounted**: it is within a period of 100, and its fingerprint, deleted at 20,
past one of 5. -/
theorem retention_uncounted :
    let ops : List Op := [.contribute (fun _ t => t) (sampleContribution "00ff"),
      .reportHit (fun _ t => t) ⟨1, 2, none, none, 15⟩, .softDelete 1 20]
    let p : RetentionPolicy := ⟨100, 100, 5, 5⟩
    p.Accepted ∧ Chronological ops 30 ∧
      (Store.empty.run ops).hits.rows.length = 1 ∧
      ((Store.empty.run ops).applyRetention p 30 false).1 = .ok ⟨0, 0, 0, 1⟩ ∧
      ((Store.empty.run ops).applyRetention p 30 false).2.hits.rows.length = 0 ∧
      ¬ (Store.empty.run ops).Reports p 30 := by
  intro ops p
  have h_p : p.Accepted := by decide
  refine ⟨h_p, ⟨by decide, by decide⟩, rfl, rfl, rfl, ?_⟩
  rw [Store.reports_iff _ h_p]
  intro h_expired
  have h_due := h_expired ⟨1, 1, 2, none, none, 15⟩ (by decide) (by decide)
  exact absurd h_due (by decide)

end FingerprintHub
