import FingerprintHub.Store.Retention

/-!
# Ages

Retention reads ages from columns: `hit_at_ms`, `created_at_ms` and, on a tombstone,
`updated_at_ms`, which other calls write as well. `Timeline` records when things happened
as a caller sees it, from the calls and what they returned. `Timed` couples the two, and
with it every cutoff is a statement about events.
-/

namespace FingerprintHub

/-- When things happened: the report of each hit, the first placing of each flag, and the latest
successful deletion of each fingerprint. It is what a caller could write down, and nothing is ever
taken from it. -/
structure Timeline where
  reported : ℤ → Option ℤ
  placed : ℤ × ℤ → Option ℤ
  deleted : ℤ → Option ℤ

namespace Timeline

/-- Nothing has happened. -/
def empty : Timeline := ⟨fun _ => none, fun _ => none, fun _ => none⟩

/-- What a call adds, read off what it returns. A flag is first placed when its consumer
has none on the fingerprint. -/
def observe (s : Store) (e : Timeline) (op : Op) : Timeline where
  reported := match op with
    | .reportHit enc a =>
      if (s.reportHit enc a).1.isSome then
        Function.update e.reported (s.lastHitId + 1) (some a.nowMs)
      else e.reported
    | _ => e.reported
  placed := match op with
    | .flag enc a =>
      if (s.flag enc a).1.isSome ∧ s.flags.get? (a.fingerprintId, a.consumerId) = none then
        Function.update e.placed (a.fingerprintId, a.consumerId) (some a.nowMs)
      else e.placed
    | _ => e.placed
  deleted := match op with
    | .softDelete id nowMs =>
      if (s.softDelete id nowMs).1 then Function.update e.deleted id (some nowMs) else e.deleted
    | _ => e.deleted

/-- The timeline of the calls of a run. -/
def along (s : Store) (e : Timeline) : List Op → Timeline
  | [] => e
  | op :: ops => along (op.apply s) (observe s e op) ops

end Timeline

/-! ### The columns and the events -/

/-- The columns that retention reads say when things happened. Of a row that is live nothing is
said: its `updated_at_ms` may have been written by anything. -/
structure Timed (s : Store) (e : Timeline) : Prop where
  hits : ∀ k h, s.hits.get? k = some h → e.reported k = some h.hitAtMs
  flags : ∀ k f, s.flags.get? k = some f → e.placed k = some f.createdAtMs
  tombstones : ∀ id r, s.row id = some r → r.status = .deleted → e.deleted id = some r.updatedAtMs

namespace Timed

variable {s : Store} {e : Timeline}

theorem empty : Timed .empty .empty where
  hits := fun _ _ h => absurd h (by simp [Store.empty])
  flags := fun _ _ h => absurd h (by simp [Store.empty])
  tombstones := fun _ _ h => absurd h (by simp)

/-- Hits are reported once, and their column never changes. -/
theorem hits_step (h : Timed s e) (h_wf : s.Wf) (op : Op) (k : ℤ) (x : Hit)
    (h_get : (op.apply s).hits.get? k = some x) :
    (e.observe s op).reported k = some x.hitAtMs := by
  rcases Op.hits_cases h_get with h_old | ⟨enc, a, r, rfl, rfl, rfl, h_row, h_live⟩
  · have h_reported := h.hits k x h_old
    have h_le := h_wf.hit_le k x h_old
    cases op with
    | reportHit enc a =>
      -- the id of a new hit is above that of an old one
      show (if _ then Function.update _ _ _ else e.reported) k = _
      split
      · rw [Function.update_of_ne (by omega)]
        exact h_reported
      · exact h_reported
    | _ => exact h_reported
  · -- the call has returned a count, so it is on the timeline
    rcases s.reportHit_cases enc a with ⟨h_gone, -⟩ | ⟨r', -, -, h_hit⟩
    · exact absurd (h_gone r h_row) h_live
    · have h_some : (s.reportHit enc a).1.isSome = true := by rw [h_hit]; rfl
      show (if _ then Function.update _ _ _ else e.reported) _ = _
      rw [if_pos h_some]
      exact Function.update_self _ _ _

/-- A flag keeps the time it was first placed, since a conflict does nothing. -/
theorem flags_step (h : Timed s e) (op : Op) (k : ℤ × ℤ) (f : Flag)
    (h_get : (op.apply s).flags.get? k = some f) :
    (e.observe s op).placed k = some f.createdAtMs := by
  rcases Op.flags_cases h_get with
    ⟨f₀, h_old, h_f⟩ | ⟨enc, a, r, rfl, rfl, rfl, h_none, h_row, h_live⟩
  · have h_placed := h.flags k f₀ h_old
    -- clearing the reason leaves the time
    have h_created : f.createdAtMs = f₀.createdAtMs := by
      rcases h_f with rfl | rfl
      · rfl
      · rfl
    rw [h_created]
    cases op with
    | flag enc a =>
      show (if _ then Function.update _ _ _ else e.placed) k = _
      split
      · next h_first =>
        -- a flag that is there already is not placed again
        rw [Function.update_of_ne]
        · exact h_placed
        · rintro rfl
          exact absurd (h_old.symm.trans h_first.2) (by simp)
      · exact h_placed
    | _ => exact h_placed
  -- a flag that is new was placed by this call, which returned a result
  · have h_some : (s.flag enc a).1.isSome = true := by
      rcases s.flag_cases enc a with ⟨h_gone, -⟩ | ⟨r', -, -, -, h_flag⟩ | ⟨r', -, -, -, h_flag⟩
      · exact absurd (h_gone r h_row) h_live
      · rw [h_flag]; rfl
      · rw [h_flag]; rfl
    show (if _ then Function.update _ _ _ else e.placed) _ = _
    rw [if_pos ⟨h_some, h_none⟩]
    exact Function.update_self _ _ _

/-- A deletion that finds a tombstone leaves the time of its deletion. -/
theorem deleted_observe (op : Op) {id : ℤ} {r : Fingerprint} (h_row : s.row id = some r)
    (h_deleted : r.status = .deleted) : (e.observe s op).deleted id = e.deleted id := by
  cases op with
  | softDelete i nowMs =>
    show (if _ then Function.update _ _ _ else e.deleted) id = _
    split
    · next h_done =>
      refine Function.update_of_ne (fun h_id => ?_) _ _
      subst h_id
      rcases s.softDelete_cases id nowMs with ⟨-, h_same⟩ | ⟨q, h_q, h_live, -⟩
      · rw [h_same] at h_done
        exact absurd h_done (by simp)
      · obtain rfl := Option.some.inj (h_row.symm.trans h_q)
        exact h_live h_deleted
    · rfl
  | _ => rfl

/-- A tombstone keeps the time of its deletion: no other call touches it. -/
theorem tombstones_step (h : Timed s e) (h_wf : s.Wf) (op : Op) (id : ℤ) (r' : Fingerprint)
    (h_row' : (op.apply s).row id = some r') (h_deleted : r'.status = .deleted) :
    (e.observe s op).deleted id = some r'.updatedAtMs := by
  have h_step := Op.rowStep h_wf.fresh op id
  rw [h_row'] at h_step
  rcases h_step.tombstone_cases h_deleted with
    ⟨r, h_row, h_old, h_time⟩ | ⟨nowMs, r, rfl, h_row, h_live, h_time⟩
  · rw [deleted_observe op h_row h_old, h_time]
    exact h.tombstones id r h_row h_old
  · -- the row becomes a tombstone at the time of the call
    rcases s.softDelete_cases id nowMs with ⟨h_gone, -⟩ | ⟨q, -, -, h_done⟩
    · exact absurd (h_gone r h_row) h_live
    · have h_true : (s.softDelete id nowMs).1 = true := by rw [h_done]
      show (if _ then Function.update _ _ _ else e.deleted) id = _
      rw [if_pos h_true, h_time]
      exact Function.update_self _ _ _

/-- One call keeps the columns and the timeline together. -/
theorem step (h : Timed s e) (h_wf : s.Wf) (op : Op) : Timed (op.apply s) (e.observe s op) :=
  ⟨h.hits_step h_wf op, h.flags_step op, h.tombstones_step h_wf op⟩

/-- **The columns say when things happened**, after every run. -/
theorem run (h : Timed s e) (h_wf : s.Wf) (ops : List Op) :
    Timed (s.run ops) (Timeline.along s e ops) := by
  induction ops generalizing s e with
  | nil => exact h
  | cons op ops ih => exact ih (h.step h_wf op) (h_wf.step op)

end Timed

/-! ### The periods -/

/-- A hit, a flag or a deletion that is aimed at a fingerprint: the calls with which others might
try to keep a tombstone from expiring. -/
def Op.AimsAt (id : ℤ) : Op → Prop
  | .reportHit _ a => a.fingerprintId = id
  | .flag _ a => a.fingerprintId = id
  | .softDelete i _ => i = id
  | _ => False

/-- What retention at `t` does to a store `s` with the timeline `e`, measured from the
events. -/
structure Measured (p : RetentionPolicy) (t : ℤ) (s : Store) (e : Timeline) (s' : Store) :
    Prop where
  /-- No hit reported before the hit period remains. -/
  hits : ∀ k τ, e.reported k = some τ → τ < t - p.hitRetentionMs → s'.hits.get? k = none
  /-- No flag first placed before the period of flag reasons keeps one. -/
  reasons : ∀ k τ f, e.placed k = some τ → τ < t - p.flagReasonRetentionMs →
    s'.flags.get? k = some f → f.reason = none
  /-- No row deleted before the tombstone period remains, unless it is live again. -/
  tombstones : ∀ id τ r, e.deleted id = some τ → τ < t - p.tombstoneRetentionMs →
    s'.row id = some r → r.Live
  /-- No row deleted before the metadata period keeps its metadata, unless it is live
  again. -/
  metadata : ∀ id τ r, e.deleted id = some τ → τ < t - p.tombstoneMetadataRetentionMs →
    s'.row id = some r → r.Live ∨ (r.sourceGuildId = none ∧ r.reason = none ∧ r.sourceUrl = none)
  /-- No row deleted since the start of the tombstone period is purged, -/
  kept : ∀ id τ r, e.deleted id = some τ → t - p.tombstoneRetentionMs ≤ τ →
    s.row id = some r → ∃ r', s'.row id = some r'
  /-- and none deleted since the start of the metadata period loses anything. -/
  unchanged : ∀ id τ r, e.deleted id = some τ → t - p.tombstoneMetadataRetentionMs ≤ τ →
    s.row id = some r → s'.row id = some r
  /-- No live row changes. -/
  live : ∀ id r, s.row id = some r → r.Live → s'.row id = some r
  /-- Hits, flags and deletions aimed at a tombstone do nothing to its expiry. -/
  inert : ∀ id r op, s.row id = some r → r.status = .deleted → op.AimsAt id →
    op.apply s = s ∧ (e.observe s op).deleted id = e.deleted id

namespace Store

/-- A call aimed at a tombstone does nothing. -/
theorem apply_of_aimsAt {s : Store} {id : ℤ} {r : Fingerprint} (h_row : s.row id = some r)
    (h_deleted : r.status = .deleted) {op : Op} (h_aims : op.AimsAt id) : op.apply s = s := by
  -- the row is no live one, under whatever name it is found
  have h_dead : ∀ q, s.row id = some q → ¬ q.Live := by
    intro q h_q h_live
    obtain rfl := Option.some.inj (h_row.symm.trans h_q)
    exact h_live h_deleted
  cases op with
  | reportHit enc a =>
    -- each of the calls looks for a live row first
    obtain rfl := h_aims
    rcases s.reportHit_cases enc a with ⟨-, h⟩ | ⟨q, h_q, h_live, -⟩
    · rw [Op.apply, h]
    · exact absurd h_live (h_dead q h_q)
  | flag enc a =>
    obtain rfl := h_aims
    rcases s.flag_cases enc a with ⟨-, h⟩ | ⟨q, h_q, h_active, -⟩ | ⟨q, h_q, h_live, -⟩
    · rw [Op.apply, h]
    · refine absurd ?_ (h_dead q h_q)
      rw [Fingerprint.Live, h_active]
      exact fun h_eq => Status.noConfusion h_eq
    · exact absurd h_live (h_dead q h_q)
  | softDelete i nowMs =>
    obtain rfl := h_aims
    rcases s.softDelete_cases i nowMs with ⟨-, h⟩ | ⟨q, h_q, h_live, -⟩
    · rw [Op.apply, h]
    · exact absurd h_live (h_dead q h_q)
  | contribute _ _ => exact h_aims.elim
  | applyRetention _ _ _ => exact h_aims.elim

/-- A row that is not due is left as it is. -/
theorem row_retain_of_not_due {s : Store} {p : RetentionPolicy} {t : ℤ} {id : ℤ}
    {r : Fingerprint} (h_row : s.row id = some r) (h_purges : p.purges t r = false)
    (h_anonymizes : p.anonymizes t r = false) : (s.retain p t).2.row id = some r := by
  rw [row_retain, h_row, Option.filter_some, h_purges]
  show some (if p.anonymizes t r then anonymizeRow r else r) = some r
  rw [h_anonymizes]
  rfl

end Store

/-- What retention leaves under an id was there, was not due for a purge, and is redacted
or was not due for that. -/
theorem Store.row_of_retain {s : Store} {p : RetentionPolicy} {t : ℤ} {id : ℤ}
    {r' : Fingerprint} (h : (s.retain p t).2.row id = some r') :
    ∃ r, s.row id = some r ∧ p.purges t r = false ∧
      r' = if p.anonymizes t r then anonymizeRow r else r := by
  rw [row_retain] at h
  obtain ⟨r, h_r, rfl⟩ := Option.map_eq_some_iff.mp h
  obtain ⟨h_row, h_kept⟩ := Option.filter_eq_some_iff.mp h_r
  exact ⟨r, h_row, by simpa using h_kept, rfl⟩

/-- What a run does to a store whose columns say when things happened. Each field is a cutoff on a
column, read as one on events. -/
theorem Timed.measured {s : Store} {e : Timeline} (h : Timed s e) (p : RetentionPolicy) (t : ℤ)
    (h_p : p.tombstoneMetadataRetentionMs ≤ p.tombstoneRetentionMs) :
    Measured p t s e (s.retain p t).2 where
  hits := by
    intro k τ h_τ h_old
    rw [Store.hits_retain, Option.filter_eq_none_iff]
    intro x h_x
    have h_at : τ = x.hitAtMs := Option.some.inj (h_τ.symm.trans (h.hits k x h_x))
    -- its column says when it was reported, so it is past the cutoff
    have h_due : p.expiresHit t x = true := by
      rw [RetentionPolicy.expiresHit, decide_eq_true_eq]
      omega
    rw [h_due]
    simp
  reasons := by
    intro k τ f h_τ h_old h_f
    rw [Store.flags_retain, Option.filter_eq_some_iff, Option.map_eq_some_iff] at h_f
    obtain ⟨⟨f₀, h_f₀, rfl⟩, -⟩ := h_f
    have h_at : τ = f₀.createdAtMs := Option.some.inj (h_τ.symm.trans (h.flags k f₀ h_f₀))
    split
    · rfl
    · next h_not =>
      rw [RetentionPolicy.clearsReason, Bool.and_eq_true, decide_eq_true_eq] at h_not
      -- a reason that is left would have been due
      by_contra h_some
      exact h_not ⟨Option.isSome_iff_ne_none.mpr h_some, by omega⟩
  tombstones := by
    intro id τ r' h_τ h_old h_row' h_deleted
    obtain ⟨r, h_row, h_kept, h_r'⟩ := Store.row_of_retain h_row'
    -- redaction leaves the status, so it was a tombstone before
    have h_status : r.status = .deleted := by
      rw [h_r'] at h_deleted
      split at h_deleted
      · exact h_deleted
      · exact h_deleted
    have h_at := Option.some.inj (h_τ.symm.trans (h.tombstones id r h_row h_status))
    have h_due := RetentionPolicy.purges_iff.mpr ⟨h_status, h_at ▸ h_old⟩
    exact absurd (h_due.symm.trans h_kept) (by simp)
  metadata := by
    intro id τ r' h_τ h_old h_row'
    obtain ⟨r, h_row, -, h_r'⟩ := Store.row_of_retain h_row'
    by_cases h_due : p.anonymizes t r = true
    · rw [h_r', if_pos h_due]
      exact Or.inr ⟨rfl, rfl, rfl⟩
    · rw [h_r', if_neg h_due]
      by_cases h_status : r.status = .deleted
      · have h_at := Option.some.inj (h_τ.symm.trans (h.tombstones id r h_row h_status))
        -- a tombstone that was not redacted had nothing to redact
        rw [RetentionPolicy.anonymizes_iff] at h_due
        refine Or.inr ?_
        by_contra h_some
        exact h_due ⟨⟨h_status, h_at ▸ h_old⟩, h_some⟩
      · exact Or.inl h_status
  kept := by
    intro id τ r h_τ h_young h_row
    have h_kept : p.purges t r = false := by
      refine Bool.eq_false_of_not_eq_true (fun h_due => ?_)
      obtain ⟨h_status, h_old⟩ := RetentionPolicy.purges_iff.mp h_due
      have h_at := Option.some.inj (h_τ.symm.trans (h.tombstones id r h_row h_status))
      omega
    rw [Store.row_retain, h_row, Option.filter_some, h_kept]
    exact ⟨_, rfl⟩
  unchanged := by
    intro id τ r h_τ h_young h_row
    -- the metadata period is the shorter one, so neither is due
    have h_at : r.status = .deleted → τ = r.updatedAtMs := fun h_status =>
      Option.some.inj (h_τ.symm.trans (h.tombstones id r h_row h_status))
    refine Store.row_retain_of_not_due h_row ?_ ?_
    · refine Bool.eq_false_of_not_eq_true (fun h_due => ?_)
      obtain ⟨h_status, h_old⟩ := RetentionPolicy.purges_iff.mp h_due
      have h_eq := h_at h_status
      omega
    · refine Bool.eq_false_of_not_eq_true (fun h_due => ?_)
      obtain ⟨⟨h_status, h_old⟩, -⟩ := RetentionPolicy.anonymizes_iff.mp h_due
      have h_eq := h_at h_status
      omega
  live := by
    intro id r h_row h_live
    refine Store.row_retain_of_not_due h_row ?_ ?_
    · exact Bool.eq_false_of_not_eq_true (fun h_due =>
        h_live (RetentionPolicy.purges_iff.mp h_due).1)
    · exact Bool.eq_false_of_not_eq_true (fun h_due =>
        h_live (RetentionPolicy.anonymizes_iff.mp h_due).1.1)
  inert := fun id r op h_row h_deleted h_aims =>
    ⟨Store.apply_of_aimsAt h_row h_deleted h_aims, Timed.deleted_observe op h_row h_deleted⟩

/-- **Retention periods run from the events.** In the store any run of calls has reached, every
cutoff of a policy is one on what the callers did and when: the periods of hits run from their
report, those of flag reasons from the first flag, and those of tombstones from their deletion.

A row that was deleted long ago may be there all the same, if it was contributed again; it is live
then (`retention_keeps_revived`). -/
theorem retention_measured (ops : List Op) (p : RetentionPolicy) (h_p : p.Accepted) (t : ℤ) :
    Measured p t (Store.empty.run ops) (Timeline.along .empty .empty ops)
      ((Store.empty.run ops).applyRetention p t false).2 := by
  have h_timed := Timed.empty.run Store.Wf.empty ops
  have h_measured := h_timed.measured p t h_p.2.2.2.2
  rcases (Store.empty.run ops).applyRetention_cases p t false with ⟨h_not, -⟩ | ⟨-, h_run⟩
  · exact absurd h_p h_not
  · rw [h_run]
    exact h_measured

/-- A fingerprint deleted at 20 and hit again at 25 expires from 20 on. -/
theorem retention_measured_tombstone :
    let ops : List Op := [.contribute (fun _ t => t) (sampleContribution "00ff"),
      .softDelete 1 20, .reportHit (fun _ t => t) ⟨1, 2, none, none, 25⟩]
    ∀ r, ((Store.empty.run ops).applyRetention ⟨5, 5, 5, 10⟩ 31 false).2.row 1 = some r →
      r.Live := by
  intro ops r h_row
  exact (retention_measured ops ⟨5, 5, 5, 10⟩ (by decide) 31).tombstones 1 20 r rfl (by decide)
    h_row

/-- **A row deleted long ago may remain**: it was contributed again. -/
theorem retention_keeps_revived :
    let ops : List Op := [.contribute (fun _ t => t) (sampleContribution "00ff"),
      .softDelete 1 20, .contribute (fun _ t => t)
        { sampleContribution "00ff" with reason := some "again", nowMs := 30 }]
    ops.Pairwise (fun op op' => op.nowMs ≤ op'.nowMs) ∧
    ∃ r, (Timeline.along .empty .empty ops).deleted 1 = some 20 ∧ (20 : ℤ) < 100 - 10 ∧
      ((Store.empty.run ops).applyRetention ⟨5, 5, 5, 10⟩ 100 false).2.row 1 = some r ∧
      r.reason = some "again" := by
  intro ops
  refine ⟨by decide, _, rfl, by decide, rfl, rfl⟩

end FingerprintHub
