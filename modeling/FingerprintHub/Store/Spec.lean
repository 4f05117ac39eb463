import FingerprintHub.Store.Operations

/-!
# What each operation does

Two layers of lemmas that keep the definitions of `Operations.lean` out of every
later proof. The first reads the tables after one statement. The second, one
`…_cases` lemma for each operation, lists the outcomes of a whole operation with
the guard of each, the value returned and the store left behind.
-/

namespace FingerprintHub

@[simp] theorem freshRow_owned (enc : EncryptText) (a : ContributeArgs) (id : ℤ) (seq : ℕ) :
    (freshRow enc a id seq).owned = a.owned := rfl

@[simp] theorem resurrectRow_owned (enc : EncryptText) (a : ContributeArgs) (seq : ℕ)
    (r : Fingerprint) : (resurrectRow enc a seq r).owned = r.owned := rfl

@[simp] theorem hitRow_owned (nowMs : ℤ) (r : Fingerprint) : (hitRow nowMs r).owned = r.owned := rfl

@[simp] theorem hideRow_owned (n seq : ℕ) (nowMs : ℤ) (r : Fingerprint) :
    (hideRow n seq nowMs r).owned = r.owned := rfl

@[simp] theorem countFlagRow_owned (n : ℕ) (nowMs : ℤ) (r : Fingerprint) :
    (countFlagRow n nowMs r).owned = r.owned := rfl

@[simp] theorem deleteRow_owned (seq : ℕ) (nowMs : ℤ) (r : Fingerprint) :
    (deleteRow seq nowMs r).owned = r.owned := rfl

@[simp] theorem anonymizeRow_owned (r : Fingerprint) : (anonymizeRow r).owned = r.owned := rfl

namespace Store

variable (s : Store)

/-! ### Reading the tables after a statement -/

section Statements

variable {s} (id : ℤ) (set : Fingerprint → Fingerprint) (h : ∀ r, (set r).id = r.id)

@[simp] theorem row_updateRow (id' : ℤ) :
    (s.updateRow id set h).row id' = if id' = id then (s.row id).map set else s.row id' := by
  unfold updateRow row
  rw [Table.get?_update]
  by_cases hid : id' = id
  · -- the row with the id is found by the `WHERE`, and no other
    subst hid
    rw [if_pos rfl]
    cases hr : s.fingerprints.get? id' with
    | none => rfl
    | some r => simp [Table.key_of_get? hr]
  · rw [if_neg hid]
    cases hr : s.fingerprints.get? id' with
    | none => rfl
    | some r => simp [Table.key_of_get? hr, hid]

@[simp] theorem syncSeq_updateRow : (s.updateRow id set h).syncSeq = s.syncSeq := rfl
@[simp] theorem lastId_updateRow : (s.updateRow id set h).lastId = s.lastId := rfl
@[simp] theorem lastHitId_updateRow : (s.updateRow id set h).lastHitId = s.lastHitId := rfl
@[simp] theorem hits_updateRow : (s.updateRow id set h).hits = s.hits := rfl
@[simp] theorem flags_updateRow : (s.updateRow id set h).flags = s.flags := rfl

@[simp] theorem row_nextSeq : s.nextSeq.row id = s.row id := rfl
@[simp] theorem syncSeq_nextSeq : s.nextSeq.syncSeq = s.syncSeq + 1 := rfl
@[simp] theorem lastId_nextSeq : s.nextSeq.lastId = s.lastId := rfl
@[simp] theorem lastHitId_nextSeq : s.nextSeq.lastHitId = s.lastHitId := rfl
@[simp] theorem hits_nextSeq : s.nextSeq.hits = s.hits := rfl
@[simp] theorem flags_nextSeq : s.nextSeq.flags = s.flags := rfl

@[simp] theorem row_deleteFlags (id' : ℤ) : (s.deleteFlags id).row id' = s.row id' := rfl
@[simp] theorem syncSeq_deleteFlags : (s.deleteFlags id).syncSeq = s.syncSeq := rfl
@[simp] theorem lastId_deleteFlags : (s.deleteFlags id).lastId = s.lastId := rfl
@[simp] theorem lastHitId_deleteFlags : (s.deleteFlags id).lastHitId = s.lastHitId := rfl
@[simp] theorem hits_deleteFlags : (s.deleteFlags id).hits = s.hits := rfl

variable (enc : EncryptText) (ah : HitArgs) (af : FlagArgs)

@[simp] theorem row_recordHit : (s.recordHit enc ah).row id = s.row id := rfl
@[simp] theorem syncSeq_recordHit : (s.recordHit enc ah).syncSeq = s.syncSeq := rfl
@[simp] theorem lastId_recordHit : (s.recordHit enc ah).lastId = s.lastId := rfl
@[simp] theorem lastHitId_recordHit : (s.recordHit enc ah).lastHitId = s.lastHitId + 1 := rfl
@[simp] theorem flags_recordHit : (s.recordHit enc ah).flags = s.flags := rfl

@[simp] theorem row_recordFlag : (s.recordFlag enc af).row id = s.row id := rfl
@[simp] theorem syncSeq_recordFlag : (s.recordFlag enc af).syncSeq = s.syncSeq := rfl
@[simp] theorem lastId_recordFlag : (s.recordFlag enc af).lastId = s.lastId := rfl
@[simp] theorem lastHitId_recordFlag : (s.recordFlag enc af).lastHitId = s.lastHitId := rfl
@[simp] theorem hits_recordFlag : (s.recordFlag enc af).hits = s.hits := rfl

end Statements

/-- A key found is carried by a row. -/
theorem row_of_findOwned {s : Store} {key : String × ℤ} {r : Fingerprint}
    (h : s.findOwned key = some r) : s.row r.id = some r ∧ r.owned = key := by
  refine ⟨(Table.mem_rows _).mp (List.mem_of_find?_eq_some h), ?_⟩
  simpa using List.find?_some h

/-- A key not found is carried by no row. -/
theorem owned_ne_of_findOwned {s : Store} {key : String × ℤ} (h : s.findOwned key = none)
    {id : ℤ} {r : Fingerprint} (hr : s.row id = some r) : r.owned ≠ key := by
  simpa using List.find?_eq_none.mp h r (Table.mem_of_get? hr)

/-- The number of distinct flaggers is the number of flag rows: the unique key
leaves no two flags of one consumer on a fingerprint. -/
theorem countFlaggers_eq_length (id : ℤ) : s.countFlaggers id = (s.flagsOf id).length := by
  unfold countFlaggers
  have h_nodup : ((s.flagsOf id).map (·.consumerId)).Nodup := by
    refine List.Nodup.map_on ?_ (List.Nodup.of_map _ (s.flags.nodup_map_filter _))
    intro f hf f' hf' h_eq
    have h := mem_flagsOf.mp hf
    have h' := mem_flagsOf.mp hf'
    -- the same fingerprint and the same consumer, so the same key
    have h_key : f.key = f'.key := Prod.ext (h.2.trans h'.2.symm) h_eq
    exact Option.some.inj (h.1.symm.trans (h_key ▸ h'.1))
  -- so `DISTINCT` drops nothing
  rw [h_nodup.dedup, List.length_map]

/-! ### The outcomes of a write -/

/-- The store after an insertion under a free key. -/
def inserted (enc : EncryptText) (a : ContributeArgs) : Store :=
  { s with
    syncSeq := s.syncSeq + 1
    lastId := s.lastId + 1
    fingerprints := s.fingerprints.insert (freshRow enc a (s.lastId + 1) (s.syncSeq + 1)) }

section Inserted

variable {s} (enc : EncryptText) (a : ContributeArgs)

@[simp] theorem syncSeq_inserted : (s.inserted enc a).syncSeq = s.syncSeq + 1 := rfl
@[simp] theorem lastId_inserted : (s.inserted enc a).lastId = s.lastId + 1 := rfl
@[simp] theorem lastHitId_inserted : (s.inserted enc a).lastHitId = s.lastHitId := rfl
@[simp] theorem hits_inserted : (s.inserted enc a).hits = s.hits := rfl
@[simp] theorem flags_inserted : (s.inserted enc a).flags = s.flags := rfl

/-- An insertion is seen under the new id, and nowhere else. -/
theorem row_inserted (h : s.row (s.lastId + 1) = none) (id : ℤ) :
    (s.inserted enc a).row id = if s.lastId + 1 = id
      then some (freshRow enc a (s.lastId + 1) (s.syncSeq + 1)) else s.row id :=
  Table.get?_insert_of_none h id

end Inserted

/-- Without a conflict the inserting branch writes the row of the arguments. -/
theorem insertFingerprint_of_none {s : Store} {enc : EncryptText} {a : ContributeArgs}
    (h : s.findOwned a.owned = none) :
    s.insertFingerprint enc a =
      ((some (.written (freshRow enc a (s.lastId + 1) (s.syncSeq + 1))), true),
        s.inserted enc a) := by
  have h' : Store.findOwned { s.nextSeq with lastId := s.lastId + 1 } a.owned = none := h
  simp only [insertFingerprint, h']
  rfl

/-- `contribute` refuses on behalf of a live row, resurrects a tombstone, or inserts. The three
cases exclude each other by what `findOwned` returns, and each names the answer and the store. -/
theorem contribute_cases (enc : EncryptText) (a : ContributeArgs) :
    (∃ r, s.findOwned a.owned = some r ∧ r.Live ∧
      s.contribute enc a = ((some (.existing r.id r.status), false), s)) ∨
    (∃ r, s.findOwned a.owned = some r ∧ r.status = .deleted ∧
      s.contribute enc a = ((some (.written (resurrectRow enc a (s.syncSeq + 1) r)), true),
        (s.deleteFlags r.id).nextSeq.updateRow r.id (resurrectRow enc a (s.syncSeq + 1))
          (resurrectRow_id enc a _))) ∨
    (s.findOwned a.owned = none ∧
      s.contribute enc a =
        ((some (.written (freshRow enc a (s.lastId + 1) (s.syncSeq + 1))), true),
          s.inserted enc a)) := by
  cases h : s.findOwned a.owned with
  | none =>
    -- no row has the key: an insertion
    refine Or.inr (Or.inr ⟨rfl, ?_⟩)
    simp only [contribute, h]
    exact insertFingerprint_of_none h
  | some r =>
    by_cases hr : r.status = .deleted
    · refine Or.inr (Or.inl ⟨r, rfl, hr, ?_⟩)
      simp only [contribute, h, hr, ne_eq, not_true, if_false, resurrect]
      -- what `RETURNING` reads is the row just rewritten
      rw [row_updateRow, if_pos rfl, row_nextSeq, row_deleteFlags, (row_of_findOwned h).1]
      rfl
    · refine Or.inl ⟨r, rfl, hr, ?_⟩
      simp only [contribute, h]
      exact if_pos hr

/-- The row a hit or a flag is aimed at is missing or deleted: both are answered alike. -/
def Gone (id : ℤ) : Prop := ∀ r, s.row id = some r → r.status = .deleted

variable {s} in
/-- A row is gone, or it is there and live. -/
theorem gone_or_live (id : ℤ) : s.Gone id ∨ ∃ r, s.row id = some r ∧ r.Live := by
  cases h : s.row id with
  | none => exact Or.inl (fun r hr => by rw [h] at hr; exact absurd hr (by simp))
  | some r =>
    by_cases hr : r.status = .deleted
    · exact Or.inl (fun r' hr' => by rw [h] at hr'; obtain rfl := Option.some.inj hr'; exact hr)
    · exact Or.inr ⟨r, rfl, hr⟩

/-- `report_hit` does nothing on a row that is gone, and else records the hit and
raises the count. -/
theorem reportHit_cases (enc : EncryptText) (a : HitArgs) :
    (s.Gone a.fingerprintId ∧ s.reportHit enc a = (none, s)) ∨
    (∃ r, s.row a.fingerprintId = some r ∧ r.Live ∧
      s.reportHit enc a = (some (r.hitCount + 1),
        (s.recordHit enc a).updateRow a.fingerprintId (hitRow a.nowMs) (hitRow_id a.nowMs))) := by
  rcases gone_or_live (s := s) a.fingerprintId with h_gone | ⟨r, hr, h_live⟩
  · refine Or.inl ⟨h_gone, ?_⟩
    cases h : s.row a.fingerprintId with
    | none => simp only [reportHit, h]
    | some r => simp only [reportHit, h, h_gone r h, if_true]
  · refine Or.inr ⟨r, hr, h_live, ?_⟩
    simp only [reportHit, hr]
    -- `RETURNING hit_count` reads the count just raised
    rw [if_neg h_live, row_updateRow, if_pos rfl, row_recordHit, hr]
    rfl

/-- The flaggers `flag` counts: those recorded, with its own flag. -/
def flagCountAfter (enc : EncryptText) (a : FlagArgs) : ℕ :=
  (s.recordFlag enc a).countFlaggers a.fingerprintId

/-- `flag` does nothing on a row that is gone; else it records the flag and either hides the row
or only writes the count. A hidden row is never hidden again, so that the second flagger past the
threshold draws no `sync_seq`. -/
theorem flag_cases (enc : EncryptText) (a : FlagArgs) :
    (s.Gone a.fingerprintId ∧ s.flag enc a = (none, s)) ∨
    (∃ r, s.row a.fingerprintId = some r ∧ r.status = .active ∧
      a.autoHideThreshold ≤ s.flagCountAfter enc a ∧
      s.flag enc a = (some ⟨s.flagCountAfter enc a, .hidden, true⟩,
        (s.recordFlag enc a).nextSeq.updateRow a.fingerprintId
          (hideRow (s.flagCountAfter enc a) (s.syncSeq + 1) a.nowMs)
          (hideRow_id _ _ a.nowMs))) ∨
    (∃ r, s.row a.fingerprintId = some r ∧ r.Live ∧
      ¬ (a.autoHideThreshold ≤ s.flagCountAfter enc a ∧ r.status = .active) ∧
      s.flag enc a = (some ⟨s.flagCountAfter enc a, r.status, false⟩,
        (s.recordFlag enc a).updateRow a.fingerprintId
          (countFlagRow (s.flagCountAfter enc a) a.nowMs) (countFlagRow_id _ a.nowMs))) := by
  rcases gone_or_live (s := s) a.fingerprintId with h_gone | ⟨r, hr, h_live⟩
  · refine Or.inl ⟨h_gone, ?_⟩
    cases h : s.row a.fingerprintId with
    | none => simp only [flag, h]
    | some r => simp only [flag, h, h_gone r h, if_true]
  · -- the branch is decided by the count after the insertion
    by_cases h_hide : a.autoHideThreshold ≤ s.flagCountAfter enc a ∧ r.status = .active
    · refine Or.inr (Or.inl ⟨r, hr, h_hide.2, h_hide.1, ?_⟩)
      simp only [flag, hr]
      rw [if_neg h_live]
      exact if_pos h_hide
    · refine Or.inr (Or.inr ⟨r, hr, h_live, h_hide, ?_⟩)
      simp only [flag, hr]
      rw [if_neg h_live]
      exact if_neg h_hide

/-- `soft_delete` does nothing on a row that is gone, and else makes it a
tombstone. -/
theorem softDelete_cases (id : ℤ) (nowMs : ℤ) :
    (s.Gone id ∧ s.softDelete id nowMs = (false, s)) ∨
    (∃ r, s.row id = some r ∧ r.Live ∧
      s.softDelete id nowMs = (true,
        s.nextSeq.updateRow id (deleteRow (s.syncSeq + 1) nowMs) (deleteRow_id _ nowMs))) := by
  rcases gone_or_live (s := s) id with h_gone | ⟨r, hr, h_live⟩
  · refine Or.inl ⟨h_gone, ?_⟩
    cases h : s.row id with
    | none => simp only [softDelete, h]
    | some r => simp only [softDelete, h, h_gone r h, if_true]
  · refine Or.inr ⟨r, hr, h_live, ?_⟩
    simp only [softDelete, hr]
    rw [if_neg h_live]
    rfl

/-! ### Retention -/

/-- `apply_retention` raises and rolls back on a policy that is not accepted,
commits the four statements on one that is, and commits nothing in a dry run. -/
theorem applyRetention_cases (p : RetentionPolicy) (nowMs : ℤ) (dryRun : Bool) :
    (¬ p.Accepted ∧ (∃ msg, (s.applyRetention p nowMs dryRun).1 = .error msg) ∧
      (s.applyRetention p nowMs dryRun).2 = s) ∨
    (p.Accepted ∧ s.applyRetention p nowMs dryRun =
      (.ok (s.retain p nowMs).1, if dryRun then s else (s.retain p nowMs).2)) := by
  unfold applyRetention RetentionPolicy.Accepted
  split
  · -- one of the four periods is negative
    next h => exact Or.inl ⟨by omega, ⟨_, rfl⟩, rfl⟩
  · split
    · -- metadata is to be kept longer than the tombstone
      next h => exact Or.inl ⟨by omega, ⟨_, rfl⟩, rfl⟩
    · exact Or.inr ⟨by omega, rfl⟩

/-- The row under an id after the four statements: purged, anonymised, or as it
was. -/
theorem row_retain (p : RetentionPolicy) (nowMs : ℤ) (id : ℤ) :
    (s.retain p nowMs).2.row id = ((s.row id).filter (fun r => !p.purges nowMs r)).map
      (fun r => if p.anonymizes nowMs r then anonymizeRow r else r) := by
  unfold retain purge row
  rw [Table.get?_update, Table.get?_delete]

/-- A flag survives the four statements unless its fingerprint is purged, and may
lose its reason. -/
theorem flags_retain (p : RetentionPolicy) (nowMs : ℤ) (k : ℤ × ℤ) :
    (s.retain p nowMs).2.flags.get? k = ((s.flags.get? k).map
      (fun f => if p.clearsReason nowMs f then clearReason f else f)).filter
      (fun f => !decide (f.fingerprintId ∈
        (s.fingerprints.select (p.purges nowMs)).map (·.id))) := by
  unfold retain purge
  rw [Table.get?_delete, Table.get?_update]

/-- A hit survives the four statements unless it is older than the hit cutoff or
its fingerprint is purged. -/
theorem hits_retain (p : RetentionPolicy) (nowMs : ℤ) (k : ℤ) :
    (s.retain p nowMs).2.hits.get? k = (s.hits.get? k).filter (fun h => !p.expiresHit nowMs h &&
      !decide (h.fingerprintId ∈ (s.fingerprints.select (p.purges nowMs)).map (·.id))) := by
  unfold retain purge
  rw [Table.get?_delete, Table.get?_delete, Option.filter_filter]

@[simp] theorem syncSeq_retain (p : RetentionPolicy) (nowMs : ℤ) :
    (s.retain p nowMs).2.syncSeq = s.syncSeq := rfl

@[simp] theorem lastId_retain (p : RetentionPolicy) (nowMs : ℤ) :
    (s.retain p nowMs).2.lastId = s.lastId := rfl

@[simp] theorem lastHitId_retain (p : RetentionPolicy) (nowMs : ℤ) :
    (s.retain p nowMs).2.lastHitId = s.lastHitId := rfl

/-- The ids a purge takes with it. -/
theorem mem_purged {p : Fingerprint → Bool} {id : ℤ} :
    id ∈ (s.fingerprints.select p).map (·.id) ↔ ∃ r, s.row id = some r ∧ p r = true := by
  rw [List.mem_map]
  constructor
  · rintro ⟨r, hr, rfl⟩
    exact ⟨r, Table.mem_select.mp hr⟩
  · rintro ⟨r, hr, hp⟩
    obtain rfl := id_of_row hr
    exact ⟨r, Table.mem_select.mpr ⟨hr, hp⟩, rfl⟩

end Store

end FingerprintHub
