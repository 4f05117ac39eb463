import FingerprintHub.Store.Texts

/-!
# What the operations make of what a consumer cannot know

`Store.redact me` takes from a store what consumer `me` has no business with: of the
fingerprints of others the source texts, the automation fields and the hit counters, and
of everyone the hit rows and the reasons of flags. The same is taken from the arguments
of a call.

What is left after a call depends only on what was left before it and on what is left of
the call (`Op.apply_redact`), and a hit on a row of another consumer leaves it alone
(`reportHit_redact`). So two runs whose calls differ in what is taken away only differ
in it.
-/

namespace FingerprintHub

/-! ### Redaction -/

/-- A row as far as `me` may know it. The consumer, the times and the flag count are kept,
because what the operations do with the row depends on them. -/
def Fingerprint.redact (me : ℤ) (r : Fingerprint) : Fingerprint :=
  if r.consumerId = me then r
  else
    { r with
      sourceGuildId := none
      reason := none
      sourceUrl := none
      hitCount := 0
      lastHitAtMs := none
      autoAdded := false
      provenance := "" }

/-- A flag without its reason. -/
def Flag.redact (f : Flag) : Flag := { f with reason := none }

/-- The arguments of a contribution as far as `me` may know them. -/
def ContributeArgs.redact (me : ℤ) (a : ContributeArgs) : ContributeArgs :=
  if a.consumerId = me then a
  else
    { a with
      sourceGuildId := none
      reason := none
      sourceUrl := none
      autoAdded := false
      provenance := "" }

/-- The arguments of a hit without its community and its distance. -/
def HitArgs.redact (a : HitArgs) : HitArgs := { a with guildId := none, distance := none }

/-- The arguments of a flag without its reason. -/
def FlagArgs.redact (a : FlagArgs) : FlagArgs := { a with reason := none }

/-- A call as far as `me` may know it. -/
def Op.redact (me : ℤ) : Op → Op
  | .contribute enc a => .contribute enc (a.redact me)
  | .reportHit enc a => .reportHit enc a.redact
  | .flag enc a => .flag enc a.redact
  | .softDelete id nowMs => .softDelete id nowMs
  | .applyRetention p nowMs dryRun => .applyRetention p nowMs dryRun

section Rows

variable (me : ℤ)

@[simp] theorem Fingerprint.redact_id (r : Fingerprint) : (r.redact me).id = r.id := by
  unfold redact; split <;> rfl

@[simp] theorem Fingerprint.redact_owned (r : Fingerprint) : (r.redact me).owned = r.owned := by
  unfold redact; split <;> rfl

@[simp] theorem Fingerprint.redact_status (r : Fingerprint) :
    (r.redact me).status = r.status := by
  unfold redact; split <;> rfl

@[simp] theorem Fingerprint.redact_updatedAtMs (r : Fingerprint) :
    (r.redact me).updatedAtMs = r.updatedAtMs := by
  unfold redact; split <;> rfl

@[simp] theorem Fingerprint.redact_consumerId (r : Fingerprint) :
    (r.redact me).consumerId = r.consumerId := by
  unfold redact; split <;> rfl

@[simp] theorem Fingerprint.redact_syncColumns (r : Fingerprint) :
    (r.redact me).syncColumns = r.syncColumns := by
  unfold redact; split <;> rfl

/-- Of an own row nothing is taken, -/
theorem Fingerprint.redact_of_eq {r : Fingerprint} (h : r.consumerId = me) : r.redact me = r :=
  if_pos h

/-- and what is taken once is not taken twice. -/
theorem Fingerprint.redact_redact (r : Fingerprint) : (r.redact me).redact me = r.redact me := by
  by_cases h : r.consumerId = me
  · rw [redact_of_eq me h, redact_of_eq me h]
  · simp [redact, h]

@[simp] theorem Flag.redact_key (f : Flag) : f.redact.key = f.key := rfl

@[simp] theorem ContributeArgs.redact_owned (a : ContributeArgs) :
    (a.redact me).owned = a.owned := by
  unfold redact; split <;> rfl

/-- An inserted row hides what the arguments hide. -/
theorem freshRow_redact (enc : EncryptText) (a : ContributeArgs) (id : ℤ) (seq : ℕ) :
    (freshRow enc (a.redact me) id seq).redact me = (freshRow enc a id seq).redact me := by
  unfold ContributeArgs.redact
  split
  · rfl
  · next h => simp [freshRow, Fingerprint.redact, h]

/-- A resurrected row hides what the arguments and the row hide, if it is of the consumer of
the call. -/
theorem resurrectRow_redact (enc : EncryptText) (a : ContributeArgs) (seq : ℕ) {r : Fingerprint}
    (h_owner : r.consumerId = a.consumerId) :
    (resurrectRow enc (a.redact me) seq (r.redact me)).redact me
      = (resurrectRow enc a seq r).redact me := by
  by_cases h : r.consumerId = me
  · -- an own row is resurrected by an own call
    have h_args : a.redact me = a := if_pos (h_owner.symm.trans h)
    rw [h_args, Fingerprint.redact_of_eq me h]
  · -- and a foreign one by a foreign call, whose texts are hidden as well
    have h_args : a.consumerId ≠ me := fun h_eq => h (h_owner.trans h_eq)
    simp [resurrectRow, Fingerprint.redact, ContributeArgs.redact, h, h_args]

/-- A hit raises a counter that is hidden unless the row is of `me`. -/
theorem hitRow_redact (nowMs : ℤ) (r : Fingerprint) :
    (hitRow nowMs (r.redact me)).redact me = (hitRow nowMs r).redact me := by
  by_cases h : r.consumerId = me <;> simp [Fingerprint.redact, hitRow, h]

/-- The other updates set public columns, and leave what is hidden as it was. -/
theorem hideRow_redact (n seq : ℕ) (nowMs : ℤ) (r : Fingerprint) :
    (hideRow n seq nowMs r).redact me = hideRow n seq nowMs (r.redact me) := by
  by_cases h : r.consumerId = me <;> simp [Fingerprint.redact, hideRow, h]

theorem countFlagRow_redact (n : ℕ) (nowMs : ℤ) (r : Fingerprint) :
    (countFlagRow n nowMs r).redact me = countFlagRow n nowMs (r.redact me) := by
  by_cases h : r.consumerId = me <;> simp [Fingerprint.redact, countFlagRow, h]

theorem deleteRow_redact (seq : ℕ) (nowMs : ℤ) (r : Fingerprint) :
    (deleteRow seq nowMs r).redact me = deleteRow seq nowMs (r.redact me) := by
  by_cases h : r.consumerId = me <;> simp [Fingerprint.redact, deleteRow, h]

/-- Retention clears texts of a foreign row that are hidden anyway. -/
theorem anonymize_redact (p : RetentionPolicy) (nowMs : ℤ) (r : Fingerprint) :
    (if p.anonymizes nowMs r then anonymizeRow r else r).redact me
      = (if p.anonymizes nowMs (r.redact me) then anonymizeRow (r.redact me)
          else r.redact me).redact me := by
  by_cases h : r.consumerId = me
  · rw [Fingerprint.redact_of_eq me h]
  · -- the columns of a foreign row that are cleared are hidden
    have h_hidden : ∀ b : Bool, (if b then anonymizeRow r else r).redact me = r.redact me := by
      intro b
      cases b with
      | false => rfl
      | true => simp [Fingerprint.redact, anonymizeRow, h]
    -- and what is hidden is `NULL` already
    have h_none : anonymizeRow (r.redact me) = r.redact me := by
      simp [Fingerprint.redact, anonymizeRow, h]
    rw [h_hidden, h_none, ite_self, Fingerprint.redact_redact]

end Rows

namespace Store

variable (me : ℤ) (s : Store)

/-- A store as far as `me` may know it. The hit rows are all gone, since no answer to anyone is
computed from them; the sequences are kept, except that of the hits. -/
def redact : Store :=
  { s with
    fingerprints := s.fingerprints.map (Fingerprint.redact me) (Fingerprint.redact_id me)
    hits := .empty _
    flags := s.flags.map Flag.redact Flag.redact_key
    lastHitId := 0 }

/-! ### Statements -/

/-- Redaction is idempotent. -/
theorem redact_redact : (s.redact me).redact me = s.redact me := by
  refine Store.ext ?_ rfl ?_ rfl rfl rfl rfl
  · exact Table.map_idem _ (Fingerprint.redact_id me) (Fingerprint.redact_redact me)
  · exact Table.map_idem _ Flag.redact_key (fun _ => rfl)

@[simp] theorem row_redact (id : ℤ) :
    (s.redact me).row id = (s.row id).map (Fingerprint.redact me) := by
  unfold row redact
  rw [Table.get?_map]

@[simp] theorem findOwned_redact (key : String × ℤ) :
    (s.redact me).findOwned key = (s.findOwned key).map (Fingerprint.redact me) := by
  show (s.fingerprints.rows.map _).find? _ = _
  rw [List.find?_map]
  unfold findOwned
  congr 2
  funext r
  simp

/-- An `UPDATE` of a row before the redaction, or on the redacted row. It is enough that the two
agree on the rows that the `WHERE` finds. -/
theorem redact_updateRow (id : ℤ) {set set' : Fingerprint → Fingerprint}
    (h : ∀ r, (set r).id = r.id) (h' : ∀ r, (set' r).id = r.id)
    (h_set : ∀ r, s.row id = some r → (set r).redact me = (set' (r.redact me)).redact me) :
    (s.updateRow id set h).redact me = ((s.redact me).updateRow id set' h').redact me := by
  refine Store.ext ?_ rfl (Table.map_idem _ Flag.redact_key (fun _ => rfl)).symm rfl rfl rfl rfl
  refine Table.map_update_map s.fingerprints (Fingerprint.redact_id me) h h' (fun r h_r => ?_)
  simp only [decide_eq_true_eq, Fingerprint.redact_id]
  split
  · next h_id => exact h_set r (h_id ▸ (Table.mem_rows _).mp h_r)
  · rw [Fingerprint.redact_redact]

/-- An `UPDATE` of public columns, in stores that differ in what is hidden. -/
theorem redact_updateRow_congr {s t : Store} (h_same : s.redact me = t.redact me) (id : ℤ)
    {set : Fingerprint → Fingerprint} (h : ∀ r, (set r).id = r.id)
    (h_set : ∀ r, (set r).redact me = set (r.redact me)) :
    (s.updateRow id set h).redact me = (t.updateRow id set h).redact me := by
  have h_twice : ∀ r, (set r).redact me = (set (r.redact me)).redact me := by
    intro r
    rw [h_set, h_set, Fingerprint.redact_redact]
  rw [redact_updateRow me s id h h (fun r _ => h_twice r),
    redact_updateRow me t id h h (fun r _ => h_twice r), h_same]

/-- A flag is deleted with or without its reason. -/
theorem redact_deleteFlags (id : ℤ) :
    (s.deleteFlags id).redact me = (s.redact me).deleteFlags id :=
  Store.ext rfl rfl (Table.delete_map s.flags Flag.redact_key (fun _ => rfl)).symm rfl rfl rfl rfl

theorem redact_nextSeq : s.nextSeq.redact me = (s.redact me).nextSeq := rfl

/-- An insertion under redaction inserts the redacted arguments. -/
theorem redact_inserted (enc : EncryptText) (a : ContributeArgs) :
    (s.inserted enc a).redact me = ((s.redact me).inserted enc (a.redact me)).redact me := by
  refine Store.ext ?_ rfl (Table.map_idem _ Flag.redact_key (fun _ => rfl)).symm rfl rfl rfl rfl
  show (s.fingerprints.insert _).map _ (Fingerprint.redact_id me)
    = ((s.fingerprints.map _ (Fingerprint.redact_id me)).insert _).map _ (Fingerprint.redact_id me)
  rw [Table.map_insert, Table.map_insert, freshRow_redact,
    Table.map_idem _ _ (Fingerprint.redact_redact me)]
  rfl

/-- A flag is recorded with or without its reason: the conflict is one of keys. -/
theorem redact_recordFlag (enc : EncryptText) (a : FlagArgs) :
    (s.recordFlag enc a).redact me = ((s.redact me).recordFlag enc a.redact).redact me := by
  refine Store.ext (Table.map_idem _ (Fingerprint.redact_id me) (Fingerprint.redact_redact me)).symm
    rfl ?_ rfl rfl rfl rfl
  show (s.flags.insert _).map _ Flag.redact_key
    = ((s.flags.map _ Flag.redact_key).insert _).map _ Flag.redact_key
  rw [Table.map_insert, Table.map_insert, Table.map_idem _ Flag.redact_key (fun _ => rfl)]
  rfl

@[simp] theorem countFlaggers_redact (id : ℤ) :
    (s.redact me).countFlaggers id = s.countFlaggers id := by
  have h_flags : (s.redact me).flagsOf id = (s.flagsOf id).map Flag.redact :=
    Table.select_map s.flags Flag.redact_key (fun _ => rfl)
  unfold countFlaggers
  rw [h_flags, List.map_map]
  rfl

/-- So the count that is compared with the threshold is the same. -/
theorem flagCountAfter_redact (enc : EncryptText) (a : FlagArgs) :
    (s.redact me).flagCountAfter enc a.redact = s.flagCountAfter enc a := by
  unfold flagCountAfter
  rw [← countFlaggers_redact me (s.recordFlag enc a), redact_recordFlag, countFlaggers_redact]
  rfl

/-- Of the four statements of `apply_retention` the deletion of tombstones is left, and the
anonymisation of the rows of `me`. -/
theorem redact_retain (p : RetentionPolicy) (nowMs : ℤ) :
    (s.retain p nowMs).2.redact me = ((s.redact me).retain p nowMs).2.redact me := by
  -- status and time are public
  have h_purges : ∀ r : Fingerprint, p.purges nowMs (r.redact me) = p.purges nowMs r := by
    intro r
    simp [RetentionPolicy.purges]
  -- so the same rows are purged, and the same flags with them
  have h_gone : ((s.redact me).fingerprints.select (p.purges nowMs)).map (·.id)
      = (s.fingerprints.select (p.purges nowMs)).map (·.id) := by
    show (Table.select (s.fingerprints.map _ (Fingerprint.redact_id me)) _).map _ = _
    rw [Table.select_map _ _ h_purges, List.map_map]
    exact List.map_congr_left (fun r _ => Fingerprint.redact_id me r)
  -- reasons are hidden, cleared or not
  have h_clear : ∀ (b : Bool) (f : Flag), (if b then clearReason f else f).redact = f.redact := by
    intro b f
    cases b <;> rfl
  unfold retain purge
  refine Store.ext ?_ rfl ?_ rfl rfl rfl rfl
  · show (Table.update _ _ anonymizeRow anonymizeRow_id).map _ (Fingerprint.redact_id me)
      = (Table.update ((s.fingerprints.map _ (Fingerprint.redact_id me)).delete _) _ anonymizeRow
          anonymizeRow_id).map _ (Fingerprint.redact_id me)
    rw [Table.delete_map _ _ h_purges]
    exact Table.map_update_map _ _ _ _ (fun r _ => anonymize_redact me p nowMs r)
  · show (Table.delete (Table.update _ _ clearReason clearReason_key) _).map _ Flag.redact_key
      = (Table.delete (Table.update (s.flags.map _ Flag.redact_key) _ clearReason clearReason_key)
          _).map _ Flag.redact_key
    rw [h_gone, ← Table.delete_map _ Flag.redact_key (fun _ => rfl),
      ← Table.delete_map _ Flag.redact_key (fun _ => rfl)]
    congr 1
    exact Table.map_update_map _ Flag.redact_key clearReason_key clearReason_key
      (fun f _ => by rw [h_clear, h_clear]; rfl)

end Store

/-! ### Calls -/

/-- **What is left after a call depends on what was left before it and of the call.**

Every operation decides what it does by public columns only: the key, the status, the time of a
tombstone, and the number of flaggers. In each case the redacted call takes the same branch on the
redacted store. -/
theorem Op.apply_redact (me : ℤ) (s : Store) (op : Op) :
    (op.apply s).redact me = ((op.redact me).apply (s.redact me)).redact me := by
  cases op with
  | contribute enc a =>
    show (s.contribute enc a).2.redact me
      = ((s.redact me).contribute enc (a.redact me)).2.redact me
    have h_find := s.findOwned_redact me a.owned
    cases h : s.findOwned a.owned with
    -- nobody has the key
    | none =>
      rw [h] at h_find
      simp only [Store.contribute, h, h_find, Option.map_none, ContributeArgs.redact_owned]
      rw [Store.insertFingerprint_of_none h, Store.insertFingerprint_of_none
        (a.redact_owned me ▸ h_find)]
      exact s.redact_inserted me enc a
    | some r =>
      rw [h] at h_find
      simp only [Store.contribute, h, h_find, Option.map_some, ContributeArgs.redact_owned,
        Fingerprint.redact_status, Fingerprint.redact_id]
      split
      · exact (s.redact_redact me).symm
      · obtain ⟨h_row, h_key⟩ := Store.row_of_findOwned h
        simp only [Store.resurrect, ← Store.redact_deleteFlags, ← Store.redact_nextSeq]
        refine Store.redact_updateRow me _ _ _ (resurrectRow_id enc (a.redact me) _)
          (fun r' h_r' => ?_)
        -- the row under the id of the tombstone is the tombstone
        obtain rfl := Option.some.inj (h_r'.symm.trans h_row)
        exact (resurrectRow_redact me enc a _ (congrArg Prod.snd h_key)).symm
  | reportHit enc a =>
    show (s.reportHit enc a).2.redact me = ((s.redact me).reportHit enc a.redact).2.redact me
    have h_row := s.row_redact me a.fingerprintId
    cases h : s.row a.fingerprintId with
    | none =>
      rw [h] at h_row
      have h_row : (s.redact me).row a.redact.fingerprintId = none := h_row
      simp only [Store.reportHit, h, h_row]
      exact (s.redact_redact me).symm
    | some r =>
      rw [h] at h_row
      have h_row : (s.redact me).row a.redact.fingerprintId = some (r.redact me) := h_row
      simp only [Store.reportHit, h, h_row, Fingerprint.redact_status]
      split
      · exact (s.redact_redact me).symm
      · -- the hit itself is redacted, and the count of a foreign row
        exact Store.redact_updateRow me _ _ (hitRow_id a.nowMs) (hitRow_id a.nowMs)
          (fun r' _ => (hitRow_redact me a.nowMs r').symm)
  | flag enc a =>
    show (s.flag enc a).2.redact me = ((s.redact me).flag enc a.redact).2.redact me
    have h_row := s.row_redact me a.fingerprintId
    have h_count : ((s.redact me).recordFlag enc a.redact).countFlaggers a.redact.fingerprintId
        = (s.recordFlag enc a).countFlaggers a.fingerprintId := s.flagCountAfter_redact me enc a
    cases h : s.row a.fingerprintId with
    | none =>
      rw [h] at h_row
      have h_row : (s.redact me).row a.redact.fingerprintId = none := h_row
      simp only [Store.flag, h, h_row]
      exact (s.redact_redact me).symm
    | some r =>
      rw [h] at h_row
      have h_row : (s.redact me).row a.redact.fingerprintId = some (r.redact me) := h_row
      simp only [Store.flag, h, h_row, h_count, Fingerprint.redact_status]
      split
      · exact (s.redact_redact me).symm
      · have h_recorded : ((s.recordFlag enc a).redact me)
            = ((s.redact me).recordFlag enc a.redact).redact me := s.redact_recordFlag me enc a
        -- the branch of the count, which is public
        by_cases h_hide : a.autoHideThreshold ≤ (s.recordFlag enc a).countFlaggers a.fingerprintId
            ∧ r.status = .active
        · rw [if_pos h_hide, if_pos (show a.redact.autoHideThreshold ≤ _ ∧ _ from h_hide)]
          exact Store.redact_updateRow_congr me (s := (s.recordFlag enc a).nextSeq)
            (t := ((s.redact me).recordFlag enc a.redact).nextSeq)
            (congrArg Store.nextSeq h_recorded) _ _ (hideRow_redact me _ _ a.nowMs)
        · rw [if_neg h_hide, if_neg (show ¬ (a.redact.autoHideThreshold ≤ _ ∧ _) from h_hide)]
          exact Store.redact_updateRow_congr me h_recorded _ _ (countFlagRow_redact me _ a.nowMs)
  | softDelete id nowMs =>
    show (s.softDelete id nowMs).2.redact me = ((s.redact me).softDelete id nowMs).2.redact me
    have h_row := s.row_redact me id
    cases h : s.row id with
    | none =>
      rw [h] at h_row
      simp only [Store.softDelete, h, h_row, Option.map_none]
      exact (s.redact_redact me).symm
    | some r =>
      rw [h] at h_row
      simp only [Store.softDelete, h, h_row, Option.map_some, Fingerprint.redact_status]
      split
      · exact (s.redact_redact me).symm
      · exact Store.redact_updateRow_congr me (s := s.nextSeq) (t := (s.redact me).nextSeq)
          (congrArg Store.nextSeq (s.redact_redact me).symm) _ _ (deleteRow_redact me _ nowMs)
  | applyRetention p nowMs dryRun =>
    show (s.applyRetention p nowMs dryRun).2.redact me
      = ((s.redact me).applyRetention p nowMs dryRun).2.redact me
    rcases s.applyRetention_cases p nowMs dryRun with ⟨h_not, -, h⟩ | ⟨h_accepted, h⟩
    · rcases (s.redact me).applyRetention_cases p nowMs dryRun with ⟨-, -, h'⟩ | ⟨h_accepted, -⟩
      · rw [h, h', Store.redact_redact]
      · exact absurd h_accepted h_not
    · rcases (s.redact me).applyRetention_cases p nowMs dryRun with ⟨h_not, -⟩ | ⟨-, h'⟩
      · exact absurd h_accepted h_not
      · rw [h, h']
        cases dryRun with
        | true => exact (s.redact_redact me).symm
        | false => exact s.redact_retain me p nowMs

/-- **A hit on a row that is not of `me` leaves alone what is left**: the counters of the row and
the hit itself are all it writes. -/
theorem reportHit_redact (me : ℤ) (s : Store) (enc : EncryptText) (a : HitArgs)
    (h_foreign : ∀ r, s.row a.fingerprintId = some r → r.consumerId ≠ me) :
    ((Op.reportHit enc a).apply s).redact me = s.redact me := by
  rcases s.reportHit_cases enc a with ⟨-, h⟩ | ⟨r, h_row, -, h⟩
  · rw [Op.apply, h]
  · rw [Op.apply, h]
    refine Store.ext ?_ rfl rfl rfl rfl rfl rfl
    refine Table.ext ((List.map_map).trans (List.map_congr_left (fun r' h_r' => ?_)))
    simp only [Function.comp_apply, decide_eq_true_eq]
    split
    · next h_id =>
      have h_row' : s.row a.fingerprintId = some r' := h_id ▸ (Table.mem_rows _).mp h_r'
      simp [Fingerprint.redact, hitRow, h_foreign r' h_row']
    · rfl

end FingerprintHub
