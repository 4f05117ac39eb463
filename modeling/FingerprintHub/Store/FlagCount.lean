import Mathlib.Data.Set.Card
import FingerprintHub.Store.Trust

/-!
# What `flag_count` counts

`flag_count` is a column that `flag` writes and the resurrecting `UPDATE` resets. In
every reachable store it is the number of flags recorded for its fingerprint
(`Store.Reachable.counted`), whatever thresholds the flags were counted against.
-/

namespace FingerprintHub
namespace Store

variable {s : Store}

/-- The consumers with a flag recorded on a fingerprint. -/
def flaggersOf (s : Store) (id : ℤ) : Finset ℤ :=
  ((s.flagsOf id).map (·.consumerId)).toFinset

/-- Those of them that are not `me`. -/
def otherFlaggers (s : Store) (me id : ℤ) : Finset ℤ :=
  (s.flaggersOf id).erase me

/-- A consumer is a flagger when a flag of theirs is recorded. -/
theorem flagged_iff_mem {id c : ℤ} : s.Flagged id c ↔ c ∈ s.flaggersOf id := by
  rw [flaggersOf, List.mem_toFinset, List.mem_map]
  constructor
  · rintro ⟨f, h_get⟩
    -- a flag lies under its fingerprint and its consumer
    have h_key : f.key = (id, c) := Table.key_of_get? h_get
    refine ⟨f, mem_flagsOf.mpr ⟨?_, congrArg Prod.fst h_key⟩, congrArg Prod.snd h_key⟩
    rw [h_key]
    exact h_get
  · rintro ⟨f, h_f, rfl⟩
    obtain ⟨h_get, rfl⟩ := mem_flagsOf.mp h_f
    exact ⟨f, h_get⟩

/-- The flaggers of a fingerprint, counted as a set: what the `COUNT(DISTINCT …)` of the source is
meant to be. -/
theorem countFlaggers_eq_ncard (s : Store) (id : ℤ) :
    s.countFlaggers id = {c | s.Flagged id c}.ncard := by
  have h_set : {c | s.Flagged id c} = (s.flaggersOf id : Set ℤ) :=
    Set.ext (fun _ => flagged_iff_mem)
  calc s.countFlaggers id
      = (s.flaggersOf id).card := countFlaggers_eq_card (fun _ => flagged_iff_mem)
    _ = {c | s.Flagged id c}.ncard := by rw [h_set, Set.ncard_coe_finset]

/-- What a flag counts: the consumer that flags, and the others with a flag recorded. -/
theorem flagCountAfter_eq (s : Store) (enc : EncryptText) (a : FlagArgs) :
    s.flagCountAfter enc a = (s.otherFlaggers a.consumerId a.fingerprintId).card + 1 := by
  -- whether or not the flag is new, its consumer is among the flaggers after it
  have h_flagged : ∀ c, (s.recordFlag enc a).Flagged a.fingerprintId c ↔
      c ∈ insert a.consumerId (s.otherFlaggers a.consumerId a.fingerprintId) := by
    intro c
    rw [flagged_recordFlag, flagged_iff_mem, otherFlaggers, Finset.mem_insert, Finset.mem_erase]
    tauto
  calc s.flagCountAfter enc a
      = (insert a.consumerId (s.otherFlaggers a.consumerId a.fingerprintId)).card :=
        countFlaggers_eq_card h_flagged
    _ = (s.otherFlaggers a.consumerId a.fingerprintId).card + 1 :=
        Finset.card_insert_of_notMem (Finset.notMem_erase _ _)

/-- Every `flag_count` is the number of flaggers. Unlike `Shows` it does not mention a threshold,
and so holds of runs in which the threshold is changed. -/
def Counted (s : Store) : Prop :=
  ∀ id r, s.row id = some r → r.flagCount = {c | s.Flagged id c}.ncard

/-- There is no row at first. -/
theorem Counted.empty : Store.empty.Counted :=
  fun _ _ h_row => absurd h_row (by simp)

/-- A call that keeps the count and the flaggers of a row keeps them equal. -/
theorem Counted.keep (h : s.Counted) {s' : Store} {id : ℤ} {r' : Fingerprint}
    (h_row : ∃ r, s.row id = some r ∧ r'.flagCount = r.flagCount)
    (h_flagged : ∀ c, s'.Flagged id c ↔ s.Flagged id c) :
    r'.flagCount = {c | s'.Flagged id c}.ncard := by
  obtain ⟨r, h_r, h_eq⟩ := h_row
  simp only [h_flagged]
  exact h_eq.trans (h id r h_r)

/-- A contribution writes 0 to a row without flags. -/
theorem Counted.contribute (h : s.Counted) (h_wf : s.Wf) (enc : EncryptText)
    (a : ContributeArgs) : ((Op.contribute enc a).apply s).Counted := by
  intro id r' h_row'
  rcases s.contribute_cases enc a with ⟨r, -, -, h'⟩ | ⟨r, h_found, -, h'⟩ | ⟨-, h'⟩
  · -- refused: the store is the same
    rw [Op.apply, h'] at h_row' ⊢
    exact h id r' h_row'
  · rw [Op.apply, h'] at h_row' ⊢
    rw [row_updateRow, row_nextSeq, row_deleteFlags] at h_row'
    by_cases h_id : id = r.id
    · -- the tombstone starts over: its flags are gone
      subst h_id
      rw [if_pos rfl, (row_of_findOwned h_found).1] at h_row'
      obtain rfl := Option.some.inj h_row'
      have h_none : {c | (s.deleteFlags r.id).Flagged r.id c} = ∅ :=
        Set.eq_empty_of_forall_notMem (fun c h_c => ((flagged_deleteFlags r.id c).mp h_c).1 rfl)
      exact (Set.ncard_empty ℤ).symm.trans (congrArg Set.ncard h_none.symm)
    · rw [if_neg h_id] at h_row'
      exact h.keep ⟨r', h_row', rfl⟩
        (fun c => (flagged_deleteFlags r.id c).trans (and_iff_right h_id))
  · rw [Op.apply, h'] at h_row' ⊢
    rw [row_inserted enc a h_wf.fresh id] at h_row'
    by_cases h_id : id = s.lastId + 1
    · -- a fresh row has no flags
      subst h_id
      rw [if_pos rfl] at h_row'
      obtain rfl := Option.some.inj h_row'
      have h_none : {c | (s.inserted enc a).Flagged (s.lastId + 1) c} = ∅ :=
        Set.eq_empty_of_forall_notMem (fun c => not_flagged_of_row_none h_wf h_wf.fresh c)
      rw [h_none, Set.ncard_empty]
      rfl
    · rw [if_neg (fun e => h_id e.symm)] at h_row'
      exact h.keep ⟨r', h_row', rfl⟩ (fun c => Iff.rfl)

/-- An update of a row that keeps its count, in a store whose flags stay. -/
theorem Counted.updateRow (h : s.Counted) {id : ℤ} {set : Fingerprint → Fingerprint}
    (h_id : ∀ r, (set r).id = r.id) (h_set : ∀ r, (set r).flagCount = r.flagCount) :
    (s.updateRow id set h_id).Counted := by
  intro id' r' h_row'
  rw [row_updateRow] at h_row'
  by_cases h_eq : id' = id
  · subst h_eq
    rw [if_pos rfl] at h_row'
    obtain ⟨r, h_r, rfl⟩ := Option.map_eq_some_iff.mp h_row'
    exact h.keep ⟨r, h_r, h_set r⟩ (fun c => Iff.rfl)
  · rw [if_neg h_eq] at h_row'
    exact h id' r' h_row'

/-- `flag` writes the number of flaggers it has counted. -/
theorem Counted.recordFlag (h : s.Counted) (enc : EncryptText) (a : FlagArgs)
    {set : Fingerprint → Fingerprint} (h_id : ∀ r, (set r).id = r.id)
    (h_set : ∀ r, (set r).flagCount = s.flagCountAfter enc a) :
    ((s.recordFlag enc a).updateRow a.fingerprintId set h_id).Counted := by
  intro id r' h_row'
  rw [row_updateRow, row_recordFlag, row_recordFlag] at h_row'
  by_cases h_eq : id = a.fingerprintId
  · subst h_eq
    rw [if_pos rfl] at h_row'
    obtain ⟨r, -, rfl⟩ := Option.map_eq_some_iff.mp h_row'
    rw [h_set r]
    exact countFlaggers_eq_ncard _ _
  · rw [if_neg h_eq] at h_row'
    refine h.keep ⟨r', h_row', rfl⟩ (fun c => ?_)
    exact (flagged_recordFlag enc a c).trans (or_iff_right (fun e => h_eq e.1))

/-- Retention purges a row with all its flags, and clears the reasons of the others. -/
theorem Counted.applyRetention (h : s.Counted) (p : RetentionPolicy) (nowMs : ℤ) (dryRun : Bool) :
    ((Op.applyRetention p nowMs dryRun).apply s).Counted := by
  rcases s.applyRetention_cases p nowMs dryRun with ⟨-, -, h'⟩ | ⟨-, h'⟩
  · rw [Op.apply, h']
    exact h
  · rw [Op.apply, h']
    cases dryRun with
    | true => exact h
    | false =>
      intro id r' h_row'
      replace h_row' : (s.retain p nowMs).2.row id = some r' := h_row'
      rw [row_retain] at h_row'
      obtain ⟨r, h_r, rfl⟩ := Option.map_eq_some_iff.mp h_row'
      obtain ⟨h_r, h_not⟩ := Option.filter_eq_some_iff.mp h_r
      refine h.keep ⟨r, h_r, by split <;> rfl⟩ (fun c => ?_)
      -- a row that survives is not purged, so none of its flags cascade
      refine (flagged_retain p nowMs c).trans (and_iff_left ?_)
      rintro ⟨r₀, h_r₀, h_p⟩
      obtain rfl := Option.some.inj (h_r₀.symm.trans h_r)
      simp [h_p] at h_not

/-- **Every call keeps the counts right.** -/
theorem Counted.step (h : s.Counted) (h_wf : s.Wf) (op : Op) : (op.apply s).Counted := by
  -- a hit and a deletion leave count and flags, and the two branches of a flag write the count
  -- they took
  cases op with
  | contribute enc a => exact h.contribute h_wf enc a
  | reportHit enc a =>
    rcases s.reportHit_cases enc a with ⟨-, h'⟩ | ⟨r, -, -, h'⟩
    · rw [Op.apply, h']
      exact h
    · rw [Op.apply, h']
      have h_hit : (s.recordHit enc a).Counted := h
      exact h_hit.updateRow _ (fun _ => rfl)
  | flag enc a =>
    rcases s.flag_cases enc a with ⟨-, h'⟩ | ⟨r, -, -, -, h'⟩ | ⟨r, -, -, -, h'⟩
    · rw [Op.apply, h']
      exact h
    · rw [Op.apply, h']
      exact h.recordFlag enc a (hideRow_id _ _ a.nowMs) (fun _ => rfl)
    · rw [Op.apply, h']
      exact h.recordFlag enc a (countFlagRow_id _ a.nowMs) (fun _ => rfl)
  | softDelete id nowMs =>
    rcases s.softDelete_cases id nowMs with ⟨-, h'⟩ | ⟨r, -, -, h'⟩
    · rw [Op.apply, h']
      exact h
    · rw [Op.apply, h']
      have h_seq : s.nextSeq.Counted := h
      exact h_seq.updateRow _ (fun _ => rfl)
  | applyRetention p nowMs dryRun => exact h.applyRetention p nowMs dryRun

/-- **`flag_count` counts the flags** of every reachable store, whatever thresholds the calls of
the run had. -/
theorem Reachable.counted (h : s.Reachable) : s.Counted := by
  obtain ⟨ops, rfl⟩ := h
  -- with the invariant for the store a run starts on
  suffices ∀ (ops : List Op) (s : Store), s.Wf → s.Counted → (s.run ops).Counted from
    this ops .empty .empty .empty
  intro ops
  induction ops with
  | nil => exact fun _ _ h_counted => h_counted
  | cons op ops ih =>
    intro s h_wf h_counted
    exact ih _ (h_wf.step op) (h_counted.step h_wf op)

end Store
end FingerprintHub
