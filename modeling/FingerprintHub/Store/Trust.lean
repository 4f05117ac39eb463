import Mathlib.Data.Finset.Card
import FingerprintHub.Store.Runs

/-!
# The trust model

What the flags are for, and that the store does it. In the model a fingerprint
that is live carries the set of consumers that flagged it since it was last
activated, and it is in service while that set is smaller than the threshold.
Nothing else about it is remembered: there is no counter to keep in step and no
status to forget.

The store has both, and a table of flags besides. `Store.Shows` is the coupling:
the status column is the one the model computes, `flag_count` is the size of the
set, and the flag table holds exactly its members. `Shows.step` carries it over
each call, `shows_run` over a run.
-/

namespace FingerprintHub

namespace Trust

/-- What can happen to a fingerprint, as far as trust is concerned. -/
inductive Event where
  | activate
  | flag (consumer : ℤ)
  | delete
  | purge

/-- Where a fingerprint stands: the flaggers of its current, or of its last,
activation. -/
inductive Standing where
  | absent
  | live (flaggers : Finset ℤ)
  | tombstone (flaggers : Finset ℤ)

namespace Standing

/-- The consumers that flagged the fingerprint since it was last activated. -/
def flaggers : Standing → Finset ℤ
  | .absent => ∅
  | .live F => F
  | .tombstone F => F

/-- The status the model gives a fingerprint: a live one is hidden exactly from the
threshold on. -/
def status (threshold : ℕ) : Standing → Option Status
  | .absent => none
  | .live F => some (if threshold ≤ F.card then .hidden else .active)
  | .tombstone _ => some .deleted

/-- The standing after an event. Flags and deletions of a fingerprint that is not live do nothing,
and an activation starts with no flaggers. -/
def next : Standing → Event → Standing
  | _, .activate => .live ∅
  | .live F, .flag c => .live (insert c F)
  | .live F, .delete => .tombstone F
  | _, .purge => .absent
  | st, _ => st

/-- The standing after a call that was an event for the fingerprint or was not. -/
def observe (st : Standing) : Option Event → Standing
  | some e => st.next e
  | none => st

variable {threshold : ℕ} {st : Standing}

/-- What the model has in service is live and below the threshold, -/
theorem eq_live_of_active (h : st.status threshold = some .active) :
    ∃ F, st = .live F ∧ F.card < threshold := by
  cases st with
  | absent => exact absurd h (by simp [status])
  | tombstone F => exact absurd h (by simp [status])
  | live F =>
    refine ⟨F, rfl, ?_⟩
    by_contra h_le
    rw [status, if_pos (not_lt.mp h_le)] at h
    exact absurd h (by simp)

/-- and what it has hidden is live and at the threshold or above. -/
theorem eq_live_of_hidden (h : st.status threshold = some .hidden) :
    ∃ F, st = .live F ∧ threshold ≤ F.card := by
  cases st with
  | absent => exact absurd h (by simp [status])
  | tombstone F => exact absurd h (by simp [status])
  | live F =>
    refine ⟨F, rfl, ?_⟩
    by_contra h_lt
    rw [status, if_neg h_lt] at h
    exact absurd h (by simp)

/-- The fingerprint has used up its hide: if it is live at all, it is hidden. -/
def Spent (threshold : ℕ) (st : Standing) : Prop :=
  ∀ F, st = .live F → threshold ≤ F.card

/-- Only an activation gives a hide back. -/
theorem Spent.observe (h : st.Spent threshold) {e : Option Event} (h_e : e ≠ some .activate) :
    (st.observe e).Spent threshold := by
  intro F h_F
  cases e with
  | none => exact h F h_F
  | some e =>
    cases e with
    | activate => exact absurd rfl h_e
    | flag c =>
      cases st with
      | live F₀ =>
        -- flaggers are only added
        obtain rfl : insert c F₀ = F := Standing.live.inj h_F
        exact (h F₀ rfl).trans (Finset.card_le_card (Finset.subset_insert c F₀))
      | absent => exact Standing.noConfusion h_F
      | tombstone _ => exact Standing.noConfusion h_F
    | delete => cases st <;> exact Standing.noConfusion h_F
    | purge => cases st <;> exact Standing.noConfusion h_F

end Standing

end Trust

open Trust (Event Standing)

/-! ### The events of a run -/

/-- What a call was for the fingerprint `id`, read off what it returned; a purge
returns only counts and is read off the table. -/
def Op.event (s : Store) (id : ℤ) : Op → Option Event
  | .contribute enc a =>
    match (s.contribute enc a).1 with
    | (some (.written row), true) => if row.id = id then some .activate else none
    | _ => none
  | .reportHit _ _ => none
  | .flag enc a =>
    if a.fingerprintId = id ∧ (s.flag enc a).1.isSome then some (.flag a.consumerId) else none
  | .softDelete fingerprintId nowMs =>
    if fingerprintId = id ∧ (s.softDelete fingerprintId nowMs).1 then some .delete else none
  | .applyRetention p nowMs dryRun =>
    if (s.row id).isSome ∧ ((s.applyRetention p nowMs dryRun).2.row id).isNone
    then some .purge else none

/-- The call is a flag that returned `hidden = True` for the fingerprint. -/
def Op.hides (s : Store) (id : ℤ) : Op → Bool
  | .flag enc a => a.fingerprintId = id ∧ ((s.flag enc a).1.map (·.hidden)) = some true
  | _ => false

/-- Every flag of the call is counted against this threshold. -/
def Op.UsesThreshold (threshold : ℕ) : Op → Prop
  | .flag _ a => a.autoHideThreshold = threshold
  | _ => True

namespace Store

/-- The standing of a fingerprint after a run, from a standing before it. -/
def standingFrom (id : ℤ) : Store → Standing → List Op → Standing
  | _, st, [] => st
  | s, st, op :: ops => standingFrom id (op.apply s) (st.observe (op.event s id)) ops

/-- The standing of a fingerprint after a run from the empty database. -/
def standing (ops : List Op) (id : ℤ) : Standing :=
  standingFrom id .empty .absent ops

/-- A flag of the consumer on the fingerprint is recorded. -/
def Flagged (s : Store) (id c : ℤ) : Prop := ∃ f, s.flags.get? (id, c) = some f

/-- The store shows the standing of a fingerprint: in its status column, in its `flag_count`, and
in the flag table. This is the coupling of the refinement; none of the three is stored in the
model, and each is computed from the standing. -/
structure Shows (threshold : ℕ) (s : Store) (id : ℤ) (st : Standing) : Prop where
  status : (s.row id).map (·.status) = st.status threshold
  flagCount : ∀ r, s.row id = some r → r.flagCount = st.flaggers.card
  flagged : ∀ c, s.Flagged id c ↔ c ∈ st.flaggers

variable {s : Store} {id : ℤ} {threshold : ℕ} {st : Standing}

/-! ### Counting -/

/-- The consumers `flag` counts are those with a flag recorded. -/
theorem countFlaggers_eq_card {F : Finset ℤ} (h : ∀ c, s.Flagged id c ↔ c ∈ F) :
    s.countFlaggers id = F.card := by
  unfold countFlaggers
  rw [← List.card_toFinset]
  -- the distinct consumers of the list are the members of the set
  congr 1
  ext c
  rw [List.mem_toFinset, List.mem_map, ← h c]
  constructor
  · rintro ⟨f, hf, rfl⟩
    obtain ⟨h_get, rfl⟩ := mem_flagsOf.mp hf
    exact ⟨f, h_get⟩
  · rintro ⟨f, h_get⟩
    have h_key : f.key = (id, c) := Table.key_of_get? h_get
    refine ⟨f, mem_flagsOf.mpr ⟨?_, congrArg Prod.fst h_key⟩, congrArg Prod.snd h_key⟩
    rw [h_key]
    exact h_get

/-- Recording a flag adds one flagger, whether or not it conflicts. -/
theorem flagged_recordFlag (enc : EncryptText) (a : FlagArgs) (c : ℤ) :
    (s.recordFlag enc a).Flagged id c ↔
      (id = a.fingerprintId ∧ c = a.consumerId) ∨ s.Flagged id c := by
  unfold Flagged
  have h_get : (s.recordFlag enc a).flags.get? (id, c) = _ := Table.get?_insert _ _ _
  rw [h_get]
  have h_key : (a.flag enc (s.lastFlagId + 1)).key = (id, c) ↔
      id = a.fingerprintId ∧ c = a.consumerId := by
    change (a.fingerprintId, a.consumerId) = (id, c) ↔ _
    rw [Prod.mk.injEq]
    exact ⟨fun h => ⟨h.1.symm, h.2.symm⟩, fun h => ⟨h.1.symm, h.2.symm⟩⟩
  simp only [h_key]
  cases h_old : s.flags.get? (id, c) with
  | none => by_cases hk : id = a.fingerprintId ∧ c = a.consumerId <;> simp [hk]
  | some f => simp

/-- Clearing the flags of a fingerprint leaves those of the others. -/
theorem flagged_deleteFlags (id' c : ℤ) :
    (s.deleteFlags id').Flagged id c ↔ id ≠ id' ∧ s.Flagged id c := by
  unfold Flagged
  have h_get : (s.deleteFlags id').flags.get? (id, c) = _ := Table.get?_delete _ _ _
  rw [h_get]
  cases h_old : s.flags.get? (id, c) with
  | none => simp
  | some f =>
    have h_fid : f.fingerprintId = id := congrArg Prod.fst (Table.key_of_get? h_old)
    by_cases hid : id = id' <;> simp [Option.filter, h_fid, hid]

/-! ### One call -/

/-- The columns the trust model is about. -/
def trustColumns (r : Fingerprint) : Status × ℕ := (r.status, r.flagCount)

/-- A call that leaves the trust columns and the flags of a fingerprint alone leaves
what the store shows. -/
theorem Shows.congr {s' : Store} (h : s.Shows threshold id st)
    (h_row : (s'.row id).map trustColumns = (s.row id).map trustColumns)
    (h_flagged : ∀ c, s'.Flagged id c ↔ s.Flagged id c) : s'.Shows threshold id st where
  status := by
    have h_status := congrArg (Option.map Prod.fst) h_row
    rw [Option.map_map, Option.map_map] at h_status
    exact h_status.trans h.status
  flagCount := by
    intro r' hr'
    rw [hr', Option.map_some] at h_row
    obtain ⟨r, hr, h_eq⟩ := Option.map_eq_some_iff.mp h_row.symm
    have h_count : r.flagCount = r'.flagCount := congrArg Prod.snd h_eq
    rw [← h_count]
    exact h.flagCount r hr
  flagged := fun c => (h_flagged c).trans (h.flagged c)

/-- A fingerprint nobody activated has no flags. -/
theorem not_flagged_of_row_none (h_wf : s.Wf) (h_row : s.row id = none) (c : ℤ) :
    ¬ s.Flagged id c := by
  rintro ⟨f, h_get⟩
  obtain ⟨r, hr⟩ := h_wf.flag_row _ f h_get
  have h_fid : f.fingerprintId = id := congrArg Prod.fst (Table.key_of_get? h_get)
  rw [h_fid, h_row] at hr
  exact absurd hr (by simp)

/-- A fingerprint that has just been activated is in service, and nobody has flagged it. -/
theorem Shows.activated {s' : Store} {r' : Fingerprint} (h_pos : 1 ≤ threshold)
    (h_row : s'.row id = some r') (h_status : r'.status = .active) (h_count : r'.flagCount = 0)
    (h_none : ∀ c, ¬ s'.Flagged id c) : s'.Shows threshold id (.live ∅) where
  status := by
    have h_zero : ¬ threshold ≤ (∅ : Finset ℤ).card := by rw [Finset.card_empty]; omega
    rw [h_row, Option.map_some, h_status, Standing.status, if_neg h_zero]
  flagCount := by
    intro r hr
    rw [h_row] at hr
    rw [← Option.some.inj hr, h_count]
    rfl
  flagged := fun c => iff_of_false (h_none c) (Finset.notMem_empty c)

/-- A contribution is an activation, or nothing: refused, or for another fingerprint. -/
theorem Shows.contribute (h : s.Shows threshold id st) (h_wf : s.Wf) (h_pos : 1 ≤ threshold)
    (enc : EncryptText) (a : ContributeArgs) :
    ((Op.contribute enc a).apply s).Shows threshold id
      (st.observe ((Op.contribute enc a).event s id)) := by
  rcases s.contribute_cases enc a with ⟨r, -, -, h'⟩ | ⟨r, h_found, -, h'⟩ | ⟨-, h'⟩
  · have h_event : (Op.contribute enc a).event s id = none := by simp only [Op.event, h']
    rw [h_event, Op.apply, h']
    exact h
  · -- a resurrection activates the tombstone, after clearing its flags
    have h_event : (Op.contribute enc a).event s id =
        if r.id = id then some .activate else none := by simp only [Op.event, h']; rfl
    have h_row := (row_of_findOwned h_found).1
    rw [h_event, Op.apply, h']
    by_cases hid : r.id = id
    · subst hid
      rw [if_pos rfl]
      have h_row' := row_updateRow (s := (s.deleteFlags r.id).nextSeq) r.id
        (resurrectRow enc a (s.syncSeq + 1)) (resurrectRow_id enc a _) r.id
      rw [if_pos rfl, row_nextSeq, row_deleteFlags, h_row] at h_row'
      exact Shows.activated h_pos h_row' rfl rfl
        (fun c hc => ((flagged_deleteFlags r.id c).mp hc).1 rfl)
    · rw [if_neg hid]
      refine h.congr ?_ (fun c => ?_)
      · rw [row_updateRow, if_neg (fun e => hid e.symm)]
        rfl
      · exact (flagged_deleteFlags r.id c).trans (and_iff_right (fun e => hid e.symm))
  · -- an insertion activates a fresh id
    have h_event : (Op.contribute enc a).event s id =
        if s.lastId + 1 = id then some .activate else none := by simp only [Op.event, h']; rfl
    have h_row := row_inserted enc a h_wf.fresh id
    rw [h_event, Op.apply, h']
    by_cases hid : s.lastId + 1 = id
    · subst hid
      rw [if_pos rfl] at h_row ⊢
      -- it has no flag rows: the foreign key saw to it
      exact Shows.activated h_pos h_row rfl rfl
        (fun c hc => not_flagged_of_row_none h_wf h_wf.fresh c hc)
    · rw [if_neg hid] at h_row ⊢
      exact h.congr (congrArg _ h_row) (fun c => Iff.rfl)

/-- A hit is no event. -/
theorem Shows.reportHit (h : s.Shows threshold id st) (enc : EncryptText) (a : HitArgs) :
    ((Op.reportHit enc a).apply s).Shows threshold id st := by
  -- it writes neither the status nor the count
  rcases s.reportHit_cases enc a with ⟨-, h'⟩ | ⟨r, h_row, -, h'⟩
  · rw [Op.apply, h']
    exact h
  · rw [Op.apply, h']
    refine h.congr ?_ (fun c => Iff.rfl)
    rw [row_updateRow]
    by_cases hid : id = a.fingerprintId
    · subst hid
      rw [if_pos rfl, row_recordHit, h_row]
      rfl
    · rw [if_neg hid]
      rfl

/-- A live row stands at the flaggers the model has for it. -/
theorem Shows.live (h : s.Shows threshold id st) {r : Fingerprint} (h_row : s.row id = some r)
    (h_live : r.Live) :
    ∃ F, st = .live F ∧ r.status = if threshold ≤ F.card then .hidden else .active := by
  have h_status : st.status threshold = some r.status := by
    rw [← h.status, h_row, Option.map_some]
  cases h_r : r.status with
  | deleted => exact absurd h_r h_live
  | active =>
    obtain ⟨F, h_st, h_lt⟩ := Standing.eq_live_of_active (h_r ▸ h_status)
    exact ⟨F, h_st, (if_neg (not_le.mpr h_lt)).symm⟩
  | hidden =>
    obtain ⟨F, h_st, h_le⟩ := Standing.eq_live_of_hidden (h_r ▸ h_status)
    exact ⟨F, h_st, (if_pos h_le).symm⟩

section Flagging

variable {F : Finset ℤ} {a : FlagArgs} (h : s.Shows threshold a.fingerprintId (.live F))
  (enc : EncryptText)
include h

/-- After the insertion the flaggers are those of the model, and the consumer. -/
theorem Shows.flagged_after (c : ℤ) :
    (s.recordFlag enc a).Flagged a.fingerprintId c ↔ c ∈ insert a.consumerId F := by
  rw [flagged_recordFlag, Finset.mem_insert, h.flagged c]
  exact ⟨Or.imp_left And.right, Or.imp_left (And.intro rfl)⟩

/-- `flag` counts the flaggers of the model and its own consumer. -/
theorem Shows.flagCountAfter : s.flagCountAfter enc a = (insert a.consumerId F).card :=
  countFlaggers_eq_card (h.flagged_after enc)

/-- A row after a flag of it, whose columns are what the model says. -/
theorem Shows.flagged_row {s' : Store} {r' : Fingerprint}
    (h_flags : s'.flags = (s.recordFlag enc a).flags) (h_row : s'.row a.fingerprintId = some r')
    (h_count : r'.flagCount = s.flagCountAfter enc a)
    (h_status : r'.status = if threshold ≤ s.flagCountAfter enc a then .hidden else .active) :
    s'.Shows threshold a.fingerprintId (.live (insert a.consumerId F)) where
  status := by
    rw [h_row, Option.map_some, h_status, h.flagCountAfter enc]
    rfl
  flagCount := by
    intro r hr
    rw [h_row] at hr
    rw [← Option.some.inj hr, h_count, h.flagCountAfter enc]
    rfl
  flagged := by
    intro c
    unfold Flagged
    rw [h_flags]
    exact h.flagged_after enc c

end Flagging

/-- A flag of a live row is a flag of the model, and any other is nothing. The status the store
computes from the count is the one the model has. -/
theorem Shows.flag (h : s.Shows threshold id st) (enc : EncryptText) (a : FlagArgs)
    (h_threshold : a.autoHideThreshold = threshold) :
    ((Op.flag enc a).apply s).Shows threshold id (st.observe ((Op.flag enc a).event s id)) := by
  subst h_threshold
  -- what the two writing branches share: the rows of other ids
  have h_other : ∀ (s' : Store) (set : Fingerprint → Fingerprint) (h_set : ∀ r, (set r).id = r.id),
      (∀ i, s'.row i = s.row i) → s'.flags = (s.recordFlag enc a).flags → id ≠ a.fingerprintId →
      (s'.updateRow a.fingerprintId set h_set).Shows a.autoHideThreshold id st := by
    intro s' set h_set h_rows h_flags hid
    refine h.congr ?_ (fun c => ?_)
    · rw [row_updateRow, if_neg hid, h_rows]
    · unfold Flagged
      rw [flags_updateRow, h_flags]
      refine (flagged_recordFlag enc a c).trans ⟨fun hc => ?_, Or.inr⟩
      exact hc.resolve_left (fun e => hid e.1)
  rcases s.flag_cases enc a with
    ⟨-, h'⟩ | ⟨r, h_row, h_act, h_thr, h'⟩ | ⟨r, h_row, h_live, h_keep, h'⟩
  · have h_event : (Op.flag enc a).event s id = none := by
      rw [Op.event, h', if_neg (fun e => absurd e.2 (by simp))]
    rw [h_event, Op.apply, h']
    exact h
  · have h_event : (Op.flag enc a).event s id =
        if a.fingerprintId = id then some (.flag a.consumerId) else none := by
      simp only [Op.event, h', Option.isSome_some, and_true]
    rw [h_event, Op.apply, h']
    by_cases hid : id = a.fingerprintId
    · subst hid
      have h_live : r.Live := fun h_deleted => Status.noConfusion (h_act.symm.trans h_deleted)
      -- the row is active, so it is live in the model
      obtain ⟨F, rfl, -⟩ := h.live h_row h_live
      rw [if_pos rfl]
      have h_row' := row_updateRow (s := (s.recordFlag enc a).nextSeq) a.fingerprintId
        (hideRow (s.flagCountAfter enc a) (s.syncSeq + 1) a.nowMs) (hideRow_id _ _ a.nowMs)
        a.fingerprintId
      rw [if_pos rfl, row_nextSeq, row_recordFlag, h_row] at h_row'
      exact h.flagged_row enc rfl h_row' rfl (if_pos h_thr).symm
    · rw [if_neg (fun e => hid e.symm)]
      exact h_other _ _ _ (fun i => rfl) rfl hid
  · have h_event : (Op.flag enc a).event s id =
        if a.fingerprintId = id then some (.flag a.consumerId) else none := by
      simp only [Op.event, h', Option.isSome_some, and_true]
    rw [h_event, Op.apply, h']
    by_cases hid : id = a.fingerprintId
    · subst hid
      -- the count is written, and the status stays
      obtain ⟨F, rfl, h_status⟩ := h.live h_row h_live
      rw [if_pos rfl]
      have h_row' := row_updateRow (s := s.recordFlag enc a) a.fingerprintId
        (countFlagRow (s.flagCountAfter enc a) a.nowMs) (countFlagRow_id _ a.nowMs)
        a.fingerprintId
      rw [if_pos rfl, row_recordFlag, h_row] at h_row'
      refine h.flagged_row enc rfl h_row' rfl ?_
      show r.status = _
      by_cases h_le : a.autoHideThreshold ≤ s.flagCountAfter enc a
      · -- at the threshold it must have been hidden before
        rw [if_pos h_le]
        cases h_r : r.status with
        | hidden => rfl
        | active => exact absurd ⟨h_le, h_r⟩ h_keep
        | deleted => exact absurd h_r h_live
      · -- below it, it was below it before: the flaggers only grow
        have h_grow : F.card ≤ s.flagCountAfter enc a := by
          rw [h.flagCountAfter enc]
          exact Finset.card_le_card (Finset.subset_insert _ _)
        rw [if_neg h_le, h_status, if_neg (fun h_F => h_le (h_F.trans h_grow))]
    · rw [if_neg (fun e => hid e.symm)]
      exact h_other _ _ _ (fun i => rfl) rfl hid

/-- A deletion of a live row is one of the model. -/
theorem Shows.softDelete (h : s.Shows threshold id st) (fingerprintId nowMs : ℤ) :
    ((Op.softDelete fingerprintId nowMs).apply s).Shows threshold id
      (st.observe ((Op.softDelete fingerprintId nowMs).event s id)) := by
  rcases s.softDelete_cases fingerprintId nowMs with ⟨-, h'⟩ | ⟨r, h_row, h_live, h'⟩
  · have h_event : (Op.softDelete fingerprintId nowMs).event s id = none := by
      rw [Op.event, h', if_neg (fun e => absurd e.2 (by simp))]
    rw [h_event, Op.apply, h']
    exact h
  · have h_event : (Op.softDelete fingerprintId nowMs).event s id =
        if fingerprintId = id then some .delete else none := by
      simp only [Op.event, h', and_true]
    rw [h_event, Op.apply, h']
    by_cases hid : id = fingerprintId
    · subst hid
      obtain ⟨F, rfl, -⟩ := h.live h_row h_live
      have h_row' := row_updateRow (s := s.nextSeq) id (deleteRow (s.syncSeq + 1) nowMs)
        (deleteRow_id _ nowMs) id
      rw [if_pos rfl, row_nextSeq, h_row] at h_row'
      rw [if_pos rfl]
      -- the tombstone keeps the flags, and the model the flaggers
      refine ⟨by rw [h_row']; rfl, fun r' hr' => ?_, h.flagged⟩
      rw [h_row'] at hr'
      rw [← Option.some.inj hr']
      exact h.flagCount r h_row
    · rw [if_neg (fun e => hid e.symm)]
      refine h.congr ?_ (fun c => Iff.rfl)
      rw [row_updateRow, if_neg hid]
      rfl

/-- A flag survives the four statements exactly when its fingerprint does. -/
theorem flagged_retain (p : RetentionPolicy) (nowMs c : ℤ) :
    (s.retain p nowMs).2.Flagged id c ↔
      s.Flagged id c ∧ ¬ ∃ r, s.row id = some r ∧ p.purges nowMs r = true := by
  unfold Flagged
  rw [flags_retain, ← mem_purged]
  have h_fid : ∀ f, s.flags.get? (id, c) = some f →
      (if p.clearsReason nowMs f then clearReason f else f).fingerprintId = id := by
    intro f h_get
    have h_id : f.fingerprintId = id := congrArg Prod.fst (Table.key_of_get? h_get)
    split <;> exact h_id
  -- a flag loses its reason at most, unless the cascade takes it
  cases h_old : s.flags.get? (id, c) with
  | none => simp
  | some f =>
    by_cases h_gone : id ∈ (s.fingerprints.select (p.purges nowMs)).map (·.id) <;>
      simp [Option.filter, h_fid f h_old, h_gone]

/-- Retention is a purge of the rows it takes, and nothing to the others. -/
theorem Shows.applyRetention (h : s.Shows threshold id st) (p : RetentionPolicy) (nowMs : ℤ)
    (dryRun : Bool) :
    ((Op.applyRetention p nowMs dryRun).apply s).Shows threshold id
      (st.observe ((Op.applyRetention p nowMs dryRun).event s id)) := by
  -- a refused policy and a dry run change nothing
  have h_same : (s.applyRetention p nowMs dryRun).2 = s →
      ((Op.applyRetention p nowMs dryRun).apply s).Shows threshold id
        (st.observe ((Op.applyRetention p nowMs dryRun).event s id)) := by
    intro h'
    have h_event : (Op.applyRetention p nowMs dryRun).event s id = none := by
      rw [Op.event, h']
      cases s.row id <;> rfl
    rw [h_event, Op.apply, h']
    exact h
  rcases s.applyRetention_cases p nowMs dryRun with ⟨-, -, h'⟩ | ⟨-, h'⟩
  · exact h_same h'
  · cases dryRun with
    | true => exact h_same (congrArg Prod.snd h')
    | false =>
      have h_after : (s.applyRetention p nowMs false).2 = (s.retain p nowMs).2 :=
        congrArg Prod.snd h'
      have h_row := s.row_retain p nowMs id
      rw [Op.event, Op.apply, h_after]
      by_cases h_purge : ∃ r, s.row id = some r ∧ p.purges nowMs r = true
      · -- the tombstone goes, and its flags with it
        obtain ⟨r, hr, h_p⟩ := h_purge
        rw [hr] at h_row
        have h_none : (s.retain p nowMs).2.row id = none := by
          rw [h_row]
          simp [h_p]
        rw [hr, h_none, if_pos ⟨rfl, rfl⟩]
        have h_absent : st.observe (some .purge) = .absent := by cases st <;> rfl
        rw [h_absent]
        refine ⟨by rw [h_none]; rfl, fun r' hr' => ?_, fun c => ?_⟩
        · rw [h_none] at hr'
          exact absurd hr' (by simp)
        · rw [flagged_retain]
          exact ⟨fun hc => absurd ⟨r, hr, h_p⟩ hc.2, fun hc => absurd hc (Finset.notMem_empty c)⟩
      · -- the row survives, and is anonymised at most
        have h_keep : (s.retain p nowMs).2.row id =
            (s.row id).map (fun r => if p.anonymizes nowMs r then anonymizeRow r else r) := by
          rw [h_row]
          cases hr : s.row id with
          | none => rfl
          | some r =>
            have h_not : ¬ p.purges nowMs r = true := fun h_p => h_purge ⟨r, hr, h_p⟩
            simp [Option.filter, h_not]
        have h_event : ¬ ((s.row id).isSome = true ∧
            ((s.retain p nowMs).2.row id).isNone = true) := by
          rw [h_keep]
          cases s.row id <;> simp
        rw [if_neg h_event]
        refine h.congr ?_ (fun c => ?_)
        · rw [h_keep, Option.map_map]
          congr 1
          funext r
          simp only [Function.comp_apply]
          split <;> rfl
        · rw [flagged_retain]
          exact and_iff_left h_purge

/-- **One call keeps store and model together.** -/
theorem Shows.step (h : s.Shows threshold id st) (h_wf : s.Wf) (h_pos : 1 ≤ threshold) (op : Op)
    (h_op : op.UsesThreshold threshold) :
    (op.apply s).Shows threshold id (st.observe (op.event s id)) := by
  cases op with
  | contribute enc a => exact h.contribute h_wf h_pos enc a
  | reportHit enc a => exact h.reportHit enc a
  | flag enc a => exact h.flag enc a h_op
  | softDelete fingerprintId nowMs => exact h.softDelete fingerprintId nowMs
  | applyRetention p nowMs dryRun => exact h.applyRetention p nowMs dryRun

/-- At first every fingerprint is absent. -/
theorem Shows.empty : Store.empty.Shows threshold id .absent where
  status := rfl
  flagCount := fun r hr => absurd hr (by simp)
  flagged := fun c => ⟨fun ⟨f, hf⟩ => absurd hf (by simp [Store.empty]),
    fun hc => absurd hc (Finset.notMem_empty c)⟩

/-- **The store refines the trust model**: after every run it shows the standing the model gives
each fingerprint. The model sees the events only, so that the standing after a run is determined
by the answers of its calls. -/
theorem Shows.run (h : s.Shows threshold id st) (h_wf : s.Wf) (h_pos : 1 ≤ threshold)
    (ops : List Op) (h_ops : ∀ op ∈ ops, op.UsesThreshold threshold) :
    (s.run ops).Shows threshold id (standingFrom id s st ops) := by
  induction ops generalizing s st with
  | nil => exact h
  | cons op ops ih =>
    have h_step := h.step h_wf h_pos op (h_ops op List.mem_cons_self)
    exact ih h_step (h_wf.step op) (fun op' h' => h_ops op' (List.mem_cons_of_mem op h'))

/-! ### What follows from the model -/

/-- A fingerprint that has used up its hide keeps it used up until it is activated
again. -/
theorem spent_standingFrom (h : st.Spent threshold) (ops : List Op)
    (h_ops : ∀ ops₁ op ops₂, ops = ops₁ ++ op :: ops₂ →
      op.event (s.run ops₁) id ≠ some .activate) :
    (standingFrom id s st ops).Spent threshold := by
  induction ops generalizing s st with
  | nil => exact h
  | cons op ops ih =>
    refine ih (h.observe (h_ops [] op ops rfl)) (fun ops₁ op' ops₂ h_eq => ?_)
    exact h_ops (op :: ops₁) op' ops₂ (by rw [h_eq]; rfl)

/-- Flags only add their consumers to a live fingerprint. -/
theorem standingFrom_flags (s : Store) (id : ℤ) (F : Finset ℤ)
    (fl : List (EncryptText × FlagArgs)) :
    ∃ F', standingFrom id s (.live F) (fl.map (fun x => .flag x.1 x.2)) = .live F' ∧
      ∀ c ∈ F', c ∈ F ∨ ∃ x ∈ fl, x.2.fingerprintId = id ∧ x.2.consumerId = c := by
  induction fl generalizing s F with
  | nil => exact ⟨F, rfl, fun c hc => Or.inl hc⟩
  | cons x fl ih =>
    -- one flag adds its consumer, or nobody
    obtain ⟨F₁, h_F₁, h_mem⟩ : ∃ F₁, (Standing.live F).observe
        ((Op.flag x.1 x.2).event s id) = .live F₁ ∧
        ∀ c ∈ F₁, c ∈ F ∨ x.2.fingerprintId = id ∧ x.2.consumerId = c := by
      rw [Op.event]
      split
      · next h_on =>
        refine ⟨insert x.2.consumerId F, rfl, fun c hc => ?_⟩
        rcases Finset.mem_insert.mp hc with rfl | hc
        · exact Or.inr ⟨h_on.1, rfl⟩
        · exact Or.inl hc
      · exact ⟨F, rfl, fun c hc => Or.inl hc⟩
    obtain ⟨F', h_F', h_mem'⟩ := ih ((Op.flag x.1 x.2).apply s) F₁
    refine ⟨F', ?_, fun c hc => ?_⟩
    · rw [← h_F', ← h_F₁]
      rfl
    · -- a flagger was there after the first flag, or came with the rest
      rcases h_mem' c hc with hc | ⟨y, hy, h_y⟩
      · exact (h_mem c hc).imp_right (fun h => ⟨x, List.mem_cons_self, h⟩)
      · exact Or.inr ⟨y, List.mem_cons_of_mem x hy, h_y⟩

/-- A flag that hides finds the fingerprint active and leaves it at the threshold. -/
theorem Shows.of_hides (h : s.Shows threshold id st) (h_wf : s.Wf) (h_pos : 1 ≤ threshold)
    {op : Op} (h_op : op.UsesThreshold threshold) (h_hides : op.hides s id = true) :
    st.status threshold = some .active ∧ (st.observe (op.event s id)).Spent threshold := by
  cases op with
  | flag enc a =>
    obtain ⟨rfl, h_res⟩ := of_decide_eq_true h_hides
    have h_shows := h.step h_wf h_pos _ h_op
    rcases s.flag_cases enc a with ⟨-, h'⟩ | ⟨r, h_row, h_act, -, h'⟩ | ⟨r, -, -, -, h'⟩
    · rw [h'] at h_res
      exact absurd h_res (by simp)
    · -- it hid an active row,
      have h_status : st.status threshold = some .active := by
        rw [← h.status, h_row, Option.map_some, h_act]
      refine ⟨h_status, fun F h_F => ?_⟩
      -- which shows as hidden afterwards, so the flaggers are enough
      have h_status' := h_shows.status
      rw [h_F, Op.apply, h', row_updateRow, if_pos rfl, row_nextSeq, row_recordFlag,
        h_row] at h_status'
      by_contra h_lt
      rw [Standing.status, if_neg h_lt] at h_status'
      exact absurd h_status' (by simp [hideRow])
    · rw [h'] at h_res
      exact absurd h_res (by simp)
  | contribute enc a => exact absurd h_hides (by simp [Op.hides])
  | reportHit enc a => exact absurd h_hides (by simp [Op.hides])
  | softDelete fingerprintId nowMs => exact absurd h_hides (by simp [Op.hides])
  | applyRetention p nowMs dryRun => exact absurd h_hides (by simp [Op.hides])

end Store

/-- The changes of status a call may make, with the call that makes each; the first is the
insertion of a new fingerprint. `flaggers` are those of its current activation. There is no way
from hidden back to active but through a deletion. -/
inductive StatusChange (s : Store) (id : ℤ) (flaggers : Finset ℤ) :
    Op → Option Status → Option Status → Prop
  | insert {enc : EncryptText} {a : ContributeArgs} (h_free : s.findOwned a.owned = none) :
      StatusChange s id flaggers (.contribute enc a) none (some .active)
  | hide {enc : EncryptText} {a : FlagArgs} (h_target : a.fingerprintId = id)
      (h_new : a.consumerId ∉ flaggers) :
      StatusChange s id flaggers (.flag enc a) (some .active) (some .hidden)
  | delete {nowMs : ℤ} {status : Status} (h_live : status ≠ .deleted) :
      StatusChange s id flaggers (.softDelete id nowMs) (some status) (some .deleted)
  | resurrect {enc : EncryptText} {a : ContributeArgs} {r : Fingerprint}
      (h_row : s.row id = some r) (h_owned : a.owned = r.owned) :
      StatusChange s id flaggers (.contribute enc a) (some .deleted) (some .active)
  | purge {p : RetentionPolicy} {nowMs : ℤ} :
      StatusChange s id flaggers (.applyRetention p nowMs false) (some .deleted) none

namespace Store

variable {s : Store} {id : ℤ} {threshold : ℕ} {st : Standing}

/-- Every change of status is one of those the trust model knows. The cases are those of the row
step; only that a hiding flag is a new one needs the coupling. -/
theorem Shows.statusChange (h : s.Shows threshold id st) (h_wf : s.Wf) {op : Op}
    (h_op : op.UsesThreshold threshold)
    (h_change : (s.row id).map (·.status) ≠ ((op.apply s).row id).map (·.status)) :
    StatusChange s id st.flaggers op ((s.row id).map (·.status))
      (((op.apply s).row id).map (·.status)) := by
  have h_step := Op.rowStep h_wf.fresh op id
  generalize h_o : s.row id = o at h_step h_change ⊢
  generalize h_o' : (op.apply s).row id = o' at h_step h_change ⊢
  cases h_step with
  | keep => exact absurd rfl h_change
  | insert h_free h_seq => exact .insert h_free
  | @resurrect enc a r h_found h_deleted h_seq =>
    rw [Option.map_some, Option.map_some, h_deleted]
    exact .resurrect h_o (row_of_findOwned h_found).2.symm
  | hit h_live => exact absurd rfl h_change
  | @hide enc a r h_active h_threshold h_seq =>
    rw [Option.map_some, Option.map_some, h_active]
    refine .hide rfl (fun h_mem => ?_)
    -- a repeated flag leaves the flaggers as they were, below the threshold
    have h_status : st.status threshold = some .active := by
      rw [← h.status, h_o, Option.map_some, h_active]
    obtain ⟨F, rfl, h_lt⟩ := Standing.eq_live_of_active h_status
    have h_card : s.flagCountAfter enc a = F.card :=
      (h.flagCountAfter enc).trans (congrArg Finset.card (Finset.insert_eq_of_mem h_mem))
    have h_eq : a.autoHideThreshold = threshold := h_op
    omega
  | count h_live h_keep => exact absurd rfl h_change
  | @delete _ nowMs r h_live h_seq => exact .delete h_live
  | @purge p nowMs _ r h_accepted h_purges =>
    have h_deleted : r.status = .deleted := by
      unfold RetentionPolicy.purges at h_purges
      simp only [Bool.and_eq_true, decide_eq_true_eq] at h_purges
      exact h_purges.1
    rw [Option.map_some, h_deleted]
    exact .purge
  | anonymize h_accepted h_anonymizes => exact absurd rfl h_change

/-- Retention leaves a live row as it is. -/
theorem row_applyRetention_of_live {r : Fingerprint} (h_row : s.row id = some r)
    (h_live : r.Live) (p : RetentionPolicy) (nowMs : ℤ) (dryRun : Bool) :
    (s.applyRetention p nowMs dryRun).2.row id = some r := by
  rcases s.applyRetention_cases p nowMs dryRun with ⟨-, -, h'⟩ | ⟨-, h'⟩
  · rw [h', h_row]
  · rw [h']
    cases dryRun with
    | true => exact h_row
    | false =>
      -- both statements are for tombstones only
      have h_purge : p.purges nowMs r = false := by
        unfold RetentionPolicy.purges
        rw [decide_eq_false h_live, Bool.false_and]
      have h_anon : p.anonymizes nowMs r = false := by
        unfold RetentionPolicy.anonymizes
        rw [decide_eq_false h_live, Bool.false_and, Bool.false_and]
      change (s.retain p nowMs).2.row id = some r
      rw [row_retain, h_row]
      simp [Option.filter, h_purge, h_anon]

/-- Two flags that hide a fingerprint have an activation of it between them: the first
spends its hide, and without an activation the second finds it spent. -/
theorem Shows.activated_between (h : s.Shows threshold id st) (h_wf : s.Wf) (h_pos : 1 ≤ threshold)
    {op₁ op₂ : Op} {between : List Op} (h_op₁ : op₁.UsesThreshold threshold)
    (h_between : ∀ op ∈ between, op.UsesThreshold threshold) (h_op₂ : op₂.UsesThreshold threshold)
    (h_hides₁ : op₁.hides s id = true)
    (h_hides₂ : op₂.hides ((op₁.apply s).run between) id = true) :
    ∃ ops₁ op ops₂, between = ops₁ ++ op :: ops₂ ∧
      op.event ((op₁.apply s).run ops₁) id = some .activate := by
  have h_wf₁ : (op₁.apply s).Wf := h_wf.step op₁
  have h_shows := (h.step h_wf h_pos op₁ h_op₁).run h_wf₁ h_pos between h_between
  have h_spent := (h.of_hides h_wf h_pos h_op₁ h_hides₁).2
  by_contra h_none
  have h_still := spent_standingFrom (s := op₁.apply s) h_spent between
    (fun ops₁ op ops₂ h_eq h_act => h_none ⟨ops₁, op, ops₂, h_eq, h_act⟩)
  have h_active := (h_shows.of_hides (h_wf₁.run between) h_pos h_op₂ h_hides₂).1
  obtain ⟨F, h_F, h_lt⟩ := Standing.eq_live_of_active h_active
  exact absurd (h_still F h_F) (not_le.mpr h_lt)

/-- Flags of too few consumers leave an active row active. -/
theorem Shows.stays_active (h : s.Shows threshold id st) (h_wf : s.Wf) (h_pos : 1 ≤ threshold)
    {r : Fingerprint} (h_row : s.row id = some r) (h_active : r.status = .active)
    {few : Finset ℤ} (h_card : few.card < threshold) (h_sub : st.flaggers ⊆ few)
    {fl : List (EncryptText × FlagArgs)} (h_fl : ∀ x ∈ fl, x.2.autoHideThreshold = threshold ∧
      (x.2.fingerprintId = id → x.2.consumerId ∈ few)) :
    ∃ r', (s.run (fl.map (fun x => .flag x.1 x.2))).row id = some r' ∧ r'.status = .active := by
  have h_live : r.Live := fun h_deleted => Status.noConfusion (h_active.symm.trans h_deleted)
  obtain ⟨F, rfl, -⟩ := h.live h_row h_live
  obtain ⟨F', h_F', h_mem⟩ := standingFrom_flags s id F fl
  have h_shows := h.run h_wf h_pos (fl.map (fun x => .flag x.1 x.2)) (by
    intro op h_op
    obtain ⟨x, hx, rfl⟩ := List.mem_map.mp h_op
    exact (h_fl x hx).1)
  rw [h_F'] at h_shows
  -- whoever has flagged it by then is among the few
  have h_few : F' ⊆ few := by
    intro c hc
    rcases h_mem c hc with h_old | ⟨x, hx, h_id, rfl⟩
    · exact h_sub h_old
    · exact (h_fl x hx).2 h_id
  have h_lt : ¬ threshold ≤ F'.card :=
    not_le.mpr ((Finset.card_le_card h_few).trans_lt h_card)
  have h_status := h_shows.status
  rw [Standing.status, if_neg h_lt] at h_status
  exact Option.map_eq_some_iff.mp h_status

end Store

/-! ### The trust model, on every run -/

/-- What the trust model says about the state a run has reached, about the calls it has made, and
about those that may come next. Of the fields, the first five couple the columns to the model, and
the others say what the model excludes. -/
structure TrustModel (threshold : ℕ) (ops : List Op) : Prop where
  /-- One row for each consumer and hash. -/
  owned_inj : ∀ id id' r r', (Store.empty.run ops).row id = some r →
    (Store.empty.run ops).row id' = some r' → r.phashHex = r'.phashHex →
    r.consumerId = r'.consumerId → id = id'
  /-- The counter is the number of flaggers, -/
  flagCount : ∀ id r, (Store.empty.run ops).row id = some r →
    r.flagCount = (Store.standing ops id).flaggers.card
  /-- and that is the number of flag rows, -/
  flagRows : ∀ id r, (Store.empty.run ops).row id = some r →
    ((Store.empty.run ops).flagsOf id).length = (Store.standing ops id).flaggers.card
  /-- which are those of the flaggers. -/
  flaggers : ∀ id r, (Store.empty.run ops).row id = some r →
    ∀ c, (Store.empty.run ops).Flagged id c ↔ c ∈ (Store.standing ops id).flaggers
  /-- A live row is hidden exactly from the threshold on, -/
  hidden_iff : ∀ id r, (Store.empty.run ops).row id = some r → r.Live →
    (r.status = .hidden ↔ threshold ≤ (Store.standing ops id).flaggers.card)
  /-- and active exactly below it. -/
  active_iff : ∀ id r, (Store.empty.run ops).row id = some r → r.Live →
    (r.status = .active ↔ (Store.standing ops id).flaggers.card < threshold)
  /-- Two flags that hide a fingerprint have an activation of it between them. -/
  hidden_once : ∀ id before op₁ between op₂ after, ops = before ++ op₁ :: between ++ op₂ :: after →
    op₁.hides (Store.empty.run before) id = true →
    op₂.hides (Store.empty.run (before ++ op₁ :: between)) id = true →
    ∃ ops₁ op ops₂, between = ops₁ ++ op :: ops₂ ∧
      op.event (Store.empty.run (before ++ op₁ :: ops₁)) id = some .activate
  /-- No call changes a status but as the model has it. -/
  statusChange : ∀ op, op.UsesThreshold threshold → ∀ id,
    ((Store.empty.run ops).row id).map (·.status) ≠
      ((Store.empty.run (ops ++ [op])).row id).map (·.status) →
    StatusChange (Store.empty.run ops) id (Store.standing ops id).flaggers op
      (((Store.empty.run ops).row id).map (·.status))
      (((Store.empty.run (ops ++ [op])).row id).map (·.status))
  /-- Flags of too few consumers take no row out of service. -/
  few_flaggers : ∀ id r (fl : List (EncryptText × FlagArgs)) (few : Finset ℤ),
    (Store.empty.run ops).row id = some r → r.status = .active → few.card < threshold →
    (Store.standing ops id).flaggers ⊆ few →
    (∀ x ∈ fl, x.2.autoHideThreshold = threshold ∧
      (x.2.fingerprintId = id → x.2.consumerId ∈ few)) →
    ∃ r', (Store.empty.run (ops ++ fl.map (fun x => .flag x.1 x.2))).row id = some r' ∧
      r'.status = .active
  /-- Retention changes neither a live row nor its flaggers. -/
  retention : ∀ id r p nowMs dryRun, (Store.empty.run ops).row id = some r → r.Live →
    ((Store.empty.run ops).applyRetention p nowMs dryRun).2.row id = some r ∧
      ∀ c, ((Store.empty.run ops).applyRetention p nowMs dryRun).2.Flagged id c ↔
        (Store.empty.run ops).Flagged id c

/-- **The store refines its trust model**, with any fixed threshold of at least one, in every
state of every run.

The threshold is an argument of `flag`, and every flag of the run is assumed to be given the same
one. A threshold that is lowered leaves rows active that have reached the new one, until their
next flag; what holds then is `Reachable.counted`. -/
theorem trust_model (threshold : ℕ) (h_pos : 1 ≤ threshold) (ops : List Op)
    (h_ops : ∀ op ∈ ops, op.UsesThreshold threshold) : TrustModel threshold ops := by
  have h_wf : (Store.empty.run ops).Wf := Store.Wf.empty.run ops
  have h_shows : ∀ id, (Store.empty.run ops).Shows threshold id (Store.standing ops id) :=
    fun id => Store.Shows.empty.run Store.Wf.empty h_pos ops h_ops
  refine
    { owned_inj := fun id id' r r' h h' h_hash h_consumer =>
        h_wf.owned_inj id id' r r' h h' (Prod.ext h_hash h_consumer)
      flagCount := fun id => (h_shows id).flagCount
      flagRows := fun id r _ => by
        rw [← Store.countFlaggers_eq_length, Store.countFlaggers_eq_card (h_shows id).flagged]
      flaggers := fun id r _ => (h_shows id).flagged
      hidden_iff := ?_
      active_iff := ?_
      hidden_once := ?_
      statusChange := ?_
      few_flaggers := ?_
      retention := ?_ }
  · -- the status of a live row is computed from its flaggers
    intro id r h_row h_r
    obtain ⟨F, h_st, h_status⟩ := (h_shows id).live h_row h_r
    rw [h_status, h_st]
    split
    · next h_le => exact ⟨fun _ => h_le, fun _ => rfl⟩
    · next h_lt => exact ⟨fun e => Status.noConfusion e, fun h_le => absurd h_le h_lt⟩
  · intro id r h_row h_r
    obtain ⟨F, h_st, h_status⟩ := (h_shows id).live h_row h_r
    rw [h_status, h_st]
    split
    · next h_le => exact ⟨fun e => Status.noConfusion e, fun h_lt => absurd h_le (not_le.mpr h_lt)⟩
    · next h_lt => exact ⟨fun _ => not_le.mp h_lt, fun _ => rfl⟩
  · -- the first of the two flags spends the hide of the fingerprint
    intro id before op₁ between op₂ after h_eq h_hides₁ h_hides₂
    have h_mem : ∀ op ∈ before ++ op₁ :: between ++ op₂ :: after, op.UsesThreshold threshold :=
      h_eq ▸ h_ops
    simp only [List.mem_append, List.mem_cons] at h_mem
    have h_before : (Store.empty.run before).Shows threshold id (Store.standing before id) :=
      Store.Shows.empty.run Store.Wf.empty h_pos before (fun op h => h_mem op (by tauto))
    rw [Store.run_append] at h_hides₂
    obtain ⟨ops₁, op, ops₂, h_b, h_act⟩ := h_before.activated_between (Store.Wf.empty.run before)
      h_pos (h_mem op₁ (by tauto)) (fun op h => h_mem op (by tauto)) (h_mem op₂ (by tauto))
      h_hides₁ h_hides₂
    refine ⟨ops₁, op, ops₂, h_b, ?_⟩
    rw [Store.run_append]
    exact h_act
  · intro op h_op id h_change
    rw [Store.run_concat] at h_change ⊢
    exact (h_shows id).statusChange h_wf h_op h_change
  · intro id r fl few h_row h_active h_card h_sub h_fl
    rw [Store.run_append]
    exact (h_shows id).stays_active h_wf h_pos h_row h_active h_card h_sub h_fl
  · intro id r p nowMs dryRun h_row h_r
    -- retention is no event for a live fingerprint
    have h_same := Store.row_applyRetention_of_live h_row h_r p nowMs dryRun
    refine ⟨h_same, fun c => ?_⟩
    have h_step := (h_shows id).step h_wf h_pos (.applyRetention p nowMs dryRun) trivial
    have h_event : (Op.applyRetention p nowMs dryRun).event (Store.empty.run ops) id = none := by
      rw [Op.event, h_same, if_neg (fun e => absurd e.2 (by simp))]
    rw [h_event] at h_step
    exact (h_step.flagged c).trans ((h_shows id).flagged c).symm

/-! ### A run -/

/-- A flag against a threshold of two. -/
def sampleFlag (fingerprintId consumerId : ℤ) : FlagArgs where
  fingerprintId := fingerprintId
  consumerId := consumerId
  reason := none
  nowMs := 20
  autoHideThreshold := 2

/-- A contribution, flagged by consumer 2 twice and by consumer 3 once. -/
def sampleRun : List Op :=
  [.contribute (fun _ t => t) (sampleContribution "00ff"),
    .flag (fun _ t => t) (sampleFlag 1 2), .flag (fun _ t => t) (sampleFlag 1 2),
    .flag (fun _ t => t) (sampleFlag 1 3)]

/-- The run ends with its fingerprint hidden, and the model holds of it. -/
theorem trust_model_sampleRun :
    ((Store.empty.run sampleRun).row 1).map (·.status) = some .hidden ∧ TrustModel 2 sampleRun := by
  have h_ops : ∀ op ∈ sampleRun, op.UsesThreshold 2 := by
    simp [sampleRun, Op.UsesThreshold, sampleFlag]
  exact ⟨by decide, trust_model 2 (by decide) sampleRun h_ops⟩

end FingerprintHub
