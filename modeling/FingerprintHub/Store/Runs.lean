import FingerprintHub.Store.Spec

/-!
# Runs of whole operations

A run is a list of operations applied one after the other, each atomically, to
the empty database. `RowStep` says once what an operation can do to the row of an
id; every invariant of runs is derived from `Op.rowStep` by its cases.

`Store.Wf` collects what the schema promises and the operations keep: ids and
`sync_seq` values below their sequences, `sync_seq` and `(phash_hex, consumer_id)`
unique, and no flag or hit without its fingerprint.
-/

namespace FingerprintHub

/-- A call of one of the five writing functions of the store. -/
inductive Op where
  | contribute (enc : EncryptText) (a : ContributeArgs)
  | reportHit (enc : EncryptText) (a : HitArgs)
  | flag (enc : EncryptText) (a : FlagArgs)
  | softDelete (fingerprintId : ℤ) (nowMs : ℤ)
  | applyRetention (p : RetentionPolicy) (nowMs : ℤ) (dryRun : Bool)

namespace Op

/-- The store after a call. -/
def apply (s : Store) : Op → Store
  | .contribute enc a => (s.contribute enc a).2
  | .reportHit enc a => (s.reportHit enc a).2
  | .flag enc a => (s.flag enc a).2
  | .softDelete id nowMs => (s.softDelete id nowMs).2
  | .applyRetention p nowMs dryRun => (s.applyRetention p nowMs dryRun).2

/-- The `now_ms` of a call. -/
def nowMs : Op → ℤ
  | .contribute _ a => a.nowMs
  | .reportHit _ a => a.nowMs
  | .flag _ a => a.nowMs
  | .softDelete _ nowMs => nowMs
  | .applyRetention _ nowMs _ => nowMs

end Op

/-- The store after a list of calls, the first of which is made first. -/
def Store.run (s : Store) (ops : List Op) : Store :=
  ops.foldl Op.apply s

@[simp] theorem Store.run_nil (s : Store) : s.run [] = s := rfl

theorem Store.run_append (s : Store) (ops ops' : List Op) :
    s.run (ops ++ ops') = (s.run ops).run ops' := List.foldl_append

theorem Store.run_concat (s : Store) (ops : List Op) (op : Op) :
    s.run (ops ++ [op]) = op.apply (s.run ops) := by
  rw [Store.run_append]
  rfl

/-! ### What a call does to one row -/

/-- What a call can do to the row of an id, with the guard under which it does so. The four
constructors that write a new `sync_seq` are `insert`, `resurrect`, `hide` and `delete`; they
carry that the sequence was advanced by the same call. Later proofs go by cases on it and never
open an operation again. -/
inductive RowStep (s : Store) : Op → ℤ → Option Fingerprint → Option Fingerprint → Prop
  | keep {op : Op} {id : ℤ} {o : Option Fingerprint} : RowStep s op id o o
  | insert {enc : EncryptText} {a : ContributeArgs} (h_free : s.findOwned a.owned = none)
      (h_seq : ((Op.contribute enc a).apply s).syncSeq = s.syncSeq + 1) :
      RowStep s (.contribute enc a) (s.lastId + 1) none
        (some (freshRow enc a (s.lastId + 1) (s.syncSeq + 1)))
  | resurrect {enc : EncryptText} {a : ContributeArgs} {r : Fingerprint}
      (h_found : s.findOwned a.owned = some r) (h_deleted : r.status = .deleted)
      (h_seq : ((Op.contribute enc a).apply s).syncSeq = s.syncSeq + 1) :
      RowStep s (.contribute enc a) r.id (some r)
        (some (resurrectRow enc a (s.syncSeq + 1) r))
  | hit {enc : EncryptText} {a : HitArgs} {r : Fingerprint} (h_live : r.Live) :
      RowStep s (.reportHit enc a) a.fingerprintId (some r) (some (hitRow a.nowMs r))
  | hide {enc : EncryptText} {a : FlagArgs} {r : Fingerprint} (h_active : r.status = .active)
      (h_threshold : a.autoHideThreshold ≤ s.flagCountAfter enc a)
      (h_seq : ((Op.flag enc a).apply s).syncSeq = s.syncSeq + 1) :
      RowStep s (.flag enc a) a.fingerprintId (some r)
        (some (hideRow (s.flagCountAfter enc a) (s.syncSeq + 1) a.nowMs r))
  | count {enc : EncryptText} {a : FlagArgs} {r : Fingerprint} (h_live : r.Live)
      (h_keep : ¬ (a.autoHideThreshold ≤ s.flagCountAfter enc a ∧ r.status = .active)) :
      RowStep s (.flag enc a) a.fingerprintId (some r)
        (some (countFlagRow (s.flagCountAfter enc a) a.nowMs r))
  | delete {id : ℤ} {nowMs : ℤ} {r : Fingerprint} (h_live : r.Live)
      (h_seq : ((Op.softDelete id nowMs).apply s).syncSeq = s.syncSeq + 1) :
      RowStep s (.softDelete id nowMs) id (some r) (some (deleteRow (s.syncSeq + 1) nowMs r))
  | purge {p : RetentionPolicy} {nowMs : ℤ} {id : ℤ} {r : Fingerprint} (h_accepted : p.Accepted)
      (h_purges : p.purges nowMs r = true) :
      RowStep s (.applyRetention p nowMs false) id (some r) none
  | anonymize {p : RetentionPolicy} {nowMs : ℤ} {id : ℤ} {r : Fingerprint}
      (h_accepted : p.Accepted) (h_anonymizes : p.anonymizes nowMs r = true) :
      RowStep s (.applyRetention p nowMs false) id (some r) (some (anonymizeRow r))

/-- **The row step of a call.** Every call moves the row of every id by a `RowStep`. The
hypothesis is that the next identity value is not in use; it holds in every well-formed store
(`Store.Wf.fresh`). -/
theorem Op.rowStep {s : Store} (h_fresh : s.row (s.lastId + 1) = none) (op : Op) (id : ℤ) :
    RowStep s op id (s.row id) ((op.apply s).row id) := by
  cases op with
  | contribute enc a =>
    rcases s.contribute_cases enc a with ⟨r, -, -, h⟩ | ⟨r, h_found, h_del, h⟩ | ⟨h_free, h⟩
    · rw [apply, h]; exact .keep
    · have h_row := (Store.row_of_findOwned h_found).1
      have h_seq : ((Op.contribute enc a).apply s).syncSeq = s.syncSeq + 1 := by
        rw [apply, h]; rfl
      rw [apply, h, Store.row_updateRow]
      -- only the row of the tombstone is rewritten
      by_cases hid : id = r.id
      · subst hid
        rw [if_pos rfl, Store.row_nextSeq, Store.row_deleteFlags, h_row]
        exact .resurrect h_found h_del h_seq
      · rw [if_neg hid]; exact .keep
    · have h_seq : ((Op.contribute enc a).apply s).syncSeq = s.syncSeq + 1 := by
        rw [apply, h]; rfl
      have h_row : ((Op.contribute enc a).apply s).row id =
          if s.lastId + 1 = id then some (freshRow enc a (s.lastId + 1) (s.syncSeq + 1))
          else s.row id := by
        rw [apply, h]
        exact Store.row_inserted enc a h_fresh id
      rw [h_row]
      by_cases hid : s.lastId + 1 = id
      · subst hid
        rw [if_pos rfl, h_fresh]
        exact .insert h_free h_seq
      · rw [if_neg hid]; exact .keep
  | reportHit enc a =>
    rcases s.reportHit_cases enc a with ⟨-, h⟩ | ⟨r, h_row, h_live, h⟩
    · rw [apply, h]; exact .keep
    · -- only the row that is hit
      rw [apply, h, Store.row_updateRow]
      by_cases hid : id = a.fingerprintId
      · subst hid
        rw [if_pos rfl, Store.row_recordHit, h_row]
        exact .hit h_live
      · rw [if_neg hid]; exact .keep
  | flag enc a =>
    rcases s.flag_cases enc a with
      ⟨-, h⟩ | ⟨r, h_row, h_act, h_thr, h⟩ | ⟨r, h_row, h_live, h_keep, h⟩
    · rw [apply, h]; exact .keep
    · have h_seq : ((Op.flag enc a).apply s).syncSeq = s.syncSeq + 1 := by
        rw [apply, h]; rfl
      rw [apply, h, Store.row_updateRow]
      by_cases hid : id = a.fingerprintId
      · subst hid
        rw [if_pos rfl, Store.row_nextSeq, Store.row_recordFlag, h_row]
        exact .hide h_act h_thr h_seq
      · rw [if_neg hid]; exact .keep
    · rw [apply, h, Store.row_updateRow]
      by_cases hid : id = a.fingerprintId
      · subst hid
        rw [if_pos rfl, Store.row_recordFlag, h_row]
        exact .count h_live h_keep
      · rw [if_neg hid]; exact .keep
  | softDelete fid nowMs =>
    rcases s.softDelete_cases fid nowMs with ⟨-, h⟩ | ⟨r, h_row, h_live, h⟩
    · rw [apply, h]; exact .keep
    · have h_seq : ((Op.softDelete fid nowMs).apply s).syncSeq = s.syncSeq + 1 := by
        rw [apply, h]; rfl
      rw [apply, h, Store.row_updateRow]
      by_cases hid : id = fid
      · subst hid
        rw [if_pos rfl, Store.row_nextSeq, h_row]
        exact .delete h_live h_seq
      · rw [if_neg hid]; exact .keep
  | applyRetention p nowMs dryRun =>
    rcases s.applyRetention_cases p nowMs dryRun with ⟨-, -, h⟩ | ⟨h_acc, h⟩
    · rw [apply, h]; exact .keep
    · rw [apply, h]
      cases dryRun with
      -- a dry run is rolled back
      | true => exact .keep
      | false =>
        change RowStep s _ id (s.row id) ((s.retain p nowMs).2.row id)
        rw [Store.row_retain]
        cases h_row : s.row id with
        | none => exact .keep
        | some r =>
          -- the purge comes first, and what it takes is not anonymised
          by_cases h_purge : p.purges nowMs r = true
          · have h_none : Option.filter (fun r => !p.purges nowMs r) (some r) = none := by
              simp [h_purge]
            rw [h_none]
            exact .purge h_acc h_purge
          · have h_some : Option.filter (fun r => !p.purges nowMs r) (some r) = some r := by
              simp [h_purge]
            rw [h_some, Option.map_some]
            by_cases h_anon : p.anonymizes nowMs r = true
            · rw [if_pos h_anon]; exact .anonymize h_acc h_anon
            · rw [if_neg h_anon]; exact .keep

/-- No sequence goes back, so neither cursor values nor identities are handed out
twice. -/
theorem Op.sequences_le (s : Store) (op : Op) :
    s.syncSeq ≤ (op.apply s).syncSeq ∧ s.lastId ≤ (op.apply s).lastId ∧
      s.lastHitId ≤ (op.apply s).lastHitId := by
  cases op with
  | contribute enc a =>
    -- a contribution that inserts draws a value and an id, and one that resurrects a value
    rcases s.contribute_cases enc a with ⟨r, -, -, h⟩ | ⟨r, -, -, h⟩ | ⟨-, h⟩
    · simp [apply, h]
    · simp [apply, h]
    · simp only [apply, h, Store.syncSeq_inserted, Store.lastId_inserted, Store.lastHitId_inserted]
      omega
  | reportHit enc a =>
    -- a hit draws an id of its own table
    rcases s.reportHit_cases enc a with ⟨-, h⟩ | ⟨r, -, -, h⟩
    · simp [apply, h]
    · simp only [apply, h, Store.syncSeq_updateRow, Store.lastId_updateRow,
        Store.lastHitId_updateRow, Store.syncSeq_recordHit, Store.lastId_recordHit,
        Store.lastHitId_recordHit]
      omega
  | flag enc a =>
    -- only hiding draws a value
    rcases s.flag_cases enc a with ⟨-, h⟩ | ⟨r, -, -, -, h⟩ | ⟨r, -, -, -, h⟩ <;> simp [apply, h]
  | softDelete id nowMs =>
    rcases s.softDelete_cases id nowMs with ⟨-, h⟩ | ⟨r, -, -, h⟩ <;> simp [apply, h]
  | applyRetention p nowMs dryRun =>
    rcases s.applyRetention_cases p nowMs dryRun with ⟨-, -, h⟩ | ⟨-, h⟩
    · simp [apply, h]
    · cases dryRun <;> simp [apply, h]

namespace RowStep

variable {s : Store} {op : Op} {id : ℤ} {o : Option Fingerprint} {r r' : Fingerprint}

/-- The id whose row a call may give a new `sync_seq`. -/
def target (s : Store) : Op → Option ℤ
  | .contribute _ a => match s.findOwned a.owned with
    | some r => some r.id
    | none => some (s.lastId + 1)
  | .reportHit _ _ => none
  | .flag _ a => some a.fingerprintId
  | .softDelete id _ => some id
  | .applyRetention _ _ _ => none

/-- A row that survives a call keeps its `sync_seq`, or it is the call's target
and takes the value the call drew from the sequence. -/
theorem syncSeq_cases (h : RowStep s op id o (some r')) :
    (∃ r, o = some r ∧ r'.syncSeq = r.syncSeq) ∨
    (r'.syncSeq = s.syncSeq + 1 ∧ (op.apply s).syncSeq = s.syncSeq + 1 ∧
      target s op = some id) := by
  cases h with
  | keep => exact Or.inl ⟨_, rfl, rfl⟩
  | insert h_free h_seq => exact Or.inr ⟨rfl, h_seq, by simp only [target, h_free]⟩
  | resurrect h_found _ h_seq => exact Or.inr ⟨rfl, h_seq, by simp only [target, h_found]⟩
  | hit _ => exact Or.inl ⟨_, rfl, rfl⟩
  | hide _ _ h_seq => exact Or.inr ⟨rfl, h_seq, rfl⟩
  | count _ _ => exact Or.inl ⟨_, rfl, rfl⟩
  | delete _ h_seq => exact Or.inr ⟨rfl, h_seq, rfl⟩
  | anonymize _ _ => exact Or.inl ⟨_, rfl, rfl⟩

/-- A row that survives a call keeps its owner and hash; a row that appears is a
contribution under a key nobody held. -/
theorem owned_cases (h : RowStep s op id o (some r')) :
    (∃ r, o = some r ∧ r'.owned = r.owned) ∨
    (o = none ∧ id = s.lastId + 1 ∧ s.findOwned r'.owned = none) := by
  cases h with
  | keep => exact Or.inl ⟨_, rfl, rfl⟩
  | insert h_free _ => exact Or.inr ⟨rfl, rfl, h_free⟩
  | resurrect _ _ _ => exact Or.inl ⟨_, rfl, rfl⟩
  | hit _ => exact Or.inl ⟨_, rfl, rfl⟩
  | hide _ _ _ => exact Or.inl ⟨_, rfl, rfl⟩
  | count _ _ => exact Or.inl ⟨_, rfl, rfl⟩
  | delete _ _ => exact Or.inl ⟨_, rfl, rfl⟩
  | anonymize _ _ => exact Or.inl ⟨_, rfl, rfl⟩

/-- What a call can do to a row that it does not purge: the same list as `RowStep`, as a
disjunction for a row that is there before and after. Proofs that follow one row through a run use
this form. -/
theorem row_cases (h : RowStep s op id (some r) (some r')) :
    r' = r ∨
    (∃ enc a, op = .contribute enc a ∧ s.findOwned a.owned = some r ∧ r.status = .deleted ∧
      r' = resurrectRow enc a (s.syncSeq + 1) r) ∨
    (∃ enc a, op = .reportHit enc a ∧ a.fingerprintId = id ∧ r.Live ∧ r' = hitRow a.nowMs r) ∨
    (∃ enc a, op = .flag enc a ∧ a.fingerprintId = id ∧ r.status = .active ∧
      a.autoHideThreshold ≤ s.flagCountAfter enc a ∧
      r' = hideRow (s.flagCountAfter enc a) (s.syncSeq + 1) a.nowMs r) ∨
    (∃ enc a, op = .flag enc a ∧ a.fingerprintId = id ∧ r.Live ∧
      r' = countFlagRow (s.flagCountAfter enc a) a.nowMs r) ∨
    (∃ nowMs, op = .softDelete id nowMs ∧ r.Live ∧ r' = deleteRow (s.syncSeq + 1) nowMs r) ∨
    (∃ p nowMs, op = .applyRetention p nowMs false ∧ p.anonymizes nowMs r = true ∧
      r' = anonymizeRow r) := by
  -- the rows are named, since no constructor has both in this form
  generalize h_o : some r = o at h
  generalize h_o' : some r' = o' at h
  cases h with
  | keep =>
    rw [← h_o] at h_o'
    exact Or.inl (Option.some.inj h_o')
  | insert h_free h_seq => exact absurd h_o (by simp)
  | resurrect h_found h_deleted h_seq =>
    obtain rfl := Option.some.inj h_o
    obtain rfl := Option.some.inj h_o'
    exact Or.inr (Or.inl ⟨_, _, rfl, h_found, h_deleted, rfl⟩)
  | hit h_live =>
    obtain rfl := Option.some.inj h_o
    obtain rfl := Option.some.inj h_o'
    exact Or.inr (Or.inr (Or.inl ⟨_, _, rfl, rfl, h_live, rfl⟩))
  | hide h_active h_threshold h_seq =>
    obtain rfl := Option.some.inj h_o
    obtain rfl := Option.some.inj h_o'
    exact Or.inr (Or.inr (Or.inr (Or.inl ⟨_, _, rfl, rfl, h_active, h_threshold, rfl⟩)))
  | count h_live h_keep =>
    obtain rfl := Option.some.inj h_o
    obtain rfl := Option.some.inj h_o'
    exact Or.inr (Or.inr (Or.inr (Or.inr (Or.inl ⟨_, _, rfl, rfl, h_live, rfl⟩))))
  | delete h_live h_seq =>
    obtain rfl := Option.some.inj h_o
    obtain rfl := Option.some.inj h_o'
    exact Or.inr (Or.inr (Or.inr (Or.inr (Or.inr (Or.inl ⟨_, rfl, h_live, rfl⟩)))))
  | purge h_accepted h_purges => exact absurd h_o' (by simp)
  | anonymize h_accepted h_anonymizes =>
    obtain rfl := Option.some.inj h_o
    obtain rfl := Option.some.inj h_o'
    exact Or.inr (Or.inr (Or.inr (Or.inr (Or.inr (Or.inr ⟨_, _, rfl, h_anonymizes, rfl⟩)))))

/-- A tombstone after a call was one before, with the same times, or the call deleted it. No other
call makes a tombstone, and none moves the time of one. -/
theorem tombstone_cases (h : RowStep s op id o (some r')) (h_deleted : r'.status = .deleted) :
    (∃ r, o = some r ∧ r.status = .deleted ∧ r'.updatedAtMs = r.updatedAtMs) ∨
    (∃ nowMs r, op = .softDelete id nowMs ∧ o = some r ∧ r.Live ∧ r'.updatedAtMs = nowMs) := by
  cases h with
  | keep => exact Or.inl ⟨r', rfl, h_deleted, rfl⟩
  | insert _ _ => exact absurd h_deleted (by simp [freshRow])
  | resurrect _ _ _ => exact absurd h_deleted (by simp [resurrectRow])
  | hit h_live => exact absurd h_deleted h_live
  | hide _ _ _ => exact absurd h_deleted (by simp [hideRow])
  | count h_live _ => exact absurd h_deleted h_live
  | delete h_live _ => exact Or.inr ⟨_, _, rfl, rfl, h_live, rfl⟩
  -- redaction leaves the status and the time
  | anonymize _ _ => exact Or.inl ⟨_, rfl, h_deleted, rfl⟩

end RowStep

/-! ### The flag and hit rows after a call -/

/-- A flag row after a call was there before under the same key, or is the one the
call recorded on a live row. A flag row only loses its reason. -/
theorem Op.flags_cases {s : Store} {op : Op} {k : ℤ × ℤ} {f : Flag}
    (h : (op.apply s).flags.get? k = some f) :
    (∃ f₀, s.flags.get? k = some f₀ ∧ (f = f₀ ∨ f = clearReason f₀)) ∨
    (∃ enc a r, op = .flag enc a ∧ f = a.flag enc (s.lastFlagId + 1) ∧
      k = (a.fingerprintId, a.consumerId) ∧ s.flags.get? k = none ∧
      s.row a.fingerprintId = some r ∧ r.Live) := by
  -- `ON CONFLICT DO NOTHING`: the flag is new, or the old one stays
  have h_record : ∀ (enc : EncryptText) (a : FlagArgs) (r : Fingerprint),
      op = .flag enc a → s.row a.fingerprintId = some r → r.Live →
      (s.recordFlag enc a).flags.get? k = some f →
      (∃ f₀, s.flags.get? k = some f₀ ∧ (f = f₀ ∨ f = clearReason f₀)) ∨
      (∃ enc a r, op = .flag enc a ∧ f = a.flag enc (s.lastFlagId + 1) ∧
        k = (a.fingerprintId, a.consumerId) ∧ s.flags.get? k = none ∧
        s.row a.fingerprintId = some r ∧ r.Live) := by
    intro enc a r h_op h_row h_live h_get
    replace h_get : (s.flags.insert (a.flag enc (s.lastFlagId + 1))).get? k = some f := h_get
    rw [Table.get?_insert] at h_get
    split at h_get
    · next hc =>
      exact Or.inr ⟨enc, a, r, h_op, (Option.some.inj h_get).symm, hc.1.symm, hc.2, h_row, h_live⟩
    · exact Or.inl ⟨f, h_get, Or.inl rfl⟩
  cases op with
  | contribute enc a =>
    -- a resurrection deletes flags, and neither of the other branches touches them
    rcases s.contribute_cases enc a with ⟨r, -, -, h'⟩ | ⟨r, -, -, h'⟩ | ⟨-, h'⟩
    · rw [apply, h'] at h; exact Or.inl ⟨f, h, Or.inl rfl⟩
    · rw [apply, h'] at h
      replace h : (s.flags.delete (fun f => f.fingerprintId = r.id)).get? k = some f := h
      rw [Table.get?_delete, Option.filter_eq_some_iff] at h
      exact Or.inl ⟨f, h.1, Or.inl rfl⟩
    · rw [apply, h'] at h; exact Or.inl ⟨f, h, Or.inl rfl⟩
  | reportHit enc a =>
    rcases s.reportHit_cases enc a with ⟨-, h'⟩ | ⟨r, -, -, h'⟩ <;> rw [apply, h'] at h <;>
      exact Or.inl ⟨f, h, Or.inl rfl⟩
  | flag enc a =>
    rcases s.flag_cases enc a with ⟨-, h'⟩ | ⟨r, h_row, h_act, -, h'⟩ | ⟨r, h_row, h_live, -, h'⟩
    · rw [apply, h'] at h; exact Or.inl ⟨f, h, Or.inl rfl⟩
    · rw [apply, h'] at h
      exact h_record enc a r rfl h_row (by rw [Fingerprint.Live, h_act]; decide) h
    · rw [apply, h'] at h; exact h_record enc a r rfl h_row h_live h
  -- a deletion keeps the flags of the row
  | softDelete id nowMs =>
    rcases s.softDelete_cases id nowMs with ⟨-, h'⟩ | ⟨r, -, -, h'⟩ <;> rw [apply, h'] at h <;>
      exact Or.inl ⟨f, h, Or.inl rfl⟩
  | applyRetention p nowMs dryRun =>
    rcases s.applyRetention_cases p nowMs dryRun with ⟨-, -, h'⟩ | ⟨-, h'⟩
    · rw [apply, h'] at h; exact Or.inl ⟨f, h, Or.inl rfl⟩
    · rw [apply, h'] at h
      cases dryRun with
      | true => exact Or.inl ⟨f, h, Or.inl rfl⟩
      | false =>
        replace h : (s.retain p nowMs).2.flags.get? k = some f := h
        rw [Store.flags_retain, Option.filter_eq_some_iff, Option.map_eq_some_iff] at h
        -- it survived the cascade and may have lost its reason
        obtain ⟨⟨f₀, h₀, rfl⟩, -⟩ := h
        refine Or.inl ⟨f₀, h₀, ?_⟩
        split
        · exact Or.inr rfl
        · exact Or.inl rfl

/-- A hit row after a call was there before under the same id, or is the one the
call recorded on a live row. -/
theorem Op.hits_cases {s : Store} {op : Op} {k : ℤ} {h : Hit}
    (h_get : (op.apply s).hits.get? k = some h) :
    s.hits.get? k = some h ∨
    (∃ enc a r, op = .reportHit enc a ∧ h = a.hit enc (s.lastHitId + 1) ∧ k = s.lastHitId + 1 ∧
      s.row a.fingerprintId = some r ∧ r.Live) := by
  cases op with
  | contribute enc a =>
    -- hits outlive everything but retention: a resurrection keeps them
    rcases s.contribute_cases enc a with ⟨r, -, -, h'⟩ | ⟨r, -, -, h'⟩ | ⟨-, h'⟩ <;>
      rw [apply, h'] at h_get <;> exact Or.inl h_get
  | reportHit enc a =>
    rcases s.reportHit_cases enc a with ⟨-, h'⟩ | ⟨r, h_row, h_live, h'⟩
    · rw [apply, h'] at h_get; exact Or.inl h_get
    · rw [apply, h'] at h_get
      replace h_get : (s.hits.insert (a.hit enc (s.lastHitId + 1))).get? k = some h := h_get
      -- the hit just recorded, or an older one
      rw [Table.get?_insert] at h_get
      split at h_get
      · next hc =>
        exact Or.inr ⟨enc, a, r, rfl, (Option.some.inj h_get).symm, hc.1.symm, h_row, h_live⟩
      · exact Or.inl h_get
  | flag enc a =>
    rcases s.flag_cases enc a with ⟨-, h'⟩ | ⟨r, -, -, -, h'⟩ | ⟨r, -, -, -, h'⟩ <;>
      rw [apply, h'] at h_get <;> exact Or.inl h_get
  | softDelete id nowMs =>
    rcases s.softDelete_cases id nowMs with ⟨-, h'⟩ | ⟨r, -, -, h'⟩ <;>
      rw [apply, h'] at h_get <;> exact Or.inl h_get
  | applyRetention p nowMs dryRun =>
    rcases s.applyRetention_cases p nowMs dryRun with ⟨-, -, h'⟩ | ⟨-, h'⟩
    · rw [apply, h'] at h_get; exact Or.inl h_get
    · rw [apply, h'] at h_get
      cases dryRun with
      | true => exact Or.inl h_get
      | false =>
        replace h_get : (s.retain p nowMs).2.hits.get? k = some h := h_get
        -- what survives is as it was
        rw [Store.hits_retain, Option.filter_eq_some_iff] at h_get
        exact Or.inl h_get.1

/-- A row that disappears was purged by a committed `apply_retention`. Nothing else deletes a row
of `fingerprints`. -/
theorem Op.purged_of_row_none {s : Store} {op : Op} {id : ℤ} {r : Fingerprint}
    (h_fresh : s.row (s.lastId + 1) = none) (h_row : s.row id = some r)
    (h_none : (op.apply s).row id = none) :
    ∃ p nowMs, op = .applyRetention p nowMs false ∧ p.Accepted ∧ p.purges nowMs r = true := by
  have h := Op.rowStep h_fresh op id
  rw [h_row, h_none] at h
  cases h with
  | purge h_accepted h_purges => exact ⟨_, _, rfl, h_accepted, h_purges⟩

/-! ### Well-formed stores -/

namespace Store

/-- What the schema promises about the rows, and the sequences about their values. The database
would refuse a statement that breaks a unique or a foreign key; that none of the modelled ones
ever tries to is `Wf.step`. -/
structure Wf (s : Store) : Prop where
  /-- Ids come from the identity column. -/
  id_le : ∀ id r, s.row id = some r → id ≤ s.lastId
  /-- Cursor values come from `fingerprints_sync_seq`. -/
  syncSeq_le : ∀ id r, s.row id = some r → r.syncSeq ≤ s.syncSeq
  /-- The sequence starts at one. -/
  syncSeq_pos : ∀ id r, s.row id = some r → 0 < r.syncSeq
  /-- The unique index on `sync_seq`. -/
  syncSeq_inj : ∀ id id' r r', s.row id = some r → s.row id' = some r' →
    r.syncSeq = r'.syncSeq → id = id'
  /-- `UNIQUE (phash_hex, consumer_id)`. -/
  owned_inj : ∀ id id' r r', s.row id = some r → s.row id' = some r' →
    r.owned = r'.owned → id = id'
  /-- The foreign key of `fingerprint_flags`. -/
  flag_row : ∀ k f, s.flags.get? k = some f → ∃ r, s.row f.fingerprintId = some r
  /-- The foreign key of `fingerprint_hits`. -/
  hit_row : ∀ k h, s.hits.get? k = some h → ∃ r, s.row h.fingerprintId = some r
  /-- Hit ids come from the identity column. -/
  hit_le : ∀ k h, s.hits.get? k = some h → k ≤ s.lastHitId

/-- The unique and the foreign keys of the schema, without what the sequences add to them. -/
structure Valid (s : Store) : Prop where
  syncSeq_inj : ∀ id id' r r', s.row id = some r → s.row id' = some r' →
    r.syncSeq = r'.syncSeq → id = id'
  owned_inj : ∀ id id' r r', s.row id = some r → s.row id' = some r' →
    r.owned = r'.owned → id = id'
  flag_row : ∀ k f, s.flags.get? k = some f → ∃ r, s.row f.fingerprintId = some r
  hit_row : ∀ k h, s.hits.get? k = some h → ∃ r, s.row h.fingerprintId = some r

/-- A well-formed store is valid. -/
theorem Wf.valid {s : Store} (h : s.Wf) : s.Valid :=
  ⟨h.syncSeq_inj, h.owned_inj, h.flag_row, h.hit_row⟩

/-- The empty database is well formed. -/
theorem Wf.empty : Wf Store.empty where
  id_le := fun _ _ h => absurd h (by simp)
  syncSeq_le := fun _ _ h => absurd h (by simp)
  syncSeq_pos := fun _ _ h => absurd h (by simp)
  syncSeq_inj := fun _ _ _ _ h => absurd h (by simp)
  owned_inj := fun _ _ _ _ h => absurd h (by simp)
  flag_row := fun _ _ h => absurd h (by simp [Store.empty])
  hit_row := fun _ _ h => absurd h (by simp [Store.empty])
  hit_le := fun _ _ h => absurd h (by simp [Store.empty])

variable {s : Store}

/-- The next identity value is not in use. -/
theorem Wf.fresh (h : s.Wf) : s.row (s.lastId + 1) = none := by
  cases h_row : s.row (s.lastId + 1) with
  | none => rfl
  | some r => exact absurd (h.id_le _ r h_row) (by omega)

/-- Rows that share no cursor value are listed with distinct ones. This is the form in which the
keyset scan needs it. -/
theorem nodup_syncSeq_of_inj (h_inj : ∀ i i' r r', s.row i = some r → s.row i' = some r' →
    r.syncSeq = r'.syncSeq → i = i') : (s.fingerprints.rows.map Fingerprint.syncSeq).Nodup := by
  refine List.Nodup.map_on ?_ (List.Nodup.of_map _ s.fingerprints.nodup)
  intro r hr r' hr' h_eq
  rw [Table.mem_rows] at hr hr'
  have h_id := h_inj _ _ _ _ hr hr' h_eq
  rw [← h_id] at hr'
  exact Option.some.inj (hr.symm.trans hr')

theorem Wf.nodup_syncSeq (h : s.Wf) : (s.fingerprints.rows.map Fingerprint.syncSeq).Nodup :=
  nodup_syncSeq_of_inj h.syncSeq_inj

/-- The fingerprint of a flag or hit that survives a call survives too: a purge
takes both with it. -/
private theorem Wf.row_survives (h : s.Wf) (op : Op) {id : ℤ} {r : Fingerprint}
    (h_row : s.row id = some r)
    (h_keep : ∀ p nowMs, op = .applyRetention p nowMs false → p.Accepted →
      p.purges nowMs r = true → False) :
    ∃ r', (op.apply s).row id = some r' := by
  cases h_row' : (op.apply s).row id with
  | some r' => exact ⟨r', rfl⟩
  | none =>
    obtain ⟨p, nowMs, h_op, h_acc, h_purges⟩ := Op.purged_of_row_none h.fresh h_row h_row'
    exact (h_keep p nowMs h_op h_acc h_purges).elim

/-- **Every call keeps the store well formed.** Each field is proved from the row step, or from
what the call does to the hits and flags. -/
theorem Wf.step (h : s.Wf) (op : Op) : (op.apply s).Wf where
  id_le := by
    intro id r' h_row'
    have h_step := Op.rowStep h.fresh op id
    rw [h_row'] at h_step
    have h_last := (op.sequences_le s).2.1
    generalize h_o : s.row id = o at h_step
    rcases h_step.owned_cases with ⟨r, rfl, -⟩ | ⟨rfl, h_id, -⟩
    · exact (h.id_le id r h_o).trans h_last
    · -- a row that appears took the next identity value
      cases h_step with
      | insert h_free h_seq =>
        rcases s.contribute_cases _ _ with ⟨r, hf, -, -⟩ | ⟨r, hf, -, -⟩ | ⟨-, h'⟩
        · rw [h_free] at hf; exact absurd hf (by simp)
        · rw [h_free] at hf; exact absurd hf (by simp)
        · rw [Op.apply, h']; exact le_refl _
  syncSeq_le := by
    intro id r' h_row'
    have h_step := Op.rowStep h.fresh op id
    rw [h_row'] at h_step
    generalize h_o : s.row id = o at h_step
    -- a row that kept its value is below the old sequence, and the target has the new one
    rcases h_step.syncSeq_cases with ⟨r, rfl, h_eq⟩ | ⟨h_eq, h_seq, -⟩
    · rw [h_eq]; exact (h.syncSeq_le id r h_o).trans (op.sequences_le s).1
    · rw [h_eq, h_seq]
  syncSeq_pos := by
    intro id r' h_row'
    have h_step := Op.rowStep h.fresh op id
    rw [h_row'] at h_step
    generalize h_o : s.row id = o at h_step
    rcases h_step.syncSeq_cases with ⟨r, rfl, h_eq⟩ | ⟨h_eq, -, -⟩
    · rw [h_eq]; exact h.syncSeq_pos id r h_o
    · rw [h_eq]; exact Nat.succ_pos _
  syncSeq_inj := by
    intro id id' r r' h_row h_row' h_eq
    have h_step := Op.rowStep h.fresh op id
    have h_step' := Op.rowStep h.fresh op id'
    rw [h_row] at h_step
    rw [h_row'] at h_step'
    generalize h_o : s.row id = o at h_step
    generalize h_o' : s.row id' = o' at h_step'
    -- two rows share a value only if both kept theirs or both are the target
    rcases h_step.syncSeq_cases with ⟨q, rfl, hq⟩ | ⟨hq, -, h_t⟩ <;>
      rcases h_step'.syncSeq_cases with ⟨q', rfl, hq'⟩ | ⟨hq', -, h_t'⟩
    · exact h.syncSeq_inj id id' q q' h_o h_o' (hq.symm.trans (h_eq.trans hq'))
    · have := h.syncSeq_le id q h_o; omega
    · have := h.syncSeq_le id' q' h_o'; omega
    · exact Option.some.inj (h_t.symm.trans h_t')
  owned_inj := by
    intro id id' r r' h_row h_row' h_eq
    have h_step := Op.rowStep h.fresh op id
    have h_step' := Op.rowStep h.fresh op id'
    rw [h_row] at h_step
    rw [h_row'] at h_step'
    generalize h_o : s.row id = o at h_step
    generalize h_o' : s.row id' = o' at h_step'
    -- a row that appears does so under a key nobody held, and takes the next id
    rcases h_step.owned_cases with ⟨q, rfl, hq⟩ | ⟨-, h_id, h_free⟩ <;>
      rcases h_step'.owned_cases with ⟨q', rfl, hq'⟩ | ⟨-, h_id', h_free'⟩
    · exact h.owned_inj id id' q q' h_o h_o' (hq.symm.trans (h_eq.trans hq'))
    · exact absurd (hq.symm.trans h_eq) (owned_ne_of_findOwned h_free' h_o)
    · exact absurd (hq'.symm.trans h_eq.symm) (owned_ne_of_findOwned h_free h_o')
    · rw [h_id, h_id']
  flag_row := by
    intro k f h_get
    rcases Op.flags_cases h_get with ⟨f₀, h_get₀, h_f⟩ | ⟨enc, a, r, rfl, rfl, -, -, h_row, -⟩
    · obtain ⟨r, h_row⟩ := h.flag_row k f₀ h_get₀
      have h_fid : f.fingerprintId = f₀.fingerprintId := by rcases h_f with rfl | rfl <;> rfl
      rw [h_fid]
      refine h.row_survives op h_row (fun p nowMs h_op h_acc h_purges => ?_)
      -- the cascade removed the flag
      subst h_op
      rcases s.applyRetention_cases p nowMs false with ⟨h_no, -, -⟩ | ⟨-, h'⟩
      · exact h_no h_acc
      · rw [Op.apply, h'] at h_get
        replace h_get : (s.retain p nowMs).2.flags.get? k = some f := h_get
        rw [flags_retain, Option.filter_eq_some_iff] at h_get
        have h_gone := (mem_purged s).mpr ⟨r, h_row, h_purges⟩
        rw [← h_fid] at h_gone
        simp [h_gone] at h_get
    · refine h.row_survives _ h_row (fun p nowMs h_op _ _ => ?_)
      exact absurd h_op (by simp)
  hit_row := by
    intro k hit h_get
    rcases Op.hits_cases h_get with h_get₀ | ⟨enc, a, r, rfl, rfl, -, h_row, -⟩
    · obtain ⟨r, h_row⟩ := h.hit_row k hit h_get₀
      -- the cascade removed the hit
      refine h.row_survives op h_row (fun p nowMs h_op h_acc h_purges => ?_)
      subst h_op
      rcases s.applyRetention_cases p nowMs false with ⟨h_no, -, -⟩ | ⟨-, h'⟩
      · exact h_no h_acc
      · rw [Op.apply, h'] at h_get
        replace h_get : (s.retain p nowMs).2.hits.get? k = some hit := h_get
        rw [hits_retain, Option.filter_eq_some_iff] at h_get
        have h_gone := (mem_purged s).mpr ⟨r, h_row, h_purges⟩
        simp [h_gone] at h_get
    · refine h.row_survives _ h_row (fun p nowMs h_op _ _ => ?_)
      exact absurd h_op (by simp)
  hit_le := by
    intro k hit h_get
    have h_last := (op.sequences_le s).2.2
    rcases Op.hits_cases h_get with h_get₀ | ⟨enc, a, r, rfl, -, h_k, h_row, h_live⟩
    · exact (h.hit_le k hit h_get₀).trans h_last
    · rcases s.reportHit_cases enc a with ⟨h_gone, -⟩ | ⟨_, -, -, h'⟩
      · exact absurd (h_gone r h_row) h_live
      · rw [Op.apply, h', h_k]; exact le_refl _

/-- Every run from a well-formed store stays well formed. -/
theorem Wf.run (h : s.Wf) (ops : List Op) : (s.run ops).Wf := by
  induction ops generalizing s with
  | nil => exact h
  | cons op ops ih => exact ih (h.step op)

/-- A reachable store: what some run of calls makes of the empty database. -/
def Reachable (s : Store) : Prop := ∃ ops, s = Store.empty.run ops

/-- It is well formed. -/
theorem Reachable.wf (h : s.Reachable) : s.Wf := by
  obtain ⟨ops, rfl⟩ := h
  exact Wf.empty.run ops

end Store

/-- A contribution of consumer 1, for concrete runs. -/
def sampleContribution (phashHex : String) : ContributeArgs where
  consumerId := 1
  phashHex := phashHex
  triple := ⟨"pdq", "1", "1"⟩
  category := .scam
  action := .kick
  sourceGuildId := none
  reason := none
  sourceUrl := none
  autoAdded := false
  provenance := "manual"
  nowMs := 10

end FingerprintHub
