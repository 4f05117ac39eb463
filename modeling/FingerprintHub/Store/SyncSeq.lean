import FingerprintHub.Store.Runs

/-!
# The discipline of `sync_seq`

The cursor column moves exactly with the content a peer replicates. A call gives
a surviving row a new value exactly when it resurrects the row or flips its
status, every new value is above everything the run has held so far, and so two
states of a run that show one `sync_seq` under an id show one content. Calls that
only touch statistics or private columns leave every feed as it was.

`sync` is read through `feedColumns`: the columns its `WHERE`, its `ORDER BY` and
its `SELECT` mention.
-/

namespace FingerprintHub

/-! ### The columns `sync` reads -/

/-- The columns `sync` reads: the owner it filters on and those it returns. -/
def Fingerprint.feedColumns (r : Fingerprint) : ℤ × SyncRow := (r.consumerId, r.syncColumns)

namespace Store

/-- `sync` is a function of any view of the row list that shows its columns and whether the row
matches. What the view leaves out cannot be told from any response. -/
theorem sync_of_view {σ : Type} (view : Fingerprint → σ) (columns : σ → SyncRow)
    (keeps : σ → Bool) {requester : ℤ} {filter : SyncFilter}
    (h_columns : ∀ r, columns (view r) = r.syncColumns)
    (h_keeps : ∀ r, keeps (view r) = syncWhere requester filter r) {s s' : Store}
    (h : s.fingerprints.rows.map view = s'.fingerprints.rows.map view) (since limit : ℕ) :
    s.sync requester since limit filter = s'.sync requester since limit filter := by
  have h_seq : ∀ r, (columns (view r)).syncSeq = r.syncSeq :=
    fun r => congrArg SyncRow.syncSeq (h_columns r)
  -- the same query, over the view in place of the rows
  let query : List σ → List σ := fun l =>
    (l.filter (fun v => decide (since < (columns v).syncSeq) && keeps v)).insertionSort
      (fun v v' => (columns v).syncSeq ≤ (columns v').syncSeq)
  have h_rows : ∀ t : Store, (((t.fingerprints.select (fun r =>
      decide (since < r.syncSeq) && syncWhere requester filter r)).insertionSort
      (fun r r' => r.syncSeq ≤ r'.syncSeq)).take (limit + 1)).map (·.syncColumns)
      = ((query (t.fingerprints.rows.map view)).take (limit + 1)).map columns := by
    intro t
    have h_query : ((t.fingerprints.select (fun r =>
        decide (since < r.syncSeq) && syncWhere requester filter r)).insertionSort
        (fun r r' => r.syncSeq ≤ r'.syncSeq)).map view = query (t.fingerprints.rows.map view) :=
      Keyset.map_sorted_filter view (fun r => by simp only [h_seq, h_keeps])
        (fun r r' => by simp only [h_seq]) _
    rw [← h_query, ← List.map_take, List.map_map]
    exact List.map_congr_left (fun r _ => (h_columns r).symm)
  unfold sync
  rw [h_rows s, h_rows s', h]

/-- `sync` is a function of the feed columns of the row list. -/
theorem sync_congr {s s' : Store}
    (h : s.fingerprints.rows.map Fingerprint.feedColumns
      = s'.fingerprints.rows.map Fingerprint.feedColumns)
    (requester : ℤ) (since limit : ℕ) (filter : SyncFilter) :
    s.sync requester since limit filter = s'.sync requester since limit filter :=
  sync_of_view Fingerprint.feedColumns Prod.snd
    (fun c => decide (c.1 ≠ requester) && filter.accepts c.2.triple) (fun _ => rfl) (fun _ => rfl)
    h since limit

/-- A statement that sets no feed column leaves every response as it was. -/
theorem sync_updateRow (s : Store) (id : ℤ) (set : Fingerprint → Fingerprint)
    (h : ∀ r, (set r).id = r.id) (h_feed : ∀ r, (set r).feedColumns = r.feedColumns)
    (requester : ℤ) (since limit : ℕ) (filter : SyncFilter) :
    (s.updateRow id set h).sync requester since limit filter
      = s.sync requester since limit filter :=
  sync_congr (Table.map_rows_update _ _ _ h h_feed) requester since limit filter

end Store

/-! ### What one call does to a cursor value -/

/-- The call is a contribution that turns the tombstone `id` live again. -/
def Op.Resurrects (s : Store) (op : Op) (id : ℤ) : Prop :=
  ∃ enc a r, op = .contribute enc a ∧ s.findOwned a.owned = some r ∧ r.id = id ∧
    r.status = .deleted

namespace RowStep

variable {s : Store} {op : Op} {id : ℤ} {r r' : Fingerprint}

/-- A surviving row either keeps its feed columns, or it takes a fresh `sync_seq` and its status
flips. There is nothing in between: no call changes what is replicated under an old value. -/
theorem feed_cases (h : RowStep s op id (some r) (some r')) :
    r'.feedColumns = r.feedColumns ∨
    (r'.syncSeq = s.syncSeq + 1 ∧ r'.status ≠ r.status ∧
      (op.apply s).syncSeq = s.syncSeq + 1) := by
  cases h with
  | keep => exact Or.inl rfl
  | resurrect _ h_deleted h_seq =>
    refine Or.inr ⟨rfl, ?_, h_seq⟩
    rw [h_deleted]
    exact fun h => Status.noConfusion h
  | hit _ => exact Or.inl rfl
  | hide h_active _ h_seq =>
    refine Or.inr ⟨rfl, ?_, h_seq⟩
    rw [h_active]
    exact fun h => Status.noConfusion h
  | count _ _ => exact Or.inl rfl
  | delete h_live h_seq => exact Or.inr ⟨rfl, fun h => h_live h.symm, h_seq⟩
  | anonymize _ _ => exact Or.inl rfl

/-- A row that appears takes a fresh `sync_seq`. -/
theorem syncSeq_of_insert (h : RowStep s op id none (some r')) :
    r'.syncSeq = s.syncSeq + 1 := by
  cases h with
  | insert _ _ => rfl

end RowStep

namespace Store

variable {s : Store}

/-- A resurrection flips the status of the row it resurrects. -/
theorem status_of_resurrects {op : Op} {id : ℤ} {r r' : Fingerprint} (h : op.Resurrects s id)
    (h_row : s.row id = some r) (h_row' : (op.apply s).row id = some r') :
    r'.status ≠ r.status := by
  obtain ⟨enc, a, q, rfl, h_found, rfl, h_deleted⟩ := h
  have h_q := (row_of_findOwned h_found).1
  obtain rfl : q = r := Option.some.inj (h_q.symm.trans h_row)
  -- the contribution is the one that resurrects
  rcases s.contribute_cases enc a with ⟨p, hp, h_live, -⟩ | ⟨p, hp, -, h'⟩ | ⟨h_free, -⟩
  · rw [h_found] at hp
    obtain rfl := Option.some.inj hp
    exact absurd h_deleted h_live
  · rw [h_found] at hp
    obtain rfl := Option.some.inj hp
    rw [Op.apply, h', row_updateRow, if_pos rfl, row_nextSeq, row_deleteFlags, h_row] at h_row'
    rw [h_deleted, ← Option.some.inj h_row']
    exact fun h => Status.noConfusion h
  · rw [h_found] at h_free
    exact absurd h_free (by simp)

/-- **A cursor value moves exactly with the content**: just when a tombstone comes back to life,
or the status flips otherwise. -/
theorem syncSeq_changed_iff (h_wf : s.Wf) (op : Op) {id : ℤ} {r r' : Fingerprint}
    (h_row : s.row id = some r) (h_row' : (op.apply s).row id = some r') :
    r'.syncSeq ≠ r.syncSeq ↔ op.Resurrects s id ∨ r'.status ≠ r.status := by
  have h_step := Op.rowStep h_wf.fresh op id
  rw [h_row, h_row'] at h_step
  have h_le := h_wf.syncSeq_le id r h_row
  -- the columns are kept, and the value with them; or both change
  rcases h_step.feed_cases with h_feed | ⟨h_seq, h_status, -⟩
  · have h_columns : r'.syncColumns = r.syncColumns := congrArg Prod.snd h_feed
    have h_seq : r'.syncSeq = r.syncSeq := congrArg SyncRow.syncSeq h_columns
    have h_status : r'.status = r.status := congrArg SyncRow.status h_columns
    refine ⟨fun h => absurd h_seq h, fun h => ?_⟩
    rcases h with h | h
    · exact absurd h_status (status_of_resurrects h h_row h_row')
    · exact absurd h_status h
  · exact ⟨fun _ => Or.inr h_status, fun _ => by omega⟩

/-- A new cursor value is above the sequence as it stood before the call. -/
theorem syncSeq_lt_of_new (h_wf : s.Wf) (op : Op) {id : ℤ} {r' : Fingerprint}
    (h_row' : (op.apply s).row id = some r')
    (h_new : ∀ r, s.row id = some r → r'.syncSeq ≠ r.syncSeq) : s.syncSeq < r'.syncSeq := by
  have h_step := Op.rowStep h_wf.fresh op id
  rw [h_row'] at h_step
  cases h_row : s.row id with
  | none =>
    rw [h_row] at h_step
    have := h_step.syncSeq_of_insert
    omega
  | some r =>
    rw [h_row] at h_step
    rcases h_step.feed_cases with h_feed | ⟨h_seq, -, -⟩
    · have h_seq : r'.syncSeq = r.syncSeq :=
        congrArg (fun c : ℤ × SyncRow => c.2.syncSeq) h_feed
      exact absurd h_seq (h_new r h_row)
    · omega

/-- An id whose row is gone never gets a row again. -/
theorem row_none_stable (h_wf : s.Wf) (op : Op) {id : ℤ} (h_le : id ≤ s.lastId)
    (h_row : s.row id = none) : (op.apply s).row id = none := by
  cases h_row' : (op.apply s).row id with
  | none => rfl
  | some r' =>
    have h_step := Op.rowStep h_wf.fresh op id
    rw [h_row, h_row'] at h_step
    rcases h_step.owned_cases with ⟨r, h, -⟩ | ⟨-, h_id, -⟩
    · exact absurd h (by simp)
    · omega

/-- The sequences only grow along a run, so that a value once handed out is never handed out
again. -/
theorem run_sequences_le (s : Store) (ops : List Op) :
    s.syncSeq ≤ (s.run ops).syncSeq ∧ s.lastId ≤ (s.run ops).lastId := by
  induction ops generalizing s with
  | nil => exact ⟨le_refl _, le_refl _⟩
  | cons op ops ih =>
    have h := op.sequences_le s
    have h' := ih (op.apply s)
    exact ⟨h.1.trans h'.1, h.2.1.trans h'.2⟩

/-- An id whose row is gone has no row in any later state. -/
theorem run_row_none (h_wf : s.Wf) (ops : List Op) {id : ℤ} (h_le : id ≤ s.lastId)
    (h_row : s.row id = none) : (s.run ops).row id = none := by
  induction ops generalizing s with
  | nil => exact h_row
  | cons op ops ih =>
    exact ih (h_wf.step op) (h_le.trans (op.sequences_le s).2.1)
      (row_none_stable h_wf op h_le h_row)

/-- **A cursor value fixes the content.** Along a run the cursor value of an id
never falls, and while it stands still so does everything `sync` returns. -/
theorem run_feed (h_wf : s.Wf) (ops : List Op) {id : ℤ} {r r' : Fingerprint}
    (h_row : s.row id = some r) (h_row' : (s.run ops).row id = some r') :
    r'.feedColumns = r.feedColumns ∨ s.syncSeq < r'.syncSeq := by
  induction ops generalizing s r with
  | nil =>
    obtain rfl : r = r' := Option.some.inj (h_row.symm.trans h_row')
    exact Or.inl rfl
  | cons op ops ih =>
    change ((op.apply s).run ops).row id = some r' at h_row'
    cases h_mid : (op.apply s).row id with
    | none =>
      have h_le := (h_wf.id_le id r h_row).trans (op.sequences_le s).2.1
      rw [run_row_none (h_wf.step op) ops h_le h_mid] at h_row'
      exact absurd h_row' (by simp)
    | some q =>
      have h_step := Op.rowStep h_wf.fresh op id
      rw [h_row, h_mid] at h_step
      -- either the rest of the run keeps the columns, or it draws a value above the present one
      rcases ih (h_wf.step op) h_mid h_row' with h | h
      · rcases h_step.feed_cases with h_feed | ⟨h_seq, -, -⟩
        · exact Or.inl (h.trans h_feed)
        · have h_eq : r'.syncSeq = q.syncSeq :=
            congrArg (fun c : ℤ × SyncRow => c.2.syncSeq) h
          exact Or.inr (by omega)
      · exact Or.inr (lt_of_le_of_lt (op.sequences_le s).1 h)

/-- **An old cursor value shows old content**: a row whose cursor value was handed
out before a run was there before the run, with the same content. -/
theorem run_row_of_le (h_wf : s.Wf) (ops : List Op) {id : ℤ} {r' : Fingerprint}
    (h_row' : (s.run ops).row id = some r') (h_le : r'.syncSeq ≤ s.syncSeq) :
    ∃ r, s.row id = some r ∧ r'.feedColumns = r.feedColumns := by
  induction ops generalizing s with
  | nil => exact ⟨r', h_row', rfl⟩
  | cons op ops ih =>
    have h_mono := (op.sequences_le s).1
    obtain ⟨q, h_q, h_feed⟩ := ih (h_wf.step op) h_row' (h_le.trans h_mono)
    have h_seq : r'.syncSeq = q.syncSeq :=
      congrArg (fun c : ℤ × SyncRow => c.2.syncSeq) h_feed
    -- the first call kept them too: it could only have drawn a higher value
    have h_step := Op.rowStep h_wf.fresh op id
    rw [h_q] at h_step
    cases h_row : s.row id with
    | none =>
      rw [h_row] at h_step
      have := h_step.syncSeq_of_insert
      omega
    | some r =>
      rw [h_row] at h_step
      rcases h_step.feed_cases with h_same | ⟨h_new, -, -⟩
      · exact ⟨r, rfl, h_feed.trans h_same⟩
      · omega

/-! ### Calls a feed does not notice -/

section Quiet

variable (requester : ℤ) (since limit : ℕ) (filter : SyncFilter)

/-- A hit is not noticed, -/
theorem sync_reportHit (s : Store) (enc : EncryptText) (a : HitArgs) :
    (s.reportHit enc a).2.sync requester since limit filter
      = s.sync requester since limit filter := by
  rcases s.reportHit_cases enc a with ⟨-, h⟩ | ⟨r, -, -, h⟩
  · rw [h]
  · rw [h]
    exact sync_updateRow (s.recordHit enc a) _ _ (hitRow_id a.nowMs) (fun _ => rfl) requester since
      limit filter

/-- nor a flag that does not hide, -/
theorem sync_flag (s : Store) (enc : EncryptText) (a : FlagArgs)
    (h_hidden : ∀ res, (s.flag enc a).1 = some res → res.hidden = false) :
    (s.flag enc a).2.sync requester since limit filter = s.sync requester since limit filter := by
  rcases s.flag_cases enc a with ⟨-, h⟩ | ⟨r, -, -, -, h⟩ | ⟨r, -, -, -, h⟩
  · rw [h]
  · exact absurd (h_hidden _ (by rw [h])) (by simp)
  · rw [h]
    exact sync_updateRow (s.recordFlag enc a) _ _ (countFlagRow_id _ a.nowMs) (fun _ => rfl)
      requester since limit filter

/-- nor a contribution that is refused, -/
theorem contribute_refused {s : Store} {enc : EncryptText} {a : ContributeArgs}
    (h_refused : (s.contribute enc a).1.2 = false) : (s.contribute enc a).2 = s := by
  rcases s.contribute_cases enc a with ⟨r, -, -, h⟩ | ⟨r, -, -, h⟩ | ⟨-, h⟩
  · rw [h]
  · rw [h] at h_refused; exact absurd h_refused (by simp)
  · rw [h] at h_refused; exact absurd h_refused (by simp)

/-- nor a deletion that finds nothing live. -/
theorem softDelete_repeated {s : Store} {id : ℤ} {nowMs : ℤ}
    (h_repeated : (s.softDelete id nowMs).1 = false) : (s.softDelete id nowMs).2 = s := by
  rcases s.softDelete_cases id nowMs with ⟨-, h⟩ | ⟨r, -, -, h⟩
  · rw [h]
  · rw [h] at h_repeated; exact absurd h_repeated (by simp)

/-- Of the four statements of retention only the purge can be noticed. -/
theorem sync_retain (s : Store) (p : RetentionPolicy) (nowMs : ℤ) :
    (s.retain p nowMs).2.sync requester since limit filter
      = (s.purge (p.purges nowMs)).sync requester since limit filter :=
  sync_congr (Table.map_rows_update _ _ _ anonymizeRow_id (fun _ => rfl)) requester since limit
    filter

/-- Retention that purges no tombstone is not noticed. -/
theorem sync_applyRetention (s : Store) (p : RetentionPolicy) (nowMs : ℤ) (dryRun : Bool)
    (h_none : ∀ id r, s.row id = some r → p.purges nowMs r = false) :
    (s.applyRetention p nowMs dryRun).2.sync requester since limit filter
      = s.sync requester since limit filter := by
  rcases s.applyRetention_cases p nowMs dryRun with ⟨-, -, h⟩ | ⟨-, h⟩
  · rw [h]
  · rw [h]
    cases dryRun with
    | true => rfl
    | false =>
      change (s.retain p nowMs).2.sync requester since limit filter = _
      rw [sync_retain]
      refine sync_congr (congrArg (List.map Fingerprint.feedColumns) ?_) requester since limit
        filter
      -- nothing is purged, so the rows are the same
      have h_rows : ∀ r ∈ s.fingerprints.rows, p.purges nowMs r = false :=
        fun r hr => h_none r.id r ((Table.mem_rows _).mp hr)
      exact congrArg Table.rows (Table.delete_eq_self h_rows)

end Quiet

end Store

/-! ### The discipline of a whole run -/

/-- The discipline of `sync_seq` in the state a run has reached. The first two fields are about
the state, the next three about what a call does to a value and what a value stands for, and the
rest about the calls that leave every feed as it is. -/
structure SyncSeqDiscipline (ops : List Op) : Prop where
  /-- No two rows share a cursor value. -/
  distinct : ∀ id id' r r', (Store.empty.run ops).row id = some r →
    (Store.empty.run ops).row id' = some r' → r.syncSeq = r'.syncSeq → id = id'
  /-- No row is ahead of the sequence. -/
  bounded : ∀ id r, (Store.empty.run ops).row id = some r →
    r.syncSeq ≤ (Store.empty.run ops).syncSeq
  /-- The next call moves a surviving row's cursor value exactly when it resurrects
  the row or flips its status. -/
  changed_iff : ∀ op id r r', (Store.empty.run ops).row id = some r →
    (Store.empty.run (ops ++ [op])).row id = some r' →
    (r'.syncSeq ≠ r.syncSeq ↔ op.Resurrects (Store.empty.run ops) id ∨ r'.status ≠ r.status)
  /-- A cursor value the next call sets, on a surviving row or on an inserted one,
  is above every value any row held at any earlier point. -/
  fresh : ∀ op id r', (Store.empty.run (ops ++ [op])).row id = some r' →
    (∀ r, (Store.empty.run ops).row id = some r → r'.syncSeq ≠ r.syncSeq) →
    ∀ earlier rest, ops = earlier ++ rest →
      ∀ id₀ r₀, (Store.empty.run earlier).row id₀ = some r₀ → r₀.syncSeq < r'.syncSeq
  /-- One cursor value under an id in two states of a run: one content. -/
  content : ∀ earlier rest, ops = earlier ++ rest →
    ∀ id r r', (Store.empty.run earlier).row id = some r →
      (Store.empty.run ops).row id = some r' → r.syncSeq = r'.syncSeq →
      r.phashHex = r'.phashHex ∧ r.triple = r'.triple ∧ r.category = r'.category ∧
        r.action = r'.action ∧ r.status = r'.status
  /-- A hit report is not noticed by any feed. -/
  quiet_hit : ∀ enc a requester since limit filter,
    ((Store.empty.run ops).reportHit enc a).2.sync requester since limit filter
      = (Store.empty.run ops).sync requester since limit filter
  /-- Neither is a flag that does not hide, -/
  quiet_flag : ∀ enc a, (∀ res, ((Store.empty.run ops).flag enc a).1 = some res →
      res.hidden = false) → ∀ requester since limit filter,
    ((Store.empty.run ops).flag enc a).2.sync requester since limit filter
      = (Store.empty.run ops).sync requester since limit filter
  /-- a refused contribution, -/
  quiet_refused : ∀ enc a, ((Store.empty.run ops).contribute enc a).1.2 = false →
    ∀ requester since limit filter,
    ((Store.empty.run ops).contribute enc a).2.sync requester since limit filter
      = (Store.empty.run ops).sync requester since limit filter
  /-- a repeated deletion, -/
  quiet_repeated : ∀ id nowMs, ((Store.empty.run ops).softDelete id nowMs).1 = false →
    ∀ requester since limit filter,
    ((Store.empty.run ops).softDelete id nowMs).2.sync requester since limit filter
      = (Store.empty.run ops).sync requester since limit filter
  /-- or anything retention does apart from its purge. -/
  quiet_clearing : ∀ p nowMs requester since limit filter,
    ((Store.empty.run ops).retain p nowMs).2.sync requester since limit filter
      = ((Store.empty.run ops).purge (p.purges nowMs)).sync requester since limit filter
  /-- In particular not retention that purges no tombstone. -/
  quiet_retention : ∀ p nowMs dryRun,
    (∀ id r, (Store.empty.run ops).row id = some r → p.purges nowMs r = false) →
    ∀ requester since limit filter,
    ((Store.empty.run ops).applyRetention p nowMs dryRun).2.sync requester since limit filter
      = (Store.empty.run ops).sync requester since limit filter

/-- **The discipline of `sync_seq`** holds in every state of every run.

It is what a client that pulls by a cursor relies on: it has seen a row as it is once it has seen
its value, and a change is always ahead of it. That calls run one after the other is part of the
statement; what becomes of it when transactions overlap is in `Concurrent.Cursor`. -/
theorem syncSeq_discipline (ops : List Op) : SyncSeqDiscipline ops := by
  have h_wf : (Store.empty.run ops).Wf := Store.Wf.empty.run ops
  refine
    { distinct := h_wf.syncSeq_inj
      bounded := h_wf.syncSeq_le
      changed_iff := ?_
      fresh := ?_
      content := ?_
      quiet_hit := fun enc a q l n f => Store.sync_reportHit q l n f _ enc a
      quiet_flag := fun enc a h q l n f => Store.sync_flag q l n f _ enc a h
      quiet_refused := fun enc a h q l n f => by rw [Store.contribute_refused h]
      quiet_repeated := fun id nowMs h q l n f => by rw [Store.softDelete_repeated h]
      quiet_clearing := fun p nowMs q l n f => Store.sync_retain q l n f _ p nowMs
      quiet_retention := fun p nowMs d h q l n f =>
        Store.sync_applyRetention q l n f _ p nowMs d h }
  · intro op id r r' h_row h_row'
    rw [Store.run_concat] at h_row'
    exact Store.syncSeq_changed_iff h_wf op h_row h_row'
  · intro op id r' h_row' h_new earlier rest h_ops id₀ r₀ h_row₀
    rw [Store.run_concat] at h_row'
    -- every earlier value is below the sequence, and the new one above it
    have h_lt := Store.syncSeq_lt_of_new h_wf op h_row' h_new
    have h_le := (Store.Wf.empty.run earlier).syncSeq_le id₀ r₀ h_row₀
    have h_mono := (Store.run_sequences_le (Store.empty.run earlier) rest).1
    rw [← Store.run_append, ← h_ops] at h_mono
    omega
  · intro earlier rest h_ops id r r' h_row h_row' h_seq
    have h_wf₀ : (Store.empty.run earlier).Wf := Store.Wf.empty.run earlier
    rw [h_ops, Store.run_append] at h_row'
    -- the columns are the same, or the value is a later one
    rcases Store.run_feed h_wf₀ rest h_row h_row' with h_feed | h_lt
    · have h_columns : r'.syncColumns = r.syncColumns := congrArg Prod.snd h_feed
      exact ⟨(congrArg SyncRow.phashHex h_columns).symm, (congrArg SyncRow.triple h_columns).symm,
        (congrArg SyncRow.category h_columns).symm, (congrArg SyncRow.action h_columns).symm,
        (congrArg SyncRow.status h_columns).symm⟩
    · have h_le := h_wf₀.syncSeq_le id r h_row
      omega

end FingerprintHub
