import FingerprintHub.Api.Service

/-!
# Who may change a row

`requests_respect_ownership` is about every interleaving of the transactions of any
requests with runs of `apply_retention`. The ownership check of a DELETE and its
`soft_delete` are two transactions, and anything may happen to the row in between: it
may be deleted by another request, resurrected, or purged. The check stays valid
because an id keeps its owner and is never handed out again. The invariant `Permitted`
says so of every deletion that was allowed and has not run yet.
-/

namespace FingerprintHub
namespace Api

open FieldEncryption (AesGcm Keyring Nonce)

variable {gcm : AesGcm} {config : ServiceConfig} {s t : Service} {e : Event} {id : ℤ}
  {r r' : Fingerprint}

/-! ### Ids and owners -/

/-- A call leaves the owner and the hash of an id alone. They are the key of the row, and no
statement assigns to its columns. -/
theorem owned_of_rowStep {st : Store} {op : Op}
    (h_step : RowStep st op id (st.row id) (some r')) (h_row : st.row id = some r) :
    r'.owned = r.owned := by
  rw [h_row] at h_step
  generalize h_o : some r = o at h_step
  rcases h_step.owned_cases with ⟨q, rfl, h_owned⟩ | ⟨rfl, -, -⟩
  · rw [Option.some.inj h_o]
    exact h_owned
  · exact absurd h_o (by simp)

/-- A call gives a row to no id that was handed out before: the sequence of ids only grows, and
retention does not wind it back. -/
theorem row_none_of_apply {st : Store} (h_wf : st.Wf) (op : Op) (h_le : id ≤ st.lastId)
    (h_none : st.row id = none) : (op.apply st).row id = none := by
  cases h_row' : (op.apply st).row id with
  | none => rfl
  | some r' =>
    have h_step := Op.rowStep h_wf.fresh op id
    rw [h_none, h_row'] at h_step
    -- a row that is there now was there before, or has a new id
    rcases h_step.owned_cases with ⟨q, h_q, -⟩ | ⟨-, h_id, -⟩
    · exact absurd h_q (by simp)
    · omega

/-- What an id that was handed out may become: its row keeps its owner and its hash,
and an id without a row stays without one. -/
structure Keeps (st st' : Store) (id : ℤ) : Prop where
  owned : ∀ r r', st.row id = some r → st'.row id = some r' → r'.owned = r.owned
  spent : id ≤ st.lastId → st.row id = none → st'.row id = none
  lastId : st.lastId ≤ st'.lastId

/-- What did not change keeps it. -/
theorem Keeps.refl (st : Store) : Keeps st st id where
  owned := by
    intro r r' h_row h_row'
    rw [Option.some.inj (h_row.symm.trans h_row')]
  spent := fun _ h_none => h_none
  lastId := le_refl _

/-- A call keeps it, -/
theorem Keeps.apply {st : Store} (h_wf : st.Wf) (op : Op) : Keeps st (op.apply st) id where
  owned := by
    intro r r' h_row h_row'
    have h_step := Op.rowStep h_wf.fresh op id
    rw [h_row'] at h_step
    exact owned_of_rowStep h_step h_row
  spent := row_none_of_apply h_wf op
  lastId := (op.sequences_le st).2.1

/-- and so does a transaction, which is at most one call. -/
theorem Keeps.step (h_wf : s.store.Wf) (h : Step gcm config s e t) : Keeps s.store t.store id := by
  rcases h.op with h_same | ⟨op, -, h_op⟩
  · rw [h_same]
    exact .refl _
  · rw [h_op]
    exact Keeps.apply h_wf op

/-- Over a run an id keeps its owner, and a spent id stays spent. -/
theorem Keeps.reaches (h_wf : s.store.Wf) (h : Reaches gcm config s t) :
    Keeps s.store t.store id := by
  induction h with
  | refl => exact .refl _
  | @tail u v h_run h_step ih =>
    obtain ⟨e, h_step⟩ := h_step
    have h_last : Keeps u.store v.store id := .step (Reaches.wf h_run h_wf) h_step
    refine ⟨?_, ?_, ih.lastId.trans h_last.lastId⟩
    · intro r r' h_row h_row'
      cases h_mid : u.store.row id with
      | some q => exact (h_last.owned q r' h_mid h_row').trans (ih.owned r q h_row h_mid)
      | none =>
        -- the id was handed out, so it would have stayed without a row
        have h_le := (h_wf.id_le id r h_row).trans ih.lastId
        have h_none := h_last.spent h_le h_mid
        exact absurd (h_row'.symm.trans h_none) (by simp)
    · intro h_le h_none
      exact h_last.spent (h_le.trans ih.lastId) (ih.spent h_le h_none)

/-! ### Deletions between their two transactions -/

/-- Every allowed deletion was sent by a consumer with write scope, and whoever holds the id now
is still the owner the check saw, or the consumer is an admin. The id may have no row any more,
and then it never will. -/
def Permitted (s : Service) : Prop :=
  ∀ c id, (c, id) ∈ s.allowed → Scope.write ∈ c.scopes ∧ id ≤ s.store.lastId ∧
    ∀ r, s.store.row id = some r → r.consumerId = c.id ∨ c.isAdmin = true

/-- An allowed deletion stays permitted whatever the step does to the store, as long as it keeps
the owners of the ids. -/
theorem Permitted.of_keeps (h : Permitted s) (h_keeps : ∀ id, Keeps s.store t.store id)
    (h_allowed : ∀ x ∈ t.allowed, x ∈ s.allowed) : Permitted t := by
  intro c id h_mem
  obtain ⟨h_write, h_le, h_owner⟩ := h c id (h_allowed _ h_mem)
  refine ⟨h_write, h_le.trans (h_keeps id).lastId, ?_⟩
  intro r' h_row'
  -- the row was there before the step, since the id was handed out
  cases h_row : s.store.row id with
  | none =>
    have h_none := (h_keeps id).spent h_le h_row
    exact absurd (h_row'.symm.trans h_none) (by simp)
  | some r =>
    have h_same : r'.consumerId = r.consumerId :=
      congrArg Prod.snd ((h_keeps id).owned r r' h_row h_row')
    rw [h_same]
    exact h_owner r h_row

/-- A transaction keeps every allowed deletion permitted, and allows only such. -/
theorem Permitted.step (h : Permitted s) (h_wf : s.store.Wf) (h_step : Step gcm config s e t) :
    Permitted t := by
  have h_keeps : ∀ id, Keeps s.store t.store id := fun id => Keeps.step h_wf h_step
  cases h_step with
  | contribute ring nonces c body nowMs => exact h.of_keeps h_keeps fun _ h_mem => h_mem
  | reportHit ring nonces c segment body nowMs => exact h.of_keeps h_keeps fun _ h_mem => h_mem
  | flag ring nonces c segment body nowMs => exact h.of_keeps h_keeps fun _ h_mem => h_mem
  | deleteRefused h_check => exact h
  | @deleteAllowed c segment id h_check =>
    -- the check just made is the one the invariant asks for
    obtain ⟨h_write, -, r, h_row, -, h_owner⟩ := deleteCheck_ok h_check
    intro c' id' h_mem
    rcases List.mem_cons.mp h_mem with h_new | h_old
    · obtain ⟨rfl, rfl⟩ := Prod.mk.inj h_new
      refine ⟨h_write, h_wf.id_le _ r h_row, ?_⟩
      intro r' h_row'
      rw [← Option.some.inj (h_row.symm.trans h_row')]
      exact h_owner
    · exact h c' id' h_old
  | softDelete h_allowed nowMs =>
    exact h.of_keeps h_keeps fun _ h_mem => List.mem_of_mem_erase h_mem
  | retention p nowMs dryRun => exact h.of_keeps h_keeps fun _ h_mem => h_mem

/-- In every run of the service the allowed deletions are permitted. -/
theorem Permitted.reaches (h : Reaches gcm config .start s) : Permitted s := by
  induction h with
  | refl => exact fun _ _ h_mem => absurd h_mem (by simp [Service.start])
  | tail h_run h_step ih =>
    obtain ⟨e, h_step⟩ := h_step
    exact ih.step (Reaches.wf h_run .empty) h_step

/-! ### What a step may do to a row -/

/-- The row appears, comes back to life, or has its triple, its category, its action or a private
field set to a new value. Clearing a private field, as retention does, is none of it. -/
def Renewed (o : Option Fingerprint) (r' : Fingerprint) : Prop :=
  match o with
  | none => True
  | some r =>
    (r.status = .deleted ∧ r'.Live) ∨ r'.triple ≠ r.triple ∨ r'.category ≠ r.category ∨
      r'.action ≠ r.action ∨ r'.autoAdded ≠ r.autoAdded ∨ r'.provenance ≠ r.provenance ∨
      (r'.sourceGuildId ≠ none ∧ r'.sourceGuildId ≠ r.sourceGuildId) ∨
      (r'.reason ≠ none ∧ r'.reason ≠ r.reason) ∨
      (r'.sourceUrl ≠ none ∧ r'.sourceUrl ≠ r.sourceUrl)

/-- What a consumer without rights on a row may do to it: change its hit statistics, its flag
count and its update time, and hide it with a flag that reaches the threshold. A row that is
hidden gets a new `sync_seq`, and keeps everything else. -/
def PeerChange (st : Store) (e : Event) (threshold : ℕ) (r r' : Fingerprint) : Prop :=
  ∃ hitCount lastHitAtMs flagCount updatedAtMs,
    r' = { r with hitCount := hitCount, lastHitAtMs := lastHitAtMs, flagCount := flagCount
                  updatedAtMs := updatedAtMs } ∨
    (∃ ring nonces c segment body nowMs, e = .flag ring nonces c segment body nowMs) ∧
      r.status = .active ∧ threshold ≤ flagCount ∧
      ∃ seq, st.syncSeq < seq ∧
        r' = { r with hitCount := hitCount, lastHitAtMs := lastHitAtMs, flagCount := flagCount
                      updatedAtMs := updatedAtMs, status := .hidden, syncSeq := seq }

/-- A deletion that runs was allowed before. -/
theorem allowed_of_softDelete {c : Consumer} {nowMs : ℤ}
    (h_step : Step gcm config s (.softDelete c id nowMs) t) : (c, id) ∈ s.allowed := by
  cases h_step with
  | softDelete h_mem _ => exact h_mem

/-- Only an allowed deletion turns a live row into a tombstone, and it is one of the owner or of
an admin, though the check was made earlier. -/
theorem softDelete_of_deleted (h_wf : s.store.Wf) (h_perm : Permitted s)
    (h_step : Step gcm config s e t) (h_row : s.store.row id = some r) (h_live : r.Live)
    (h_row' : t.store.row id = some r') (h_deleted : r'.status = .deleted) :
    ∃ c nowMs, e = .softDelete c id nowMs ∧ Scope.write ∈ c.scopes ∧
      (r.consumerId = c.id ∨ c.isAdmin = true) := by
  -- what did not change is still live
  rcases h_step.rowStep h_wf id with h_same | ⟨op, h_calls, h_op, h_move⟩
  · rw [h_row, h_row'] at h_same
    exact absurd (Option.some.inj h_same ▸ h_deleted) h_live
  · rw [h_row, h_row'] at h_move
    -- every other change of a row leaves a live status or the status it had
    rcases h_move.row_cases with rfl | ⟨enc, a, -, -, -, rfl⟩ | ⟨enc, a, -, -, -, rfl⟩ |
      ⟨enc, a, -, -, -, -, rfl⟩ | ⟨enc, a, -, -, -, rfl⟩ | ⟨nowMs, rfl, -, rfl⟩ |
      ⟨p, nowMs, -, -, rfl⟩
    · exact absurd h_deleted h_live
    · exact absurd h_deleted (by simp [resurrectRow])
    · exact absurd h_deleted h_live
    · exact absurd h_deleted (by simp [hideRow])
    · exact absurd h_deleted h_live
    · cases h_calls with
      | softDelete =>
        obtain ⟨h_write, -, h_owner⟩ := h_perm _ _ (allowed_of_softDelete h_step)
        exact ⟨_, _, rfl, h_write, h_owner r h_row⟩
    · exact absurd h_deleted h_live

/-- Only a contribution of its owner renews a row. -/
theorem contribute_of_renewed (h_wf : s.store.Wf) (h_step : Step gcm config s e t)
    (h_row' : t.store.row id = some r') (h_new : Renewed (s.store.row id) r') :
    ∃ ring nonces c body nowMs, e = .contribute ring nonces c body nowMs ∧
      r'.consumerId = c.id ∧ Scope.write ∈ c.scopes := by
  -- a row that did not change is not renewed
  have h_not_same : s.store.row id ≠ some r' := by
    intro h_row
    rw [h_row] at h_new
    simp [Renewed, Fingerprint.Live] at h_new
  have h_of_call : ∀ {enc : EncryptText} {a : ContributeArgs},
      Calls gcm config e (Op.contribute enc a) → r'.consumerId = a.consumerId →
      ∃ ring nonces c body nowMs, e = Event.contribute ring nonces c body nowMs ∧
        r'.consumerId = c.id ∧ Scope.write ∈ c.scopes := by
    intro enc a h_calls h_owner
    cases h_calls with
    | contribute h_valid =>
      exact ⟨_, _, _, _, _, rfl, h_owner.trans h_valid.consumerId, h_valid.write⟩
  rcases h_step.rowStep h_wf id with h_same | ⟨op, h_calls, h_op, h_move⟩
  · exact absurd (h_same.symm.trans h_row') h_not_same
  · cases h_row : s.store.row id with
    | none =>
      -- the row appears: only an insertion does that
      rw [h_row, h_row'] at h_move
      generalize h_o : (none : Option Fingerprint) = o at h_move
      generalize h_o' : some r' = o' at h_move
      cases h_move with
      | keep => rw [← h_o'] at h_o; exact absurd h_o (by simp)
      | insert h_free h_seq =>
        obtain rfl := Option.some.inj h_o'
        exact h_of_call h_calls rfl
      | _ => exact absurd h_o (by simp)
    | some r =>
      rw [h_row, h_row'] at h_move
      rw [h_row] at h_new
      rcases h_move.row_cases with rfl | ⟨enc, a, rfl, h_found, -, rfl⟩ | ⟨enc, a, -, -, -, rfl⟩ |
        ⟨enc, a, -, -, h_active, -, rfl⟩ | ⟨enc, a, -, -, -, rfl⟩ | ⟨nowMs, -, -, rfl⟩ |
        ⟨p, nowMs, -, h_anon, rfl⟩
      · exact absurd h_row h_not_same
      · exact h_of_call h_calls (congrArg Prod.snd (Store.row_of_findOwned h_found).2)
      -- the other changes set nothing that counts, or set a private field to NULL
      · simp [Renewed, hitRow, Fingerprint.Live] at h_new
      · simp [Renewed, hideRow, h_active] at h_new
      · simp [Renewed, countFlagRow, Fingerprint.Live] at h_new
      · simp [Renewed, deleteRow, Fingerprint.Live] at h_new
      · simp [Renewed, anonymizeRow, Fingerprint.Live] at h_new

/-- A request of a consumer without rights on a row makes a `PeerChange` of it at
most. -/
theorem peerChange_of_request (h_wf : s.store.Wf) (h_perm : Permitted s)
    (h_step : Step gcm config s e t) {c : Consumer} (h_consumer : e.consumer = some c)
    (h_admin : c.isAdmin = false) (h_row : s.store.row id = some r)
    (h_other : r.consumerId ≠ c.id) :
    ∃ r', t.store.row id = some r' ∧
      PeerChange s.store e config.autoHideFlagThreshold r r' := by
  -- to change nothing is the least of them
  have h_keep : PeerChange s.store e config.autoHideFlagThreshold r r :=
    ⟨r.hitCount, r.lastHitAtMs, r.flagCount, r.updatedAtMs, Or.inl rfl⟩
  rcases h_step.rowStep h_wf id with h_same | ⟨op, h_calls, h_op, h_move⟩
  · exact ⟨r, h_same.trans h_row, h_keep⟩
  · cases h_row' : t.store.row id with
    | none =>
      -- only a run of retention purges, and that is no request
      rw [h_op] at h_row'
      obtain ⟨p, nowMs, rfl, -, -⟩ := Op.purged_of_row_none h_wf.fresh h_row h_row'
      cases h_calls with
      | retention => exact absurd h_consumer (by simp [Event.consumer])
    | some r' =>
      refine ⟨r', rfl, ?_⟩
      rw [h_row, h_row'] at h_move
      rcases h_move.row_cases with rfl | ⟨enc, a, rfl, h_found, -, rfl⟩ | ⟨enc, a, rfl, -, -, rfl⟩ |
        ⟨enc, a, rfl, -, h_active, h_threshold, rfl⟩ | ⟨enc, a, rfl, -, -, rfl⟩ |
        ⟨nowMs, rfl, -, rfl⟩ | ⟨p, nowMs, rfl, -, rfl⟩
      · exact h_keep
      · -- a resurrected row belongs to the consumer that contributes
        cases h_calls with
        | contribute h_valid =>
          have h_owner : r.consumerId = _ := congrArg Prod.snd (Store.row_of_findOwned h_found).2
          obtain rfl := Option.some.inj h_consumer
          exact absurd (h_owner.trans h_valid.consumerId) h_other
      · exact ⟨_, _, _, _, Or.inl rfl⟩
      · cases h_calls with
        | flag h_write h_flagger h_now h_config =>
          rw [h_config] at h_threshold
          exact ⟨_, r.lastHitAtMs, _, _, Or.inr ⟨⟨_, _, _, _, _, _, rfl⟩, h_active, h_threshold, _,
            Nat.lt_succ_self _, rfl⟩⟩
      · exact ⟨_, _, _, _, Or.inl rfl⟩
      · -- the check of an allowed deletion still holds
        cases h_calls with
        | softDelete =>
          obtain ⟨-, -, h_owner⟩ := h_perm _ _ (allowed_of_softDelete h_step)
          obtain rfl := Option.some.inj h_consumer
          rcases h_owner r h_row with h_own | h_is_admin
          · exact absurd h_own h_other
          · rw [h_admin] at h_is_admin
            exact absurd h_is_admin (by simp)
      · cases h_calls with
        | retention => exact absurd h_consumer (by simp [Event.consumer])

/-! ### The authority over rows -/

/-- **Authority over rows.** In every run of the service, whatever the order of the
transactions, for every step and every id:

* a live row only becomes a tombstone through a deletion sent by a consumer with
  write scope that owns the row or is an admin;
* a row only appears, comes back to life or has its content or its metadata set to
  something new through a contribution sent by its owner with write scope;
* the row of an id keeps its owner and its hash for ever after, and an id whose row is
  gone is not handed out again;
* a request of a consumer that neither owns the row nor is an admin leaves the row,
  but for a `PeerChange`. -/
theorem requests_respect_ownership (h_run : Reaches gcm config .start s)
    (h_step : Step gcm config s e t) (id : ℤ) :
    (∀ r r', s.store.row id = some r → r.Live → t.store.row id = some r' → r'.status = .deleted →
      ∃ c nowMs, e = .softDelete c id nowMs ∧ Scope.write ∈ c.scopes ∧
        (r.consumerId = c.id ∨ c.isAdmin = true)) ∧
    (∀ r', t.store.row id = some r' → Renewed (s.store.row id) r' →
      ∃ ring nonces c body nowMs, e = .contribute ring nonces c body nowMs ∧
        r'.consumerId = c.id ∧ Scope.write ∈ c.scopes) ∧
    (∀ r u, s.store.row id = some r → Reaches gcm config s u →
      (∀ r', u.store.row id = some r' → r'.consumerId = r.consumerId ∧ r'.phashHex = r.phashHex) ∧
      (u.store.row id = none → ∀ v, Reaches gcm config u v → v.store.row id = none)) ∧
    (∀ c r, e.consumer = some c → c.isAdmin = false → s.store.row id = some r →
      r.consumerId ≠ c.id →
      ∃ r', t.store.row id = some r' ∧
        PeerChange s.store e config.autoHideFlagThreshold r r') := by
  have h_wf : s.store.Wf := Reaches.wf h_run .empty
  have h_perm : Permitted s := .reaches h_run
  refine ⟨?_, ?_, ?_, ?_⟩
  · intro r r' h_row h_live h_row' h_deleted
    exact softDelete_of_deleted h_wf h_perm h_step h_row h_live h_row' h_deleted
  · intro r' h_row' h_new
    exact contribute_of_renewed h_wf h_step h_row' h_new
  · intro r u h_row h_later
    have h_keeps : Keeps s.store u.store id := .reaches h_wf h_later
    refine ⟨?_, ?_⟩
    · intro r' h_row'
      have h_owned := h_keeps.owned r r' h_row h_row'
      exact ⟨congrArg Prod.snd h_owned, congrArg Prod.fst h_owned⟩
    · intro h_gone v h_last
      have h_le : id ≤ u.store.lastId := (h_wf.id_le id r h_row).trans h_keeps.lastId
      -- the id is below the sequence, which never goes back
      exact (Keeps.reaches (Reaches.wf h_later h_wf) h_last).spent h_le h_gone
  · intro c r h_consumer h_admin h_row h_other
    exact peerChange_of_request h_wf h_perm h_step h_consumer h_admin h_row h_other

/-- A consumer with write scope. -/
def sampleWriter : Consumer := ⟨1, [.write]⟩

/-- The store after the contribution of `sampleBody` by `sampleWriter`. -/
def sampleContributed : Store :=
  (contributeFingerprint FieldEncryption.sampleGcm FieldEncryption.sampleRing
    (fun _ => FieldEncryption.sampleNonce) sampleWriter sampleBody 10 Store.empty).2

/-- Consumer 1 contributes, has a deletion allowed, and the deletion runs: the row becomes a
tombstone, and the deletion is its owner's. -/
theorem requests_respect_ownership_delete :
    ∃ r r', sampleContributed.row 1 = some r ∧ r.Live ∧
      (sampleContributed.softDelete 1 20).2.row 1 = some r' ∧ r'.status = .deleted ∧
      ∃ c nowMs, Event.softDelete sampleWriter 1 20 = .softDelete c 1 nowMs ∧
        Scope.write ∈ c.scopes ∧ (r.consumerId = c.id ∨ c.isAdmin = true) := by
  have h_check : deleteCheck sampleWriter (PyStr.ofString "1") sampleContributed = .ok 1 := rfl
  have h_contribute : Step FieldEncryption.sampleGcm .default .start _ ⟨sampleContributed, []⟩ :=
    .contribute _ _ _ _ _
  have h_delete : Step FieldEncryption.sampleGcm .default ⟨sampleContributed, []⟩ _
      ⟨sampleContributed, [(sampleWriter, 1)]⟩ := .deleteAllowed h_check
  have h_softDelete : Step FieldEncryption.sampleGcm .default
      ⟨sampleContributed, [(sampleWriter, 1)]⟩ (.softDelete sampleWriter 1 20)
      ⟨(sampleContributed.softDelete 1 20).2, _⟩ := .softDelete (by decide) 20
  have h_run : Reaches FieldEncryption.sampleGcm .default .start
      ⟨sampleContributed, [(sampleWriter, 1)]⟩ := .tail (.single ⟨_, h_contribute⟩) ⟨_, h_delete⟩
  have h_rows : ∃ r r', sampleContributed.row 1 = some r ∧ r.Live ∧
      (sampleContributed.softDelete 1 20).2.row 1 = some r' ∧ r'.status = .deleted :=
    ⟨_, _, rfl, by decide +kernel, rfl, rfl⟩
  obtain ⟨r, r', h_row, h_live, h_row', h_deleted⟩ := h_rows
  refine ⟨r, r', h_row, h_live, h_row', h_deleted, ?_⟩
  exact (requests_respect_ownership h_run h_softDelete 1).1 r r' h_row h_live h_row' h_deleted

end Api

end FingerprintHub
