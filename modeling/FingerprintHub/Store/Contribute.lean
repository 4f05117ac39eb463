import FingerprintHub.Store.Runs

/-!
# The two ways of a contribution

`contribute` has two statements that make a row: an `INSERT` that leaves the column
defaults to the schema, and an `UPDATE` of the consumer's tombstone that lists the columns
it sets and clears the flags first. Whatever the row went through before, both leave the
same row under the key, up to its id and its hit statistics.
-/

namespace FingerprintHub

/-- The id a contribution answers with. -/
def ContributeRow.id : ContributeRow → ℤ
  | .existing id _ => id
  | .written row => row.id

/-- The private texts of a row. -/
def Fingerprint.sourceTexts (r : Fingerprint) : Option String × Option String × Option String :=
  (r.sourceGuildId, r.reason, r.sourceUrl)

/-- The private texts a contribution writes. -/
def ContributeArgs.sourceTexts (a : ContributeArgs) (enc : EncryptText) :
    Option String × Option String × Option String :=
  (encryptText enc 2 a.sourceGuildId, encryptText enc 0 a.reason, encryptText enc 1 a.sourceUrl)

/-- What a contribution decides of a row, but for its key. -/
structure Contributed where
  category : Category
  action : Action
  triple : Triple
  autoAdded : Bool
  provenance : String
  sourceTexts : Option String × Option String × Option String

/-- What the contribution of a row decided. -/
def Fingerprint.contributed (r : Fingerprint) : Contributed :=
  ⟨r.category, r.action, r.triple, r.autoAdded, r.provenance, r.sourceTexts⟩

/-- What a contribution decides. -/
def ContributeArgs.contributed (a : ContributeArgs) (enc : EncryptText) : Contributed :=
  ⟨a.category, a.action, a.triple, a.autoAdded, a.provenance, a.sourceTexts enc⟩

namespace Store

variable {s : Store} (enc : EncryptText) (a : ContributeArgs)

/-- The row is what the contribution would have inserted into an empty place, up to its
id, its cursor value and its hit statistics. -/
def AsInserted (r : Fingerprint) : Prop :=
  ∀ t : Store, t.findOwned a.owned = none → ∃ q,
    (t.contribute enc a).1 = (some (.written q), true) ∧
    { r with
      id := q.id
      syncSeq := q.syncSeq
      hitCount := q.hitCount
      lastHitAtMs := q.lastHitAtMs } = q

/-- A row is as inserted if it agrees with the inserted one in the columns that are compared. -/
theorem asInserted_of_columns {r : Fingerprint}
    (h : ∀ id seq, { r with id := id, syncSeq := seq, hitCount := 0, lastHitAtMs := none }
      = freshRow enc a id seq) : AsInserted enc a r := by
  intro t h_free
  rcases t.contribute_cases enc a with ⟨q, h_q, -, -⟩ | ⟨q, h_q, -, -⟩ | ⟨-, h_t⟩
  · exact absurd (h_free.symm.trans h_q) (by simp)
  · exact absurd (h_free.symm.trans h_q) (by simp)
  · exact ⟨_, by rw [h_t], h _ _⟩

/-- Its columns are those of the contribution. -/
theorem AsInserted.contributed {enc : EncryptText} {a : ContributeArgs} {r : Fingerprint}
    (h : AsInserted enc a r) : r.contributed = a.contributed enc := by
  have h_free : Store.empty.findOwned a.owned = none := rfl
  obtain ⟨q, h_q, h_eq⟩ := h .empty h_free
  have h_fresh : (Store.empty.contribute enc a).1 = (some (.written (freshRow enc a 1 1)), true) :=
    congrArg Prod.fst (insertFingerprint_of_none h_free)
  obtain rfl := ContributeRow.written.inj (Option.some.inj (Prod.mk.inj (h_q.symm.trans h_fresh)).1)
  exact congrArg Fingerprint.contributed h_eq

/-- What a contribution that created its row leaves: the row under the key, with no flags and the
latest cursor value, and everything else as it was. Nothing in it tells an insertion from a
resurrection, except the hit statistics that `AsInserted` leaves open. -/
structure Created (s s' : Store) (r : Fingerprint) : Prop where
  row : s'.row r.id = some r
  owned : r.owned = a.owned
  unique : ∀ id q, s'.row id = some q → q.owned = a.owned → id = r.id
  asInserted : AsInserted enc a r
  /-- Its cursor value is above all there were. -/
  fresh : s'.syncSeq = r.syncSeq ∧ ∀ id q, s.row id = some q → q.syncSeq < r.syncSeq
  flagCount : r.flagCount = 0
  flags : s'.flagsOf r.id = []
  others : ∀ id q, q.owned ≠ a.owned → (s'.row id = some q ↔ s.row id = some q)
  hits : s'.hits = s.hits

variable {enc a}

/-- A key that is found is found on one row only. -/
theorem Wf.id_of_findOwned (h : s.Wf) {key : String × ℤ} {r : Fingerprint}
    (h_found : s.findOwned key = some r) {id : ℤ} {q : Fingerprint} (h_q : s.row id = some q)
    (h_owned : q.owned = key) : id = r.id := by
  obtain ⟨h_row, h_key⟩ := row_of_findOwned h_found
  exact h.owned_inj id r.id q r h_q h_row (h_owned.trans h_key.symm)

/-- The `INSERT` leaves such a row. -/
theorem Created.of_insert (h : s.Wf) (h_free : s.findOwned a.owned = none) :
    Created enc a s (s.inserted enc a) (freshRow enc a (s.lastId + 1) (s.syncSeq + 1)) where
  row := by rw [row_inserted enc a h.fresh]; exact if_pos rfl
  owned := rfl
  unique := by
    intro id q h_q h_owned
    -- the new row has the key, and no other row had it
    rw [row_inserted enc a h.fresh] at h_q
    split at h_q
    · next h_id => exact h_id.symm
    · exact absurd h_owned (owned_ne_of_findOwned h_free h_q)
  asInserted := asInserted_of_columns enc a (fun _ _ => rfl)
  fresh := ⟨rfl, fun id q h_q => Nat.lt_succ_of_le (h.syncSeq_le id q h_q)⟩
  flagCount := rfl
  flags := by
    -- a flag row would refer to a fingerprint that is not there yet
    refine List.eq_nil_iff_forall_not_mem.mpr (fun f h_f => ?_)
    obtain ⟨h_get, h_id⟩ := mem_flagsOf.mp h_f
    rw [flags_inserted] at h_get
    obtain ⟨r, h_row⟩ := h.flag_row f.key f h_get
    have h_le := h.id_le f.fingerprintId r h_row
    change f.fingerprintId = s.lastId + 1 at h_id
    omega
  others := by
    intro id q h_owned
    rw [row_inserted enc a h.fresh]
    split
    · next h_id =>
      -- under the new id there was nothing, and what is there now has the key
      rw [← h_id, h.fresh]
      constructor
      · intro h_q
        rw [← Option.some.inj h_q] at h_owned
        exact absurd rfl h_owned
      · intro h_q
        exact absurd h_q (by simp)
    · exact Iff.rfl
  hits := rfl

/-- So does the `UPDATE` of a tombstone: the columns it does not set are those of the key, or the
hit statistics. -/
theorem Created.of_resurrect (h : s.Wf) {r : Fingerprint}
    (h_found : s.findOwned a.owned = some r) :
    Created enc a s ((s.deleteFlags r.id).nextSeq.updateRow r.id
        (resurrectRow enc a (s.syncSeq + 1)) (resurrectRow_id enc a _))
      (resurrectRow enc a (s.syncSeq + 1) r) := by
  obtain ⟨h_row, h_key⟩ := row_of_findOwned h_found
  -- the rows after the two statements
  have h_rows : ∀ id, ((s.deleteFlags r.id).nextSeq.updateRow r.id
      (resurrectRow enc a (s.syncSeq + 1)) (resurrectRow_id enc a _)).row id
      = if id = r.id then some (resurrectRow enc a (s.syncSeq + 1) r) else s.row id := by
    intro id
    rw [row_updateRow, row_nextSeq, row_deleteFlags]
    split
    · rw [h_row]; rfl
    · rfl
  have h_hash : r.phashHex = a.phashHex := congrArg Prod.fst h_key
  have h_consumer : r.consumerId = a.consumerId := congrArg Prod.snd h_key
  refine ⟨?_, ?_, fun id q h_q h_owned => ?_, ?_, ⟨rfl, fun id q h_q => ?_⟩, rfl, ?_,
    fun id q h_owned => ?_, rfl⟩
  · rw [h_rows]
    exact if_pos rfl
  · rw [resurrectRow_owned]
    exact h_key
  · rw [h_rows] at h_q
    split at h_q
    · next h_id => exact h_id
    · exact h.id_of_findOwned h_found h_q h_owned
  · -- the columns the `UPDATE` does not list are those of the key
    refine asInserted_of_columns enc a (fun id seq => ?_)
    unfold resurrectRow freshRow
    rw [h_hash, h_consumer]
  · exact Nat.lt_succ_of_le (h.syncSeq_le id q h_q)
  -- the `DELETE` and the `SELECT` have the same `WHERE`
  · show (s.flags.delete (fun f => f.fingerprintId = r.id)).select _ = []
    refine List.eq_nil_iff_forall_not_mem.mpr (fun f h_f => ?_)
    rw [Table.mem_select, Table.get?_delete, Option.filter_eq_some_iff] at h_f
    obtain ⟨⟨-, h_kept⟩, h_id⟩ := h_f
    have h_fp : f.fingerprintId = r.id := of_decide_eq_true h_id
    simp [h_fp] at h_kept
  · rw [h_rows]
    split
    · next h_id =>
      -- a row under the id of the tombstone has its key
      have h_not : ∀ {o : Fingerprint}, o.owned = a.owned → some o = some q → False := by
        intro o h_o h_q
        rw [← Option.some.inj h_q] at h_owned
        exact h_owned h_o
      constructor
      · intro h_q
        exact (h_not ((resurrectRow_owned enc a _ r).trans h_key) h_q).elim
      · intro h_q
        rw [h_id, h_row] at h_q
        exact (h_not h_key h_q).elim
    · exact Iff.rfl

/-- A contribution is refused exactly on behalf of a live row, and else creates its row. That the
row which is found is the only one of its key is the unique constraint. -/
theorem Wf.contribute_outcome (h : s.Wf) (enc : EncryptText) (a : ContributeArgs) :
    (∃ r, s.row r.id = some r ∧ r.owned = a.owned ∧ r.Live ∧
      s.contribute enc a = ((some (.existing r.id r.status), false), s)) ∨
    ((∀ id r, s.row id = some r → r.owned = a.owned → r.status = .deleted) ∧
      ∃ r, (s.contribute enc a).1 = (some (.written r), true) ∧
        Created enc a s (s.contribute enc a).2 r ∧ r.status = .active) := by
  rcases s.contribute_cases enc a with
    ⟨r, h_found, h_live, h'⟩ | ⟨r, h_found, h_deleted, h'⟩ | ⟨h_free, h'⟩
  · obtain ⟨h_row, h_key⟩ := row_of_findOwned h_found
    exact Or.inl ⟨r, h_row, h_key, h_live, h'⟩
  · refine Or.inr ⟨fun id q h_q h_owned => ?_, _, by rw [h'],
      by rw [h']; exact .of_resurrect h h_found, rfl⟩
    obtain rfl := h.id_of_findOwned h_found h_q h_owned
    obtain rfl := Option.some.inj (h_q.symm.trans (row_of_findOwned h_found).1)
    exact h_deleted
  · refine Or.inr ⟨fun id q h_q h_owned => ?_, _, by rw [h'], by rw [h']; exact .of_insert h h_free,
      rfl⟩
    exact absurd h_owned (owned_ne_of_findOwned h_free h_q)

/-- On behalf of a live row every contribution of its key is refused. -/
theorem Wf.contribute_of_live (h : s.Wf) {r : Fingerprint} (h_row : s.row r.id = some r)
    (h_owned : r.owned = a.owned) (h_live : r.Live) :
    s.contribute enc a = ((some (.existing r.id r.status), false), s) := by
  rcases h.contribute_outcome enc a with ⟨q, h_q, h_key, -, h'⟩ | ⟨h_none, -⟩
  · have h_id := h.owned_inj q.id r.id q r h_q h_row (h_key.trans h_owned.symm)
    rw [h_id] at h_q
    obtain rfl := Option.some.inj (h_q.symm.trans h_row)
    exact h'
  · exact absurd (h_none r.id r h_row h_owned) h_live

/-- **Both ways of a contribution mean the same.**

A contribution is answered `created` just when no live row has its key. It then leaves the row
that an insertion would have left (`Created`); otherwise it leaves the store as it was and names
the row in the way. Rows of other keys and all hits are untouched, and the same contribution once
more, with whatever nonces, is refused on behalf of the row of the first. -/
theorem contribute_meaning (h_s : s.Reachable) (enc : EncryptText) (a : ContributeArgs) :
    ((s.contribute enc a).1.2 = true ↔
      ¬ ∃ id r, s.row id = some r ∧ r.owned = a.owned ∧ r.Live) ∧
    ((s.contribute enc a).1.2 = true → ∃ r, (s.contribute enc a).1.1 = some (.written r) ∧
      Created enc a s (s.contribute enc a).2 r) ∧
    ((s.contribute enc a).1.2 = false → ∃ r, s.row r.id = some r ∧ r.owned = a.owned ∧ r.Live ∧
      (s.contribute enc a).1.1 = some (.existing r.id r.status) ∧ (s.contribute enc a).2 = s) ∧
    (∀ id q, q.owned ≠ a.owned →
      ((s.contribute enc a).2.row id = some q ↔ s.row id = some q)) ∧
    (s.contribute enc a).2.hits = s.hits ∧
    ∀ enc', ∃ row status, (s.contribute enc a).1.1 = some row ∧
      (s.contribute enc a).2.contribute enc' a
        = ((some (.existing row.id status), false), (s.contribute enc a).2) := by
  have h := h_s.wf
  rcases h.contribute_outcome enc a with
    ⟨r, h_row, h_owned, h_live, h'⟩ | ⟨h_none, r, h', h_created, h_active⟩
  · rw [h']
    refine ⟨⟨fun h_true => absurd h_true (by simp), fun h_no => ?_⟩,
      fun h_true => absurd h_true (by simp), fun _ => ⟨r, h_row, h_owned, h_live, rfl, rfl⟩,
      fun _ _ _ => Iff.rfl, rfl, fun enc' => ⟨_, r.status, rfl, ?_⟩⟩
    -- the row on whose behalf it is refused is live
    · exact absurd ⟨r.id, r, h_row, h_owned, h_live⟩ h_no
    · exact h.contribute_of_live h_row h_owned h_live
  · rw [h']
    refine ⟨⟨fun _ => ?_, fun _ => rfl⟩, fun _ => ⟨r, rfl, h_created⟩,
      fun h_false => absurd h_false (by simp), h_created.others, h_created.hits,
      fun enc' => ⟨_, r.status, rfl, ?_⟩⟩
    · rintro ⟨id, q, h_q, h_owned, h_live⟩
      exact h_live (h_none id q h_q h_owned)
    -- and now it is live itself, so a repetition is refused on its behalf
    · have h_wf : (s.contribute enc a).2.Wf := h.step (.contribute enc a)
      refine h_wf.contribute_of_live h_created.row h_created.owned ?_
      rw [Fingerprint.Live, h_active]
      exact fun h_eq => Status.noConfusion h_eq

/-- A fingerprint that was flagged, hidden, hit and deleted, contributed once more. -/
theorem contribute_meaning_revived :
    let enc : EncryptText := fun _ t => t
    let a := sampleContribution "00ff"
    let s := Store.empty.run [.contribute enc a, .reportHit enc ⟨1, 2, none, none, 11⟩,
      .flag enc ⟨1, 2, none, 12, 1⟩, .softDelete 1 13]
    ∃ r, (s.contribute enc a).1.1 = some (.written r) ∧ r.hitCount = 1 ∧
      AsInserted enc a r := by
  intro enc a s
  have h_new : (s.contribute enc a).1.2 = true := by decide +kernel
  have h_hits : ((s.contribute enc a).1.1.map fun row =>
      match row with
      | .written r => r.hitCount
      | .existing _ _ => 0) = some 1 := by
    decide +kernel
  obtain ⟨-, h_created, -⟩ := contribute_meaning ⟨_, (rfl : s = _)⟩ enc a
  obtain ⟨r, h_r, h_row⟩ := h_created h_new
  rw [h_r] at h_hits
  exact ⟨r, h_r, Option.some.inj h_hits, h_row.asInserted⟩

end Store
end FingerprintHub
