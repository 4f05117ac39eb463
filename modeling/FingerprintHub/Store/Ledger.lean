import FingerprintHub.Store.Texts

/-!
# The texts that were supplied

A `Ledger` has for every row of the three tables the texts that were supplied for it. It is kept
from outside: from the arguments of each call, from what the call returned, and from what a run of
retention is to clear, and never from the text that a call stored (`Ledger.enter`).

The stored texts are those of the ledger (`Ledger.Covers`), read with a function `μ` that gives
back what was encrypted. Every call keeps them so (`Ledger.Covers.step`).
-/

namespace FingerprintHub

/-- The texts supplied for a row of `fingerprints` (its guild, its reason and its url), for one of
`fingerprint_hits`, and for one of `fingerprint_flags`. -/
structure Ledger where
  row : ℤ → List (Option String)
  hit : ℤ → Option String
  flag : ℤ × ℤ → Option String

/-- The texts of a contribution. -/
def ContributeArgs.texts (a : ContributeArgs) : List (Option String) :=
  [a.sourceGuildId, a.reason, a.sourceUrl]

namespace Ledger

/-- The ledger of a store as it is found: the texts in it, as `μ` reads them. -/
def ofStore (μ : String → String) (s : Store) : Ledger where
  row id := (s.row id).elim [] (fun r => r.texts.map (Option.map μ))
  hit k := (s.hits.get? k).elim none (fun h => h.guildId.map μ)
  flag k := (s.flags.get? k).elim none (fun f => f.reason.map μ)

/-- A call is entered that is made on a store. A contribution supplies the texts of the row that
it returns as written, a hit the text of the row that takes the next id, and a flag the text of
its own row, if there was none. Retention takes back the texts that it is to clear.

The store is looked at only for what the caller is told and for what retention goes by: the id
that was drawn, whether the consumer had a flag, and the `WHERE` of the clearing statements. No
stored text is. -/
def enter (s : Store) (l : Ledger) : Op → Ledger
  | .contribute enc a =>
    match (s.contribute enc a).1 with
    | (some (.written r), true) => { l with row := Function.update l.row r.id a.texts }
    -- a duplicate supplies nothing
    | _ => l
  | .reportHit enc a =>
    match (s.reportHit enc a).1 with
    | some _ => { l with hit := Function.update l.hit (s.lastHitId + 1) a.guildId }
    | none => l
  | .flag enc a =>
    match (s.flag enc a).1, s.flags.get? (a.fingerprintId, a.consumerId) with
    | some _, none =>
      { l with flag := Function.update l.flag (a.fingerprintId, a.consumerId) a.reason }
    -- nor does a flag of a consumer who has one
    | _, _ => l
  | .softDelete _ _ => l
  | .applyRetention p nowMs dryRun =>
    if p.Accepted ∧ dryRun = false then
      { l with
        -- anonymised rows and cleared flags have no text any more
        row := fun id =>
          if (s.row id).any (p.anonymizes nowMs) then [none, none, none] else l.row id
        flag := fun k =>
          if (s.flags.get? k).any (p.clearsReason nowMs) then none else l.flag k }
    else l

/-- The calls of a run are entered one after the other. -/
def enterAll (s : Store) (l : Ledger) : List Op → Ledger
  | [] => l
  | op :: ops => enterAll (op.apply s) (l.enter s op) ops

/-- Every stored text is the one that was supplied, as `μ` reads it, and what is `NULL` was
supplied as `NULL` or has been cleared. The ledger may say more than is stored: it keeps the texts
of rows that were purged. -/
structure Covers (μ : String → String) (l : Ledger) (s : Store) : Prop where
  row : ∀ id r, s.row id = some r → r.texts.map (Option.map μ) = l.row id
  hit : ∀ k h, s.hits.get? k = some h → h.guildId.map μ = l.hit k
  flag : ∀ k f, s.flags.get? k = some f → f.reason.map μ = l.flag k

end Ledger

/-- `μ` gives back what a call encrypts. -/
def Op.Inverted (μ : String → String) : Op → Prop
  | .contribute enc _ => ∀ i t, μ (enc i t) = t
  | .reportHit enc _ => ∀ i t, μ (enc i t) = t
  | .flag enc _ => ∀ i t, μ (enc i t) = t
  | .softDelete _ _ => True
  | .applyRetention _ _ _ => True

/-- The ids of the rows were drawn from their sequences, so that no row has the next one. This is
all of `Store.Wf` that a ledger needs. -/
structure Store.Drawn (s : Store) : Prop where
  id_le : ∀ id r, s.row id = some r → id ≤ s.lastId
  hit_le : ∀ k h, s.hits.get? k = some h → k ≤ s.lastHitId

namespace Store.Drawn

variable {s : Store}

/-- The next fingerprint is a new one, -/
theorem fresh (h : s.Drawn) : s.row (s.lastId + 1) = none := by
  cases h_row : s.row (s.lastId + 1) with
  | none => rfl
  | some r => exact absurd (h.id_le _ r h_row) (by omega)

/-- and so is the next hit. -/
theorem fresh_hit (h : s.Drawn) : s.hits.get? (s.lastHitId + 1) = none := by
  cases h_hit : s.hits.get? (s.lastHitId + 1) with
  | none => rfl
  | some r => exact absurd (h.hit_le _ r h_hit) (by omega)

/-- A call draws its ids. -/
theorem step (h : s.Drawn) (op : Op) : (op.apply s).Drawn where
  id_le := by
    intro id r' h_row'
    have h_step := Op.rowStep h.fresh op id
    rw [h_row'] at h_step
    have h_last := (op.sequences_le s).2.1
    generalize h_o : s.row id = o at h_step
    rcases h_step.owned_cases with ⟨r, rfl, -⟩ | ⟨rfl, h_id, -⟩
    · exact (h.id_le id r h_o).trans h_last
    · -- a row that appears took the next id
      cases h_step with
      | insert h_free h_seq =>
        rcases s.contribute_cases _ _ with ⟨r, hf, -, -⟩ | ⟨r, hf, -, -⟩ | ⟨-, h'⟩
        · rw [h_free] at hf; exact absurd hf (by simp)
        · rw [h_free] at hf; exact absurd hf (by simp)
        · rw [Op.apply, h']; exact le_refl _
  hit_le := by
    intro k hit h_get
    have h_last := (op.sequences_le s).2.2
    rcases Op.hits_cases h_get with h_get₀ | ⟨enc, a, r, rfl, -, rfl, h_row, h_live⟩
    · exact (h.hit_le k hit h_get₀).trans h_last
    · rcases s.reportHit_cases enc a with ⟨h_gone, -⟩ | ⟨_, -, -, h'⟩
      · exact absurd (h_gone r h_row) h_live
      · rw [Op.apply, h']
        exact le_refl _

end Store.Drawn

namespace Ledger.Covers

variable {μ : String → String} {l : Ledger} {s : Store}

/-- The ledger of a store as it is found covers it. -/
theorem ofStore (μ : String → String) (s : Store) : (Ledger.ofStore μ s).Covers μ s where
  row id r h := by simp only [Ledger.ofStore, h, Option.elim_some]
  hit k h' h := by simp only [Ledger.ofStore, h, Option.elim_some]
  flag k f h := by simp only [Ledger.ofStore, h, Option.elim_some]

/-- The ledger covers what a store has kept of it. -/
theorem mono {s' : Store} (h : l.Covers μ s)
    (h_row : ∀ id r', s'.row id = some r' → ∃ r, s.row id = some r ∧ r'.texts = r.texts)
    (h_hit : ∀ k h', s'.hits.get? k = some h' → s.hits.get? k = some h')
    (h_flag : ∀ k f, s'.flags.get? k = some f → s.flags.get? k = some f) : l.Covers μ s' where
  row id r' h_r' := by
    obtain ⟨r, h_r, h_texts⟩ := h_row id r' h_r'
    rw [h_texts]
    exact h.row id r h_r
  hit k h' h_k := h.hit k h' (h_hit k h' h_k)
  flag k f h_k := h.flag k f (h_flag k f h_k)

/-- An `UPDATE` of other columns leaves the texts of every row. -/
theorem texts_updateRow {id : ℤ} {set : Fingerprint → Fingerprint} {h : ∀ r, (set r).id = r.id}
    {id' : ℤ} {r' : Fingerprint} (h_r' : (s.updateRow id set h).row id' = some r')
    (h_set : ∀ r, (set r).texts = r.texts) : ∃ r, s.row id' = some r ∧ r'.texts = r.texts := by
  rw [Store.row_updateRow] at h_r'
  split at h_r'
  · next h_id =>
    obtain ⟨r, h_r, rfl⟩ := Option.map_eq_some_iff.mp h_r'
    exact ⟨r, h_id ▸ h_r, h_set r⟩
  · exact ⟨r', h_r', rfl⟩

/-- What is encrypted is read again, and `NULL` stays `NULL`. -/
theorem map_encryptText {enc : EncryptText} (h_enc : ∀ i t, μ (enc i t) = t) (i : ℕ)
    (o : Option String) : (encryptText enc i o).map μ = o := by
  unfold encryptText
  rw [Option.map_map]
  cases o with
  | none => rfl
  | some t => exact congrArg some (h_enc i t)

/-- A contribution stores the texts that are entered for it, under the id it returns. -/
theorem contribute (h : l.Covers μ s) (h_drawn : s.Drawn) {enc : EncryptText}
    {a : ContributeArgs} (h_enc : ∀ i t, μ (enc i t) = t) :
    (l.enter s (.contribute enc a)).Covers μ (s.contribute enc a).2 := by
  rcases s.contribute_cases enc a with ⟨r, -, -, h_eq⟩ | ⟨r, -, -, h_eq⟩ | ⟨-, h_eq⟩
  · -- refused: nothing is entered, and nothing stored
    simp only [Ledger.enter, h_eq]
    exact h
  · simp only [Ledger.enter, h_eq]
    exact {
      -- the row of the tombstone has the new texts, and every other row its own
      row := by
        intro id r' h_r'
        rw [Store.row_updateRow] at h_r'
        split at h_r'
        · next h_id =>
          obtain ⟨r₀, -, rfl⟩ := Option.map_eq_some_iff.mp h_r'
          show _ = Function.update l.row r.id a.texts id
          rw [h_id, Function.update_self]
          simp only [Fingerprint.texts, resurrectRow, List.map_cons, List.map_nil,
            map_encryptText h_enc]
          rfl
        · next h_id =>
          exact (h.row id r' h_r').trans (Function.update_of_ne h_id _ _).symm
      hit := h.hit
      flag := by
        intro k f h_k
        -- the flags of the former life are gone, and the others stay
        change (s.flags.delete _).get? k = some f at h_k
        rw [Table.get?_delete, Option.filter_eq_some_iff] at h_k
        exact h.flag k f h_k.1 }
  · simp only [Ledger.enter, h_eq]
    exact {
      row := by
        intro id r' h_r'
        -- the row under the new id
        rw [Store.row_inserted enc a h_drawn.fresh] at h_r'
        split at h_r'
        · next h_id =>
          obtain rfl := Option.some.inj h_r'
          show _ = Function.update l.row (s.lastId + 1) a.texts id
          rw [← h_id, Function.update_self]
          simp only [Fingerprint.texts, freshRow, List.map_cons, List.map_nil,
            map_encryptText h_enc]
          rfl
        · next h_id =>
          exact (h.row id r' h_r').trans (Function.update_of_ne (Ne.symm h_id) _ _).symm
      hit := h.hit
      flag := h.flag }

/-- A hit stores the guild that is entered for it, under the next hit id. -/
theorem reportHit (h : l.Covers μ s) (h_drawn : s.Drawn) {enc : EncryptText} {a : HitArgs}
    (h_enc : ∀ i t, μ (enc i t) = t) :
    (l.enter s (.reportHit enc a)).Covers μ (s.reportHit enc a).2 := by
  rcases s.reportHit_cases enc a with ⟨-, h_eq⟩ | ⟨r, h_r, -, h_eq⟩
  · simp only [Ledger.enter, h_eq]
    exact h
  · simp only [Ledger.enter, h_eq]
    exact {
      row := by
        intro id r' h_r'
        -- the row that is hit keeps its texts
        obtain ⟨r₀, h_r₀, h_texts⟩ := texts_updateRow h_r' (fun _ => rfl)
        rw [h_texts]
        exact h.row id r₀ h_r₀
      hit := by
        intro k h' h_k
        -- the new hit, or an older one
        change (s.hits.insert (a.hit enc (s.lastHitId + 1))).get? k = some h' at h_k
        rw [Table.get?_insert_of_none h_drawn.fresh_hit] at h_k
        split at h_k
        · next h_id =>
          obtain rfl := Option.some.inj h_k
          change s.lastHitId + 1 = k at h_id
          show _ = Function.update l.hit (s.lastHitId + 1) a.guildId k
          rw [← h_id, Function.update_self]
          exact map_encryptText h_enc 0 a.guildId
        · next h_id =>
          exact (h.hit k h' h_k).trans (Function.update_of_ne (Ne.symm h_id) _ _).symm
      flag := h.flag }

/-- A flag of a consumer who has one already is not recorded. -/
theorem recordFlag (h : l.Covers μ s) {enc : EncryptText} {a : FlagArgs}
    (h_enc : ∀ i t, μ (enc i t) = t) {k : ℤ × ℤ} {f : Flag}
    (h_k : (s.recordFlag enc a).flags.get? k = some f) :
    f.reason.map μ = (match s.flags.get? (a.fingerprintId, a.consumerId) with
      | none => Function.update l.flag (a.fingerprintId, a.consumerId) a.reason
      | some _ => l.flag) k := by
  change (s.flags.insert (a.flag enc (s.lastFlagId + 1))).get? k = some f at h_k
  rw [Table.get?_insert] at h_k
  split at h_k
  · -- the flag is new, and so is its entry
    next h_new =>
    obtain rfl := Option.some.inj h_k
    obtain ⟨rfl, h_none⟩ := h_new
    change s.flags.get? (a.fingerprintId, a.consumerId) = none at h_none
    rw [h_none]
    show _ = Function.update l.flag (a.fingerprintId, a.consumerId) a.reason
      (a.fingerprintId, a.consumerId)
    rw [Function.update_self]
    exact map_encryptText h_enc 0 a.reason
  · next h_old =>
    have h_before := h.flag k f h_k
    cases h_own : s.flags.get? (a.fingerprintId, a.consumerId) with
    | some f₀ => exact h_before
    | none =>
      -- an entry is made where there was no flag, so not for this one
      have h_ne : k ≠ (a.fingerprintId, a.consumerId) := by
        rintro rfl
        exact absurd (h_own.symm.trans h_k) (by simp)
      exact h_before.trans (Function.update_of_ne h_ne _ _).symm

/-- A flag stores the reason that is entered for it, whether the row is hidden by it or not. -/
theorem flagged (h : l.Covers μ s) {enc : EncryptText} {a : FlagArgs}
    (h_enc : ∀ i t, μ (enc i t) = t) : (l.enter s (.flag enc a)).Covers μ (s.flag enc a).2 := by
  -- both branches record the flag and update the row; neither touches its texts
  have h_recorded : ∀ result : FlagResult, (s.flag enc a).1 = some result →
      ∀ s' : Store, (∀ id r', s'.row id = some r' → ∃ r, s.row id = some r ∧ r'.texts = r.texts) →
        s'.hits = s.hits → s'.flags = (s.recordFlag enc a).flags →
          (l.enter s (.flag enc a)).Covers μ s' := by
    intro result h_result s' h_row h_hits h_flags
    have h_enter : l.enter s (.flag enc a) =
        { l with flag := match s.flags.get? (a.fingerprintId, a.consumerId) with
          | none => Function.update l.flag (a.fingerprintId, a.consumerId) a.reason
          | some _ => l.flag } := by
      simp only [Ledger.enter, h_result]
      cases s.flags.get? (a.fingerprintId, a.consumerId) with
      | none => rfl
      | some f => rfl
    rw [h_enter]
    exact {
      row := by
        intro id r' h_r'
        obtain ⟨r, h_r, h_texts⟩ := h_row id r' h_r'
        rw [h_texts]
        exact h.row id r h_r
      hit := fun k h' h_k => h.hit k h' (h_hits ▸ h_k)
      flag := fun k f h_k => h.recordFlag h_enc (h_flags ▸ h_k) }
  rcases s.flag_cases enc a with ⟨-, h_eq⟩ | ⟨r, -, -, -, h_eq⟩ | ⟨r, -, -, -, h_eq⟩
  · -- a row that is gone is not flagged
    simp only [Ledger.enter, h_eq]
    exact h
  · refine h_recorded _ (congrArg Prod.fst h_eq) _ (fun id r' h_r' => ?_) ?_ ?_
    · rw [h_eq] at h_r'
      exact texts_updateRow h_r' (fun _ => rfl)
    · rw [h_eq]
      rfl
    · rw [h_eq]
      rfl
  · refine h_recorded _ (congrArg Prod.fst h_eq) _ (fun id r' h_r' => ?_) ?_ ?_
    · rw [h_eq] at h_r'
      exact texts_updateRow h_r' (fun _ => rfl)
    · rw [h_eq]
      rfl
    · rw [h_eq]
      rfl

/-- A deletion enters nothing, and changes no text. -/
theorem softDelete (h : l.Covers μ s) (id nowMs : ℤ) : l.Covers μ (s.softDelete id nowMs).2 := by
  rcases s.softDelete_cases id nowMs with ⟨-, h_eq⟩ | ⟨r, -, -, h_eq⟩
  · rw [h_eq]
    exact h
  · rw [h_eq]
    exact h.mono (fun _ _ h_r' => texts_updateRow h_r' (fun _ => rfl)) (fun _ _ h_k => h_k)
      (fun _ _ h_k => h_k)

/-- Retention clears what is taken back. -/
theorem applyRetention (h : l.Covers μ s) (p : RetentionPolicy) (nowMs : ℤ) (dryRun : Bool) :
    (l.enter s (.applyRetention p nowMs dryRun)).Covers μ (s.applyRetention p nowMs dryRun).2 := by
  rcases s.applyRetention_cases p nowMs dryRun with ⟨h_not, -, h_eq⟩ | ⟨h_accepted, h_eq⟩
  · -- refused
    simp only [Ledger.enter, h_not, false_and, if_false]
    rw [h_eq]
    exact h
  · rw [h_eq]
    cases dryRun with
    | true =>
      simp only [Ledger.enter, Bool.true_eq_false, and_false, if_false]
      exact h
    | false =>
      simp only [Ledger.enter, h_accepted, and_self, if_true, Bool.false_eq_true, if_false]
      exact {
        -- a surviving row is anonymised, or keeps its texts
        row := by
          intro id r' h_r'
          rw [Store.row_retain, Option.map_eq_some_iff] at h_r'
          obtain ⟨r, h_r, rfl⟩ := h_r'
          rw [Option.filter_eq_some_iff] at h_r
          show _ = if (s.row id).any (p.anonymizes nowMs) then _ else _
          rw [h_r.1, Option.any_some]
          split
          · rfl
          · exact h.row id r h_r.1
        hit := by
          intro k h' h_k
          rw [Store.hits_retain, Option.filter_eq_some_iff] at h_k
          exact h.hit k h' h_k.1
        -- a surviving flag loses its reason, or keeps it
        flag := by
          intro k f h_k
          rw [Store.flags_retain, Option.filter_eq_some_iff, Option.map_eq_some_iff] at h_k
          obtain ⟨⟨f₀, h_f₀, rfl⟩, -⟩ := h_k
          show _ = if (s.flags.get? k).any (p.clearsReason nowMs) then _ else _
          rw [h_f₀, Option.any_some]
          split
          · rfl
          · exact h.flag k f₀ h_f₀ }

/-- **A call stores what is entered for it**, and leaves what was entered before. -/
theorem step (h : l.Covers μ s) (h_drawn : s.Drawn) {op : Op} (h_op : op.Inverted μ) :
    (l.enter s op).Covers μ (op.apply s) := by
  cases op with
  | contribute enc a => exact h.contribute h_drawn h_op
  | reportHit enc a => exact h.reportHit h_drawn h_op
  | flag enc a => exact h.flagged h_op
  | softDelete id nowMs => exact h.softDelete id nowMs
  | applyRetention p nowMs dryRun => exact h.applyRetention p nowMs dryRun

/-- **A run stores what is entered for its calls.** -/
theorem run (h : l.Covers μ s) (h_drawn : s.Drawn) {ops : List Op}
    (h_ops : ∀ op ∈ ops, op.Inverted μ) : (l.enterAll s ops).Covers μ (s.run ops) := by
  induction ops generalizing l s with
  | nil => exact h
  | cons op ops ih =>
    exact ih (h.step h_drawn (h_ops op List.mem_cons_self)) (h_drawn.step op)
      (fun op' h_op' => h_ops op' (List.mem_cons_of_mem _ h_op'))

end Ledger.Covers

end FingerprintHub
