import FingerprintHub.Api.Handlers
import FingerprintHub.Library.Rewrite
import FingerprintHub.Store.Ledger

/-!
# `alembic/versions/0002_privacy_hardening.py`

The migration encrypts the texts of five columns in place, and its downgrade decrypts
them. Each of the five rewrites is the loop of `_rewrite_column`, with one function that
decides for a value whether it is skipped and what it becomes otherwise.

A stored value is an authentic envelope, or it is plaintext, also when it begins with the
prefix of an envelope. Its `meaning` is the decryption in the first case and the value
itself in the second. `upgrade` leaves the meanings as they are and makes every value an
authentic envelope. `downgrade` replaces every value by its meaning.

The migration runs in one transaction, so one that raises leaves the database as it was.
-/

namespace FingerprintHub
namespace FieldEncryption

open Api (encryptWith)

/-! ### The columns -/

/-- `fingerprints.source_guild_id`. -/
def sourceGuildIdColumn : Column Fingerprint.id ℤ String where
  rowId := Fingerprint.id
  get := Fingerprint.sourceGuildId
  set := fun v r => { r with sourceGuildId := v }
  key_set := fun _ _ => rfl
  rowId_set := fun _ _ => rfl
  set_get := fun _ => rfl

/-- `fingerprints.reason`. -/
def reasonColumn : Column Fingerprint.id ℤ String where
  rowId := Fingerprint.id
  get := Fingerprint.reason
  set := fun v r => { r with reason := v }
  key_set := fun _ _ => rfl
  rowId_set := fun _ _ => rfl
  set_get := fun _ => rfl

/-- `fingerprints.source_url`. -/
def sourceUrlColumn : Column Fingerprint.id ℤ String where
  rowId := Fingerprint.id
  get := Fingerprint.sourceUrl
  set := fun v r => { r with sourceUrl := v }
  key_set := fun _ _ => rfl
  rowId_set := fun _ _ => rfl
  set_get := fun _ => rfl

/-- `fingerprint_hits.guild_id`. -/
def guildIdColumn : Column Hit.id ℤ String where
  rowId := Hit.id
  get := Hit.guildId
  set := fun v h => { h with guildId := v }
  key_set := fun _ _ => rfl
  rowId_set := fun _ _ => rfl
  set_get := fun _ => rfl

/-- `fingerprint_flags.reason`. -/
def flagReasonColumn : Column Flag.key ℤ String where
  rowId := Flag.id
  get := Flag.reason
  set := fun v f => { f with reason := v }
  key_set := fun _ _ => rfl
  rowId_set := fun _ _ => rfl
  set_get := fun _ => rfl

/-! ### The migration -/

/-- What a migration may raise: the `UnicodeDecodeError` of `decrypt_text`, or the
`DataError` of an `UPDATE` with a text that holds `U+0000`. -/
inductive MigrationError where
  | unicodeDecode
  | nul
  deriving DecidableEq, Repr

/-- A text that a column can hold: Postgres refuses `U+0000` in a `TEXT`. -/
def storable (text : String) : Bool := Char.ofNat 0 ∉ text.toList

/-- A round of `_rewrite_column` with `encrypt=True`, where `nonce` is the one a call of
`encrypt_text` draws: what the value becomes, and `none` where it is skipped. -/
def upgradeValue (gcm : AesGcm) (ring : Keyring) (nonce : Nonce) (value : String) :
    Except MigrationError (Option String) :=
  if isEncryptedValue value then
    match decryptText gcm ring value with
    | .ok _ => .ok none
    -- plaintext that begins with the prefix of an envelope
    | .error (.field _) => .ok (some (encryptText gcm ring nonce value))
    | .error .unicodeDecode => .error .unicodeDecode
  else .ok (some (encryptText gcm ring nonce value))

/-- A round of `_rewrite_column` with `encrypt=False`. What does not begin as an envelope is
skipped, and so is what cannot be decrypted; an envelope becomes the text in it. -/
def downgradeValue (gcm : AesGcm) (ring : Keyring) (value : String) :
    Except MigrationError (Option String) :=
  if !isEncryptedValue value then .ok none
  else
    match decryptText gcm ring value with
    | .ok text => if storable text then .ok (some text) else .error .nul
    | .error (.field _) => .ok none
    | .error .unicodeDecode => .error .unicodeDecode

/-- The five calls of `_rewrite_column`, where `f i id` is the round of the `i`-th for the row
`id`. The first that raises ends the migration, and with it the transaction. -/
def rewriteColumns (f : ℕ → ℤ → String → Except MigrationError (Option String)) (s : Store) :
    Except MigrationError Store := do
  let fingerprints ← sourceGuildIdColumn.rewrite (f 0) s.fingerprints
  let fingerprints ← reasonColumn.rewrite (f 1) fingerprints
  let fingerprints ← sourceUrlColumn.rewrite (f 2) fingerprints
  let hits ← guildIdColumn.rewrite (f 3) s.hits
  let flags ← flagReasonColumn.rewrite (f 4) s.flags
  return { s with fingerprints := fingerprints, hits := hits, flags := flags }

/-- `upgrade`, where `nonces i id` is the nonce drawn for the row `id` in the `i`-th
rewrite. -/
def upgrade (gcm : AesGcm) (ring : Keyring) (nonces : ℕ → ℤ → Nonce) :
    Store → Except MigrationError Store :=
  rewriteColumns (fun i id => upgradeValue gcm ring (nonces i id))

/-- `downgrade`. -/
def downgrade (gcm : AesGcm) (ring : Keyring) : Store → Except MigrationError Store :=
  rewriteColumns (fun _ _ => downgradeValue gcm ring)

/-! ### The rewrites at once -/

section Rewrites

variable {f : ℕ → ℤ → String → Except MigrationError (Option String)} {s : Store}

/-- What the five values of a store become. -/
def settled (f : ℕ → ℤ → String → Except MigrationError (Option String)) (i : ℕ) :
    ℤ → String → String :=
  Column.settled (f i)

/-- The three rewrites of a row of `fingerprints` are one change of its three texts. -/
theorem fingerprint_rewritten (r : Fingerprint) :
    sourceUrlColumn.rewritten (f 2) (reasonColumn.rewritten (f 1)
      (sourceGuildIdColumn.rewritten (f 0) r)) = r.mapEach (settled f) := by
  rw [Column.rewritten_eq, Column.rewritten_eq, Column.rewritten_eq]
  rfl

theorem hit_rewritten (h : Hit) : guildIdColumn.rewritten (f 3) h = h.mapEach (settled f) :=
  guildIdColumn.rewritten_eq (f 3) h

theorem flag_rewritten (r : Flag) : flagReasonColumn.rewritten (f 4) r = r.mapEach (settled f) :=
  flagReasonColumn.rewritten_eq (f 4) r

/-- **The five rewrites at once.** Where no round raises on a stored value, the migration replaces
every value by what its round makes of it. The rewrites of `fingerprints` come one after the
other, but each looks at its own column only, so that it finds what was there at the start. -/
theorem rewriteColumns_eq (h_ids : (s.flags.rows.map Flag.id).Nodup)
    (h_ok : s.AllTexts (fun v => ∀ i id, ∃ o, f i id v = .ok o)) :
    rewriteColumns f s = .ok (s.mapEach (settled f)) := by
  have h_text : ∀ r ∈ s.fingerprints.rows, ∀ o ∈ r.texts, ∀ i v, o = some v →
      ∃ o', f i r.id v = .ok o' :=
    fun r h_r o h_o i v h_v => h_ok v (.fingerprint h_r (h_v ▸ h_o)) i r.id
  -- a rewrite of `fingerprints` finds the values that were there before the migration
  have h_guild := sourceGuildIdColumn.rewrite_eq (f 0) s.fingerprints.nodup
    (fun r h_r v h_v => h_text r h_r r.sourceGuildId (by simp [Fingerprint.texts]) 0 v h_v)
  have h_reason := reasonColumn.rewrite_eq (f 1)
    (t := s.fingerprints.map _ (sourceGuildIdColumn.key_rewritten (f 0))) (Table.nodup _) (by
      intro r' h_r' v h_v
      obtain ⟨r, h_r, rfl⟩ := List.mem_map.mp h_r'
      rw [sourceGuildIdColumn.rewritten_eq] at h_v ⊢
      exact h_text r h_r r.reason (by simp [Fingerprint.texts]) 1 v h_v)
  have h_url := sourceUrlColumn.rewrite_eq (f 2)
    (t := (s.fingerprints.map _ (sourceGuildIdColumn.key_rewritten (f 0))).map _
      (reasonColumn.key_rewritten (f 1))) (Table.nodup _) (by
      intro r'' h_r'' v h_v
      obtain ⟨r', h_r', rfl⟩ := List.mem_map.mp h_r''
      obtain ⟨r, h_r, rfl⟩ := List.mem_map.mp h_r'
      rw [reasonColumn.rewritten_eq, sourceGuildIdColumn.rewritten_eq] at h_v ⊢
      exact h_text r h_r r.sourceUrl (by simp [Fingerprint.texts]) 2 v h_v)
  have h_hits := guildIdColumn.rewrite_eq (f 3) s.hits.nodup
    (fun h h_h v h_v => h_ok v (.hit h_h h_v) 3 h.id)
  have h_flags := flagReasonColumn.rewrite_eq (f 4) h_ids
    (fun r h_r v h_v => h_ok v (.flag h_r h_v) 4 r.id)
  -- one rewrite after the other, each as it was computed above
  unfold rewriteColumns
  rw [h_guild]
  show (do
    let fingerprints ← reasonColumn.rewrite (f 1) _
    let fingerprints ← sourceUrlColumn.rewrite (f 2) fingerprints
    let hits ← guildIdColumn.rewrite (f 3) s.hits
    let flags ← flagReasonColumn.rewrite (f 4) s.flags
    return { s with fingerprints := fingerprints, hits := hits, flags := flags }) = _
  rw [h_reason]
  show (do
    let fingerprints ← sourceUrlColumn.rewrite (f 2) _
    let hits ← guildIdColumn.rewrite (f 3) s.hits
    let flags ← flagReasonColumn.rewrite (f 4) s.flags
    return { s with fingerprints := fingerprints, hits := hits, flags := flags }) = _
  rw [h_url, h_hits, h_flags]
  refine congrArg Except.ok (Store.ext ?_ ?_ ?_ rfl rfl rfl rfl)
  · rw [Table.map_map, Table.map_map]
    exact Table.ext (List.map_congr_left (fun r _ => fingerprint_rewritten r))
  · exact Table.ext (List.map_congr_left (fun h _ => hit_rewritten h))
  · exact Table.ext (List.map_congr_left (fun r _ => flag_rewritten r))

/-- Where the rewrites do not raise, no stored value made them raise. This is the converse of
`rewriteColumns_eq`, and what shows that a downgrade fails. -/
theorem ok_of_rewriteColumns (h_ids : (s.flags.rows.map Flag.id).Nodup) {s' : Store}
    (h : rewriteColumns f s = .ok s') : s.AllTexts (fun v => ∃ i id o, f i id v = .ok o) := by
  -- the five rewrites are taken apart: each went through all rows of its table
  obtain ⟨t₁, h_guild, h⟩ := exists_of_bind_eq_ok h
  obtain ⟨rfl, h_ok₁⟩ := sourceGuildIdColumn.eq_of_rewrite (f 0) s.fingerprints.nodup h_guild
  obtain ⟨t₂, h_reason, h⟩ := exists_of_bind_eq_ok h
  obtain ⟨rfl, h_ok₂⟩ := reasonColumn.eq_of_rewrite (f 1) (Table.nodup _) h_reason
  obtain ⟨t₃, h_url, h⟩ := exists_of_bind_eq_ok h
  obtain ⟨-, h_ok₃⟩ := sourceUrlColumn.eq_of_rewrite (f 2) (Table.nodup _) h_url
  obtain ⟨t₄, h_hits, h⟩ := exists_of_bind_eq_ok h
  obtain ⟨-, h_ok₄⟩ := guildIdColumn.eq_of_rewrite (f 3) s.hits.nodup h_hits
  obtain ⟨t₅, h_flags, -⟩ := exists_of_bind_eq_ok h
  obtain ⟨-, h_ok₅⟩ := flagReasonColumn.eq_of_rewrite (f 4) h_ids h_flags
  intro v h_v
  -- the value stands in one of the columns, and the rewrite of that column met it
  cases h_v with
  | @fingerprint r h_r h_text =>
    simp only [Fingerprint.texts, List.mem_cons, List.not_mem_nil, or_false] at h_text
    rcases h_text with h_v | h_v | h_v
    · exact ⟨0, r.id, h_ok₁ r h_r v h_v.symm⟩
    · have h_get : reasonColumn.get (sourceGuildIdColumn.rewritten (f 0) r) = some v := by
        rw [Column.rewritten_eq]
        exact h_v.symm
      exact ⟨1, _, h_ok₂ _ (List.mem_map_of_mem h_r) v h_get⟩
    · have h_get : sourceUrlColumn.get (reasonColumn.rewritten (f 1)
          (sourceGuildIdColumn.rewritten (f 0) r)) = some v := by
        rw [Column.rewritten_eq, Column.rewritten_eq]
        exact h_v.symm
      exact ⟨2, _, h_ok₃ _ (List.mem_map_of_mem (List.mem_map_of_mem h_r)) v h_get⟩
  | @hit h' h_row h_text => exact ⟨3, h'.id, h_ok₄ h' h_row v h_text⟩
  | @flag r h_row h_text => exact ⟨4, r.id, h_ok₅ r h_row v h_text⟩

end Rewrites

/-! ### Meanings -/

section Meanings

variable (gcm : AesGcm) (ring : Keyring)

/-- `decrypt_text` does not raise a `FieldDecryptionError`: the value is an envelope, its key is
configured, and its ciphertext is authentic. -/
def Authenticates (v : String) : Prop := ∀ e, decryptText gcm ring v ≠ .error (.field e)

/-- An envelope that `encrypt_text` made under a key of the ring. That only such values
authenticate is what the AEAD is for; where a result needs it, it is a hypothesis on what is
stored before the migration. -/
def Made (v : String) : Prop :=
  ∃ id key nonce plaintext, ring.get id.text = some key ∧ v = envelope gcm id key nonce plaintext

/-- `decrypt_text` opens the value: it returns a text. -/
def Opens (v : String) : Prop := ∃ plaintext, decryptText gcm ring v = .ok plaintext

/-- What a stored value stands for: the text in it if it is an authentic envelope, and
itself otherwise. -/
def meaning (v : String) : String :=
  match decryptText gcm ring v with
  | .ok plaintext => plaintext
  | .error _ => v

variable {gcm ring} {v : String}

theorem meaning_of_ok {plaintext : String} (h : decryptText gcm ring v = .ok plaintext) :
    meaning gcm ring v = plaintext := by
  rw [meaning, h]

theorem meaning_of_error {e : DecryptError} (h : decryptText gcm ring v = .error e) :
    meaning gcm ring v = v := by
  rw [meaning, h]

/-- The ring opens what it encrypts. -/
theorem decryptText_encryptText (nonce : Nonce) (plaintext : String) :
    decryptText gcm ring (encryptText gcm ring nonce plaintext) = .ok plaintext :=
  decryptText_envelope gcm ring.get_active nonce plaintext

/-- Where only envelopes of `encrypt_text` authenticate, a value is opened or is plaintext. The
`UnicodeDecodeError` is excluded by it: what was encrypted was a text. -/
theorem opens_or_plain (h_made : Authenticates gcm ring v → Made gcm ring v) :
    Opens gcm ring v ∨ ∃ e, decryptText gcm ring v = .error (.field e) := by
  by_cases h : Authenticates gcm ring v
  · obtain ⟨id, key, nonce, plaintext, h_get, rfl⟩ := h_made h
    exact Or.inl ⟨plaintext, decryptText_envelope gcm h_get nonce plaintext⟩
  · simp only [Authenticates, not_forall, not_not] at h
    exact Or.inr h

/-- What is opened begins with the prefix of an envelope. -/
theorem isEncryptedValue_of_ok {plaintext : String} (h : decryptText gcm ring v = .ok plaintext) :
    isEncryptedValue v = true := by
  by_contra h_not
  rw [Bool.not_eq_true] at h_not
  rw [decryptText, h_not] at h
  exact absurd h (by simp)

/-- The upgrade skips what is opened, -/
theorem upgradeValue_of_ok (nonce : Nonce) {plaintext : String}
    (h : decryptText gcm ring v = .ok plaintext) :
    upgradeValue gcm ring nonce v = .ok none := by
  rw [upgradeValue, if_pos (isEncryptedValue_of_ok h), h]

/-- and encrypts what is plaintext, with or without the prefix. -/
theorem upgradeValue_of_field (nonce : Nonce) {e : FieldDecryptionError}
    (h : decryptText gcm ring v = .error (.field e)) :
    upgradeValue gcm ring nonce v = .ok (some (encryptText gcm ring nonce v)) := by
  unfold upgradeValue
  split
  · rw [h]
  · rfl

/-- The downgrade replaces what is opened, if a column can hold the text. -/
theorem downgradeValue_of_ok {plaintext : String} (h : decryptText gcm ring v = .ok plaintext) :
    downgradeValue gcm ring v
      = if storable plaintext then .ok (some plaintext) else .error .nul := by
  rw [downgradeValue, isEncryptedValue_of_ok h, h]
  rfl

end Meanings

/-! ### Upgrade and downgrade -/

section Migrations

variable {gcm : AesGcm} {ring : Keyring} {nonces : ℕ → ℤ → Nonce} {s : Store}

variable (gcm ring nonces) in
/-- What the upgrade makes of a value. -/
def upgraded : ℕ → ℤ → String → String :=
  settled (fun i id => upgradeValue gcm ring (nonces i id))

/-- The upgrade skips what the ring opens. -/
theorem upgraded_of_opens {v : String} (h : Opens gcm ring v) (i : ℕ) (id : ℤ) :
    upgraded gcm ring nonces i id v = v := by
  obtain ⟨plaintext, h⟩ := h
  show Column.settled (fun id => upgradeValue gcm ring (nonces i id)) id v = v
  rw [Column.settled, upgradeValue_of_ok _ h]

/-- The ring opens what the upgrade makes of a value, with the meaning it had. -/
theorem decryptText_upgraded {v : String} (h_made : Authenticates gcm ring v → Made gcm ring v)
    (i : ℕ) (id : ℤ) :
    decryptText gcm ring (upgraded gcm ring nonces i id v) = .ok (meaning gcm ring v) := by
  -- an envelope is kept, and plaintext becomes an envelope of itself
  rcases opens_or_plain h_made with ⟨plaintext, h⟩ | ⟨e, h⟩
  · rw [upgraded_of_opens ⟨plaintext, h⟩, meaning_of_ok h, h]
  · have h_upgraded : upgraded gcm ring nonces i id v = encryptText gcm ring (nonces i id) v := by
      show Column.settled (fun id => upgradeValue gcm ring (nonces i id)) id v = _
      rw [Column.settled, upgradeValue_of_field _ h]
    rw [h_upgraded, meaning_of_error h]
    exact decryptText_encryptText (nonces i id) v

/-- **The upgrade does not raise**, and makes of every value what its round does. -/
theorem upgrade_eq (h_ids : (s.flags.rows.map Flag.id).Nodup)
    (h_made : s.AllTexts (fun v => Authenticates gcm ring v → Made gcm ring v)) :
    upgrade gcm ring nonces s = .ok (s.mapEach (upgraded gcm ring nonces)) := by
  refine rewriteColumns_eq h_ids (fun v h_v i id => ?_)
  rcases opens_or_plain (h_made v h_v) with ⟨plaintext, h⟩ | ⟨e, h⟩
  · exact ⟨none, upgradeValue_of_ok _ h⟩
  · exact ⟨_, upgradeValue_of_field _ h⟩

/-- A downgrade of opened values makes every value its meaning, if a column can hold it. -/
theorem downgrade_eq (h_ids : (s.flags.rows.map Flag.id).Nodup)
    (h_opens : s.AllTexts (Opens gcm ring))
    (h_storable : s.AllTexts (fun v => storable (meaning gcm ring v) = true)) :
    downgrade gcm ring s = .ok (s.mapTexts (meaning gcm ring)) := by
  have h_value : s.AllTexts
      (fun v => downgradeValue gcm ring v = .ok (some (meaning gcm ring v))) := by
    intro v h_v
    obtain ⟨plaintext, h⟩ := h_opens v h_v
    have h_text : storable (meaning gcm ring v) = true := h_storable v h_v
    rw [meaning_of_ok h] at h_text ⊢
    rw [downgradeValue_of_ok h, if_pos h_text]
  calc downgrade gcm ring s
      = .ok (s.mapEach (settled (fun _ _ => downgradeValue gcm ring))) :=
        rewriteColumns_eq h_ids (fun v h_v _ _ => ⟨_, h_value v h_v⟩)
    _ = .ok (s.mapTexts (meaning gcm ring)) := by
        refine congrArg Except.ok (Store.mapEach_congr (fun v h_v i id => ?_))
        show Column.settled (fun _ => downgradeValue gcm ring) id v = meaning gcm ring v
        rw [Column.settled, h_value v h_v]

/-- A downgrade raises on an envelope of a text that no column can hold. Such a text can be
encrypted, but not stored as it is. -/
theorem downgrade_error (h_ids : (s.flags.rows.map Flag.id).Nodup) {v : String}
    (h_v : s.HasText v) (h_opens : Opens gcm ring v)
    (h_not : storable (meaning gcm ring v) = false) : ∃ e, downgrade gcm ring s = .error e := by
  cases h : downgrade gcm ring s with
  | error e => exact ⟨e, rfl⟩
  | ok s' =>
    obtain ⟨-, -, o, h_o⟩ := ok_of_rewriteColumns h_ids h v h_v
    obtain ⟨plaintext, h_ok⟩ := h_opens
    rw [meaning_of_ok h_ok] at h_not
    rw [downgradeValue_of_ok h_ok, h_not] at h_o
    exact absurd h_o (by simp)

/-- The upgrade leaves the flags their ids. -/
theorem flag_ids_mapEach (h_ids : (s.flags.rows.map Flag.id).Nodup)
    (g : ℕ → ℤ → String → String) : ((s.mapEach g).flags.rows.map Flag.id).Nodup := by
  have h_same : (s.mapEach g).flags.rows.map Flag.id = s.flags.rows.map Flag.id := by
    rw [Store.flags_mapEach, Table.rows_map, List.map_map]
    rfl
  rw [h_same]
  exact h_ids

variable (nonces) in
/-- What is stored after the upgrade is opened. -/
theorem opens_upgraded
    (h_made : s.AllTexts (fun v => Authenticates gcm ring v → Made gcm ring v)) :
    (s.mapEach (upgraded gcm ring nonces)).AllTexts (Opens gcm ring) := by
  intro v h_v
  obtain ⟨u, i, id, h_u, rfl⟩ := Store.hasText_mapEach h_v
  exact ⟨_, decryptText_upgraded (h_made u h_u) i id⟩

/-- The upgrade leaves the meanings alone. -/
theorem meaning_upgraded
    (h_made : s.AllTexts (fun v => Authenticates gcm ring v → Made gcm ring v)) :
    (s.mapEach (upgraded gcm ring nonces)).mapTexts (meaning gcm ring)
      = s.mapTexts (meaning gcm ring) := by
  calc (s.mapEach (upgraded gcm ring nonces)).mapTexts (meaning gcm ring)
      = s.mapEach (fun i id v => meaning gcm ring (upgraded gcm ring nonces i id v)) :=
        Store.mapEach_mapEach _ _
    _ = s.mapTexts (meaning gcm ring) := by
        refine Store.mapEach_congr (fun v h_v i id => ?_)
        exact meaning_of_ok (decryptText_upgraded (h_made v h_v) i id)

variable (nonces) in
/-- The downgrade makes of what the upgrade left the meanings, if columns can hold them. -/
theorem downgrade_upgraded (h_ids : (s.flags.rows.map Flag.id).Nodup)
    (h_made : s.AllTexts (fun v => Authenticates gcm ring v → Made gcm ring v))
    (h_storable : s.AllTexts (fun v => storable (meaning gcm ring v) = true)) :
    downgrade gcm ring (s.mapEach (upgraded gcm ring nonces))
      = .ok (s.mapTexts (meaning gcm ring)) := by
  have h_storable' : (s.mapEach (upgraded gcm ring nonces)).AllTexts
      (fun v => storable (meaning gcm ring v) = true) := by
    intro v h_v
    obtain ⟨u, i, id, h_u, rfl⟩ := Store.hasText_mapEach h_v
    show storable (meaning gcm ring (upgraded gcm ring nonces i id u)) = true
    rw [meaning_of_ok (decryptText_upgraded (h_made u h_u) i id)]
    exact h_storable u h_u
  calc downgrade gcm ring (s.mapEach (upgraded gcm ring nonces))
      = .ok ((s.mapEach (upgraded gcm ring nonces)).mapTexts (meaning gcm ring)) :=
        downgrade_eq (flag_ids_mapEach h_ids _) (opens_upgraded nonces h_made) h_storable'
    _ = .ok (s.mapTexts (meaning gcm ring)) := by rw [meaning_upgraded h_made]

variable (gcm ring nonces) in
/-- **The round trip** gives back every value that is not an authentic envelope, and the text of
every one that is.

So it gives the store back as it was just when no value was an envelope before the upgrade: the
downgrade cannot tell the envelopes that were there from those the upgrade made. It fails where an
envelope holds a text that no column can hold. -/
theorem downgrade_upgrade (h_ids : (s.flags.rows.map Flag.id).Nodup)
    (h_made : s.AllTexts (fun v => Authenticates gcm ring v → Made gcm ring v)) :
    ∃ s', upgrade gcm ring nonces s = .ok s' ∧
      (s.AllTexts (fun v => storable (meaning gcm ring v) = true) →
        downgrade gcm ring s' = .ok (s.mapTexts (meaning gcm ring))) ∧
      ((∃ v, s.HasText v ∧ storable (meaning gcm ring v) = false) →
        ∃ e, downgrade gcm ring s' = .error e) ∧
      (s.AllTexts (fun v => storable v = true ∧ ¬ Opens gcm ring v) →
        downgrade gcm ring s' = .ok s) := by
  have h_back := downgrade_upgraded nonces h_ids h_made
  refine ⟨_, upgrade_eq h_ids h_made, h_back, ?_, fun h_plain => ?_⟩
  · -- the value is stored after the upgrade too, with the same meaning
    rintro ⟨v, h_v, h_not⟩
    obtain ⟨i, id, h_v'⟩ := h_v.mapEach (upgraded gcm ring nonces)
    refine downgrade_error (flag_ids_mapEach h_ids _) h_v' (opens_upgraded nonces h_made _ h_v') ?_
    rw [meaning_of_ok (decryptText_upgraded (h_made v h_v) i id)]
    exact h_not
  · -- a value that is not opened is its own meaning
    have h_meaning : s.AllTexts (fun v => meaning gcm ring v = v) := by
      intro v h_v
      rcases opens_or_plain (h_made v h_v) with h_open | ⟨e, h_e⟩
      · exact absurd h_open (h_plain v h_v).2
      · exact meaning_of_error h_e
    rw [h_back, Store.mapTexts, Store.mapEach_eq_self (fun v h_v _ _ => h_meaning v h_v)]
    intro v h_v
    show storable (meaning gcm ring v) = true
    rw [h_meaning v h_v]
    exact (h_plain v h_v).1

/-! ### Encryption at rest -/

variable (gcm ring) in
/-- Every stored value is an authentic envelope, and the store of the texts in them is `p`. The
second store is that of a service which stores the texts as they are supplied. -/
structure AtRest (s p : Store) : Prop where
  opens : s.AllTexts (Opens gcm ring)
  plain : s.mapTexts (meaning gcm ring) = p

variable (gcm ring) in
/-- A call of a writing function, with nonces for its calls of `encrypt_text`. -/
def encryptedCall (c : (ℕ → Nonce) × Op) : Op := c.2.mapCalls (fun _ => encryptWith gcm ring c.1)

/-- The same call in a service that stores the texts as they are. -/
def plainCall (c : (ℕ → Nonce) × Op) : Op := c.2.mapCalls (fun _ _ text => text)

/-- An encrypted call stores envelopes. -/
theorem encrypts_encryptedCall (c : (ℕ → Nonce) × Op) :
    (encryptedCall gcm ring c).Encrypts (Opens gcm ring) := by
  have h_opens : ∀ i text, Opens gcm ring (encryptWith gcm ring c.1 i text) :=
    fun i text => ⟨text, decryptText_encryptText (c.1 i) text⟩
  obtain ⟨nonces, op⟩ := c
  cases op with
  | contribute enc a => exact h_opens
  | reportHit enc a => exact h_opens
  | flag enc a => exact h_opens
  | softDelete id nowMs => exact trivial
  | applyRetention p nowMs dryRun => exact trivial

/-- What an encrypted call stores means the texts it was given. -/
theorem mapCalls_encryptedCall (c : (ℕ → Nonce) × Op) :
    (encryptedCall gcm ring c).mapCalls (mapEnc (meaning gcm ring)) = plainCall c := by
  have h_enc : mapEnc (meaning gcm ring) (encryptWith gcm ring c.1) = fun _ text => text := by
    funext i text
    exact meaning_of_ok (decryptText_encryptText (c.1 i) text)
  obtain ⟨nonces, op⟩ := c
  cases op with
  | contribute enc a => exact congrArg (Op.contribute · a) h_enc
  | reportHit enc a => exact congrArg (Op.reportHit · a) h_enc
  | flag enc a => exact congrArg (Op.flag · a) h_enc
  | softDelete id nowMs => rfl
  | applyRetention p nowMs dryRun => rfl

/-- **Encryption at rest is kept**, along the run of the plain service: a run of encrypted calls
stores envelopes only, and the texts in them are what the same run of plain calls stores. -/
theorem AtRest.run {p : Store} (h : AtRest gcm ring s p) (calls : List ((ℕ → Nonce) × Op)) :
    AtRest gcm ring (s.run (calls.map (encryptedCall gcm ring))) (p.run (calls.map plainCall)) := by
  constructor
  · -- every call stores envelopes, and retention and deletion store nothing new
    refine h.opens.run (fun op h_op => ?_)
    obtain ⟨c, -, rfl⟩ := List.mem_map.mp h_op
    exact encrypts_encryptedCall c
  · -- to take the texts out of the envelopes commutes with every operation
    have h_calls : (calls.map (encryptedCall gcm ring)).map
        (Op.mapCalls (mapEnc (meaning gcm ring))) = calls.map plainCall := by
      rw [List.map_map]
      exact List.map_congr_left (fun c _ => mapCalls_encryptedCall c)
    rw [Store.run_mapTexts, h.plain, h_calls]

/-- What an encrypted call stores means what it was given, each of its texts for itself. -/
theorem inverted_encryptedCall (c : (ℕ → Nonce) × Op) :
    (encryptedCall gcm ring c).Inverted (meaning gcm ring) := by
  have h_enc : ∀ i text, meaning gcm ring (encryptWith gcm ring c.1 i text) = text :=
    fun i text => meaning_of_ok (decryptText_encryptText (c.1 i) text)
  obtain ⟨nonces, op⟩ := c
  cases op with
  | contribute enc a => exact h_enc
  | reportHit enc a => exact h_enc
  | flag enc a => exact h_enc
  | softDelete id nowMs => exact trivial
  | applyRetention p nowMs dryRun => exact trivial

/-- The ids of a store are those of the store with other texts. -/
theorem drawn_mapEach (h_drawn : s.Drawn) (g : ℕ → ℤ → String → String) : (s.mapEach g).Drawn where
  id_le := by
    intro id r h_r
    change (s.fingerprints.map (Fingerprint.mapEach g) (Fingerprint.mapEach_key g)).get? id
      = some r at h_r
    rw [Table.get?_map, Option.map_eq_some_iff] at h_r
    obtain ⟨r₀, h_r₀, -⟩ := h_r
    exact h_drawn.id_le id r₀ h_r₀
  hit_le := by
    intro k h' h_k
    change (s.hits.map (Hit.mapEach g) (Hit.mapEach_key g)).get? k = some h' at h_k
    rw [Table.get?_map, Option.map_eq_some_iff] at h_k
    obtain ⟨h₀, h_k₀, -⟩ := h_k
    exact h_drawn.hit_le k h₀ h_k₀

/-- The ledger of the meanings covers what the upgrade left. The upgrade changes texts and nothing
else, so that every row, hit and flag is found where it was, and each of its texts still means
what it meant. -/
theorem covers_upgraded
    (h_made : s.AllTexts (fun v => Authenticates gcm ring v → Made gcm ring v)) :
    (Ledger.ofStore (meaning gcm ring) s).Covers (meaning gcm ring)
      (s.mapEach (upgraded gcm ring nonces)) := by
  -- one column of one row
  have h_text : ∀ (o : Option String) i id, (∀ v, o = some v → s.HasText v) →
      (o.map (upgraded gcm ring nonces i id)).map (meaning gcm ring) =
        o.map (meaning gcm ring) := by
    intro o i id h_o
    cases o with
    | none => rfl
    | some v =>
      exact congrArg some (meaning_of_ok (decryptText_upgraded (h_made v (h_o v rfl)) i id))
  -- the three columns of a row of `fingerprints`
  have h_texts : ∀ r ∈ s.fingerprints.rows,
      (r.mapEach (upgraded gcm ring nonces)).texts.map (Option.map (meaning gcm ring))
        = r.texts.map (Option.map (meaning gcm ring)) := by
    intro r h_r
    have h_own : ∀ o ∈ r.texts, ∀ v, o = some v → s.HasText v :=
      fun o h_o v h_v => .fingerprint h_r (h_v ▸ h_o)
    simp only [Fingerprint.texts, Fingerprint.mapEach, List.map_cons, List.map_nil]
    rw [h_text _ 0 r.id (h_own r.sourceGuildId (by simp [Fingerprint.texts])),
      h_text _ 1 r.id (h_own r.reason (by simp [Fingerprint.texts])),
      h_text _ 2 r.id (h_own r.sourceUrl (by simp [Fingerprint.texts]))]
  exact {
    row := by
      intro id r' h_r'
      change (s.fingerprints.map (Fingerprint.mapEach (upgraded gcm ring nonces))
        (Fingerprint.mapEach_key _)).get? id = some r' at h_r'
      rw [Table.get?_map, Option.map_eq_some_iff] at h_r'
      obtain ⟨r, h_r, rfl⟩ := h_r'
      have h_mem := Table.mem_of_get? h_r
      exact (h_texts r h_mem).trans ((Ledger.Covers.ofStore _ s).row id r h_r)
    hit := by
      intro k h' h_k
      change (s.hits.map (Hit.mapEach (upgraded gcm ring nonces))
        (Hit.mapEach_key _)).get? k = some h' at h_k
      rw [Table.get?_map, Option.map_eq_some_iff] at h_k
      obtain ⟨h, h_k, rfl⟩ := h_k
      have h_mem := Table.mem_of_get? h_k
      exact (h_text h.guildId 3 h.id (fun v h_v => .hit h_mem h_v)).trans
        ((Ledger.Covers.ofStore _ s).hit k h h_k)
    flag := by
      intro k f' h_k
      change (s.flags.map (Flag.mapEach (upgraded gcm ring nonces))
        (Flag.mapEach_key _)).get? k = some f' at h_k
      rw [Table.get?_map, Option.map_eq_some_iff] at h_k
      obtain ⟨f, h_k, rfl⟩ := h_k
      have h_mem := Table.mem_of_get? h_k
      exact (h_text f.reason 4 f.id (fun v h_v => .flag h_mem h_v)).trans
        ((Ledger.Covers.ofStore _ s).flag k f h_k) }

variable (gcm ring nonces) in
/-- **The upgrade establishes encryption at rest**, is idempotent, and every run after it keeps
what it established.

The runs are compared twice. With every envelope replaced by its text, a run is the run of the
service that stores texts as they are supplied (`AtRest`). And each text in it is the argument of
the call that stored it, or one that the upgrade found (`Ledger.Covers`): that a row of the
database has the id that was drawn for it, and no later one will be given, is all this needs.

The first comparison alone would be true of a service that stores anything at all in the place of
a text, as long as both do it; the second ties the stored values to the calls. Of the database
only two things are assumed: the ids of its flags are distinct, and no value in it authenticates
but an envelope of `encrypt_text`. -/
theorem upgrade_at_rest (h_ids : (s.flags.rows.map Flag.id).Nodup)
    (h_made : s.AllTexts (fun v => Authenticates gcm ring v → Made gcm ring v)) :
    ∃ s', upgrade gcm ring nonces s = .ok s' ∧
      AtRest gcm ring s' (s.mapTexts (meaning gcm ring)) ∧
      (∀ nonces', upgrade gcm ring nonces' s' = .ok s') ∧
      (∀ calls : List ((ℕ → Nonce) × Op),
        AtRest gcm ring (s'.run (calls.map (encryptedCall gcm ring)))
          ((s.mapTexts (meaning gcm ring)).run (calls.map plainCall))) ∧
      (s.Drawn → ∀ calls : List ((ℕ → Nonce) × Op),
        ((Ledger.ofStore (meaning gcm ring) s).enterAll s'
          (calls.map (encryptedCall gcm ring))).Covers (meaning gcm ring)
            (s'.run (calls.map (encryptedCall gcm ring)))) := by
  have h_opens := opens_upgraded nonces h_made
  have h_at_rest : AtRest gcm ring (s.mapEach (upgraded gcm ring nonces))
      (s.mapTexts (meaning gcm ring)) := ⟨h_opens, meaning_upgraded h_made⟩
  refine ⟨_, upgrade_eq h_ids h_made, h_at_rest, fun nonces' => ?_, h_at_rest.run,
    fun h_drawn calls => ?_⟩
  · -- a second upgrade skips every value
    calc upgrade gcm ring nonces' (s.mapEach (upgraded gcm ring nonces))
        = .ok ((s.mapEach (upgraded gcm ring nonces)).mapEach (upgraded gcm ring nonces')) := by
          refine rewriteColumns_eq (flag_ids_mapEach h_ids _) (fun v h_v i id => ?_)
          obtain ⟨plaintext, h⟩ := h_opens v h_v
          exact ⟨none, upgradeValue_of_ok _ h⟩
      _ = .ok (s.mapEach (upgraded gcm ring nonces)) := by
          refine congrArg Except.ok (Store.mapEach_eq_self (fun v h_v i id => ?_))
          exact upgraded_of_opens (h_opens v h_v) i id
  · refine (covers_upgraded h_made).run (drawn_mapEach h_drawn _) (fun op h_op => ?_)
    obtain ⟨c, -, rfl⟩ := List.mem_map.mp h_op
    exact inverted_encryptedCall c

end Migrations

/-! ### A concrete database -/

/-- An authentic envelope of the text `x`. -/
def sampleEnvelope : String := "enc:v1:a:AAAAAAAAAAAAAAAA:tvibg6SOfSwAI6s7kGFCFqU="

/-- A row with plaintext that begins with the prefix, an authentic envelope, and no url. -/
def sampleLegacyRow : Fingerprint where
  id := 1
  syncSeq := 1
  phashHex := "00ff"
  triple := ⟨"phash", "1", "1"⟩
  category := .scam
  action := .kick
  consumerId := 1
  sourceGuildId := some "enc:v1:legacy-prefix-collision"
  reason := some sampleEnvelope
  sourceUrl := none
  addedAtMs := 1
  updatedAtMs := 1
  hitCount := 0
  lastHitAtMs := none
  autoAdded := false
  provenance := "manual_staff"
  status := .active
  flagCount := 0

/-- The database of the row. -/
def sampleLegacy : Store :=
  { Store.empty with
    fingerprints := (Table.empty _).insert sampleLegacyRow
    syncSeq := 1
    lastId := 1 }

/-- There is no flag in it. -/
theorem sampleLegacy_flags : (sampleLegacy.flags.rows.map Flag.id).Nodup := List.nodup_nil

/-- There are two texts in it. -/
theorem sampleLegacy_texts {P : String → Prop} (h_guild : P "enc:v1:legacy-prefix-collision")
    (h_reason : P sampleEnvelope) : sampleLegacy.AllTexts P := by
  intro v h_v
  cases h_v with
  | fingerprint h_row h_text =>
    obtain rfl := List.mem_singleton.mp h_row
    simp only [Fingerprint.texts, List.mem_cons, List.not_mem_nil, or_false] at h_text
    rcases h_text with h | h | h
    · obtain rfl := Option.some.inj h
      exact h_guild
    · obtain rfl := Option.some.inj h
      exact h_reason
    · exact absurd h (by simp [sampleLegacyRow])
  | hit h_row h_text => exact absurd h_row (List.not_mem_nil)
  | flag h_row h_text => exact absurd h_row (List.not_mem_nil)

theorem sampleEnvelope_ok : decryptText sampleGcm sampleRing sampleEnvelope = .ok "x" := by
  decide +kernel

/-- One of them does not authenticate, and the other was made by `encrypt_text`. -/
theorem sampleLegacy_made : sampleLegacy.AllTexts
    (fun v => Authenticates sampleGcm sampleRing v → Made sampleGcm sampleRing v) := by
  refine sampleLegacy_texts (fun h => ?_) (fun _ => ?_)
  · have h_malformed : decryptText sampleGcm sampleRing "enc:v1:legacy-prefix-collision"
        = .error (.field .malformed) := by decide +kernel
    exact absurd h_malformed (h _)
  · exact ⟨⟨['a'], rfl⟩, sampleKey, sampleNonce, "x", rfl, by decide +kernel⟩

/-- The id of its row was drawn. -/
theorem sampleLegacy_drawn : sampleLegacy.Drawn where
  id_le := by
    intro id r h_r
    rw [← Table.key_of_get? h_r]
    obtain rfl := List.mem_singleton.mp (Table.mem_of_get? h_r)
    decide
  hit_le := fun _ _ h_k => absurd (Table.mem_of_get? h_k) List.not_mem_nil

/-- A hit on the row of the sample, in a guild. -/
def sampleLegacyHit : Op :=
  .reportHit (encryptWith sampleGcm sampleRing (fun _ => sampleNonce)) ⟨1, 2, some "g", none, 5⟩

/-- A run after the upgrade of the sample: the hit is stored with the guild it was reported in. -/
theorem upgrade_at_rest_sample : ∃ s', upgrade sampleGcm sampleRing (fun _ _ => sampleNonce)
      sampleLegacy = .ok s' ∧
    AtRest sampleGcm sampleRing s' (sampleLegacy.mapTexts (meaning sampleGcm sampleRing)) ∧
    AtRest sampleGcm sampleRing (s'.run [sampleLegacyHit])
      ((sampleLegacy.mapTexts (meaning sampleGcm sampleRing)).run
        [.reportHit (fun _ text => text) ⟨1, 2, some "g", none, 5⟩]) ∧
    ∃ h, (s'.run [sampleLegacyHit]).hits.get? 1 = some h ∧
      h.guildId.map (meaning sampleGcm sampleRing) = some "g" := by
  obtain ⟨s', h_upgrade, h_at_rest, -, h_run, h_ledger⟩ := upgrade_at_rest sampleGcm sampleRing
    (fun _ _ => sampleNonce) sampleLegacy_flags sampleLegacy_made
  have h_covers := h_ledger sampleLegacy_drawn
    [(fun _ => sampleNonce, .reportHit (fun _ text => text) ⟨1, 2, some "g", none, 5⟩)]
  refine ⟨s', h_upgrade, h_at_rest,
    h_run [(fun _ => sampleNonce, .reportHit (fun _ text => text) ⟨1, 2, some "g", none, 5⟩)], ?_⟩
  rw [upgrade_eq sampleLegacy_flags sampleLegacy_made] at h_upgrade
  obtain rfl := Except.ok.inj h_upgrade
  -- the hit is stored under the first id
  obtain ⟨h, h_get⟩ : ∃ h, ((sampleLegacy.mapEach (upgraded sampleGcm sampleRing
      (fun _ _ => sampleNonce))).run [sampleLegacyHit]).hits.get? 1 = some h :=
    Option.isSome_iff_exists.mp (by decide +kernel)
  exact ⟨h, h_get, (h_covers.hit 1 h h_get).trans (by decide +kernel)⟩

/-- The round trip of the sample replaces the envelope by its text. -/
theorem downgrade_upgrade_sample : ∃ s', upgrade sampleGcm sampleRing (fun _ _ => sampleNonce)
      sampleLegacy = .ok s' ∧
    downgrade sampleGcm sampleRing s'
      = .ok (sampleLegacy.mapTexts (meaning sampleGcm sampleRing)) := by
  obtain ⟨s', h_upgrade, h_back, -⟩ := downgrade_upgrade sampleGcm sampleRing
    (fun _ _ => sampleNonce) sampleLegacy_flags sampleLegacy_made
  refine ⟨s', h_upgrade, h_back (sampleLegacy_texts ?_ ?_)⟩
  · decide +kernel
  · decide +kernel

/-- The round trip does not give the sample back. -/
theorem downgrade_upgrade_envelope :
    (sampleLegacy.flags.rows.map Flag.id).Nodup ∧
    sampleLegacy.AllTexts (fun v => storable v = true) ∧
    sampleLegacy.AllTexts
      (fun v => Authenticates sampleGcm sampleRing v → Made sampleGcm sampleRing v) ∧
    ¬ ∃ s', upgrade sampleGcm sampleRing (fun _ _ => sampleNonce) sampleLegacy = .ok s' ∧
      downgrade sampleGcm sampleRing s' = .ok sampleLegacy := by
  refine ⟨sampleLegacy_flags, sampleLegacy_texts (by decide +kernel) (by decide +kernel),
    sampleLegacy_made, ?_⟩
  rintro ⟨s', h_upgrade, h_back⟩
  rw [upgrade_eq sampleLegacy_flags sampleLegacy_made] at h_upgrade
  obtain rfl := Except.ok.inj h_upgrade
  rw [downgrade_upgraded _ sampleLegacy_flags sampleLegacy_made
    (sampleLegacy_texts (by decide +kernel) (by decide +kernel))] at h_back
  -- if it were given back, the envelope would have to be its own meaning
  have h_meaning : meaning sampleGcm sampleRing sampleEnvelope = sampleEnvelope := by
    refine Store.allTexts_of_mapTexts (Except.ok.inj h_back) _ (.fingerprint
      (List.mem_singleton.mpr rfl) ?_)
    exact List.mem_cons_of_mem _ (List.mem_cons_self ..)
  rw [meaning_of_ok sampleEnvelope_ok] at h_meaning
  exact absurd h_meaning (by decide)

end FieldEncryption

end FingerprintHub
