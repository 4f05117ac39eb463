import Mathlib.Data.List.Forall2
import Mathlib.Logic.Relation
import FingerprintHub.Crypto.Envelope

/-!
# Rotating the keys

A rotation as the operator's guide has it: the entry that `tools/generate_field_key.py` prints is
put behind a comma in the raw keys, and its id is made the active one. The keyring is read once by
each process (`load_keyring_from_env` keeps what it read), so that processes that were started
before a rotation go on with the keyring they have.

`Loaded` says where a keyring that was ever read stands in the raw keys: its entries are what a
number of pieces at the front stand for. Two such keyrings agree on the ids they share, and one
that is read now has the entries of all. So a rotation loses nothing for a process that is started
after it, and a process that was started before it fails on what it cannot read and misreads
nothing.
-/

namespace FingerprintHub
namespace FieldEncryption

/-! ### The environment and its processes -/

/-- `FINGERPRINTHUB_FIELD_ENCRYPTION_KEYS` and `FINGERPRINTHUB_FIELD_ENCRYPTION_ACTIVE_KEY_ID`, as
the operator has set them. -/
structure KeyEnv where
  rawKeys : PyStr
  activeKeyId : PyStr

namespace KeyEnv

/-- `load_keyring_from_env`, without its cache. -/
def load (env : KeyEnv) : Except ConfigError Keyring :=
  parseKeyring (some env.rawKeys) (some env.activeKeyId)

/-- The pieces between two commas. -/
def pieces (env : KeyEnv) : List PyStr := env.rawKeys.splitOn (CodePoint.ofChar ',')

/-- A rotation to a new key, for the token that is drawn: `none` where the tool raises. -/
def rotate (env : KeyEnv) (keyId : PyStr) (token : Key) : Option KeyEnv :=
  (generateKeyEntry keyId token).map fun entry =>
    ⟨env.rawKeys ++ CodePoint.ofChar ',' :: entry, keyId⟩

end KeyEnv

/-- The environment, the keyrings of the processes that run, and what was ever written, each value
with its plaintext. A keyring is all of a process that matters here, and a stored value is never
forgotten: what can be read is then a statement about every value ever stored. -/
structure Fleet where
  env : KeyEnv
  rings : List Keyring
  written : List (String × String)

/-- A step: the operator rotates, a process is started or stopped, or a process encrypts a text or
rekeys a value. A process that is started reads the environment as it is then; a rotation leaves
the processes that run with what they have read. -/
inductive FleetStep (gcm : AesGcm) (s : Fleet) : Fleet → Prop
  | rotate {keyId : PyStr} {token : Key} {env : KeyEnv}
      (h_rotate : s.env.rotate keyId token = some env) : FleetStep gcm s { s with env := env }
  | start {ring : Keyring} (h_load : s.env.load = .ok ring) :
      FleetStep gcm s { s with rings := ring :: s.rings }
  | stop {rings : List Keyring} (h_rings : rings.Sublist s.rings) :
      FleetStep gcm s { s with rings := rings }
  | write {ring : Keyring} (h_ring : ring ∈ s.rings) (nonce : Nonce) (plaintext : String) :
      FleetStep gcm s
        { s with written := (encryptText gcm ring nonce plaintext, plaintext) :: s.written }
  | rekey {ring : Keyring} (h_ring : ring ∈ s.rings) {value plaintext : String}
      (h_value : (value, plaintext) ∈ s.written) (nonce : Nonce)
      (targetKeyId : Option (List Char)) {rekeyed : String}
      (h_rekey : rekeyEnvelope gcm ring nonce value targetKeyId = .ok rekeyed) :
      FleetStep gcm s { s with written := (rekeyed, plaintext) :: s.written }

/-! ### Keyrings that were read -/

section Loaded

variable {env env' : KeyEnv} {t t' : KeyTable} {id : KeyId} {token key key' : Key} {ring : Keyring}

theorem Key.eq_of_bytes {k k' : Key} (h : k.bytes = k'.bytes) : k = k' := by
  obtain ⟨bytes, h_length⟩ := k
  obtain ⟨bytes', h_length'⟩ := k'
  obtain rfl : bytes = bytes' := h
  rfl

/-- A piece stands for one entry at most. -/
theorem Reads.unique {piece : PyStr} {e e' : KeyId × Key} (h : Reads piece e)
    (h' : Reads piece e') : e = e' := by
  obtain ⟨rawId, rawKey, h_split, h_id, h_key⟩ := h
  obtain ⟨rawId', rawKey', h_split', h_id', h_key'⟩ := h'
  -- the split and the decoding are functions of the piece
  obtain ⟨rfl, h_tail⟩ := List.cons.inj (h_split.symm.trans h_split')
  obtain ⟨rfl, -⟩ := List.cons.inj h_tail
  have h_ids : e.1 = e'.1 := KeyId.text_inj.mp (Option.some.inj (h_id.symm.trans h_id'))
  have h_bytes : e.2.bytes = e'.2.bytes := Option.some.inj (h_key.symm.trans h_key')
  exact Prod.ext h_ids (Key.eq_of_bytes h_bytes)

/-- The entries of the table are what pieces at the front stand for. Since pieces are only ever
put behind the others, this is what remains true of a keyring that was read some rotations ago. -/
def Loaded (env : KeyEnv) (t : KeyTable) : Prop :=
  ∃ l, l <+: env.pieces ∧ List.Forall₂ Reads l t.entries

/-- What is read now is all of it. -/
theorem forall₂_of_load (h : env.load = .ok ring) : List.Forall₂ Reads env.pieces ring.entries := by
  obtain ⟨raw, active, h_raw, -, -, h_reads, -⟩ := parseKeyring_iff.mp h
  obtain rfl := Option.some.inj h_raw
  exact h_reads

/-- A keyring that is read now is where the others were when they were read. -/
theorem Loaded.of_load (h : env.load = .ok ring) : Loaded env ring.toKeyTable :=
  ⟨_, List.prefix_refl _, forall₂_of_load h⟩

/-- What more pieces stand for begins with what fewer do. -/
theorem entries_front {l l' : List PyStr} (h_le : l <+: l') (h : List.Forall₂ Reads l t.entries)
    (h' : List.Forall₂ Reads l' t'.entries) : t.entries <+: t'.entries := by
  have h_take := List.forall₂_take l.length h'
  rw [← List.prefix_iff_eq_take.mp h_le] at h_take
  have h_unique : Relator.RightUnique Reads := fun _ _ _ h h' => h.unique h'
  -- the same pieces stand for the same entries
  rw [List.right_unique_forall₂' h_unique h h_take]
  exact List.take_prefix _ _

/-- A keyring that is read now has the entries of all that were read before. -/
theorem Loaded.get_of_load (h : Loaded env t) (h_load : env.load = .ok ring)
    (h_get : t.get id.text = some key) : ring.get id.text = some key := by
  obtain ⟨l, h_le, h_reads⟩ := h
  have h_entries := entries_front h_le h_reads (forall₂_of_load h_load)
  exact KeyTable.get_of_mem (h_entries.subset (KeyTable.mem_of_get h_get))

/-- Two keyrings that were read agree on the ids they share: one of the two lists of entries is
the beginning of the other. -/
theorem Loaded.agree (h : Loaded env t) (h' : Loaded env t') (h_get : t.get id.text = some key)
    (h_get' : t'.get id.text = some key') : key = key' := by
  obtain ⟨l, h_le, h_reads⟩ := h
  obtain ⟨l', h_le', h_reads'⟩ := h'
  rcases List.prefix_or_prefix_of_prefix h_le h_le' with h_front | h_front
  · have h_mem := (entries_front h_front h_reads h_reads').subset (KeyTable.mem_of_get h_get)
    exact Option.some.inj ((KeyTable.get_of_mem h_mem).symm.trans h_get')
  · have h_mem := (entries_front h_front h_reads' h_reads).subset (KeyTable.mem_of_get h_get')
    exact Option.some.inj (h_get.symm.trans (KeyTable.get_of_mem h_mem))

/-- A rotation puts its pieces behind the others. -/
theorem Loaded.rotate {keyId : PyStr} (h : Loaded env t)
    (h_rotate : env.rotate keyId token = some env') : Loaded env' t := by
  obtain ⟨entry, -, rfl⟩ := Option.map_eq_some_iff.mp h_rotate
  obtain ⟨l, h_le, h_reads⟩ := h
  refine ⟨l, h_le.trans ?_, h_reads⟩
  show env.pieces <+: (env.rawKeys ++ CodePoint.ofChar ',' :: entry).splitOn _
  rw [List.splitOn_append_cons_self]
  exact List.prefix_append _ _

/-! ### A rotation -/

/-- A rotation to a key id is never refused by the tool. -/
theorem rotate_ofChars (env : KeyEnv) (id : KeyId) (token : Key) :
    env.rotate (ofChars id.text) token =
      some ⟨env.rawKeys ++ CodePoint.ofChar ',' :: (PaddedEntry.bare id token).text,
        ofChars id.text⟩ := by
  rw [KeyEnv.rotate, generateKeyEntry_eq]
  rfl

/-- **A rotation is accepted for a new id and a new key**, and adds the entry. The tool itself
does not look at the ids that are there, so that a rotation to an old id can be made; it leaves an
environment that no process can be started with. -/
theorem load_rotate (h_load : env.load = .ok ring)
    (h_rotate : env.rotate (ofChars id.text) token = some env') :
    ((∃ ring', env'.load = .ok ring') ↔
      id ∉ ring.entries.map Prod.fst ∧ token ∉ ring.entries.map Prod.snd) ∧
    ∀ ring', env'.load = .ok ring' →
      ring'.entries = ring.entries ++ [(id, token)] ∧ ring'.activeId = id := by
  obtain rfl := Option.some.inj ((rotate_ofChars env id token).symm.trans h_rotate)
  -- the new entry has no comma in it, and is the last piece
  have h_pieces : KeyEnv.pieces ⟨env.rawKeys ++ CodePoint.ofChar ',' ::
      (PaddedEntry.bare id token).text, ofChars id.text⟩ =
        env.pieces ++ [(PaddedEntry.bare id token).text] := by
    show (env.rawKeys ++ CodePoint.ofChar ',' :: _).splitOn _ = _
    rw [List.splitOn_append_cons_self, List.splitOn_eq_singleton (comma_not_mem_text _)]
    rfl
  have h_reads : List.Forall₂ Reads (env.pieces ++ [(PaddedEntry.bare id token).text])
      (ring.entries ++ [(id, token)]) :=
    List.rel_append (forall₂_of_load h_load) (.cons (reads_text _) .nil)
  have h_unique : Relator.RightUnique Reads := fun _ _ _ h h' => h.unique h'
  have h_strip : PyStr.strip (ofChars id.text) = ofChars id.text := by
    have h_pad := strip_pad (plain_keyId id) .none .none
    rwa [Blank.none, List.nil_append, List.append_nil] at h_pad
  -- what is read afterwards is what the old pieces and the new one stand for
  have h_after : ∀ ring', KeyEnv.load ⟨env.rawKeys ++ CodePoint.ofChar ',' ::
      (PaddedEntry.bare id token).text, ofChars id.text⟩ = .ok ring' →
        ring'.entries = ring.entries ++ [(id, token)] ∧ ring'.activeId = id := by
    intro ring' h_load'
    have h_reads' := forall₂_of_load h_load'
    rw [h_pieces] at h_reads'
    refine ⟨List.right_unique_forall₂' h_unique h_reads' h_reads, ?_⟩
    obtain ⟨-, active, -, -, h_active, -, h_text⟩ := parseKeyring_iff.mp h_load'
    obtain rfl := Option.some.inj h_active
    rw [h_strip, ascii?_ofChars (fun c h_c => (plain_keyId id c h_c).ascii)] at h_text
    exact (KeyId.text_inj.mp (Option.some.inj h_text)).symm
  refine ⟨⟨?_, ?_⟩, h_after⟩
  · rintro ⟨ring', h_load'⟩
    -- a ring has no id and no key twice, and the entry is in it
    have h_ids := ring'.nodup_ids
    have h_keys := ring'.nodup_keys
    rw [(h_after ring' h_load').1, List.map_append, List.nodup_append] at h_ids h_keys
    exact ⟨fun h_mem => h_ids.2.2 _ h_mem _ (List.mem_singleton_self _) rfl,
      fun h_mem => h_keys.2.2 _ h_mem _ (List.mem_singleton_self _) rfl⟩
  · rintro ⟨h_id, h_key⟩
    -- the table is built, and `parseKeyring_iff` says that it is read
    let t' : KeyTable :=
      { entries := ring.entries ++ [(id, token)]
        nodup_ids := by
          rw [List.map_append]
          exact ring.nodup_ids.append (List.nodup_singleton _)
            (List.disjoint_singleton.mpr h_id)
        nodup_keys := by
          rw [List.map_append]
          exact ring.nodup_keys.append (List.nodup_singleton _)
            (List.disjoint_singleton.mpr h_key) }
    have h_get : t'.get id.text = some token :=
      KeyTable.get_of_mem (t := t') (List.mem_append_right _ (List.mem_singleton_self (id, token)))
    refine ⟨⟨t', id, token, h_get⟩, parseKeyring_iff.mpr ⟨_, _, rfl, ?_, rfl, ?_, ?_⟩⟩
    · -- there is a colon in it
      intro h_nil
      have h_colon : CodePoint.ofChar ':' ∈ env.rawKeys ++ CodePoint.ofChar ',' ::
          (PaddedEntry.bare id token).text :=
        List.mem_append_right _ (List.mem_cons_of_mem _
          (List.mem_append_right _ List.mem_cons_self))
      exact absurd (PyStr.of_stripBy_eq_nil h_nil _ h_colon) (by decide)
    · show List.Forall₂ Reads (KeyEnv.pieces ⟨_, ofChars id.text⟩) _
      rw [h_pieces]
      exact h_reads
    · rw [h_strip]
      exact ascii?_ofChars (fun c h_c => (plain_keyId id c h_c).ascii)

end Loaded

/-! ### Values that were written -/

section Written

variable {gcm : AesGcm} {s s' : Fleet} {t : KeyTable} {ring : Keyring} {id : KeyId} {key : Key}

/-- The value is an envelope of the plaintext under a key of a keyring that was read. -/
def WrittenUnder (gcm : AesGcm) (env : KeyEnv) (value plaintext : String) : Prop :=
  ∃ t id key nonce, Loaded env t ∧ t.get id.text = some key ∧
    value = envelope gcm id key nonce plaintext

/-- A keyring without the key id opens nothing of it, and says so. -/
theorem decryptText_envelope_of_none (h_get : ring.get id.text = none) (nonce : Nonce)
    (plaintext : String) :
    decryptText gcm ring (envelope gcm id key nonce plaintext) =
      .error (.field (.unknownKeyId id.text)) := by
  rw [decryptText, isEncryptedValue_envelope]
  simp only [splitMax_envelope, h_get]
  rfl

/-- A keyring that was read opens the value, or does not know its key id. It cannot have another
key under this id: then the two keyrings would disagree. -/
theorem WrittenUnder.decryptText {env : KeyEnv} {value plaintext : String}
    (h : WrittenUnder gcm env value plaintext) (h_ring : Loaded env ring.toKeyTable) :
    decryptText gcm ring value = .ok plaintext ∨
      ∃ id, decryptText gcm ring value = .error (.field (.unknownKeyId id)) := by
  obtain ⟨t, id, key, nonce, h_loaded, h_get, rfl⟩ := h
  cases h_ring_get : ring.get id.text with
  | none => exact Or.inr ⟨_, decryptText_envelope_of_none h_ring_get nonce plaintext⟩
  | some key' =>
    obtain rfl := h_loaded.agree h_ring h_get h_ring_get
    exact Or.inl (decryptText_envelope gcm h_ring_get nonce plaintext)

/-- What `encrypt_text` returns is an envelope under a key of the keyring. -/
theorem encryptTextWith_ok {nonce : Nonce} {plaintext value : String}
    {targetKeyId : Option (List Char)}
    (h : encryptTextWith gcm ring nonce plaintext targetKeyId = .ok value) :
    ∃ id key, ring.get (KeyId.text id) = some key ∧
      value = envelope gcm id key nonce plaintext := by
  unfold encryptTextWith at h
  split at h
  · exact absurd h (by simp)
  · next key h_get =>
    obtain ⟨id, h_id⟩ := KeyTable.exists_keyId h_get
    rw [← h_id] at h h_get
    exact ⟨id, key, h_get, (Except.ok.inj h).symm⟩

/-- Every keyring in use was read, and every value was written under one. The invariant of all
runs of the fleet. -/
structure Tracked (gcm : AesGcm) (s : Fleet) : Prop where
  rings : ∀ ring ∈ s.rings, Loaded s.env ring.toKeyTable
  written : ∀ value plaintext, (value, plaintext) ∈ s.written →
    WrittenUnder gcm s.env value plaintext

/-- Each step keeps it: a rotation since it only adds a piece, a rekeying since what it opens is
the plaintext. -/
theorem Tracked.step (h : Tracked gcm s) (h_step : FleetStep gcm s s') : Tracked gcm s' := by
  cases h_step with
  | rotate h_rotate =>
    refine ⟨fun ring h_ring => (h.rings ring h_ring).rotate h_rotate,
      fun value plaintext h_mem => ?_⟩
    obtain ⟨t, id, key, nonce, h_loaded, h_get, h_value⟩ := h.written value plaintext h_mem
    exact ⟨t, id, key, nonce, h_loaded.rotate h_rotate, h_get, h_value⟩
  | start h_load =>
    refine ⟨fun ring h_ring => ?_, h.written⟩
    rcases List.mem_cons.mp h_ring with rfl | h_ring
    · exact .of_load h_load
    · exact h.rings ring h_ring
  | stop h_rings => exact ⟨fun ring h_ring => h.rings ring (h_rings.subset h_ring), h.written⟩
  | @write ring h_ring nonce plaintext =>
    refine ⟨h.rings, fun value' plaintext' h_mem => ?_⟩
    rcases List.mem_cons.mp h_mem with h_new | h_old
    · obtain ⟨rfl, rfl⟩ := Prod.mk.inj h_new
      exact ⟨_, ring.activeId, ring.activeKey, nonce, h.rings ring h_ring, ring.get_active, rfl⟩
    · exact h.written value' plaintext' h_old
  | @rekey ring h_ring value plaintext h_value nonce targetKeyId rekeyed h_rekey =>
    refine ⟨h.rings, fun value' plaintext' h_mem => ?_⟩
    rcases List.mem_cons.mp h_mem with h_new | h_old
    · obtain ⟨rfl, rfl⟩ := Prod.mk.inj h_new
      -- the value was opened, so that its plaintext is sealed again
      unfold rekeyEnvelope at h_rekey
      rcases (h.written value plaintext' h_value).decryptText (h.rings ring h_ring) with
        h_ok | ⟨id, h_unknown⟩
      · rw [h_ok] at h_rekey
        obtain ⟨id, key, h_get, h_eq⟩ := encryptTextWith_ok h_rekey
        exact ⟨_, id, key, nonce, h.rings ring h_ring, h_get, h_eq⟩
      · rw [h_unknown] at h_rekey
        exact absurd h_rekey (by simp)
    · exact h.written value' plaintext' h_old

/-- It holds after every run that starts with no process and no value. -/
theorem Tracked.reaches {env : KeyEnv}
    (h : Relation.ReflTransGen (FleetStep gcm) ⟨env, [], []⟩ s) : Tracked gcm s := by
  induction h with
  | refl => exact ⟨fun _ h => absurd h (by simp), fun _ _ h => absurd h (by simp)⟩
  | tail _ h_step ih => exact ih.step h_step

end Written

/-- **Rotations keep what was written.** However rotations, starts and stops of processes and
their writes are interleaved, and whatever the variables held at first: a process that is started
now, where it can be, reads every value that any process ever wrote; a process that runs reads the
plaintext of a value or fails on its key id; and a rotation to a new id and a new key is accepted,
with the new key active, and no other is.

The second part cannot be strengthened to a success: between a rotation and the restart of a
process others may write under the new key. -/
theorem rotations_keep_reading (gcm : AesGcm) (env : KeyEnv) {s : Fleet}
    (h : Relation.ReflTransGen (FleetStep gcm) ⟨env, [], []⟩ s) :
    (∀ ring, s.env.load = .ok ring → ∀ value plaintext, (value, plaintext) ∈ s.written →
      decryptText gcm ring value = .ok plaintext) ∧
    (∀ ring ∈ s.rings, ∀ value plaintext, (value, plaintext) ∈ s.written →
      decryptText gcm ring value = .ok plaintext ∨
        ∃ id, decryptText gcm ring value = .error (.field (.unknownKeyId id))) ∧
    ∀ ring, s.env.load = .ok ring → ∀ id token,
      ∃ env', s.env.rotate (ofChars (KeyId.text id)) token = some env' ∧
        ((∃ ring', env'.load = .ok ring') ↔
          id ∉ ring.entries.map Prod.fst ∧ token ∉ ring.entries.map Prod.snd) ∧
        ∀ ring', env'.load = .ok ring' →
          ring'.entries = ring.entries ++ [(id, token)] ∧ ring'.activeId = id := by
  have h_tracked := Tracked.reaches h
  refine ⟨fun ring h_load value plaintext h_mem => ?_, fun ring h_ring value plaintext h_mem =>
    (h_tracked.written value plaintext h_mem).decryptText (h_tracked.rings ring h_ring),
    fun ring h_load id token => ⟨_, rotate_ofChars s.env id token,
      load_rotate h_load (rotate_ofChars s.env id token)⟩⟩
  obtain ⟨t, id, key, nonce, h_loaded, h_get, rfl⟩ := h_tracked.written value plaintext h_mem
  exact decryptText_envelope gcm (h_loaded.get_of_load h_load h_get) nonce plaintext

/-- The key of a rotation. -/
def sampleNext : Key := ⟨List.replicate 32 9, rfl⟩

/-- A text that was written before a rotation is read after it. -/
theorem rotations_keep_reading_sample :
    ∃ env ring, KeyEnv.rotate ⟨rawKeys sampleConfig, ofChars ['a']⟩ (ofChars ['b']) sampleNext =
        some env ∧ env.load = .ok ring ∧
      decryptText sampleGcm ring (encryptText sampleGcm sampleRing sampleNonce "x") = .ok "x" := by
  have h_load : KeyEnv.load ⟨rawKeys sampleConfig, ofChars ['a']⟩ = .ok sampleRing :=
    parseKeyring_sample
  have h_rotate := rotate_ofChars ⟨rawKeys sampleConfig, ofChars ['a']⟩ ⟨['b'], rfl⟩ sampleNext
  obtain ⟨ring, h_ring⟩ := (load_rotate h_load h_rotate).1.mpr ⟨by decide, by decide⟩
  have h_start :=
    @FleetStep.start sampleGcm ⟨⟨rawKeys sampleConfig, ofChars ['a']⟩, [], []⟩ _ h_load
  -- a process starts, writes, and the operator rotates
  have h_run := ((Relation.ReflTransGen.single h_start).tail
    (.write List.mem_cons_self sampleNonce "x")).tail (.rotate h_rotate)
  exact ⟨_, ring, h_rotate, h_ring,
    (rotations_keep_reading sampleGcm _ h_run).1 ring h_ring _ _ List.mem_cons_self⟩

end FieldEncryption
end FingerprintHub
