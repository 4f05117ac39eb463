import FingerprintHub.Crypto.Keyring

/-!
# Envelopes across key rotation

`encrypt_text` with a key id, and `rekey_envelope`. An envelope names the key it was made
with, so that it can be opened by every keyring that still has this key under this id,
whatever else was configured since: other entries, another order, another active id. Rekeying
opens an envelope with one such keyring and seals the plaintext under a key of it.

That an envelope comes apart as it was put together rests on three facts: no key id contains a
colon (`colon_not_mem_keyId`), no base64 text does (`Base64.colon_not_mem_encode`), and the
split stops after four.
-/

namespace FingerprintHub
namespace FieldEncryption

open Base64 (Bytes)

variable (gcm : AesGcm)

/-- What `rekey_envelope` may raise. -/
inductive RekeyError where
  /-- what `decrypt_text` raises -/
  | decrypt (e : DecryptError)
  /-- `encryption key id … is not configured` -/
  | notConfigured (id : List Char)
  deriving DecidableEq, Repr

/-- `key_id or ring.active_key_id`. -/
def resolvedKeyId (ring : Keyring) (keyId : Option (List Char)) : List Char :=
  match keyId with
  | none => ring.activeId.text
  | some text => if text = [] then ring.activeId.text else text

/-- `encrypt_text`, for the nonce it draws. The key id is the default one where none is given; an
id that is not configured is the only error. -/
def encryptTextWith (ring : Keyring) (nonce : Nonce) (plaintext : String)
    (keyId : Option (List Char)) : Except RekeyError String :=
  match ring.get (resolvedKeyId ring keyId) with
  | none => .error (.notConfigured (resolvedKeyId ring keyId))
  | some key =>
    .ok (String.ofList (envelopePrefix ++ (resolvedKeyId ring keyId ++
      ':' :: (Base64.encode nonce.bytes ++
        ':' :: Base64.encode (gcm.encrypt key nonce (utf8 plaintext))))))

/-- `rekey_envelope`, for the nonce it draws: the plaintext is taken out with the ring and sealed
again under a key of the same ring. -/
def rekeyEnvelope (ring : Keyring) (nonce : Nonce) (value : String)
    (targetKeyId : Option (List Char)) : Except RekeyError String :=
  match decryptText gcm ring value with
  | .error e => .error (.decrypt e)
  | .ok plaintext => encryptTextWith gcm ring nonce plaintext targetKeyId

/-- The default is the active key. -/
theorem encryptTextWith_none (ring : Keyring) (nonce : Nonce) (plaintext : String) :
    encryptTextWith gcm ring nonce plaintext none = .ok (encryptText gcm ring nonce plaintext) := by
  have h_active : ring.get (resolvedKeyId ring none) = some ring.activeKey := ring.get_active
  rw [encryptTextWith, h_active]
  rfl

/-- With the id of an entry `encrypt_text` seals under its key. -/
theorem encryptTextWith_some {ring : Keyring} {id : KeyId} {key : Key}
    (h_get : ring.get id.text = some key) (nonce : Nonce) (plaintext : String) :
    encryptTextWith gcm ring nonce plaintext (some id.text) =
      .ok (envelope gcm id key nonce plaintext) := by
  have h_id : resolvedKeyId ring (some id.text) = id.text := if_neg id.text_ne_nil
  rw [encryptTextWith, h_id, h_get]
  rfl

/-- A text that is configured is a key id. -/
theorem KeyTable.exists_keyId {t : KeyTable} {text : List Char} {key : Key}
    (h_get : t.get text = some key) : ∃ id : KeyId, id.text = text := by
  obtain ⟨e, -, h_text, -⟩ := KeyTable.get_iff.mp h_get
  exact ⟨e.1, h_text⟩

/-- A value names a key id, a nonce and a ciphertext: it is an envelope that splits into them. The
key it was made under is not part of it, only the id. -/
structure Names (value : String) (id : List Char) (nonce : Nonce) (ciphertext : Bytes) : Prop where
  isEncryptedValue : isEncryptedValue value = true
  split : ∃ nonceB64 ciphertextB64,
    PyStr.splitMax ':' 4 value.toList =
      ["enc".toList, "v1".toList, id, nonceB64, ciphertextB64] ∧
    Base64.decode nonceB64 = some nonce.bytes ∧ Base64.decode ciphertextB64 = some ciphertext

/-- An envelope names what it was put together from. -/
theorem names_envelope (id : KeyId) (key : Key) (nonce : Nonce) (plaintext : String) :
    Names (envelope gcm id key nonce plaintext) id.text nonce
      (gcm.encrypt key nonce (utf8 plaintext)) where
  isEncryptedValue := isEncryptedValue_envelope gcm id key nonce plaintext
  split := ⟨_, _, splitMax_envelope gcm id key nonce plaintext, Base64.decode_encode _,
    Base64.decode_encode _⟩

/-- A value opens to a plaintext under every accepted configuration that has the key. The
configurations are quantified over as the raw settings a process may be started with, so that what
is said here holds of every later deployment too. -/
def OpensWith (id : List Char) (key : Key) (value plaintext : String) : Prop :=
  ∀ rawKeys activeKeyId ring, parseKeyring rawKeys activeKeyId = .ok ring →
    ring.get id = some key → decryptText gcm ring value = .ok plaintext

/-- An envelope does. -/
theorem opensWith_envelope (id : KeyId) (key : Key) (nonce : Nonce) (plaintext : String) :
    OpensWith gcm id.text key (envelope gcm id key nonce plaintext) plaintext :=
  fun _ _ _ _ h_get => decryptText_envelope gcm h_get nonce plaintext

/-- **Rekeying keeps the plaintext**, under any keyring that opens the value. -/
theorem rekeyEnvelope_some {ring : Keyring} {value plaintext : String}
    (h_open : decryptText gcm ring value = .ok plaintext) {target : KeyId} {key : Key}
    (h_get : ring.get target.text = some key) (nonce : Nonce) :
    rekeyEnvelope gcm ring nonce value (some target.text) =
      .ok (envelope gcm target key nonce plaintext) := by
  rw [rekeyEnvelope, h_open]
  exact encryptTextWith_some gcm h_get nonce plaintext

/-- **An envelope outlives the rotation of keys.** What `encrypt_text` makes under a key of an
accepted configuration comes apart into what it was made from, is opened by every accepted
configuration that has the key, and is rekeyed by each of these to any of its ids.

The last part ends with `OpensWith` again, for the rekeyed value: it may be rekeyed in turn, under
a configuration that does not have the first key any more. -/
theorem encryptText_round_trip {rawKeys activeKeyId : Option PyStr} {ring : Keyring}
    (h_parse : parseKeyring rawKeys activeKeyId = .ok ring) {id : List Char} {key : Key}
    (h_get : ring.get id = some key) (nonce : Nonce) (plaintext : String) :
    ∃ value, encryptTextWith gcm ring nonce plaintext (some id) = .ok value ∧
      Names value id nonce (gcm.encrypt key nonce (utf8 plaintext)) ∧
      decryptText gcm ring value = .ok plaintext ∧
      OpensWith gcm id key value plaintext ∧
      ∀ rawKeys' activeKeyId' ring', parseKeyring rawKeys' activeKeyId' = .ok ring' →
        ring'.get id = some key → ∀ target targetKey nonce', ring'.get target = some targetKey →
        ∃ rekeyed, rekeyEnvelope gcm ring' nonce' value (some target) = .ok rekeyed ∧
          Names rekeyed target nonce' (gcm.encrypt targetKey nonce' (utf8 plaintext)) ∧
          decryptText gcm ring' rekeyed = .ok plaintext ∧
          OpensWith gcm target targetKey rekeyed plaintext := by
  -- what is configured is a key id, and so free of colons
  obtain ⟨id, rfl⟩ := KeyTable.exists_keyId h_get
  have h_opens := opensWith_envelope gcm id key nonce plaintext
  refine ⟨_, encryptTextWith_some gcm h_get nonce plaintext, names_envelope .., ?_, h_opens, ?_⟩
  · exact h_opens _ _ ring h_parse h_get
  · intro rawKeys' activeKeyId' ring' h_parse' h_get' target targetKey nonce' h_target
    obtain ⟨target, rfl⟩ := KeyTable.exists_keyId h_target
    have h_open' := h_opens _ _ ring' h_parse' h_get'
    -- a rekeyed envelope is an envelope like any other
    have h_rekeyed := opensWith_envelope gcm target targetKey nonce' plaintext
    exact ⟨_, rekeyEnvelope_some gcm h_open' h_target nonce', names_envelope ..,
      h_rekeyed _ _ ring' h_parse' h_target, h_rekeyed⟩

/-- The entry of a key that comes later. -/
def laterEntry : PaddedEntry := .bare ⟨['c'], rfl⟩ ⟨List.replicate 32 8, rfl⟩

/-- A configuration of both keys, and one of the later key. -/
theorem parseKeyring_later :
    (∃ ring, parseKeyring (some (rawKeys (sampleConfig ++ [laterEntry]))) (some (ofChars ['c'])) =
      .ok ring ∧ ring.get ['a'] = some sampleKey ∧ ring.get ['c'] = some laterEntry.key) ∧
    ∃ ring, parseKeyring (some (rawKeys [laterEntry])) (some (ofChars ['c'])) = .ok ring ∧
      ring.get ['c'] = some laterEntry.key := by
  obtain ⟨both, h_both, h_get⟩ := exists_parseKeyring (sampleConfig ++ [laterEntry])
    (List.cons_ne_nil _ _) (by decide) (by decide)
    (show laterEntry.id ∈ _ from List.mem_cons_of_mem _ List.mem_cons_self)
  obtain ⟨later, h_later, h_get'⟩ := exists_parseKeyring [laterEntry]
    (List.cons_ne_nil _ _) (by decide) (by decide) (show laterEntry.id ∈ _ from List.mem_cons_self)
  exact ⟨⟨both, h_both, h_get _ List.mem_cons_self,
    h_get _ (List.mem_cons_of_mem _ List.mem_cons_self)⟩, later, h_later,
    h_get' _ List.mem_cons_self⟩

/-- An envelope of the first key is rekeyed to a later one, and opened where there is only that. -/
theorem encryptText_round_trip_sample :
    ∃ value rekeyed both later,
      encryptTextWith sampleGcm sampleRing sampleNonce "x" (some ['a']) = .ok value ∧
      parseKeyring (some (rawKeys (sampleConfig ++ [laterEntry]))) (some (ofChars ['c'])) =
        .ok both ∧
      rekeyEnvelope sampleGcm both sampleNonce value (some ['c']) = .ok rekeyed ∧
      parseKeyring (some (rawKeys [laterEntry])) (some (ofChars ['c'])) = .ok later ∧
      decryptText sampleGcm later rekeyed = .ok "x" := by
  obtain ⟨⟨both, h_both, h_first, h_second⟩, later, h_later, h_get⟩ := parseKeyring_later
  -- sealed where there is one key, and rekeyed where there are both
  obtain ⟨value, h_value, -, -, -, h_rekey⟩ :=
    encryptText_round_trip sampleGcm parseKeyring_sample (show sampleRing.get ['a'] = _ from rfl)
      sampleNonce "x"
  obtain ⟨rekeyed, h_rekeyed, -, -, h_opens⟩ :=
    h_rekey _ _ both h_both h_first ['c'] laterEntry.key sampleNonce h_second
  exact ⟨value, rekeyed, both, later, h_value, h_both, h_rekeyed, h_later,
    h_opens _ _ later h_later h_get⟩

end FieldEncryption
end FingerprintHub
