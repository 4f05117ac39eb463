import Mathlib.Data.List.Nodup
import FingerprintHub.Library.Base64
import FingerprintHub.Library.PyText

/-!
# `utils/field_encryption.py`

The envelope `enc:v1:<key_id>:<nonce_b64>:<ciphertext_b64>` of the sensitive columns,
and the keyring it is opened with.

The AEAD of `cryptography` is not part of the repository: `AesGcm` is a parameter,
of which only the law is used that decryption inverts encryption under the same
key and nonce. A key id and a key carry the checks of `parse_keyring`, and a
`Keyring` carries what it promises: no id twice, no key twice, the active id among
the ids.
-/

namespace FingerprintHub
namespace FieldEncryption

open Base64 (Bytes)

/-! ### Keys -/

/-- `KEY_BYTES`. -/
def keyBytes : ℕ := 32

/-- `NONCE_BYTES`. -/
def nonceBytes : ℕ := 12

/-- A character of the class `[A-Za-z0-9_.-]`. -/
def keyIdChar (c : Char) : Bool :=
  ('A' ≤ c && c ≤ 'Z') || ('a' ≤ c && c ≤ 'z') || ('0' ≤ c && c ≤ '9') || c = '_' || c = '.' ||
    c = '-'

/-- `_KEY_ID_RE.fullmatch`. -/
def isKeyId (t : List Char) : Bool := 1 ≤ t.length && t.length ≤ 64 && t.all keyIdChar

/-- A key id: a text that matches `_KEY_ID_RE`. -/
structure KeyId where
  text : List Char
  isKeyId : isKeyId text = true
  deriving DecidableEq

/-- The bytes of an AES-256 key. -/
structure Key where
  bytes : Bytes
  length_eq : bytes.length = keyBytes
  deriving DecidableEq

/-- The bytes of a nonce. -/
structure Nonce where
  bytes : Bytes
  length_eq : bytes.length = nonceBytes
  deriving DecidableEq

theorem colon_not_mem_keyId (id : KeyId) : ':' ∉ id.text := by
  intro h_mem
  have h_id := id.isKeyId
  rw [isKeyId, Bool.and_eq_true, List.all_eq_true] at h_id
  exact absurd (h_id.2 ':' h_mem) (by decide)

/-- The AEAD of `cryptography`: `AESGCM(key).encrypt(nonce, data, None)` and `.decrypt(nonce,
data, None)`, where `none` is the exception `InvalidTag`. Of the cipher itself only the law is
assumed that decryption inverts encryption. -/
structure AesGcm where
  encrypt : Key → Nonce → Bytes → Bytes
  decrypt : Key → Nonce → Bytes → Option Bytes
  decrypt_encrypt : ∀ key nonce data, decrypt key nonce (encrypt key nonce data) = some data

/-! ### The keyring -/

/-- The dictionaries `keys` and `key_material_ids` of `parse_keyring`: the entries read so far, in
their order. The loop refuses a second entry with the same id or the same key, so that no table
with a repetition is ever built; the structure carries this. -/
structure KeyTable where
  entries : List (KeyId × Key)
  nodup_ids : (entries.map Prod.fst).Nodup
  nodup_keys : (entries.map Prod.snd).Nodup

namespace KeyTable

/-- No entry. -/
def empty : KeyTable := ⟨[], List.nodup_nil, List.nodup_nil⟩

/-- `keys.get(key_id)`. -/
def get (t : KeyTable) (id : List Char) : Option Key :=
  (t.entries.find? (fun e => e.1.text = id)).map Prod.snd

/-- `key_material_ids.get(decoded_key)`. -/
def idOf (t : KeyTable) (key : Key) : Option KeyId :=
  (t.entries.find? (fun e => e.2 = key)).map Prod.fst

/-- `keys[key_id] = decoded_key` for a new id and a new key. -/
def add (t : KeyTable) (id : KeyId) (key : Key) (h_id : t.get id.text = none)
    (h_key : t.idOf key = none) : KeyTable where
  entries := t.entries ++ [(id, key)]
  nodup_ids := by
    rw [get, Option.map_eq_none_iff, List.find?_eq_none] at h_id
    rw [List.map_append]
    refine List.Nodup.append t.nodup_ids (List.nodup_singleton _) ?_
    intro id' h_mem h_eq
    obtain ⟨e, h_e, rfl⟩ := List.mem_map.mp h_mem
    have h_same : e.1 = id := by simpa using h_eq
    exact h_id e h_e (by simp [h_same])
  nodup_keys := by
    rw [idOf, Option.map_eq_none_iff, List.find?_eq_none] at h_key
    rw [List.map_append]
    refine List.Nodup.append t.nodup_keys (List.nodup_singleton _) ?_
    intro key' h_mem h_eq
    obtain ⟨e, h_e, rfl⟩ := List.mem_map.mp h_mem
    have h_same : e.2 = key := by simpa using h_eq
    exact h_key e h_e (by simp [h_same])

end KeyTable

/-- A `FieldEncryptionKeyring`: key `activeKey` is the entry of `active_key_id`. -/
structure Keyring extends KeyTable where
  activeId : KeyId
  activeKey : Key
  get_active : toKeyTable.get activeId.text = some activeKey

/-- The messages of `FieldEncryptionConfigError` in `parse_keyring`. -/
inductive ConfigError where
  /-- `FINGERPRINTHUB_FIELD_ENCRYPTION_KEYS is required` -/
  | keysRequired
  /-- `FINGERPRINTHUB_FIELD_ENCRYPTION_ACTIVE_KEY_ID is required` -/
  | activeIdRequired
  /-- `… contains an empty key entry` -/
  | emptyEntry
  /-- `… entries must use key_id:base64_key format` -/
  | noColon
  /-- `… key id … must contain only letters, numbers, _, ., or -` -/
  | badKeyId (id : PyStr)
  /-- `… contains duplicate key id …` -/
  | duplicateId (id : KeyId)
  /-- `… entry … is not valid base64` -/
  | badBase64 (id : KeyId)
  /-- `… entry … must decode to 32 bytes` -/
  | badLength (id : KeyId)
  /-- `… contains duplicate key material for key ids … and …` -/
  | duplicateKey (existing id : KeyId)
  /-- `FINGERPRINTHUB_FIELD_ENCRYPTION_ACTIVE_KEY_ID … is not present in …` -/
  | activeIdMissing (active : PyStr)
  deriving DecidableEq

/-- The text of a `str` without code points outside ASCII: `raw.encode("ascii")`. -/
def ascii? (t : PyStr) : Option (List Char) :=
  t.mapM (fun c => if c.val < 0x80 then c.char? else none)

/-- `_decode_base64_key`: what is not base64, text outside ASCII included, and what does not have
the length of a key are refused with different messages. -/
def decodeBase64Key (raw : PyStr) (id : KeyId) : Except ConfigError Key :=
  match (ascii? raw).bind Base64.decode with
  | none => .error (.badBase64 id)
  | some bytes =>
    if h : bytes.length = keyBytes then .ok ⟨bytes, h⟩ else .error (.badLength id)

/-- One round of the loop of `parse_keyring`. The checks stand in the order of the source, so that
an entry with several faults is refused with the message of the first. -/
def parseEntry (t : KeyTable) (rawEntry : PyStr) : Except ConfigError KeyTable :=
  let entry := PyStr.strip rawEntry
  if entry = [] then .error .emptyEntry
  else
    match PyStr.splitMax (CodePoint.ofChar ':') 1 entry with
    | [rawId, rawKey] =>
      match ascii? (PyStr.strip rawId) with
      | none => .error (.badKeyId (PyStr.strip rawId))
      -- the id has to match `_KEY_ID_RE` before it is looked up
      | some text =>
        if h_id : isKeyId text = true then
          let id : KeyId := ⟨text, h_id⟩
          match h_get : t.get id.text with
          | some _ => .error (.duplicateId id)
          | none =>
            match decodeBase64Key (PyStr.strip rawKey) id with
            | .error e => .error e
            | .ok key =>
              -- the same key under two ids is refused too
              match h_of : t.idOf key with
              | some existing => .error (.duplicateKey existing id)
              | none => .ok (t.add id key h_get h_of)
        else .error (.badKeyId (PyStr.strip rawId))
    -- without a colon the split has one part
    | _ => .error .noColon

/-- The loop of `parse_keyring` over the entries. -/
def parseEntries (t : KeyTable) : List PyStr → Except ConfigError KeyTable
  | [] => .ok t
  | entry :: rest =>
    match parseEntry t entry with
    | .error e => .error e
    | .ok t' => parseEntries t' rest

/-- A setting that is not set, or blank. -/
def isBlank (raw : Option PyStr) : Bool :=
  match raw with
  | none => true
  | some t => PyStr.strip t = []

/-- `parse_keyring`. Both settings have to be there; the raw keys are split at commas, and the
active id has to be one of the ids read. -/
def parseKeyring (rawKeys activeKeyId : Option PyStr) : Except ConfigError Keyring :=
  if isBlank rawKeys then .error .keysRequired
  else if isBlank activeKeyId then .error .activeIdRequired
  else
    match parseEntries .empty ((rawKeys.getD []).splitOn (CodePoint.ofChar ',')) with
    | .error e => .error e
    | .ok t =>
      let active := PyStr.strip (activeKeyId.getD [])
      match ascii? active with
      | none => .error (.activeIdMissing active)
      | some text =>
        if h_id : isKeyId text = true then
          match h_get : t.get text with
          | none => .error (.activeIdMissing active)
          | some key =>
            .ok { toKeyTable := t, activeId := ⟨text, h_id⟩, activeKey := key, get_active := h_get }
        else .error (.activeIdMissing active)

/-! ### Envelopes -/

/-- `ENVELOPE_PREFIX`. -/
def envelopePrefix : List Char := "enc:v1:".toList

/-- `text.encode("utf-8")`. -/
def utf8 (text : String) : Bytes := text.toByteArray.data.toList

/-- `bytes.decode("utf-8")`: `none` is the `UnicodeDecodeError`. -/
def utf8Decode (bytes : Bytes) : Option String := String.fromUTF8? ⟨bytes.toArray⟩

theorem utf8Decode_utf8 (text : String) : utf8Decode (utf8 text) = some text := by
  have h_valid : text.toByteArray.IsValidUTF8 := text.isValidUTF8
  unfold utf8Decode utf8 String.fromUTF8?
  rw [Array.toArray_toList, dif_pos h_valid]
  rfl

variable (gcm : AesGcm)

/-- What `encrypt_text` returns for a plaintext under a key of the ring and the nonce it drew: the
prefix, the key id, and the nonce and the ciphertext in base64, joined with colons. -/
def envelope (id : KeyId) (key : Key) (nonce : Nonce) (plaintext : String) : String :=
  String.ofList (envelopePrefix ++ (id.text ++ ':' :: (Base64.encode nonce.bytes ++ ':' ::
    Base64.encode (gcm.encrypt key nonce (utf8 plaintext)))))

/-- `encrypt_text` with the default key id. -/
def encryptText (ring : Keyring) (nonce : Nonce) (plaintext : String) : String :=
  envelope gcm ring.activeId ring.activeKey nonce plaintext

/-- `is_encrypted_value`. -/
def isEncryptedValue (value : String) : Bool := envelopePrefix.isPrefixOf value.toList

/-- The messages of `FieldDecryptionError`. -/
inductive FieldDecryptionError where
  /-- `value is not an encrypted field envelope` -/
  | notEnvelope
  /-- `encrypted field envelope is malformed` -/
  | malformed
  /-- `encrypted field references unknown key id …` -/
  | unknownKeyId (id : List Char)
  /-- `encrypted field envelope contains invalid base64` -/
  | badBase64
  /-- `encrypted field envelope has invalid nonce length` -/
  | badNonceLength
  /-- `encrypted field authentication failed` -/
  | notAuthentic
  deriving DecidableEq, Repr

/-- What `decrypt_text` may raise: a `FieldDecryptionError`, or the
`UnicodeDecodeError` of its last line. -/
inductive DecryptError where
  | field (e : FieldDecryptionError)
  | unicodeDecode
  deriving DecidableEq, Repr

/-- `decrypt_text`. The value has to begin as an envelope does and to split into five parts, the
key id has to be configured, nonce and ciphertext have to be base64, and the ciphertext has to be
authentic. What comes out is decoded outside the `try` of the source, which is why the last error
is not a `FieldDecryptionError`. -/
def decryptText (ring : Keyring) (value : String) : Except DecryptError String :=
  if !isEncryptedValue value then .error (.field .notEnvelope)
  else
    match PyStr.splitMax ':' 4 value.toList with
    | [enc, version, keyId, nonceB64, ciphertextB64] =>
      if enc ≠ "enc".toList ∨ version ≠ "v1".toList then .error (.field .malformed)
      else
        match ring.get keyId with
        | none => .error (.field (.unknownKeyId keyId))
        | some key =>
          match Base64.decode nonceB64, Base64.decode ciphertextB64 with
          -- both parts are decoded before the length of the nonce is looked at
          | some nonce, some ciphertext =>
            if h : nonce.length = nonceBytes then
              match gcm.decrypt key ⟨nonce, h⟩ ciphertext with
              | none => .error (.field .notAuthentic)
              | some plaintext =>
                match utf8Decode plaintext with
                -- the one exception that is not wrapped
                | none => .error .unicodeDecode
                | some text => .ok text
            else .error (.field .badNonceLength)
          | _, _ => .error (.field .badBase64)
    | _ => .error (.field .malformed)

/-- The texts an envelope of `encrypt_text` starts with. -/
theorem isEncryptedValue_envelope (id : KeyId) (key : Key) (nonce : Nonce) (plaintext : String) :
    isEncryptedValue (envelope gcm id key nonce plaintext) = true := by
  rw [isEncryptedValue, envelope, String.toList_ofList, List.isPrefixOf_iff_prefix]
  exact List.prefix_append _ _

/-- The prefix makes the first two parts of a split. -/
theorem splitMax_prefixed (t : List Char) :
    PyStr.splitMax ':' 4 (envelopePrefix ++ t)
      = "enc".toList :: "v1".toList :: PyStr.splitMax ':' 2 t := by
  calc PyStr.splitMax ':' 4 (envelopePrefix ++ t)
      = PyStr.splitMax ':' 4 ("enc".toList ++ ':' :: ("v1".toList ++ ':' :: t)) := rfl
    _ = "enc".toList :: PyStr.splitMax ':' 3 ("v1".toList ++ ':' :: t) :=
        PyStr.splitMax_append ':' (by decide) 3 _
    _ = "enc".toList :: "v1".toList :: PyStr.splitMax ':' 2 t := by
        rw [PyStr.splitMax_append ':' (by decide)]

/-- Three texts joined behind the prefix are split again, if the first two hold no colon. The
third may hold any number of them: the split stops after four. -/
theorem splitMax_joined {id nonceB64 : List Char} (h_id : ':' ∉ id) (h_nonce : ':' ∉ nonceB64)
    (ciphertextB64 : List Char) :
    PyStr.splitMax ':' 4 (envelopePrefix ++ (id ++ ':' :: (nonceB64 ++ ':' :: ciphertextB64)))
      = ["enc".toList, "v1".toList, id, nonceB64, ciphertextB64] := by
  rw [splitMax_prefixed, PyStr.splitMax_append ':' h_id, PyStr.splitMax_append ':' h_nonce]
  rfl

/-- An envelope splits into the five parts it was joined from. -/
theorem splitMax_envelope (id : KeyId) (key : Key) (nonce : Nonce) (plaintext : String) :
    PyStr.splitMax ':' 4 (envelope gcm id key nonce plaintext).toList =
      ["enc".toList, "v1".toList, id.text, Base64.encode nonce.bytes,
        Base64.encode (gcm.encrypt key nonce (utf8 plaintext))] := by
  rw [envelope, String.toList_ofList]
  exact splitMax_joined (colon_not_mem_keyId id) (Base64.colon_not_mem_encode _) _

/-- **Any keyring that maps the key id to the same key opens the envelope.** The other entries of
the ring and its active id do not matter. -/
theorem decryptText_envelope {ring : Keyring} {id : KeyId} {key : Key}
    (h_get : ring.get id.text = some key) (nonce : Nonce) (plaintext : String) :
    decryptText gcm ring (envelope gcm id key nonce plaintext) = .ok plaintext := by
  have h_length : nonce.bytes.length = nonceBytes := nonce.length_eq
  rw [decryptText, isEncryptedValue_envelope]
  simp only [splitMax_envelope, h_get, Base64.decode_encode, dif_pos h_length, gcm.decrypt_encrypt,
    utf8Decode_utf8]
  rfl

/-! ### Sealed columns -/

/-- What a column holds for a plaintext: `NULL` for none, else an envelope under a key of the
list. This is how the rest of the development speaks of ciphertexts: `decryptText` opens what is
sealed, and nothing else is said about the stored text. -/
inductive Sealed (keys : List (KeyId × Key)) : Option String → Option String → Prop
  | null : Sealed keys none none
  | text {k : KeyId × Key} (h_key : k ∈ keys) (nonce : Nonce) (plaintext : String) :
      Sealed keys (some (envelope gcm k.1 k.2 nonce plaintext)) (some plaintext)

namespace Sealed

variable {gcm} {keys keys' : List (KeyId × Key)} {stored plaintext : Option String}

/-- Under more keys no less is sealed. -/
theorem mono (h_keys : ∀ k ∈ keys, k ∈ keys') (h : Sealed gcm keys stored plaintext) :
    Sealed gcm keys' stored plaintext := by
  cases h with
  | null => exact .null
  | text h_key nonce plaintext => exact .text (h_keys _ h_key) nonce plaintext

/-- What `encrypt_text` stores is sealed under the active key. -/
theorem encryptText {ring : Keyring} (h_active : (ring.activeId, ring.activeKey) ∈ keys)
    (nonce : Nonce) (plaintext : Option String) :
    Sealed gcm keys (plaintext.map (FieldEncryption.encryptText gcm ring nonce)) plaintext := by
  cases plaintext with
  | none => exact .null
  | some plaintext => exact .text h_active nonce plaintext

/-- A keyring that has the keys opens what is sealed. -/
theorem decryptText {ring : Keyring} (h_keys : ∀ k ∈ keys, ring.get k.1.text = some k.2)
    {value : String} (h : Sealed gcm keys (some value) plaintext) :
    ∃ t, plaintext = some t ∧ FieldEncryption.decryptText gcm ring value = .ok t := by
  generalize h_value : some value = stored at h
  cases h with
  | null => exact absurd h_value (by simp)
  | text h_key nonce t =>
    obtain rfl := Option.some.inj h_value
    exact ⟨t, rfl, decryptText_envelope gcm (h_keys _ h_key) nonce t⟩

end Sealed

/-! ### A concrete keyring -/

/-- A key of zeros. -/
def sampleKey : Key := ⟨List.replicate 32 0, rfl⟩

/-- A nonce of zeros. -/
def sampleNonce : Nonce := ⟨List.replicate 12 0, rfl⟩

/-- What AES-256-GCM makes of the plaintext `x` under the key and the nonce of zeros. -/
def sampleCiphertext : Bytes :=
  [182, 248, 155, 131, 164, 142, 125, 44, 0, 35, 171, 59, 144, 97, 66, 22, 165]

/-- The bytes that stand for a tag outside the sample. -/
def sampleTag : Bytes := List.replicate 16 0

/-- An AEAD for concrete runs: AES-256-GCM on the plaintext `x` under the key and the nonce of
zeros, and elsewhere a cipher that only appends a tag. -/
def sampleGcm : AesGcm where
  encrypt := fun key nonce data =>
    if key = sampleKey ∧ nonce = sampleNonce ∧ data = [120] then sampleCiphertext
    else data ++ sampleTag
  decrypt := fun key nonce ciphertext =>
    if ciphertext = sampleCiphertext then
      if key = sampleKey ∧ nonce = sampleNonce then some [120] else none
    else if sampleTag.isSuffixOf ciphertext then some (ciphertext.take (ciphertext.length - 16))
    else none
  decrypt_encrypt := by
    intro key nonce data
    by_cases h : key = sampleKey ∧ nonce = sampleNonce ∧ data = [120]
    · -- the sample itself
      rw [if_pos h, if_pos rfl, if_pos ⟨h.1, h.2.1⟩, h.2.2]
    · -- any other plaintext ends with the tag, as the ciphertext of the sample does not
      have h_last : data ++ sampleTag ≠ sampleCiphertext := by
        intro h_eq
        have h_byte := congrArg List.getLast? h_eq
        rw [List.getLast?_append_of_ne_nil _ (by decide)] at h_byte
        exact absurd h_byte (by decide)
      have h_suffix : sampleTag.isSuffixOf (data ++ sampleTag) = true :=
        List.isSuffixOf_iff_suffix.mpr (List.suffix_append _ _)
      have h_take : (data ++ sampleTag).take ((data ++ sampleTag).length - 16) = data := by
        rw [List.length_append]
        exact List.take_left
      rw [if_neg h, if_neg h_last, if_pos h_suffix, h_take]

/-- The keyring of the raw entry `a:AAAA…`. -/
def sampleRing : Keyring where
  entries := [(⟨['a'], rfl⟩, sampleKey)]
  nodup_ids := List.nodup_singleton _
  nodup_keys := List.nodup_singleton _
  activeId := ⟨['a'], rfl⟩
  activeKey := sampleKey
  get_active := rfl

example : decryptText sampleGcm sampleRing
    "enc:v1:a:AAAAAAAAAAAAAAAA:tvibg6SOfSwAI6s7kGFCFqU=" = .ok "x" := by decide +kernel

end FieldEncryption

end FingerprintHub
