import FingerprintHub.Crypto.Keyring
import FingerprintHub.Crypto.Migration

/-!
# How decryption fails

`decrypt_text_field` goes through a split, two base64 decodes, a length check, the AEAD and a
text decode. Every failure on this way is turned into a `FieldDecryptionError`, except that of
the last step: a ciphertext that authenticates to bytes which are not UTF-8 raises the
`UnicodeDecodeError` of `bytes.decode`. `Authentic` says which strings come as far as that, and
`decryptText_of_authentic` and `authentic_or_field` what becomes of these and of the others.
-/

namespace FingerprintHub
namespace FieldEncryption

open Base64 (Bytes)

/-- What `decrypt_text_field` may raise. -/
inductive TextFieldError where
  /-- `encrypted text field is not encrypted` -/
  | notEncrypted
  /-- what `decrypt_text` raises -/
  | decryptText (e : DecryptError)
  deriving DecidableEq, Repr

/-- The exceptions that are a `FieldDecryptionError`. -/
def TextFieldError.isFieldDecryptionError : TextFieldError → Bool
  | .notEncrypted => true
  | .decryptText (.field _) => true
  | .decryptText .unicodeDecode => false

variable (gcm : AesGcm) (ring : Keyring)

/-- `decrypt_text_field`. A value without the prefix is refused here already, with a message of
its own. -/
def decryptTextField (value : Option String) : Except TextFieldError (Option String) :=
  match value with
  | none => .ok none
  | some v =>
    if !isEncryptedValue v then .error .notEncrypted
    else
      match decryptText gcm ring v with
      | .error e => .error (.decryptText e)
      | .ok text => .ok (some text)

/-- A value is `enc:v1:`, a key id, the base64 of twelve bytes and the base64 of a ciphertext that
authenticates under the key id, to some bytes. This is everything `decrypt_text` checks, save that
the bytes have to be UTF-8. -/
def Authentic (value : String) (plaintext : Bytes) : Prop :=
  ∃ (id nonceB64 ciphertextB64 : List Char) (key : Key) (nonce : Nonce) (ciphertext : Bytes),
    value.toList = envelopePrefix ++ (id ++ ':' :: (nonceB64 ++ ':' :: ciphertextB64)) ∧
    ring.get id = some key ∧ Base64.decode nonceB64 = some nonce.bytes ∧
    Base64.decode ciphertextB64 = some ciphertext ∧
    gcm.decrypt key nonce ciphertext = some plaintext

variable {gcm ring} {value : String}

/-- A value is split into five parts, none but the last with a colon in it, or it is no envelope.
The first two parts are the prefix, which was tested before. -/
theorem splitMax_value (h : isEncryptedValue value = true) :
    (∃ id nonceB64 ciphertextB64,
      value.toList = envelopePrefix ++ (id ++ ':' :: (nonceB64 ++ ':' :: ciphertextB64)) ∧
      PyStr.splitMax ':' 4 value.toList =
        ["enc".toList, "v1".toList, id, nonceB64, ciphertextB64]) ∨
    (PyStr.splitMax ':' 4 value.toList).length ≠ 5 := by
  rw [isEncryptedValue, List.isPrefixOf_iff_prefix] at h
  obtain ⟨t, h_t⟩ := h
  have h_split : PyStr.splitMax ':' 4 value.toList =
      "enc".toList :: "v1".toList :: PyStr.splitMax ':' 2 t := by
    rw [← h_t]
    exact splitMax_prefixed t
  rw [h_split]
  by_cases h_length : (PyStr.splitMax ':' 2 t).length = 3
  · -- the two cuts are at the first two colons of the rest
    obtain ⟨id, nonceB64, ciphertextB64, h_parts⟩ := List.length_eq_three.mp h_length
    obtain ⟨-, rest, rfl, h_rest⟩ := (PyStr.splitMax_eq_cons_iff ':').mp h_parts
    obtain ⟨-, rest', rfl, h_last⟩ := (PyStr.splitMax_eq_cons_iff ':').mp h_rest
    obtain rfl := (List.cons.inj h_last).1
    refine Or.inl ⟨id, nonceB64, rest', h_t.symm, ?_⟩
    rw [h_parts]
  · exact Or.inr (fun h_five => h_length (by simpa using h_five))

/-- The text decode is what is left to do for an authentic value: it passes every check on the
way, and the outcome is that of the last line. -/
theorem decryptText_of_authentic {plaintext : Bytes} (h : Authentic gcm ring value plaintext) :
    decryptText gcm ring value =
      match utf8Decode plaintext with
      | none => .error .unicodeDecode
      | some text => .ok text := by
  obtain ⟨id, nonceB64, ciphertextB64, key, nonce, ciphertext, h_value, h_get, h_nonce,
    h_ciphertext, h_decrypt⟩ := h
  have h_encrypted : isEncryptedValue value = true := by
    rw [isEncryptedValue, List.isPrefixOf_iff_prefix, h_value]
    exact List.prefix_append _ _
  -- an id that is configured has no colon, so the split is where the parts were joined
  have h_id : ':' ∉ id := by
    obtain ⟨e, -, rfl, -⟩ := KeyTable.get_iff.mp h_get
    exact colon_not_mem_keyId e.1
  have h_split : PyStr.splitMax ':' 4 value.toList =
      ["enc".toList, "v1".toList, id, nonceB64, ciphertextB64] := by
    rw [h_value]
    exact splitMax_joined h_id (Base64.colon_not_mem_of_decode h_nonce) ciphertextB64
  have h_length : nonce.bytes.length = nonceBytes := nonce.length_eq
  rw [decryptText, h_encrypted, h_split]
  simp only [h_get, h_nonce, h_ciphertext, dif_pos h_length, h_decrypt]
  rfl

/-- **Every other failure is a `FieldDecryptionError`.** The cases follow the checks of
`decrypt_text` in their order; a value that fails none of them is authentic. -/
theorem authentic_or_field (value : String) :
    (∃ plaintext, Authentic gcm ring value plaintext) ∨
      ∃ e, decryptText gcm ring value = .error (.field e) := by
  by_cases h_encrypted : isEncryptedValue value = true
  swap
  · -- the prefix is missing
    exact Or.inr ⟨.notEnvelope, if_pos (by simpa using h_encrypted)⟩
  rw [decryptText, h_encrypted]
  rcases splitMax_value h_encrypted with ⟨id, nonceB64, ciphertextB64, h_value, h_split⟩ | h_parts
  · simp only [h_split]
    -- five parts: the key id, the two decodes, the length and the AEAD, one after the other
    cases h_get : ring.get id with
    | none => exact Or.inr ⟨.unknownKeyId id, rfl⟩
    | some key =>
      cases h_nonce : Base64.decode nonceB64 with
      | none => exact Or.inr ⟨.badBase64, rfl⟩
      | some nonce =>
        cases h_ciphertext : Base64.decode ciphertextB64 with
        | none => exact Or.inr ⟨.badBase64, rfl⟩
        | some ciphertext =>
          by_cases h_length : nonce.length = nonceBytes
          · cases h_decrypt : gcm.decrypt key ⟨nonce, h_length⟩ ciphertext with
            | none =>
              refine Or.inr ⟨.notAuthentic, ?_⟩
              simp only [dif_pos h_length, h_decrypt]
              rfl
            | some plaintext =>
              exact Or.inl ⟨plaintext, id, nonceB64, ciphertextB64, key, ⟨nonce, h_length⟩,
                ciphertext, h_value, h_get, h_nonce, h_ciphertext, h_decrypt⟩
          · refine Or.inr ⟨.badNonceLength, ?_⟩
            simp only [dif_neg h_length]
            rfl
  · refine Or.inr ⟨.malformed, ?_⟩
    split
    · exact absurd ‹_› (by simp)
    · split
      · next h_five => exact absurd (congrArg List.length h_five) h_parts
      · rfl

/-! ### The three outcomes -/

/-- A value that authenticates to bytes which are not UTF-8. -/
def Undecodable (gcm : AesGcm) (ring : Keyring) (value : String) : Prop :=
  ∃ plaintext, Authentic gcm ring value plaintext ∧ utf8Decode plaintext = none

/-- **What `decrypt_text` comes to**: a text, the `UnicodeDecodeError` or a
`FieldDecryptionError`. All later case distinctions in this module are on these three. -/
theorem decryptText_cases (gcm : AesGcm) (ring : Keyring) (value : String) :
    (∃ plaintext text, Authentic gcm ring value plaintext ∧ utf8Decode plaintext = some text ∧
      decryptText gcm ring value = .ok text) ∨
    (Undecodable gcm ring value ∧ decryptText gcm ring value = .error .unicodeDecode) ∨
    ∃ e, decryptText gcm ring value = .error (.field e) := by
  rcases authentic_or_field value with ⟨plaintext, h_authentic⟩ | h_field
  · have h_text := decryptText_of_authentic h_authentic
    cases h_utf8 : utf8Decode plaintext with
    | none =>
      rw [h_utf8] at h_text
      exact Or.inr (Or.inl ⟨⟨plaintext, h_authentic, h_utf8⟩, h_text⟩)
    | some text =>
      rw [h_utf8] at h_text
      exact Or.inl ⟨plaintext, text, h_authentic, h_utf8, h_text⟩
  · exact Or.inr (Or.inr h_field)

/-- The `UnicodeDecodeError` is raised for exactly the values that authenticate to such bytes. -/
theorem decryptText_eq_unicodeDecode :
    decryptText gcm ring value = .error .unicodeDecode ↔ Undecodable gcm ring value := by
  constructor
  · intro h
    rcases decryptText_cases gcm ring value with
      ⟨plaintext, text, -, -, h_text⟩ | ⟨h_undecodable, -⟩ | ⟨e, h_field⟩
    · exact absurd (h_text.symm.trans h) (by simp)
    · exact h_undecodable
    · exact absurd (h_field.symm.trans h) (by simp)
  · rintro ⟨plaintext, h_authentic, h_utf8⟩
    rw [decryptText_of_authentic h_authentic, h_utf8]

/-- What is no envelope at all is not an encrypted value either. -/
theorem isEncryptedValue_of_ne
    (h : decryptText gcm ring value ≠ .error (.field .notEnvelope)) :
    isEncryptedValue value = true := by
  by_contra h_not
  rw [Bool.not_eq_true] at h_not
  refine h ?_
  rw [decryptText, h_not]
  rfl

/-- `decrypt_text_field` has the three outcomes of `decrypt_text`. -/
theorem decryptTextField_of_ok {text : String} (h : decryptText gcm ring value = .ok text) :
    decryptTextField gcm ring (some value) = .ok (some text) := by
  have h_encrypted := isEncryptedValue_of_ok h
  simp only [decryptTextField, h_encrypted, h]
  rfl

/-- The `UnicodeDecodeError` passes through, -/
theorem decryptTextField_of_unicodeDecode
    (h : decryptText gcm ring value = .error .unicodeDecode) :
    decryptTextField gcm ring (some value) = .error (.decryptText .unicodeDecode) := by
  have h_encrypted : isEncryptedValue value = true :=
    isEncryptedValue_of_ne (fun h_field => absurd (h.symm.trans h_field) (by simp))
  simp only [decryptTextField, h_encrypted, h]
  rfl

/-- and so does a `FieldDecryptionError`, if with another message where the prefix is missing. -/
theorem decryptTextField_of_field {e : FieldDecryptionError}
    (h : decryptText gcm ring value = .error (.field e)) :
    ∃ e', decryptTextField gcm ring (some value) = .error e' ∧
      e'.isFieldDecryptionError = true := by
  cases h_encrypted : isEncryptedValue value with
  | false =>
    refine ⟨.notEncrypted, ?_, rfl⟩
    simp only [decryptTextField, h_encrypted]
    rfl
  | true =>
    refine ⟨.decryptText (.field e), ?_, rfl⟩
    simp only [decryptTextField, h_encrypted, h]
    rfl

/-! ### Callers -/

/-- `_rewrite_column` is aborted by such a value, whichever way it runs. -/
theorem rewrite_of_undecodable (h : Undecodable gcm ring value) (nonce : Nonce) :
    upgradeValue gcm ring nonce value = .error .unicodeDecode ∧
      downgradeValue gcm ring value = .error .unicodeDecode := by
  have h_text := decryptText_eq_unicodeDecode.mpr h
  have h_encrypted : isEncryptedValue value = true :=
    isEncryptedValue_of_ne (fun h_field => absurd (h_text.symm.trans h_field) (by simp))
  constructor
  · rw [upgradeValue, if_pos h_encrypted, h_text]
  · rw [downgradeValue, h_encrypted, h_text]
    rfl

/-! ### The result -/

/-- `decrypt_text_field` returns the text of an authentic envelope or raises a
`FieldDecryptionError`. Nothing else is returned or raised, and never a stored value as it is. -/
def FailsClosed (gcm : AesGcm) (ring : Keyring) (value : String) : Prop :=
  (∃ text plaintext, decryptTextField gcm ring (some value) = .ok (some text) ∧
    Authentic gcm ring value plaintext ∧ utf8Decode plaintext = some text) ∨
  ∃ e, decryptTextField gcm ring (some value) = .error e ∧ e.isFieldDecryptionError = true

/-- A value on which the `UnicodeDecodeError` gets out does not fail closed. -/
theorem not_failsClosed_of_raises
    (h_raised : decryptTextField gcm ring (some value) = .error (.decryptText .unicodeDecode)) :
    ¬ FailsClosed gcm ring value := by
  rintro (⟨text, plaintext, h_ok, -⟩ | ⟨e, h_error, h_e⟩)
  · exact absurd (h_raised.symm.trans h_ok) (by simp)
  · obtain rfl := Except.error.inj (h_raised.symm.trans h_error)
    exact absurd h_e (by decide)

/-- **Decryption fails closed** under every accepted configuration, for exactly the strings that
do not authenticate to bytes which are not UTF-8. `encrypt_text` makes no such string, since it
encrypts what it has encoded itself; it takes another program with the same key. -/
theorem decryptTextField_failsClosed_iff (gcm : AesGcm) :
    ∀ rawKeys activeKeyId ring, parseKeyring rawKeys activeKeyId = .ok ring →
      ∀ value, FailsClosed gcm ring value ↔ ¬ Undecodable gcm ring value := by
  intro rawKeys activeKeyId ring _ value
  constructor
  · -- what is not UTF-8 raises what is not a `FieldDecryptionError`
    intro h_closed h_undecodable
    have h_text := decryptText_eq_unicodeDecode.mpr h_undecodable
    exact not_failsClosed_of_raises (decryptTextField_of_unicodeDecode h_text) h_closed
  · intro h_decodable
    -- of the three outcomes the one that gets out is excluded
    rcases decryptText_cases gcm ring value with
      ⟨plaintext, text, h_authentic, h_utf8, h_text⟩ | ⟨h_undecodable, -⟩ | ⟨e, h_field⟩
    · exact Or.inl ⟨text, plaintext, decryptTextField_of_ok h_text, h_authentic, h_utf8⟩
    · exact absurd h_undecodable h_decodable
    · exact Or.inr (decryptTextField_of_field h_field)

/-- An envelope of `x`. -/
theorem decryptTextField_failsClosed_sample :
    FailsClosed sampleGcm sampleRing "enc:v1:a:AAAAAAAAAAAAAAAA:tvibg6SOfSwAI6s7kGFCFqU=" := by
  refine (decryptTextField_failsClosed_iff sampleGcm _ _ sampleRing parseKeyring_sample _).mpr ?_
  rw [← decryptText_eq_unicodeDecode]
  decide +kernel

/-! ### Bytes that are not UTF-8 -/

/-- What AES-256-GCM makes of the byte `0xff` under the key and the nonce of zeros. -/
def byteCiphertext : Bytes :=
  [49, 54, 99, 99, 212, 208, 185, 160, 99, 96, 130, 242, 199, 251, 3, 137, 90]

/-- An AEAD for concrete runs that is AES-256-GCM on this byte too. -/
def byteGcm : AesGcm where
  encrypt := fun key nonce data =>
    if key = sampleKey ∧ nonce = sampleNonce ∧ data = [0xff] then byteCiphertext
    else sampleGcm.encrypt key nonce data
  decrypt := fun key nonce ciphertext =>
    if ciphertext = byteCiphertext then
      if key = sampleKey ∧ nonce = sampleNonce then some [0xff] else none
    else sampleGcm.decrypt key nonce ciphertext
  decrypt_encrypt := by
    intro key nonce data
    by_cases h : key = sampleKey ∧ nonce = sampleNonce ∧ data = [0xff]
    · -- the byte itself
      rw [if_pos h, if_pos rfl, if_pos ⟨h.1, h.2.1⟩, h.2.2]
    · -- the other ciphertexts end otherwise
      have h_last : (sampleGcm.encrypt key nonce data).getLast? ≠ some 90 := by
        show (if _ then sampleCiphertext else data ++ sampleTag).getLast? ≠ some 90
        split
        · decide
        · rw [List.getLast?_append_of_ne_nil _ (by decide)]
          decide
      have h_ne : sampleGcm.encrypt key nonce data ≠ byteCiphertext := by
        intro h_eq
        rw [h_eq] at h_last
        exact h_last rfl
      rw [if_neg h, if_neg h_ne]
      exact sampleGcm.decrypt_encrypt key nonce data

/-- **A value that authenticates to the byte `0xff`** raises the `UnicodeDecodeError`. -/
theorem decryptTextField_raises :
    let value := "enc:v1:a:AAAAAAAAAAAAAAAA:MTZjY9TQuaBjYILyx/sDiVo="
    parseKeyring (some (rawKeys sampleConfig)) (some (ofChars ['a'])) = .ok sampleRing ∧
      decryptTextField byteGcm sampleRing (some value) = .error (.decryptText .unicodeDecode) ∧
      ¬ FailsClosed byteGcm sampleRing value := by
  intro value
  have h_raised : decryptTextField byteGcm sampleRing (some value) =
      .error (.decryptText .unicodeDecode) := by decide +kernel
  exact ⟨parseKeyring_sample, h_raised, not_failsClosed_of_raises h_raised⟩

end FieldEncryption
end FingerprintHub
