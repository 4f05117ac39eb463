import FingerprintHub.Crypto.Decryption
import FingerprintHub.Crypto.Envelope
import FingerprintHub.Library.PyJsonWritable

/-!
# JSON fields

`encrypt_json` seals the compact text that `json.dumps` makes of a value, and
`decrypt_json_field` opens it and reads it with `json.loads`. It turns a `ValueError` of the
reading into a `FieldDecryptionError` as well, so that two exceptions of another kind are left:
the `UnicodeDecodeError` of `decrypt_text`, and the `RecursionError` of a value nested too
deeply.
-/

namespace FingerprintHub
namespace FieldEncryption

open PyJson (DumpsError Writable dumps dumps_encodable_iff encodable_ofString loads loads_dumps
  loads_ne_stuck)

/-- What `encrypt_json` may raise. -/
inductive EncryptJsonError where
  /-- what `json.dumps` raises -/
  | dumps (e : DumpsError)
  /-- the `UnicodeEncodeError` of a surrogate -/
  | unicodeEncode
  deriving DecidableEq, Repr

/-- What `decrypt_json_field` may raise. -/
inductive JsonFieldError where
  /-- `encrypted JSON field is not encrypted` -/
  | notEncrypted
  /-- what `decrypt_text` raises -/
  | decryptText (e : DecryptError)
  /-- `encrypted JSON field contains invalid JSON` -/
  | invalidJson
  /-- `RecursionError` -/
  | recursion
  deriving DecidableEq, Repr

/-- The exceptions that are a `FieldDecryptionError`. -/
def JsonFieldError.isFieldDecryptionError : JsonFieldError → Bool
  | .notEncrypted => true
  | .decryptText (.field _) => true
  | .decryptText .unicodeDecode => false
  | .invalidJson => true
  | .recursion => false

variable (gcm : AesGcm) (ring : Keyring) (depth : ℕ)

/-- `encrypt_json` of anything but `None`. -/
def encryptJsonValue (nonce : Nonce) (value : PyJson) : Except EncryptJsonError String :=
  match dumps .compact depth value with
  | .error e => .error (.dumps e)
  | .ok t =>
    match PyStr.encode t with
    | none => .error .unicodeEncode
    | some text => .ok (encryptText gcm ring nonce text)

/-- `encrypt_json`, where containers may be nested to a depth. -/
def encryptJson (nonce : Nonce) : PyJson → Except EncryptJsonError (Option String)
  | .null => .ok none
  | value => (encryptJsonValue gcm ring depth nonce value).map some

/-- What `decrypt_json_field` makes of a text it has decrypted. -/
def readJsonText (text : String) : Except JsonFieldError PyJson :=
  match loads depth (PyStr.ofString text) with
  | .error .recursion => .error .recursion
  | .error _ => .error .invalidJson
  | .ok value => .ok value

/-- `decrypt_json_field`, where containers may be nested to a depth. -/
def decryptJsonField (stored : Option String) : Except JsonFieldError PyJson :=
  match stored with
  | none => .ok .null
  | some v =>
    if !isEncryptedValue v then .error .notEncrypted
    else
      match decryptText gcm ring v with
      | .error e => .error (.decryptText e)
      | .ok text => readJsonText depth text

variable {gcm ring depth}

theorem decryptJsonField_of_ok {value text : String} (h : decryptText gcm ring value = .ok text) :
    decryptJsonField gcm ring depth (some value) = readJsonText depth text := by
  have h_encrypted := isEncryptedValue_of_ok h
  simp only [decryptJsonField, h_encrypted, h]
  rfl

/-! ### Rekeying -/

/-- A stored value, with the id and the key it is sealed under. -/
structure SealedValue where
  id : List Char
  key : Key
  value : String

/-- The value is rekeyed, any number of times: each time under an accepted configuration that has
the key it was sealed under before. The configurations need not be those of one deployment, and
the key of the beginning may be gone after the first step. -/
inductive Rekeyed (gcm : AesGcm) (start : SealedValue) : SealedValue → Prop
  | refl : Rekeyed gcm start start
  | step {v : SealedValue} (h : Rekeyed gcm start v) {rawKeys activeKeyId : Option PyStr}
      {ring : Keyring} (h_parse : parseKeyring rawKeys activeKeyId = .ok ring)
      (h_get : ring.get v.id = some v.key) {target : List Char} {key : Key}
      (h_target : ring.get target = some key) (nonce : Nonce) {value : String}
      (h_rekey : rekeyEnvelope gcm ring nonce v.value (some target) = .ok value) :
      Rekeyed gcm start ⟨target, key, value⟩

/-- **What opens to a plaintext still does after any number of rekeyings**, under every
configuration that has the key. -/
theorem Rekeyed.opensWith {start v : SealedValue} (h : Rekeyed gcm start v) {plaintext : String}
    (h_start : OpensWith gcm start.id start.key start.value plaintext) :
    OpensWith gcm v.id v.key v.value plaintext := by
  -- along the rekeyings: each opens what it finds, and seals it again
  induction h with
  | refl => exact h_start
  | step h h_parse h_get h_target nonce h_rekey ih =>
    obtain ⟨target, rfl⟩ := KeyTable.exists_keyId h_target
    have h_open := ih _ _ _ h_parse h_get
    rw [rekeyEnvelope_some gcm h_open h_target nonce] at h_rekey
    obtain rfl := Except.ok.inj h_rekey
    exact opensWith_envelope gcm target _ nonce plaintext

/-- An envelope may be rekeyed under a configuration that has its key, to any key of that. -/
theorem rekeyed_envelope {rawKeys activeKeyId : Option PyStr} {ring : Keyring}
    (h_parse : parseKeyring rawKeys activeKeyId = .ok ring) {id target : KeyId} {key key' : Key}
    (h_get : ring.get id.text = some key) (h_target : ring.get target.text = some key')
    (nonce nonce' : Nonce) (text : String) :
    ∃ value, rekeyEnvelope gcm ring nonce' (envelope gcm id key nonce text) (some target.text) =
        .ok value ∧
      Rekeyed gcm ⟨id.text, key, envelope gcm id key nonce text⟩ ⟨target.text, key', value⟩ := by
  have h_open : decryptText gcm ring (envelope gcm id key nonce text) = .ok text :=
    decryptText_envelope gcm h_get nonce text
  have h_rekey := rekeyEnvelope_some gcm h_open h_target nonce'
  exact ⟨_, h_rekey, Rekeyed.refl.step h_parse h_get h_target nonce' h_rekey⟩

/-! ### The round trip -/

/-- A value that was sealed is the text `json.dumps` made of it: a text that is encoded has no
surrogates, and is a string. -/
theorem encryptJsonValue_eq_ok {nonce : Nonce} {v : PyJson} {stored : String}
    (h : encryptJsonValue gcm ring depth nonce v = .ok stored) :
    ∃ text, dumps .compact depth v = .ok (PyStr.ofString text) ∧
      stored = encryptText gcm ring nonce text := by
  unfold encryptJsonValue at h
  split at h
  · exact absurd h (by simp)
  · next t h_dumps =>
    split at h
    · exact absurd h (by simp)
    · next text h_encode =>
      refine ⟨text, ?_, (Except.ok.inj h).symm⟩
      rw [h_dumps, PyStr.eq_ofString_of_encode h_encode]

/-- A value is sealed just when it is written and encoded. -/
theorem exists_encryptJsonValue_iff {nonce : Nonce} {v : PyJson} :
    (∃ stored, encryptJsonValue gcm ring depth nonce v = .ok stored) ↔
      ∃ t, dumps .compact depth v = .ok t ∧ PyStr.Encodable t := by
  constructor
  · rintro ⟨stored, h⟩
    obtain ⟨text, h_dumps, -⟩ := encryptJsonValue_eq_ok h
    exact ⟨_, h_dumps, encodable_ofString text⟩
  · rintro ⟨t, h_dumps, h_encodable⟩
    cases h_text : PyStr.encode t with
    | none => exact absurd h_encodable (PyStr.encode_eq_none_iff.mp h_text)
    | some text =>
      refine ⟨encryptText gcm ring nonce text, ?_⟩
      simp only [encryptJsonValue, h_dumps, h_text]

/-- **A JSON field is read back through every rotation of keys.**

`encrypt_json` returns for the writable values and for no others: those whose integers are short
enough, whose strings and keys have no surrogate, and whose containers are nested no deeper than
`json.dumps` can follow. `None` is stored as `None`. Any other value is stored as an envelope,
which may be rekeyed any number of times and is read as the value under every accepted
configuration that has its key by then, wherever containers may be nested as deeply as where it
was written. -/
theorem encryptJson_round_trip (gcm : AesGcm) {ring : Keyring} {nonce : Nonce} {depth : ℕ}
    {v : PyJson} (h_plain : PyJson.Plain .compact v) :
    ((∃ stored, encryptJson gcm ring depth nonce v = .ok stored) ↔ Writable depth v) ∧
    ∀ stored, encryptJson gcm ring depth nonce v = .ok stored →
      (v = .null ∧ stored = none) ∨
      ∃ value, stored = some value ∧ isEncryptedValue value = true ∧
        ∀ sealed, Rekeyed gcm ⟨ring.activeId.text, ring.activeKey, value⟩ sealed →
          ∀ rawKeys activeKeyId ring', parseKeyring rawKeys activeKeyId = .ok ring' →
            ring'.get sealed.id = some sealed.key → ∀ depth', depth ≤ depth' →
              decryptJsonField gcm ring' depth' (some sealed.value) = .ok v := by
  by_cases h_null : v = .null
  · -- `None` is the one value that is not sealed
    subst h_null
    exact ⟨iff_of_true ⟨none, rfl⟩ .null, fun stored h => Or.inl ⟨rfl, (Except.ok.inj h).symm⟩⟩
  · have h_value : encryptJson gcm ring depth nonce v =
        (encryptJsonValue gcm ring depth nonce v).map some := by
      cases v with
      | null => exact absurd rfl h_null
      | _ => rfl
    -- a value is sealed when it is written and encoded, which is when it is writable
    rw [h_value, ← dumps_encodable_iff h_plain,
      ← @exists_encryptJsonValue_iff gcm ring depth nonce v]
    cases h_sealed : encryptJsonValue gcm ring depth nonce v with
    | error e => simp [Except.map]
    | ok value =>
      refine ⟨iff_of_true ⟨some value, rfl⟩ ⟨value, rfl⟩, fun stored h => Or.inr ?_⟩
      obtain rfl := Except.ok.inj h
      obtain ⟨text, h_dumps, rfl⟩ := encryptJsonValue_eq_ok h_sealed
      have h_opens := opensWith_envelope gcm ring.activeId ring.activeKey nonce text
      refine ⟨_, rfl, isEncryptedValue_envelope gcm _ _ _ _, ?_⟩
      intro sealed h_rekeyed rawKeys activeKeyId ring' h_parse h_get depth' h_depth
      -- the plaintext is still the text that was written, and is read as the value
      have h_text := h_rekeyed.opensWith h_opens rawKeys activeKeyId ring' h_parse h_get
      rw [decryptJsonField_of_ok h_text, readJsonText, loads_dumps h_depth h_plain h_dumps]

/-- `{"a": [null, true]}` is written without spaces, rekeyed to a later key, and read back where
there is only that. -/
theorem encryptJson_round_trip_sample :
    let v : PyJson := .dict [(PyStr.ofString "a", .list [.null, .bool true])]
    ∃ value both rekeyed later,
      encryptJson sampleGcm sampleRing 2 sampleNonce v = .ok (some value) ∧
      parseKeyring (some (rawKeys (sampleConfig ++ [laterEntry]))) (some (ofChars ['c'])) =
        .ok both ∧
      rekeyEnvelope sampleGcm both sampleNonce value (some ['c']) = .ok rekeyed ∧
      parseKeyring (some (rawKeys [laterEntry])) (some (ofChars ['c'])) = .ok later ∧
      decryptJsonField sampleGcm later 3 (some rekeyed) = .ok v := by
  intro v
  -- the value is built from `null`, a bool, a string and containers of these
  have h_plain : PyJson.Plain .compact v := by
    refine .dict (fun f _ h_ascii => absurd h_ascii (by decide)) (fun f h_f => ?_)
    obtain rfl := List.mem_singleton.mp h_f
    refine .list (fun w h_w => ?_)
    rcases List.mem_cons.mp h_w with rfl | h_w
    · exact .null
    · obtain rfl := List.mem_singleton.mp h_w
      exact .bool true
  obtain ⟨text, h_dumps⟩ : ∃ text, dumps .compact 2 v = .ok (PyStr.ofString text) :=
    ⟨"\x7b\x22a\x22:[null,true]\x7d", by decide +kernel⟩
  have h_stored : encryptJson sampleGcm sampleRing 2 sampleNonce v =
      .ok (some (encryptText sampleGcm sampleRing sampleNonce text)) := by
    show (encryptJsonValue sampleGcm sampleRing 2 sampleNonce v).map some = _
    rw [encryptJsonValue, h_dumps]
    dsimp only
    rw [PyStr.encode_ofString]
    rfl
  -- a configuration of both keys, and one of the later key
  obtain ⟨⟨both, h_both, h_first, h_second⟩, later, h_later, h_get⟩ := parseKeyring_later
  obtain ⟨h_null, -⟩ | ⟨value, h_value, -, h_reads⟩ :=
    (encryptJson_round_trip sampleGcm h_plain).2 _ h_stored
  · exact absurd h_null (by simp [v])
  · obtain rfl := Option.some.inj h_value
    obtain ⟨rekeyed, h_rekey, h_rekeyed⟩ := @rekeyed_envelope sampleGcm _ _ both h_both
      sampleRing.activeId laterEntry.id _ _ h_first h_second sampleNonce sampleNonce text
    exact ⟨_, both, rekeyed, later, h_stored, h_both, h_rekey, h_later,
      h_reads _ h_rekeyed _ _ later h_later h_get 3 (by decide)⟩

/-! ### How it fails -/

/-- The text of the value decrypts, and is nested too deeply to be read. -/
def TooDeep (gcm : AesGcm) (ring : Keyring) (depth : ℕ) (value : String) : Prop :=
  ∃ text, decryptText gcm ring value = .ok text ∧
    loads depth (PyStr.ofString text) = .error .recursion

/-- `decrypt_json_field` returns the value of an authentic envelope of a JSON text or raises a
`FieldDecryptionError`. A value that is no JSON is among the latter: the `ValueError` is wrapped.
-/
def JsonFailsClosed (gcm : AesGcm) (ring : Keyring) (depth : ℕ) (value : String) : Prop :=
  (∃ v plaintext text, decryptJsonField gcm ring depth (some value) = .ok v ∧
    Authentic gcm ring value plaintext ∧ utf8Decode plaintext = some text ∧
    loads depth (PyStr.ofString text) = .ok v) ∨
  ∃ e, decryptJsonField gcm ring depth (some value) = .error e ∧ e.isFieldDecryptionError = true

/-- A `FieldDecryptionError` of `decrypt_text` passes through. -/
theorem decryptJsonField_of_field {value : String} {e : FieldDecryptionError}
    (h : decryptText gcm ring value = .error (.field e)) :
    ∃ e', decryptJsonField gcm ring depth (some value) = .error e' ∧
      e'.isFieldDecryptionError = true := by
  cases h_encrypted : isEncryptedValue value with
  | false =>
    refine ⟨.notEncrypted, ?_, rfl⟩
    simp only [decryptJsonField, h_encrypted]
    rfl
  | true =>
    refine ⟨.decryptText (.field e), ?_, rfl⟩
    simp only [decryptJsonField, h_encrypted, h]
    rfl

/-- The `UnicodeDecodeError` of `decrypt_text` passes through, although it is a `ValueError`: the
`try` is around the reading only. -/
theorem decryptJsonField_of_unicodeDecode {value : String}
    (h : decryptText gcm ring value = .error .unicodeDecode) :
    decryptJsonField gcm ring depth (some value) = .error (.decryptText .unicodeDecode) := by
  have h_encrypted : isEncryptedValue value = true :=
    isEncryptedValue_of_ne (fun h_field => absurd (h.symm.trans h_field) (by simp))
  simp only [decryptJsonField, h_encrypted, h]
  rfl

/-- What is raised and is no `FieldDecryptionError` is no failing closed. -/
theorem not_jsonFailsClosed {value : String} {e : JsonFieldError}
    (h : decryptJsonField gcm ring depth (some value) = .error e)
    (h_e : e.isFieldDecryptionError = false) : ¬ JsonFailsClosed gcm ring depth value := by
  rintro (⟨v, plaintext, text, h_ok, -⟩ | ⟨e', h_error, h_e'⟩)
  · exact absurd (h.symm.trans h_ok) (by simp)
  · obtain rfl := Except.error.inj (h.symm.trans h_error)
    rw [h_e] at h_e'
    exact absurd h_e' (by simp)

/-- The `RecursionError` is no `ValueError`, and passes through. -/
theorem decryptJsonField_of_tooDeep {value : String} (h : TooDeep gcm ring depth value) :
    decryptJsonField gcm ring depth (some value) = .error .recursion := by
  obtain ⟨text, h_text, h_loads⟩ := h
  rw [decryptJsonField_of_ok h_text, readJsonText, h_loads]

/-- It fails closed for exactly the strings that are of neither kind. The cases are the three
outcomes of `decrypt_text`, and for a text those of `json.loads`. -/
theorem jsonFailsClosed_iff (gcm : AesGcm) (depth : ℕ) (ring : Keyring) (value : String) :
    JsonFailsClosed gcm ring depth value ↔
      ¬ Undecodable gcm ring value ∧ ¬ TooDeep gcm ring depth value := by
  rcases decryptText_cases gcm ring value with
    ⟨plaintext, text, h_authentic, h_utf8, h_text⟩ | ⟨h_undecodable, h_text⟩ | ⟨e, h_field⟩
  · -- a text: what becomes of it depends on how it is read
    have h_field := @decryptJsonField_of_ok gcm ring depth value text h_text
    have h_decodable : ¬ Undecodable gcm ring value := by
      rw [← decryptText_eq_unicodeDecode, h_text]
      simp
    have h_deep : TooDeep gcm ring depth value ↔
        loads depth (PyStr.ofString text) = .error .recursion := by
      constructor
      · rintro ⟨text', h_text', h_loads⟩
        obtain rfl := Except.ok.inj (h_text.symm.trans h_text')
        exact h_loads
      · exact fun h_loads => ⟨text, h_text, h_loads⟩
    rw [h_deep]
    cases h_loads : loads depth (PyStr.ofString text) with
    | ok v =>
      rw [readJsonText, h_loads] at h_field
      refine ⟨fun _ => ⟨h_decodable, by simp⟩, fun _ => Or.inl ?_⟩
      exact ⟨v, plaintext, text, h_field, h_authentic, h_utf8, h_loads⟩
    | error e =>
      rw [readJsonText, h_loads] at h_field
      cases e with
      | recursion =>
        exact ⟨fun h => absurd h (not_jsonFailsClosed h_field rfl), fun h => absurd rfl h.2⟩
      | decode => exact ⟨fun _ => ⟨h_decodable, by simp⟩, fun _ => Or.inr ⟨_, h_field, rfl⟩⟩
      | digits => exact ⟨fun _ => ⟨h_decodable, by simp⟩, fun _ => Or.inr ⟨_, h_field, rfl⟩⟩
      | stuck => exact absurd h_loads (loads_ne_stuck _ _)
  · -- no text: the exception gets out
    have h_field := @decryptJsonField_of_unicodeDecode gcm ring depth value h_text
    exact ⟨fun h => absurd h (not_jsonFailsClosed h_field rfl),
      fun h => absurd h_undecodable h.1⟩
  · -- a `FieldDecryptionError`, so the value is of neither kind
    refine ⟨fun _ => ⟨?_, ?_⟩, fun _ => Or.inr (decryptJsonField_of_field h_field)⟩
    · rw [← decryptText_eq_unicodeDecode, h_field]
      simp
    · rintro ⟨text, h_text, -⟩
      exact absurd (h_field.symm.trans h_text) (by simp)

/-- **Decryption of a JSON field fails closed** for exactly the strings that authenticate neither
to bytes which are not UTF-8 nor to a text that is nested too deeply. It lets a
`UnicodeDecodeError` out for the first kind, and a `RecursionError` for the second. -/
theorem decryptJsonField_failsClosed_iff (gcm : AesGcm) (depth : ℕ) (ring : Keyring)
    (value : String) :
    (JsonFailsClosed gcm ring depth value ↔
      ¬ Undecodable gcm ring value ∧ ¬ TooDeep gcm ring depth value) ∧
    (Undecodable gcm ring value →
      decryptJsonField gcm ring depth (some value) = .error (.decryptText .unicodeDecode)) ∧
    (TooDeep gcm ring depth value →
      decryptJsonField gcm ring depth (some value) = .error .recursion) :=
  ⟨jsonFailsClosed_iff gcm depth ring value,
    fun h => decryptJsonField_of_unicodeDecode (decryptText_eq_unicodeDecode.mpr h),
    decryptJsonField_of_tooDeep⟩

end FieldEncryption
end FingerprintHub
