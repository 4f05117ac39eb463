import FingerprintHub.Crypto.FieldEncryption

/-!
# What `parse_keyring` accepts

`parse_keyring` reads a text of entries `key_id:base64_key` separated by commas, with
whitespace allowed around entries, ids and keys. `Reads` says what one entry stands for, and
`parseKeyring_iff` that a text is accepted exactly when every entry stands for a pair, no id
and no key comes twice, and the active id is among the ids. The keyring is then the list of
these pairs, in their order.

A text that joins entries of `generate_key_entry` is therefore read back as it was written.
-/

namespace FingerprintHub
namespace FieldEncryption

open Base64 (Bytes)

/-- A text of characters, as a `str`. -/
def ofChars (text : List Char) : PyStr := text.map CodePoint.ofChar

/-- `generate_key_entry`, for the token it draws: `none` is the `FieldEncryptionConfigError`. -/
def generateKeyEntry (keyId : PyStr) (token : Key) : Option PyStr :=
  match ascii? keyId with
  | none => none
  | some text =>
    if isKeyId text = true then
      some (keyId ++ CodePoint.ofChar ':' :: ofChars (Base64.encode token.bytes))
    else none

/-! ### ASCII text -/

/-- An ASCII text is encoded as itself. -/
theorem ascii?_ofChars {text : List Char} (h : ∀ c ∈ text, c.toNat < 0x80) :
    ascii? (ofChars text) = some text := by
  unfold ascii? ofChars
  induction text with
  | nil => rfl
  | cons c text ih =>
    have h_c : (CodePoint.ofChar c).val < 0x80 := h c List.mem_cons_self
    have h_text := ih (fun c' h_c' => h c' (List.mem_cons_of_mem _ h_c'))
    rw [List.map_cons, List.mapM_cons, if_pos h_c, CodePoint.char?_ofChar, h_text]
    rfl

/-- An ASCII character that is neither whitespace nor a separator of the configuration. -/
structure Plain (c : Char) : Prop where
  ascii : c.toNat < 0x80
  notSpace : PyStr.isSpace (CodePoint.ofChar c) = false
  notColon : c ≠ ':'
  notComma : c ≠ ','

/-- The characters of key ids are plain: none of them can be taken for the end of the id, of the
entry, or for space around it. -/
theorem plain_of_keyIdChar {c : Char} (h : keyIdChar c = true) : Plain c := by
  have h_ascii : c.toNat < 128 := by
    have h_le : ∀ c' : Char, c ≤ c' → c.toNat ≤ c'.toNat := fun _ h => h
    simp only [keyIdChar, Bool.or_eq_true, Bool.and_eq_true, decide_eq_true_eq] at h
    -- the three ranges by their upper ends, the three single characters as they are
    rcases h with ((((⟨-, h⟩ | ⟨-, h⟩) | ⟨-, h⟩) | rfl) | rfl) | rfl
    · exact (h_le _ h).trans_lt (by decide)
    · exact (h_le _ h).trans_lt (by decide)
    · exact (h_le _ h).trans_lt (by decide)
    · decide
    · decide
    · decide
  -- below 128 the rest is a table
  have h_table : ∀ n : Fin 128, keyIdChar (Char.ofNat n) = true →
      PyStr.isSpace (CodePoint.ofChar (Char.ofNat n)) = false ∧ Char.ofNat n ≠ ':' ∧
        Char.ofNat n ≠ ',' := by decide
  have h_c := h_table ⟨c.toNat, h_ascii⟩
  rw [Char.ofNat_toNat] at h_c
  obtain ⟨h_space, h_colon, h_comma⟩ := h_c h
  exact ⟨h_ascii, h_space, h_colon, h_comma⟩

theorem plain_keyId (id : KeyId) : ∀ c ∈ id.text, Plain c := by
  intro c h_c
  have h_id := id.isKeyId
  rw [isKeyId, Bool.and_eq_true, List.all_eq_true] at h_id
  exact plain_of_keyIdChar (h_id.2 c h_c)

/-- So are those of base64, the padding included. -/
theorem plain_of_mem_encode {bytes : Bytes} {c : Char} (h : c ∈ Base64.encode bytes) :
    Plain c := by
  have h_table : ∀ n : Fin 64, (Base64.digit n).toNat < 0x80 ∧
      PyStr.isSpace (CodePoint.ofChar (Base64.digit n)) = false ∧ Base64.digit n ≠ ':' ∧
        Base64.digit n ≠ ',' := by decide
  rcases Base64.digit_or_pad_of_mem_encode h with rfl | ⟨n, h_n, rfl⟩
  · exact ⟨by decide, by decide, by decide, by decide⟩
  · obtain ⟨h_ascii, h_space, h_colon, h_comma⟩ := h_table ⟨n, h_n⟩
    exact ⟨h_ascii, h_space, h_colon, h_comma⟩

/-! ### One entry -/

/-- An entry of the raw keys stands for a key id and a key: they are what is left and right of its
first colon, without the whitespace around them. The definition does not mention the loop or its
messages; `parseEntry_iff` is the bridge. -/
def Reads (piece : PyStr) (e : KeyId × Key) : Prop :=
  ∃ rawId rawKey, PyStr.splitMax (CodePoint.ofChar ':') 1 (PyStr.strip piece) = [rawId, rawKey] ∧
    ascii? (PyStr.strip rawId) = some e.1.text ∧
    (ascii? (PyStr.strip rawKey)).bind Base64.decode = some e.2.bytes

/-- A key is accepted exactly when its text decodes to its bytes. -/
theorem decodeBase64Key_iff {raw : PyStr} {id : KeyId} {key : Key} :
    decodeBase64Key raw id = .ok key ↔ (ascii? raw).bind Base64.decode = some key.bytes := by
  unfold decodeBase64Key
  cases (ascii? raw).bind Base64.decode with
  | none => simp
  | some bytes =>
    dsimp only
    constructor
    · intro h
      split at h
      · -- the length that was checked is the one a key carries
        obtain rfl := Except.ok.inj h
        rfl
      · exact absurd h (by simp)
    · intro h
      obtain rfl := Option.some.inj h
      exact dif_pos key.length_eq

theorem KeyId.text_inj {id id' : KeyId} : id.text = id'.text ↔ id = id' := by
  cases id
  cases id'
  simp

namespace KeyTable

theorem ext {t t' : KeyTable} (h : t.entries = t'.entries) : t = t' := by
  cases t; cases t'; cases h; rfl

theorem get_eq_none {t : KeyTable} {id : KeyId} :
    t.get id.text = none ↔ ∀ e ∈ t.entries, e.1 ≠ id := by
  rw [get, Option.map_eq_none_iff, List.find?_eq_none]
  refine forall₂_congr (fun e _ => ?_)
  rw [decide_eq_true_eq, KeyId.text_inj]

theorem idOf_eq_none {t : KeyTable} {key : Key} :
    t.idOf key = none ↔ ∀ e ∈ t.entries, e.2 ≠ key := by
  rw [idOf, Option.map_eq_none_iff, List.find?_eq_none]
  refine forall₂_congr (fun e _ => ?_)
  rw [decide_eq_true_eq]

end KeyTable

/-- **One entry is accepted** when it stands for a pair whose id and key are new, and the pair is
then added behind the others. -/
theorem parseEntry_iff {t t' : KeyTable} {piece : PyStr} :
    parseEntry t piece = .ok t' ↔ ∃ e, Reads piece e ∧ (∀ e' ∈ t.entries, e'.1 ≠ e.1) ∧
      (∀ e' ∈ t.entries, e'.2 ≠ e.2) ∧ t'.entries = t.entries ++ [e] := by
  constructor
  · intro h
    -- every check that fails returns an error, so all of them were passed
    unfold parseEntry at h
    simp only at h
    split at h
    · exact absurd h (by simp)
    split at h
    · next rawId rawKey h_split =>
      split at h
      · exact absurd h (by simp)
      · next text h_text =>
        split at h
        · next h_id =>
          split at h
          · exact absurd h (by simp)
          · next h_get =>
            split at h
            · exact absurd h (by simp)
            · next key h_key =>
              split at h
              · exact absurd h (by simp)
              · next h_of =>
                obtain rfl := Except.ok.inj h
                exact ⟨(⟨text, h_id⟩, key), ⟨rawId, rawKey, h_split, h_text,
                  decodeBase64Key_iff.mp h_key⟩, KeyTable.get_eq_none.mp h_get,
                  KeyTable.idOf_eq_none.mp h_of, rfl⟩
        · exact absurd h (by simp)
    · exact absurd h (by simp)
  · rintro ⟨e, ⟨rawId, rawKey, h_split, h_text, h_key⟩, h_id, h_of, h_entries⟩
    -- an empty text has no colon to be split at
    have h_ne : PyStr.strip piece ≠ [] := by
      intro h_nil
      rw [h_nil] at h_split
      exact absurd h_split (by simp [PyStr.splitMax])
    unfold parseEntry
    -- no check on the way fails: the pattern, the id, the key and its decoding
    simp only [if_neg h_ne, h_split, h_text, dif_pos e.1.isKeyId]
    split
    · next h_some => exact absurd (h_some.symm.trans (KeyTable.get_eq_none.mpr h_id)) (by simp)
    · -- the id is new, and so is the key
      simp only [decodeBase64Key_iff.mpr h_key]
      split
      · next h_some => exact absurd (h_some.symm.trans (KeyTable.idOf_eq_none.mpr h_of)) (by simp)
      · exact congrArg Except.ok (KeyTable.ext h_entries.symm)

/-- **The loop over the entries** appends the pairs they stand for. That none of them comes
twice is what the table it ends with carries. -/
theorem parseEntries_iff {pieces : List PyStr} {t t' : KeyTable} :
    parseEntries t pieces = .ok t' ↔
      ∃ es, List.Forall₂ Reads pieces es ∧ t'.entries = t.entries ++ es := by
  induction pieces generalizing t with
  | nil =>
    constructor
    · intro h
      obtain rfl := Except.ok.inj h
      exact ⟨[], List.Forall₂.nil, (List.append_nil _).symm⟩
    · rintro ⟨es, h_es, h_entries⟩
      obtain rfl := List.forall₂_nil_left_iff.mp h_es
      rw [List.append_nil] at h_entries
      exact congrArg Except.ok (KeyTable.ext h_entries.symm)
  | cons piece pieces ih =>
    constructor
    · intro h
      unfold parseEntries at h
      cases h_piece : parseEntry t piece with
      | error e =>
        rw [h_piece] at h
        exact absurd h (by simp)
      | ok t₁ =>
        rw [h_piece] at h
        obtain ⟨e, h_e, -, -, h_t₁⟩ := parseEntry_iff.mp h_piece
        obtain ⟨es, h_es, h_entries⟩ := ih.mp h
        refine ⟨e :: es, List.Forall₂.cons h_e h_es, ?_⟩
        rw [h_entries, h_t₁, List.append_assoc, List.singleton_append]
    · rintro ⟨es, h_es, h_entries⟩
      obtain ⟨e, es, h_e, h_rest, rfl⟩ := List.forall₂_cons_left_iff.mp h_es
      have h_ids := t'.nodup_ids
      have h_keys := t'.nodup_keys
      rw [h_entries, List.map_append, List.map_cons] at h_ids h_keys
      -- the pair is new, since the table at the end has no pair twice
      have h_new_id : ∀ e' ∈ t.entries, e'.1 ≠ e.1 := fun e' h_e' =>
        (List.nodup_append.mp h_ids).2.2 e'.1 (List.mem_map_of_mem h_e') e.1 List.mem_cons_self
      have h_new_key : ∀ e' ∈ t.entries, e'.2 ≠ e.2 := fun e' h_e' =>
        (List.nodup_append.mp h_keys).2.2 e'.2 (List.mem_map_of_mem h_e') e.2 List.mem_cons_self
      have h_split : t.entries ++ e :: es = (t.entries ++ [e]) ++ es := List.append_cons ..
      -- the table between: a beginning of the last one, and so without repetitions too
      let t₁ : KeyTable :=
        { entries := t.entries ++ [e]
          nodup_ids := by
            have h_nodup := t'.nodup_ids
            rw [h_entries, h_split, List.map_append] at h_nodup
            exact h_nodup.of_append_left
          nodup_keys := by
            have h_nodup := t'.nodup_keys
            rw [h_entries, h_split, List.map_append] at h_nodup
            exact h_nodup.of_append_left }
      have h_first : parseEntry t piece = .ok t₁ :=
        parseEntry_iff.mpr ⟨e, h_e, h_new_id, h_new_key, rfl⟩
      unfold parseEntries
      rw [h_first]
      exact ih.mpr ⟨es, h_rest, h_entries.trans h_split⟩

/-! ### The whole configuration -/

/-- What is looked up is an entry, -/
theorem KeyTable.mem_of_get {t : KeyTable} {id : KeyId} {key : Key}
    (h : t.get id.text = some key) : (id, key) ∈ t.entries := by
  obtain ⟨e, h_e, rfl⟩ := Option.map_eq_some_iff.mp h
  have h_id : e.1 = id := KeyId.text_inj.mp (by simpa using List.find?_some h_e)
  rw [← h_id]
  exact List.mem_of_find?_eq_some h_e

/-- and every entry is found. -/
theorem KeyTable.get_of_mem {t : KeyTable} {e : KeyId × Key} (h : e ∈ t.entries) :
    t.get e.1.text = some e.2 := by
  cases h_get : t.get e.1.text with
  | none => exact absurd rfl (KeyTable.get_eq_none.mp h_get e h)
  | some key =>
    have h_same := List.inj_on_of_nodup_map t.nodup_ids (KeyTable.mem_of_get h_get) h rfl
    rw [← h_same]

/-- Looking up is reading the finite map of the entries. -/
theorem KeyTable.get_iff {t : KeyTable} {text : List Char} {key : Key} :
    t.get text = some key ↔ ∃ e ∈ t.entries, e.1.text = text ∧ e.2 = key := by
  constructor
  · intro h
    obtain ⟨e, h_e, rfl⟩ := Option.map_eq_some_iff.mp h
    exact ⟨e, List.mem_of_find?_eq_some h_e, by simpa using List.find?_some h_e, rfl⟩
  · rintro ⟨e, h_e, rfl, rfl⟩
    exact KeyTable.get_of_mem h_e

theorem KeyId.text_ne_nil (id : KeyId) : id.text ≠ [] := by
  intro h_nil
  have h_id := id.isKeyId
  rw [h_nil] at h_id
  exact absurd h_id (by decide)

theorem Keyring.ext {ring ring' : Keyring} (h_table : ring.toKeyTable = ring'.toKeyTable)
    (h_active : ring.activeId = ring'.activeId) : ring = ring' := by
  obtain ⟨t, id, key, h_get⟩ := ring
  obtain ⟨t', id', key', h_get'⟩ := ring'
  obtain rfl : t = t' := h_table
  obtain rfl : id = id' := h_active
  obtain rfl := Option.some.inj (h_get.symm.trans h_get')
  rfl

theorem isBlank_some {t : PyStr} : isBlank (some t) = true ↔ PyStr.strip t = [] := by
  rw [isBlank, decide_eq_true_eq]

/-- **What `parse_keyring` accepts**: both settings are there, every piece between commas stands
for one entry of the ring, in the same order, and the active id is the stripped text of the second
setting. Since a `Keyring` carries that no id and no key comes twice and that the active id is one
of its ids, these refusals are in the statement too. -/
theorem parseKeyring_iff {rawKeys activeKeyId : Option PyStr} {ring : Keyring} :
    parseKeyring rawKeys activeKeyId = .ok ring ↔
      ∃ raw active, rawKeys = some raw ∧ PyStr.strip raw ≠ [] ∧ activeKeyId = some active ∧
        List.Forall₂ Reads (raw.splitOn (CodePoint.ofChar ',')) ring.entries ∧
        ascii? (PyStr.strip active) = some ring.activeId.text := by
  constructor
  · intro h
    unfold parseKeyring at h
    -- neither setting is blank
    split at h
    · exact absurd h (by simp)
    split at h
    · exact absurd h (by simp)
    next h_raw h_active =>
    cases rawKeys with
    | none => exact absurd rfl h_raw
    | some raw =>
      cases activeKeyId with
      | none => exact absurd rfl h_active
      | some active =>
        simp only [Option.getD_some] at h
        split at h
        · exact absurd h (by simp)
        · next t h_entries =>
          split at h
          · exact absurd h (by simp)
          · next text h_text =>
            split at h
            · split at h
              · exact absurd h (by simp)
              · obtain rfl := Except.ok.inj h
                -- the loop started with no entry, so the table has what was read
                obtain ⟨es, h_es, h_eq⟩ := parseEntries_iff.mp h_entries
                have h_eq : t.entries = es := h_eq
                refine ⟨raw, active, rfl, fun h_nil => h_raw (isBlank_some.mpr h_nil), rfl, ?_,
                  h_text⟩
                rw [h_eq]
                exact h_es
            · exact absurd h (by simp)
  · rintro ⟨raw, active, rfl, h_raw, rfl, h_es, h_text⟩
    -- a blank active id is refused, but it is none: it names a key
    have h_active : PyStr.strip active ≠ [] := by
      intro h_nil
      rw [h_nil] at h_text
      exact ring.activeId.text_ne_nil (Option.some.inj h_text).symm
    have h_entries : parseEntries .empty (raw.splitOn (CodePoint.ofChar ',')) =
        .ok ring.toKeyTable :=
      parseEntries_iff.mpr ⟨ring.entries, h_es, rfl⟩
    unfold parseKeyring
    -- both settings are there, all entries are read, and the id is found
    rw [if_neg (fun h => h_raw (isBlank_some.mp h)), if_neg (fun h => h_active (isBlank_some.mp h))]
    simp only [Option.getD_some, h_entries, h_text, dif_pos ring.activeId.isKeyId]
    split
    · next h_none => exact absurd (h_none.symm.trans ring.get_active) (by simp)
    · exact congrArg Except.ok (Keyring.ext rfl rfl)

/-! ### The round trip -/

/-- Whitespace that may stand around a part of the configuration. -/
structure Blank where
  text : PyStr
  isSpace : ∀ c ∈ text, PyStr.isSpace c = true

/-- An entry of the configuration with the whitespace in it: around the whole, and between its
parts and the colon. -/
structure PaddedEntry where
  id : KeyId
  key : Key
  before : Blank
  afterId : Blank
  beforeKey : Blank
  after : Blank

namespace PaddedEntry

variable (e : PaddedEntry)

/-- The pair the entry is for. -/
def pair : KeyId × Key := (e.id, e.key)

/-- What is left of the colon, -/
def left : PyStr := e.before.text ++ (ofChars e.id.text ++ e.afterId.text)

/-- and what is right of it. -/
def right : PyStr := e.beforeKey.text ++ (ofChars (Base64.encode e.key.bytes) ++ e.after.text)

/-- The text of the entry. -/
def text : PyStr := e.left ++ CodePoint.ofChar ':' :: e.right

end PaddedEntry

/-- The raw keys of a list of entries. -/
def rawKeys (es : List PaddedEntry) : PyStr :=
  [CodePoint.ofChar ','].intercalate (es.map PaddedEntry.text)

/-- No whitespace. -/
def Blank.none : Blank := ⟨[], fun _ h => absurd h List.not_mem_nil⟩

/-- An entry without whitespace. -/
def PaddedEntry.bare (id : KeyId) (key : Key) : PaddedEntry :=
  ⟨id, key, .none, .none, .none, .none⟩

/-- Without whitespace an entry is what `generate_key_entry` prints. -/
theorem generateKeyEntry_eq (id : KeyId) (key : Key) :
    generateKeyEntry (ofChars id.text) key = some (PaddedEntry.bare id key).text := by
  have h_ascii := ascii?_ofChars (fun c h_c => (plain_keyId id c h_c).ascii)
  unfold generateKeyEntry
  simp only [h_ascii, if_pos id.isKeyId]
  simp [PaddedEntry.bare, PaddedEntry.text, PaddedEntry.left, PaddedEntry.right, Blank.none]

/-- A text none of whose characters is whitespace or a separator. It is what key ids and base64
have in common, and all that stripping and splitting need to know of them. -/
theorem isSpace_of_plain {text : List Char} (h : ∀ c ∈ text, Plain c) :
    ∀ c ∈ ofChars text, PyStr.isSpace c = false := by
  intro c h_c
  obtain ⟨ch, h_ch, rfl⟩ := List.mem_map.mp h_c
  exact (h ch h_ch).notSpace

/-- A separator is neither in a plain text nor in whitespace. -/
theorem separator_not_mem {sep : Char} (h_sep : PyStr.isSpace (CodePoint.ofChar sep) = false)
    {text : List Char} (h : sep ∉ text) (b b' : Blank) :
    CodePoint.ofChar sep ∉ b.text ++ (ofChars text ++ b'.text) := by
  have h_blank : ∀ b : Blank, CodePoint.ofChar sep ∉ b.text := fun b h_mem =>
    absurd ((b.isSpace _ h_mem).symm.trans h_sep) (by simp)
  have h_text : CodePoint.ofChar sep ∉ ofChars text := by
    intro h_mem
    obtain ⟨c, h_c, h_eq⟩ := List.mem_map.mp h_mem
    rw [CodePoint.ofChar_injective h_eq] at h_c
    exact h h_c
  simp only [List.mem_append, not_or]
  exact ⟨h_blank b, h_text, h_blank b'⟩

/-- Whitespace around a plain text is stripped, and no more than that. -/
theorem strip_pad {text : List Char} (h : ∀ c ∈ text, Plain c) (b b' : Blank) :
    PyStr.strip (b.text ++ (ofChars text ++ b'.text)) = ofChars text :=
  PyStr.stripBy_pad b.isSpace b'.isSpace
    (fun c h_c => isSpace_of_plain h c (List.mem_of_mem_head? h_c))
    (fun c h_c => isSpace_of_plain h c (List.mem_of_getLast? h_c))

/-- A key is not written as the empty text, so that its last character ends the entry. -/
theorem encode_key_ne_nil (key : Key) : Base64.encode key.bytes ≠ [] := by
  intro h_nil
  have h_bytes : key.bytes = [] := by
    have h_decode := Base64.decode_encode key.bytes
    rw [h_nil] at h_decode
    exact (Option.some.inj h_decode).symm
  have h_length := key.length_eq
  rw [h_bytes] at h_length
  exact absurd h_length (by decide)

/-- What `strip` leaves of an entry. -/
def PaddedEntry.stripped (e : PaddedEntry) : PyStr :=
  (ofChars e.id.text ++ e.afterId.text) ++
    CodePoint.ofChar ':' :: (e.beforeKey.text ++ ofChars (Base64.encode e.key.bytes))

/-- An entry without the whitespace around it. What stands between its parts and the colon is left
to the two other calls of `strip`. -/
theorem strip_text (e : PaddedEntry) : PyStr.strip e.text = e.stripped := by
  have h_text : e.text = e.before.text ++ (e.stripped ++ e.after.text) := by
    simp [PaddedEntry.text, PaddedEntry.left, PaddedEntry.right, PaddedEntry.stripped]
  rw [h_text]
  refine PyStr.stripBy_pad e.before.isSpace e.after.isSpace (fun c h_c => ?_) (fun c h_c => ?_)
  · -- it starts with the key id
    obtain ⟨ch, rest, h_id⟩ := List.exists_cons_of_ne_nil e.id.text_ne_nil
    have h_head : e.stripped.head? = some (CodePoint.ofChar ch) := by
      rw [PaddedEntry.stripped, h_id]
      rfl
    obtain rfl := Option.some.inj (h_head.symm.trans h_c)
    exact (plain_keyId e.id ch (h_id ▸ List.mem_cons_self)).notSpace
  · -- and ends with the key
    have h_encode : ofChars (Base64.encode e.key.bytes) ≠ [] := fun h_nil =>
      encode_key_ne_nil e.key (List.map_eq_nil_iff.mp h_nil)
    have h_last : e.stripped.getLast? = (ofChars (Base64.encode e.key.bytes)).getLast? := by
      rw [PaddedEntry.stripped, ← List.cons_append, ← List.append_assoc,
        List.getLast?_append_of_ne_nil _ h_encode]
    rw [h_last] at h_c
    exact isSpace_of_plain (fun ch => plain_of_mem_encode) c (List.mem_of_getLast? h_c)

/-- **An entry stands for its pair**, whatever whitespace is in it. Left of its first colon is the
id, since no key id contains one, and right of it the key. -/
theorem reads_text (e : PaddedEntry) : Reads e.text e.pair := by
  have h_id := plain_keyId e.id
  have h_key : ∀ c ∈ Base64.encode e.key.bytes, Plain c := fun c => plain_of_mem_encode
  have h_colon : CodePoint.ofChar ':' ∉ ofChars e.id.text ++ e.afterId.text :=
    separator_not_mem (by decide) (fun h_mem => (h_id ':' h_mem).notColon rfl) .none e.afterId
  refine ⟨ofChars e.id.text ++ e.afterId.text,
    e.beforeKey.text ++ ofChars (Base64.encode e.key.bytes), ?_, ?_, ?_⟩
  · -- the first colon is the one between the parts
    rw [strip_text, PaddedEntry.stripped, PyStr.splitMax_append _ h_colon]
    rfl
  · have h_strip := strip_pad h_id .none e.afterId
    rw [Blank.none, List.nil_append] at h_strip
    rw [h_strip]
    exact ascii?_ofChars (fun c h_c => (h_id c h_c).ascii)
  · have h_strip := strip_pad h_key e.beforeKey .none
    rw [Blank.none, List.append_nil] at h_strip
    -- the base64 of a key decodes to the key
    rw [h_strip, ascii?_ofChars (fun c h_c => (h_key c h_c).ascii), Option.bind_some,
      Base64.decode_encode]
    rfl

/-- No entry contains the separator of the entries. -/
theorem comma_not_mem_text (e : PaddedEntry) : CodePoint.ofChar ',' ∉ e.text := by
  have h_id : ',' ∉ e.id.text := fun h_mem => (plain_keyId e.id _ h_mem).notComma rfl
  have h_key : ',' ∉ Base64.encode e.key.bytes := fun h_mem =>
    (plain_of_mem_encode h_mem).notComma rfl
  unfold PaddedEntry.text
  simp only [List.mem_append, List.mem_cons, not_or]
  exact ⟨separator_not_mem (by decide) h_id _ _, by decide, separator_not_mem (by decide) h_key _ _⟩

/-- **What was written is read.** For a list of entries without repetitions, of which one has the
active id, the raw keys of the list are accepted and give the keyring of these entries. The
keyring is built first; that it is accepted is then `parseKeyring_iff`. -/
theorem parseKeyring_rawKeys {es : List PaddedEntry} (h_ne : es ≠ [])
    (h_ids : (es.map (·.id)).Nodup) (h_keys : (es.map (·.key)).Nodup) {active : KeyId}
    (h_active : active ∈ es.map (·.id)) (before after : Blank) :
    ∃ ring, parseKeyring (some (rawKeys es))
        (some (before.text ++ (ofChars active.text ++ after.text))) = .ok ring ∧
      ring.entries = es.map PaddedEntry.pair ∧ ring.activeId = active := by
  -- the key of the active id is the one of its entry
  obtain ⟨e, h_e, rfl⟩ := List.mem_map.mp h_active
  let t : KeyTable :=
    { entries := es.map PaddedEntry.pair
      nodup_ids := by rw [List.map_map]; exact h_ids
      nodup_keys := by rw [List.map_map]; exact h_keys }
  have h_get : t.get e.id.text = some e.key := t.get_of_mem (List.mem_map_of_mem h_e)
  refine ⟨⟨t, e.id, e.key, h_get⟩, parseKeyring_iff.mpr ⟨_, _, rfl, ?_, rfl, ?_, ?_⟩, rfl, rfl⟩
  · -- the first entry contains a colon, which is no whitespace
    intro h_nil
    obtain ⟨first, rest, rfl⟩ := List.exists_cons_of_ne_nil h_ne
    have h_mem : CodePoint.ofChar ':' ∈ rawKeys (first :: rest) := by
      have h_first : CodePoint.ofChar ':' ∈ first.text :=
        List.mem_append_right _ List.mem_cons_self
      cases rest with
      | nil => simpa [rawKeys] using h_first
      | cons second rest => exact List.mem_append_left _ (by simp [h_first])
    exact absurd (PyStr.of_stripBy_eq_nil h_nil _ h_mem) (by decide)
  · -- no entry contains a comma, so that the pieces are the entries
    have h_split : (rawKeys es).splitOn (CodePoint.ofChar ',') = es.map PaddedEntry.text := by
      refine List.splitOn_intercalate _ (fun text h_text => ?_) (by simpa using h_ne)
      obtain ⟨e', -, rfl⟩ := List.mem_map.mp h_text
      exact comma_not_mem_text e'
    rw [h_split]
    show List.Forall₂ Reads (es.map PaddedEntry.text) (es.map PaddedEntry.pair)
    rw [List.forall₂_map_left_iff, List.forall₂_map_right_iff, List.forall₂_same]
    exact fun e' _ => reads_text e'
  · -- the whitespace around the active id is stripped
    rw [strip_pad (plain_keyId e.id)]
    exact ascii?_ofChars (fun c h_c => (plain_keyId e.id c h_c).ascii)

/-- A configuration that is written without whitespace is accepted, and has its keys. This is the
form in which the samples of the other modules are built. -/
theorem exists_parseKeyring (es : List PaddedEntry) (h_ne : es ≠ [])
    (h_ids : (es.map (·.id)).Nodup) (h_keys : (es.map (·.key)).Nodup) {active : KeyId}
    (h_active : active ∈ es.map (·.id)) :
    ∃ ring, parseKeyring (some (rawKeys es)) (some (ofChars active.text)) = .ok ring ∧
      ∀ e ∈ es, ring.get e.id.text = some e.key := by
  obtain ⟨ring, h_parse, h_entries, -⟩ :=
    parseKeyring_rawKeys h_ne h_ids h_keys h_active .none .none
  rw [Blank.none, List.nil_append, List.append_nil] at h_parse
  refine ⟨ring, h_parse, fun e h_e => ?_⟩
  have h_mem : e.pair ∈ ring.entries := by
    rw [h_entries]
    exact List.mem_map_of_mem h_e
  exact ring.get_of_mem h_mem

/-- The configuration of one key. -/
def sampleConfig : List PaddedEntry := [.bare sampleRing.activeId sampleKey]

/-- The configuration of one key is accepted as the sample keyring. -/
theorem parseKeyring_sample :
    parseKeyring (some (rawKeys sampleConfig)) (some (ofChars ['a'])) = .ok sampleRing := by
  have h_active : sampleRing.activeId ∈ sampleConfig.map (·.id) := by decide
  obtain ⟨ring, h_parse, h_entries, h_id⟩ :=
    parseKeyring_rawKeys (List.cons_ne_nil _ _) (by decide) (by decide) h_active .none .none
  have h_ring : ring = sampleRing := Keyring.ext (KeyTable.ext h_entries) h_id
  rw [← h_ring]
  exact h_parse

/-! ### Soundness -/

/-- What is accepted: every piece between two commas stands for one entry, so that none is
dropped, and the ids and the keys are in one-to-one correspondence. The active id is one of the
ids, and the key it goes with is in the ring. -/
structure Accepted (raw active : PyStr) (ring : Keyring) : Prop where
  reads : List.Forall₂ Reads (raw.splitOn (CodePoint.ofChar ',')) ring.entries
  isKeyId : ∀ e ∈ ring.entries, isKeyId e.1.text = true
  keyBytes : ∀ e ∈ ring.entries, e.2.bytes.length = keyBytes
  nodup_ids : (ring.entries.map Prod.fst).Nodup
  nodup_keys : (ring.entries.map Prod.snd).Nodup
  reads_active : ascii? (PyStr.strip active) = some ring.activeId.text
  active_mem : (ring.activeId, ring.activeKey) ∈ ring.entries

/-- Nothing else is accepted. -/
theorem accepted_of_parseKeyring {rawKeys activeKeyId : Option PyStr} {ring : Keyring}
    (h : parseKeyring rawKeys activeKeyId = .ok ring) :
    ∃ raw active, rawKeys = some raw ∧ activeKeyId = some active ∧ Accepted raw active ring := by
  obtain ⟨raw, active, h_raw, -, h_active, h_reads, h_text⟩ := parseKeyring_iff.mp h
  exact ⟨raw, active, h_raw, h_active,
    { reads := h_reads
      isKeyId := fun e _ => e.1.isKeyId
      keyBytes := fun e _ => e.2.length_eq
      nodup_ids := ring.nodup_ids
      nodup_keys := ring.nodup_keys
      reads_active := h_text
      active_mem := KeyTable.mem_of_get ring.get_active }⟩

/-- **The configuration is read as it was written**: a text that joins entries of
`generate_key_entry`, with whitespace anywhere around their parts, gives the map of these entries,
and no other text is accepted for anything but the entries it spells out.

The first part says that `PaddedEntry.bare` is what the generator prints, so that the second,
which lets each of the parts be padded, is about its output. The third needs no such form: it is
about every pair of settings. -/
theorem parseKeyring_faithful :
    (∀ id key, generateKeyEntry (ofChars id.text) key = some (PaddedEntry.bare id key).text) ∧
    (∀ (es : List PaddedEntry) (active : KeyId) (before after : Blank), es ≠ [] →
      (es.map (·.id)).Nodup → (es.map (·.key)).Nodup → active ∈ es.map (·.id) →
      ∃ ring, parseKeyring (some (rawKeys es))
          (some (before.text ++ (ofChars active.text ++ after.text))) = .ok ring ∧
        ring.entries = es.map PaddedEntry.pair ∧
        (∀ text key, ring.get text = some key ↔ ∃ e ∈ es, e.id.text = text ∧ e.key = key) ∧
        ring.activeId = active) ∧
    ∀ rawKeys activeKeyId ring, parseKeyring rawKeys activeKeyId = .ok ring →
      ∃ raw active, rawKeys = some raw ∧ activeKeyId = some active ∧ Accepted raw active ring := by
  refine ⟨generateKeyEntry_eq, fun es active before after h_ne h_ids h_keys h_active => ?_,
    fun _ _ _ h => accepted_of_parseKeyring h⟩
  obtain ⟨ring, h_parse, h_entries, h_id⟩ :=
    parseKeyring_rawKeys h_ne h_ids h_keys h_active before after
  refine ⟨ring, h_parse, h_entries, fun text key => ?_, h_id⟩
  -- to look up in the keyring is to look up in the list it was written from
  rw [KeyTable.get_iff, h_entries]
  constructor
  · rintro ⟨_, h_pair, h_text, h_key⟩
    obtain ⟨e, h_e, rfl⟩ := List.mem_map.mp h_pair
    exact ⟨e, h_e, h_text, h_key⟩
  · rintro ⟨e, h_e, h_text, h_key⟩
    exact ⟨e.pair, List.mem_map_of_mem h_e, h_text, h_key⟩

/-- One space. -/
def Blank.space : Blank where
  text := [CodePoint.ofChar ' ']
  isSpace := by
    intro c h_c
    obtain rfl := List.mem_singleton.mp h_c
    rfl

/-- Two entries, the second with a space after the comma and after its id. -/
def sampleEntries : List PaddedEntry :=
  [.bare sampleRing.activeId sampleKey,
    ⟨⟨['b', '.', '1'], rfl⟩, ⟨List.replicate 32 7, rfl⟩, .space, .space, .none, .none⟩]

theorem parseKeyring_faithful_two :
    ∃ ring, parseKeyring (some (rawKeys sampleEntries))
        (some (Blank.space.text ++ (ofChars ['b', '.', '1'] ++ Blank.none.text))) = .ok ring ∧
      ring.entries.length = 2 ∧ ring.get ['b', '.', '1'] = some ⟨List.replicate 32 7, rfl⟩ := by
  obtain ⟨ring, h_parse, h_entries, h_get, -⟩ :=
    parseKeyring_faithful.2.1 sampleEntries ⟨['b', '.', '1'], rfl⟩ .space .none (by decide)
      (by decide) (by decide) (by decide)
  have h_second : ⟨⟨['b', '.', '1'], rfl⟩, ⟨List.replicate 32 7, rfl⟩, .space, .space, .none,
      .none⟩ ∈ sampleEntries := List.mem_cons_of_mem _ List.mem_cons_self
  exact ⟨ring, h_parse, by rw [h_entries]; rfl, (h_get _ _).mpr ⟨_, h_second, rfl, rfl⟩⟩

end FieldEncryption
end FingerprintHub
