import FingerprintHub.Api.ReadBack

/-!
# How contributions are classified

`contribute_fingerprint` checks four fields of its body and passes the other texts on to
`encrypt_text` and to psycopg, which have their own notion of a text: no surrogate, and no
`U+0000` in a column that is not encrypted. The columns of a triple are indexed together, and an
index has no room for entries of any length. `Valid` is what the handler checks, `Storable` what
the layers below it take. A body that is the one and not the other is answered 500 or 503, and
`contributeFingerprint_classifies` says that there is no other exception.
-/

namespace FingerprintHub

/-- A reader that fails just when `p` does not hold succeeds just when it does. -/
theorem exists_some_iff {α : Type} {o : Option α} {p : Prop} (h : o = none ↔ ¬ p) :
    (∃ x, o = some x) ↔ p := by
  rw [← Option.ne_none_iff_exists', ne_eq, h, not_not]

/-- psycopg takes the text: it encodes as UTF-8 and has no `U+0000`. -/
def PyStr.Sendable (t : PyStr) : Prop :=
  PyStr.Encodable t ∧ CodePoint.ofChar (Char.ofNat 0) ∉ t

/-- psycopg raises on the other texts, and on no more than those. -/
theorem sqlText_eq_none_iff {t : PyStr} : sqlText t = none ↔ ¬ PyStr.Sendable t := by
  unfold sqlText PyStr.Sendable
  cases h : PyStr.encode t with
  | none => simp [PyStr.encode_eq_none_iff.mp h]
  | some s =>
    have h_encodable : PyStr.Encodable t := by
      by_contra h_not
      exact absurd (h.symm.trans (PyStr.encode_eq_none_iff.mpr h_not)) (by simp)
    -- what was encoded has the same characters
    have h_nul : CodePoint.ofChar (Char.ofNat 0) ∈ t ↔ Char.ofNat 0 ∈ s.toList := by
      rw [PyStr.eq_ofString_of_encode h]
      exact List.mem_map_of_injective CodePoint.ofChar_injective
    simp [h_encodable, h_nul]

/-- `encrypt_text` raises on the texts with a surrogate. -/
theorem plaintext?_eq_none_iff {t : Option PyStr} :
    plaintext? t = none ↔ ∃ text, t = some text ∧ ¬ PyStr.Encodable text := by
  cases t with
  | none => simp [plaintext?]
  | some text => simp [plaintext?, PyStr.encode_eq_none_iff]

namespace Api

open FieldEncryption (AesGcm Keyring Nonce Sealed)

/-! ### What is checked, and what is stored -/

/-- The text that `_PHASH_RE` is matched against. -/
def hashText (value : Option Value) : PyStr := PyStr.lower (Value.stripped value)

/-- The four fields that the handler checks are valid. This is the handler's own notion: it says
nothing of the texts the handler only passes on. -/
structure Valid (get : String → Option Value) : Prop where
  phashHex : (hashText (get "phash_hex")).length = 16 ∧
    ∀ c ∈ hashText (get "phash_hex"), isHex c = true
  category : ∃ c : Category, Value.stripped (get "category") = PyStr.ofString c.text
  action : ∃ a : Action, Value.stripped (get "action") = PyStr.ofString a.text
  autoAdded : get "auto_added" = none ∨ get "auto_added" = some .null ∨
    ∃ b, get "auto_added" = some (.bool b)

/-- The other texts can be sent to the database: the encrypted ones have no surrogate, and the
others no `U+0000` either. A field that is no text, or a blank one, has its default and is always
sendable. -/
structure SendableTexts (get : String → Option Value) : Prop where
  encrypted : ∀ key ∈ ["source_guild_id", "reason", "source_url"],
    ∀ t, Value.strOrNone (get key) = some t → PyStr.Encodable t
  plain : ∀ key ∈ ["algorithm", "algorithm_version", "normalization_version", "provenance"],
    ∀ t, Value.strOrNone (get key) = some t → PyStr.Sendable t

/-- The other texts can be stored: they can be sent, and there is room for the entry of the triple
in `idx_fingerprints_compat`. -/
structure Storable (fits : Triple → Bool) (get : String → Option Value) : Prop
    extends SendableTexts get where
  index : ∀ triple, triple? get = some triple → fits triple = true

/-- Sixteen lowercase hex characters, which is what `_PHASH_RE` matches. -/
def IsHash (hash : String) : Prop :=
  hash.toList.length = 16 ∧ ∀ c ∈ hash.toList, ('0' ≤ c ∧ c ≤ '9') ∨ ('a' ≤ c ∧ c ≤ 'f')

variable {get : String → Option Value}

/-- Hex characters are ASCII. -/
theorem encodable_of_isHex {t : PyStr} (h : ∀ c ∈ t, isHex c = true) : PyStr.Encodable t := by
  intro c h_c
  have h_hex := h c h_c
  have h_valid : c.val.isValidChar := by
    simp only [isHex, Bool.or_eq_true, Bool.and_eq_true, decide_eq_true_eq] at h_hex
    unfold Nat.isValidChar
    omega
  rw [CodePoint.char?, dif_pos h_valid]
  exact Option.some_ne_none _

/-- The hash is refused just when its text does not match: encoding it never fails, -/
theorem phashHex_eq_none_iff {value : Option Value} :
    phashHex value = none ↔
      ¬ ((hashText value).length = 16 ∧ ∀ c ∈ hashText value, isHex c = true) := by
  unfold phashHex hashText
  simp only [List.all_eq_true]
  split
  · next h =>
    rw [PyStr.encode_eq_none_iff]
    exact ⟨fun h_not => absurd (encodable_of_isHex h.2) h_not, fun h_not => absurd h h_not⟩
  · next h => exact ⟨fun _ => h, fun _ => rfl⟩

/-- What is looked up, and stored, is a hash. -/
theorem isHash_of_phashHex {value : Option Value} {hash : String}
    (h : phashHex value = some hash) : IsHash hash := by
  unfold phashHex at h
  simp only [List.all_eq_true] at h
  split at h
  · next h_hex =>
    have h_text := PyStr.eq_ofString_of_encode h
    rw [h_text, PyStr.ofString, List.length_map] at h_hex
    refine ⟨h_hex.1, fun c h_c => ?_⟩
    have h_c' := h_hex.2 _ (List.mem_map_of_mem h_c)
    simp only [isHex, Bool.or_eq_true, Bool.and_eq_true, decide_eq_true_eq] at h_c'
    exact h_c'
  · exact absurd h (by simp)

/-- a category just when it is none of the five, -/
theorem category?_eq_none_iff {value : Option Value} :
    category? value = none ↔ ¬ ∃ c : Category, Value.stripped value = PyStr.ofString c.text := by
  rw [category?, List.find?_eq_none, not_exists]
  simp only [decide_eq_true_eq]
  constructor
  · intro h c h_c
    refine h c ?_ h_c.symm
    cases c <;> simp
  · exact fun h c _ h_c => h c h_c.symm

/-- an action just when it is none of the two, -/
theorem action?_eq_none_iff {value : Option Value} :
    action? value = none ↔ ¬ ∃ a : Action, Value.stripped value = PyStr.ofString a.text := by
  rw [action?, List.find?_eq_none, not_exists]
  simp only [decide_eq_true_eq]
  constructor
  · intro h a h_a
    refine h a ?_ h_a.symm
    cases a <;> simp
  · exact fun h a _ h_a => h a h_a.symm

/-- and a flag just when it is given and no boolean. -/
theorem boolOrNone_eq_none_iff {value : Option Value} :
    Value.boolOrNone value = none ↔
      ¬ (value = none ∨ value = some .null ∨ ∃ b, value = some (.bool b)) := by
  cases value with
  | none => simp [Value.boolOrNone]
  | some v => cases v <;> simp [Value.boolOrNone]

/-- The defaults of the handler can be sent. -/
theorem sendable_ofString {s : String} (h : Char.ofNat 0 ∉ s.toList) :
    PyStr.Sendable (PyStr.ofString s) := by
  constructor
  · by_contra h_not
    have h_none := PyStr.encode_eq_none_iff.mpr h_not
    rw [PyStr.encode_ofString] at h_none
    exact absurd h_none (by simp)
  · intro h_mem
    exact h ((List.mem_map_of_injective CodePoint.ofChar_injective).mp h_mem)

/-- A text that replaces its default has to be one psycopg takes, and the default is one. -/
theorem sqlText_textOr_iff {value : Option Value} (default : String)
    (h_default : Char.ofNat 0 ∉ default.toList) :
    (∃ text, sqlText (textOr value default) = some text) ↔
      ∀ t, Value.strOrNone value = some t → PyStr.Sendable t := by
  rw [exists_some_iff sqlText_eq_none_iff, textOr]
  cases Value.strOrNone value with
  | none => simp [sendable_ofString h_default]
  | some t => simp

/-- A text is encrypted just when it is absent or can be encoded. -/
theorem plaintext?_strOrNone_iff {value : Option Value} :
    (∃ text, plaintext? (Value.strOrNone value) = some text) ↔
      ∀ t, Value.strOrNone value = some t → PyStr.Encodable t := by
  rw [← Option.ne_none_iff_exists', ne_eq, plaintext?_eq_none_iff]
  simp

/-- The texts can be sent just when nothing raises on them: the seven checks of the two layers
together are `SendableTexts`. -/
theorem sendableTexts_iff : SendableTexts get ↔
    ∃ texts triple provenance, privateTexts get = some texts ∧ triple? get = some triple ∧
      provenance? get = some provenance := by
  constructor
  · rintro ⟨h_encrypted, h_plain⟩
    -- the encrypted texts first, as the handler takes them
    obtain ⟨guild, h_guild⟩ :=
      plaintext?_strOrNone_iff.mpr (h_encrypted "source_guild_id" (by simp))
    obtain ⟨reason, h_reason⟩ := plaintext?_strOrNone_iff.mpr (h_encrypted "reason" (by simp))
    obtain ⟨url, h_url⟩ := plaintext?_strOrNone_iff.mpr (h_encrypted "source_url" (by simp))
    -- a text that is missing is replaced by its default, which is ASCII
    obtain ⟨a, h_a⟩ := (sqlText_textOr_iff "phash" (by decide)).mpr
      (h_plain "algorithm" (by simp))
    obtain ⟨av, h_av⟩ := (sqlText_textOr_iff "imagehash.phash" (by decide)).mpr
      (h_plain "algorithm_version" (by simp))
    obtain ⟨nv, h_nv⟩ := (sqlText_textOr_iff "alpha_white_v1" (by decide)).mpr
      (h_plain "normalization_version" (by simp))
    obtain ⟨provenance, h_provenance⟩ := (sqlText_textOr_iff "manual_staff" (by decide)).mpr
      (h_plain "provenance" (by simp))
    refine ⟨⟨guild, reason, url⟩, ⟨a, av, nv⟩, provenance, ?_, ?_, h_provenance⟩
    · simp only [privateTexts, h_reason, h_url, h_guild]
    · simp only [triple?, h_a, h_av, h_nv]
  · rintro ⟨texts, triple, provenance, h_texts, h_triple, h_provenance⟩
    obtain ⟨h_reason, h_url, h_guild⟩ := privateTexts_eq_some h_texts
    obtain ⟨h_a, h_av, h_nv⟩ := triple?_eq_some h_triple
    constructor
    · simp only [List.forall_mem_cons, List.not_mem_nil, false_implies, implies_true, and_true]
      exact ⟨plaintext?_strOrNone_iff.mp ⟨_, h_guild⟩, plaintext?_strOrNone_iff.mp ⟨_, h_reason⟩,
        plaintext?_strOrNone_iff.mp ⟨_, h_url⟩⟩
    · simp only [List.forall_mem_cons, List.not_mem_nil, false_implies, implies_true, and_true]
      exact ⟨(sqlText_textOr_iff _ (by decide)).mp ⟨_, h_a⟩,
        (sqlText_textOr_iff _ (by decide)).mp ⟨_, h_av⟩,
        (sqlText_textOr_iff _ (by decide)).mp ⟨_, h_nv⟩,
        (sqlText_textOr_iff _ (by decide)).mp ⟨_, h_provenance⟩⟩

/-- The four fields are valid just when the handler reads a value for each. -/
theorem valid_iff : Valid get ↔
    ∃ hash category action autoAdded, phashHex (get "phash_hex") = some hash ∧
      category? (get "category") = some category ∧ action? (get "action") = some action ∧
      Value.boolOrNone (get "auto_added") = some autoAdded := by
  have h_hash := exists_some_iff (@phashHex_eq_none_iff (get "phash_hex"))
  have h_category := exists_some_iff (@category?_eq_none_iff (get "category"))
  have h_action := exists_some_iff (@action?_eq_none_iff (get "action"))
  have h_auto := exists_some_iff (@boolOrNone_eq_none_iff (get "auto_added"))
  constructor
  · intro h
    obtain ⟨hash, h_hash⟩ := h_hash.mpr h.phashHex
    obtain ⟨category, h_category⟩ := h_category.mpr h.category
    obtain ⟨action, h_action⟩ := h_action.mpr h.action
    obtain ⟨autoAdded, h_auto⟩ := h_auto.mpr h.autoAdded
    exact ⟨hash, category, action, autoAdded, h_hash, h_category, h_action, h_auto⟩
  · rintro ⟨hash, category, action, autoAdded, h_some, h_some', h_some'', h_some₃⟩
    exact
      { phashHex := h_hash.mp ⟨hash, h_some⟩
        category := h_category.mp ⟨category, h_some'⟩
        action := h_action.mp ⟨action, h_some''⟩
        autoAdded := h_auto.mp ⟨autoAdded, h_some₃⟩ }

/-! ### The three kinds of bodies -/

section Requests

variable {gcm : AesGcm} {ring : Keyring} {nonces : ℕ → Nonce} {c : Consumer} {nowMs : ℤ}
  {s : Store}

/-- A body with an invalid field is refused with a 400, whatever the store, and leaves it as it
was. -/
theorem contributeFingerprint_of_invalid (h_write : Scope.write ∈ c.scopes) (h : ¬ Valid get) :
    ∃ message, contributeFingerprint gcm ring nonces c (.object get) nowMs s =
      (.error 400 message, s) := by
  rw [valid_iff] at h
  -- the checks in their order; to pass all four is to be valid
  simp only [contributeFingerprint, requireScope, if_pos h_write]
  split
  · exact ⟨_, rfl⟩
  · next hash h_hash =>
    split
    · exact ⟨_, rfl⟩
    · next category h_category =>
      split
      · exact ⟨_, rfl⟩
      · next action h_action =>
        split
        · exact ⟨_, rfl⟩
        · next autoAdded h_auto =>
          exact absurd ⟨hash, category, action, autoAdded, h_hash, h_category, h_action, h_auto⟩ h

/-- A body that is valid and cannot be sent is not answered 400: the handler has no check that
would notice. -/
theorem contributeFingerprint_of_unsendable (h_write : Scope.write ∈ c.scopes) (h : Valid get)
    (h_not : ¬ SendableTexts get) :
    (contributeFingerprint gcm ring nonces c (.object get) nowMs s).1.status ≠ 400 := by
  obtain ⟨hash, category, action, autoAdded, h_hash, h_category, h_action, h_auto⟩ :=
    valid_iff.mp h
  rw [sendableTexts_iff] at h_not
  simp only [contributeFingerprint, requireScope, if_pos h_write, h_hash, h_category, h_action,
    h_auto, contributeValid]
  split
  · simp [Response.internalServerError, Response.error]
  · next texts h_texts =>
    split
    -- all texts taken would make the body storable
    · next triple provenance h_triple h_provenance =>
      exact absurd ⟨texts, triple, provenance, h_texts, h_triple, h_provenance⟩ h_not
    · -- a live row of the key is found before psycopg sees the text
      split
      · split
        · simp [duplicate]
        · simp [Response.internalServerError, Response.error]
      · simp [Response.internalServerError, Response.error]

/-- Any other body is passed on to the store, with the arguments it stands for. -/
theorem contributeFingerprint_of_sendable (h_write : Scope.write ∈ c.scopes) (h : Valid get)
    (h_sendable : SendableTexts get) : ∃ a, Contributes c get nowMs a ∧
      contributeFingerprint gcm ring nonces c (.object get) nowMs s =
        (contributeResponse gcm ring c (s.contribute (encryptWith gcm ring nonces) a).1,
          (s.contribute (encryptWith gcm ring nonces) a).2) := by
  obtain ⟨hash, category, action, autoAdded, h_hash, h_category, h_action, h_auto⟩ :=
    valid_iff.mp h
  obtain ⟨texts, triple, provenance, h_texts, h_triple, h_provenance⟩ :=
    sendableTexts_iff.mp h_sendable
  refine ⟨⟨c.id, hash, triple, category, action, texts.sourceGuildId, texts.reason,
    texts.sourceUrl, autoAdded, provenance, nowMs⟩, ⟨h_write, rfl, h_hash, h_category, h_action,
    h_auto, h_texts, h_triple, h_provenance, rfl⟩, ?_⟩
  simp only [contributeFingerprint, requireScope, if_pos h_write, h_hash, h_category, h_action,
    h_auto, contributeValid, h_texts, h_triple, h_provenance]

/-- The index is asked about the triple of the body, if it has one. -/
theorem fitsIndex_iff {fits : Triple → Bool} : fitsIndex fits (.object get) = true ↔
    ∀ triple, triple? get = some triple → fits triple = true := by
  rw [fitsIndex, Option.all_eq_true]

/-- A record names its row, the full one and the peer one. -/
theorem detailFp_id {r : Fingerprint} {body : Json} (h : detailFp gcm ring c r = some body) :
    body.field "id" = some (.int r.id) := by
  -- what the requester may see decides about the other fields only
  unfold detailFp at h
  split at h
  · split at h
    · obtain rfl := Option.some.inj h
      simp [Json.field, fullFp]
    · exact absurd h (by simp)
  · obtain rfl := Option.some.inj h
    simp [Json.field, peerFp, Fingerprint.syncColumns]

/-- The row of a contribution has its hash and its consumer: the key of the row is the pair of
them. -/
theorem key_of_contributes {a : ContributeArgs} {r : Fingerprint}
    (h : Contributes c get nowMs a) (h_owned : r.owned = a.owned) :
    phashHex (get "phash_hex") = some r.phashHex ∧ r.consumerId = c.id := by
  obtain ⟨h_hash, h_consumer⟩ := Prod.mk.inj h_owned
  exact ⟨h.phashHex.trans (congrArg some h_hash.symm), h_consumer.trans h.consumerId⟩

/-- The answer to a contribution that is written names its row. -/
theorem contributeResponse_written {a : ContributeArgs} {r : Fingerprint}
    (h : Contributes c get nowMs a)
    (h_contributed : r.contributed = a.contributed (encryptWith gcm ring nonces))
    (h_owned : r.owned = a.owned) :
    ∃ body, contributeResponse gcm ring c (some (.written r), true) = ⟨201, some body⟩ ∧
      body.field "id" = some (.int r.id) := by
  -- the texts were sealed under the active key, and the contributor may read them
  have h_active : (ring.activeId, ring.activeKey) ∈ [(ring.activeId, ring.activeKey)] :=
    List.mem_singleton_self _
  have h_sees : canSeeSecrets c r = true := by
    simp [canSeeSecrets, (key_of_contributes h h_owned).2]
  have h_keys : ∀ k ∈ [(ring.activeId, ring.activeKey)], ring.get k.1.text = some k.2 := by
    intro k h_k
    obtain rfl := List.mem_singleton.mp h_k
    exact ring.get_active
  obtain ⟨body, h_body, -⟩ := (Holds.of_contributes h_active h h_contributed).shows h_keys h_sees
  exact ⟨body, by simp only [contributeResponse, h_body], detailFp_id h_body⟩

/-- **A body that is valid and can be sent** is answered 201 and written, or 409 where a live row
of its key stands in its way. A tombstone does not: it is resurrected and answered 201. -/
theorem contribute_answer {a : ContributeArgs} (h : Contributes c get nowMs a) :
    (∃ r, s.findOwned a.owned = some r ∧ r.Live ∧
      s.contribute (encryptWith gcm ring nonces) a = ((some (.existing r.id r.status), false), s)) ∨
    ∃ r body, (s.contribute (encryptWith gcm ring nonces) a).1 = (some (.written r), true) ∧
      contributeResponse gcm ring c (some (.written r), true) = ⟨201, some body⟩ ∧
      body.field "id" = some (.int r.id) := by
  -- a live row is found, a tombstone is, or no row of the key
  rcases s.contribute_cases (encryptWith gcm ring nonces) a with
    h_live | ⟨r, h_found, -, h_call⟩ | ⟨-, h_call⟩
  · exact Or.inl h_live
  · obtain ⟨-, h_owned⟩ := Store.row_of_findOwned h_found
    obtain ⟨body, h_response, h_id⟩ := contributeResponse_written h rfl
      (show (resurrectRow (encryptWith gcm ring nonces) a (s.syncSeq + 1) r).owned = a.owned
        from h_owned)
    exact Or.inr ⟨_, body, congrArg Prod.fst h_call, h_response, h_id⟩
  · obtain ⟨body, h_response, h_id⟩ := contributeResponse_written h rfl
      (show (freshRow (encryptWith gcm ring nonces) a (s.lastId + 1) (s.syncSeq + 1)).owned =
        a.owned from rfl)
    exact Or.inr ⟨_, body, congrArg Prod.fst h_call, h_response, h_id⟩

variable (gcm ring nonces c nowMs s) in
/-- The index refuses a body after the handler would have answered 201, or not at all. In the
first case only the sequences move. -/
theorem contributeFingerprintIndexed_cases (fits : Triple → Bool) (body : Body) :
    (fitsIndex fits body = false ∧
      (contributeFingerprint gcm ring nonces c body nowMs s).1.status = 201 ∧
      contributeFingerprintIndexed gcm ring fits nonces c body nowMs s =
        (.databaseUnavailable, { s with
          syncSeq := (contributeFingerprint gcm ring nonces c body nowMs s).2.syncSeq
          lastId := (contributeFingerprint gcm ring nonces c body nowMs s).2.lastId })) ∨
    ((fitsIndex fits body = true ∨
        (contributeFingerprint gcm ring nonces c body nowMs s).1.status ≠ 201) ∧
      contributeFingerprintIndexed gcm ring fits nonces c body nowMs s =
        contributeFingerprint gcm ring nonces c body nowMs s) := by
  unfold contributeFingerprintIndexed
  by_cases h : (contributeFingerprint gcm ring nonces c body nowMs s).1.status = 201 ∧
      fitsIndex fits body = false
  · exact Or.inl ⟨h.2, h.1, if_pos h⟩
  · refine Or.inr ⟨?_, if_neg h⟩
    rw [not_and_or, Bool.not_eq_false] at h
    exact h.symm

/-- **A body that is valid and cannot be stored** is not answered 400: it is answered 409 where a
live row of its key stands in its way, and 500 or 503 otherwise. -/
theorem contributeFingerprint_of_unstorable {fits : Triple → Bool}
    (h_write : Scope.write ∈ c.scopes) (h : Valid get) (h_not : ¬ Storable fits get) :
    (contributeFingerprintIndexed gcm ring fits nonces c (.object get) nowMs s).1.status ≠ 400 := by
  rcases contributeFingerprintIndexed_cases gcm ring nonces c nowMs s fits (.object get) with
    ⟨-, -, h_call⟩ | ⟨h_passes, h_call⟩
  · rw [h_call]
    simp [Response.databaseUnavailable, Response.error]
  · rw [h_call]
    -- a body that cannot be sent is not answered 400 to begin with
    by_cases h_sendable : SendableTexts get
    · -- only the entry of the triple is in the way
      obtain ⟨a, h_a, h_call'⟩ := @contributeFingerprint_of_sendable get gcm ring nonces c nowMs s
        h_write h h_sendable
      rcases h_passes with h_fits | h_status
      · exact absurd ⟨h_sendable, fitsIndex_iff.mp h_fits⟩ h_not
      · rw [h_call']
        rcases @contribute_answer get gcm ring nonces c nowMs s a h_a with
          ⟨r, -, -, h_same⟩ | ⟨r, body, h_written, h_answer, -⟩
        · rw [h_same]
          simp [contributeResponse, duplicate]
        · rw [h_written, h_answer]
          simp
    · exact contributeFingerprint_of_unsendable h_write h h_sendable

/-- What can be stored is not refused by the index, -/
theorem contributeFingerprintIndexed_of_storable {fits : Triple → Bool} (h : Storable fits get) :
    contributeFingerprintIndexed gcm ring fits nonces c (.object get) nowMs s =
      contributeFingerprint gcm ring nonces c (.object get) nowMs s := by
  have h_fits : fitsIndex fits (.object get) = true := fitsIndex_iff.mpr h.index
  rcases contributeFingerprintIndexed_cases gcm ring nonces c nowMs s fits (.object get) with
    ⟨h_not, -, -⟩ | ⟨-, h_call⟩
  · exact absurd (h_fits.symm.trans h_not) (by simp)
  · exact h_call

/-- nor is what does not write. -/
theorem contributeFingerprintIndexed_of_ne {fits : Triple → Bool} {body : Body}
    (h : (contributeFingerprint gcm ring nonces c body nowMs s).1.status ≠ 201) :
    contributeFingerprintIndexed gcm ring fits nonces c body nowMs s =
      contributeFingerprint gcm ring nonces c body nowMs s := by
  rcases contributeFingerprintIndexed_cases gcm ring nonces c nowMs s fits body with
    ⟨-, h_status, -⟩ | ⟨-, h_call⟩
  · exact absurd h_status h
  · exact h_call

/-- Every hash in the store is one. The column has no check of its own. -/
def HexHashes (s : Store) : Prop := ∀ id r, s.row id = some r → IsHash r.phashHex

/-- A contribution stores its own hash only. -/
theorem HexHashes.contribute {enc : EncryptText} {a : ContributeArgs} (h : HexHashes s)
    (h_hash : IsHash a.phashHex) : HexHashes (s.contribute enc a).2 := by
  intro id r h_row
  -- nothing is written, a tombstone comes back, or a row is new
  rcases s.contribute_cases enc a with ⟨_, -, -, h_call⟩ | ⟨r', -, -, h_call⟩ | ⟨-, h_call⟩
  · rw [h_call] at h_row
    exact h id r h_row
  · rw [h_call, Store.row_updateRow, Store.row_nextSeq, Store.row_deleteFlags] at h_row
    split at h_row
    -- a resurrection leaves the hash alone
    · obtain ⟨q, h_q, rfl⟩ := Option.map_eq_some_iff.mp h_row
      exact h r'.id q h_q
    · exact h id r h_row
  · rw [h_call] at h_row
    rw [Store.row, Store.inserted, Table.get?_insert] at h_row
    split at h_row
    · obtain rfl := Option.some.inj h_row
      exact h_hash
    · exact h id r h_row

end Requests

/-! ### Hashes -/

/-- Two hashes are texts that differ in the case of their letters and in the whitespace around
them: the handler lowers and strips them. -/
def SameHash (value value' : Option Value) : Prop :=
  ∃ before t after before' t' after' : PyStr,
    value = some (.str (before ++ (t ++ after))) ∧
    value' = some (.str (before' ++ (t' ++ after'))) ∧
    (∀ c ∈ before ++ after, PyStr.isSpace c = true) ∧
    (∀ c ∈ before' ++ after', PyStr.isSpace c = true) ∧ PyStr.lower t = PyStr.lower t'

/-- Whitespace on both sides does not count. -/
theorem hashText_pad {before t after : PyStr}
    (h : ∀ c ∈ before ++ after, PyStr.isSpace c = true) :
    hashText (some (.str (before ++ (t ++ after)))) = PyStr.strip (PyStr.lower t) := by
  have h_strip : PyStr.strip (before ++ (t ++ after)) = PyStr.strip t :=
    PyStr.stripBy_append (fun c h_c => h c (List.mem_append_left _ h_c))
      (fun c h_c => h c (List.mem_append_right _ h_c)) t
  -- lowering does not make whitespace, nor take any away
  rw [PyStr.strip_lower, ← h_strip]
  rfl

/-- Such hashes are read as one, and so name the same row. -/
theorem SameHash.phashHex_eq {value value' : Option Value} (h : SameHash value value') :
    phashHex value = phashHex value' := by
  obtain ⟨before, t, after, before', t', after', rfl, rfl, h_blank, h_blank', h_lower⟩ := h
  have h_text : hashText (some (.str (before ++ (t ++ after)))) =
      hashText (some (.str (before' ++ (t' ++ after')))) := by
    rw [hashText_pad h_blank, hashText_pad h_blank', h_lower]
  unfold hashText at h_text
  unfold phashHex
  rw [h_text]

/-- A call keeps the hash of a row, or contributes it. No other call writes the column. -/
theorem phashHex_cases {s : Store} {op : Op} {id : ℤ} {o : Option Fingerprint} {r' : Fingerprint}
    (h : RowStep s op id o (some r')) :
    (∃ r, o = some r ∧ r'.phashHex = r.phashHex) ∨
      ∃ enc a, op = .contribute enc a ∧ r'.phashHex = a.phashHex := by
  rcases h.owned_cases with ⟨r, h_r, h_owned⟩ | ⟨rfl, -, -⟩
  · exact Or.inl ⟨r, h_r, congrArg Prod.fst h_owned⟩
  · cases h with
    | insert _ _ => exact Or.inr ⟨_, _, rfl, rfl⟩

/-- A transaction of the service leaves only hashes: the only one that writes a hash has checked
it. -/
theorem Step.hexHashes {gcm : AesGcm} {config : ServiceConfig} {t t' : Service} {e : Event}
    (h_wf : t.store.Wf) (h : HexHashes t.store) (h_step : Step gcm config t e t') :
    HexHashes t'.store := by
  intro id r h_row
  -- a request changes the row by at most one store operation
  rcases h_step.rowStep h_wf id with h_same | ⟨op, h_calls, -, h_op⟩
  · exact h id r (h_same.symm.trans h_row)
  · rw [h_row] at h_op
    rcases phashHex_cases h_op with ⟨r₀, h_r₀, h_hash⟩ | ⟨enc, a, rfl, h_hash⟩
    · rw [h_hash]
      exact h id r₀ h_r₀
    · cases h_calls with
      | contribute h_valid =>
        rw [h_hash]
        exact isHash_of_phashHex h_valid.phashHex

/-- A transaction of the service, or a contribution that the index may refuse. The plain
contributions of the service are those whose entry fits. -/
inductive IndexedStep (gcm : AesGcm) (config : ServiceConfig) (fits : Triple → Bool)
    (t : Service) : Service → Prop
  | transaction {e : Event} {t' : Service} (h_step : Step gcm config t e t') :
      IndexedStep gcm config fits t t'
  | contribute (ring : Keyring) (nonces : ℕ → Nonce) (c : Consumer) (body : Body) (nowMs : ℤ) :
      IndexedStep gcm config fits t { t with
        store := (contributeFingerprintIndexed gcm ring fits nonces c body nowMs t.store).2 }

/-- Any number of them. -/
def IndexedReaches (gcm : AesGcm) (config : ServiceConfig) (fits : Triple → Bool) :
    Service → Service → Prop :=
  Relation.ReflTransGen (IndexedStep gcm config fits)

/-- What a contribution leaves that the index refused: the rows, and later values of the
sequences. The store is as well formed as before, since its bounds only grew. -/
theorem wf_drawn {s : Store} (h : s.Wf) {n : ℕ} {id : ℤ} (h_n : s.syncSeq ≤ n)
    (h_id : s.lastId ≤ id) : ({ s with syncSeq := n, lastId := id } : Store).Wf where
  id_le := fun i r h_row => (h.id_le i r h_row).trans h_id
  syncSeq_le := fun i r h_row => (h.syncSeq_le i r h_row).trans h_n
  syncSeq_pos := h.syncSeq_pos
  syncSeq_inj := h.syncSeq_inj
  owned_inj := h.owned_inj
  flag_row := h.flag_row
  hit_row := h.hit_row
  hit_le := h.hit_le

/-- Every store the service reaches has only hashes in it. The store being well formed is part of
the invariant, since the row a step changes is found by it. -/
theorem IndexedReaches.hexHashes {gcm : AesGcm} {config : ServiceConfig} {fits : Triple → Bool}
    {t : Service} (h : IndexedReaches gcm config fits .start t) :
    t.store.Wf ∧ HexHashes t.store := by
  induction h with
  | refl => exact ⟨.empty, fun id r h_row => absurd h_row (by simp [Service.start])⟩
  | @tail t t' _ h_step ih =>
    obtain ⟨h_wf, h_hex⟩ := ih
    have h_transaction : ∀ {e t'}, Step gcm config t e t' → t'.store.Wf ∧ HexHashes t'.store :=
      fun h_step => ⟨Reaches.wf (.single ⟨_, h_step⟩) h_wf, h_step.hexHashes h_wf h_hex⟩
    cases h_step with
    | transaction h_step => exact h_transaction h_step
    | contribute ring nonces c body nowMs =>
      rcases contributeFingerprintIndexed_cases gcm ring nonces c nowMs t.store fits body with
        ⟨-, -, h_call⟩ | ⟨-, h_call⟩
      · -- the rows are those from before
        rw [h_call]
        refine ⟨wf_drawn h_wf ?_ ?_, h_hex⟩
        all_goals
          rcases contributeFingerprint_cases gcm ring nonces c body nowMs t.store with
            ⟨-, h_same⟩ | ⟨get, a, -, -, h_store⟩
        · rw [h_same]
        · rw [h_store]
          exact (Op.sequences_le t.store (.contribute _ a)).1
        · rw [h_same]
        · rw [h_store]
          exact (Op.sequences_le t.store (.contribute _ a)).2.1
      · rw [h_call]
        exact h_transaction (.contribute ring nonces c body nowMs)

/-! ### The result -/

/-- The id of the row that an answer names, under the name that its status has for it. -/
def rowId (answer : Response) : Option Json :=
  answer.body.bind (Json.field (if answer.status = 201 then "id" else "existing_id"))

/-- What an answer and the store after it have to be for a contribution to be classified: it is
answered 201, 400 or 409, a 400 exactly for what is invalid, and in the other two cases it names a
live row of its key. -/
structure Classified (gcm : AesGcm) (fits : Triple → Bool) (c : Consumer)
    (get : String → Option Value) (s : Store) (answer : Response) (s' : Store) : Prop where
  status : answer.status = 201 ∨ answer.status = 400 ∨ answer.status = 409
  badRequest : answer.status = 400 ↔ ¬ Valid get ∨ ¬ Storable fits get
  unchanged : answer.status ≠ 201 → s' = s
  hexHashes : HexHashes s → HexHashes s'
  /-- The row is live, and a later request with the same hash is refused on its behalf. -/
  sameRow : s.Wf → answer.status ≠ 400 → ∃ r, s'.row r.id = some r ∧ r.Live ∧
    r.consumerId = c.id ∧ phashHex (get "phash_hex") = some r.phashHex ∧
    rowId answer = some (.int r.id) ∧
    ∀ ring nonces later nowMs, Valid later → SendableTexts later →
      SameHash (get "phash_hex") (later "phash_hex") →
      contributeFingerprintIndexed gcm ring fits nonces c (.object later) nowMs s' =
        (duplicate r.id, s')

/-- `contribute_fingerprint` classifies the contribution. -/
def Classifies (gcm : AesGcm) (ring : Keyring) (fits : Triple → Bool) (nonces : ℕ → Nonce)
    (c : Consumer) (get : String → Option Value) (nowMs : ℤ) (s : Store) : Prop :=
  Classified gcm fits c get s
    (contributeFingerprintIndexed gcm ring fits nonces c (.object get) nowMs s).1
    (contributeFingerprintIndexed gcm ring fits nonces c (.object get) nowMs s).2

section Result

variable {gcm : AesGcm} {ring : Keyring} {fits : Triple → Bool} {nonces : ℕ → Nonce}
  {c : Consumer} {nowMs : ℤ} {s : Store}

/-- A live row of the key refuses every later contribution to it, before the index is asked about
an entry. -/
theorem contributeFingerprint_of_live (h_wf : s.Wf) (h_write : Scope.write ∈ c.scopes)
    (h : Valid get) (h_sendable : SendableTexts get) {r : Fingerprint} (h_row : s.row r.id = some r)
    (h_live : r.Live) (h_consumer : r.consumerId = c.id)
    (h_hash : phashHex (get "phash_hex") = some r.phashHex) :
    contributeFingerprintIndexed gcm ring fits nonces c (.object get) nowMs s =
      (duplicate r.id, s) := by
  obtain ⟨a, h_a, h_call⟩ :=
    @contributeFingerprint_of_sendable get gcm ring nonces c nowMs s h_write h h_sendable
  have h_owned : r.owned = a.owned :=
    Prod.ext (Option.some.inj (h_hash.symm.trans h_a.phashHex))
      (h_consumer.trans h_a.consumerId.symm)
  have h_duplicate : contributeFingerprint gcm ring nonces c (.object get) nowMs s =
      (duplicate r.id, s) := by
    rw [h_call, h_wf.contribute_of_live h_row h_owned h_live]
    rfl
  -- the row is found before the index is asked
  rw [contributeFingerprintIndexed_of_ne, h_duplicate]
  rw [h_duplicate]
  simp [duplicate]

/-- So does one whose hash is only written otherwise: the two name the same key. -/
theorem contributeFingerprint_of_sameHash (h_wf : s.Wf) (h_write : Scope.write ∈ c.scopes)
    {r : Fingerprint} (h_row : s.row r.id = some r) (h_live : r.Live)
    (h_consumer : r.consumerId = c.id) (h_hash : phashHex (get "phash_hex") = some r.phashHex) :
    ∀ ring nonces later nowMs, Valid later → SendableTexts later →
      SameHash (get "phash_hex") (later "phash_hex") →
      contributeFingerprintIndexed gcm ring fits nonces c (.object later) nowMs s =
        (duplicate r.id, s) := by
  intro ring nonces later nowMs h_valid h_sendable h_same
  rw [h_same.phashHex_eq] at h_hash
  exact contributeFingerprint_of_live h_wf h_write h_valid h_sendable h_row h_live h_consumer h_hash

/-- A body that the handler refuses is classified as such, -/
theorem Classified.of_invalid (h_write : Scope.write ∈ c.scopes) (h : ¬ Valid get) :
    Classifies gcm ring fits nonces c get nowMs s := by
  obtain ⟨message, h_call⟩ :=
    @contributeFingerprint_of_invalid get gcm ring nonces c nowMs s h_write h
  have h_status : (contributeFingerprint gcm ring nonces c (.object get) nowMs s).1.status ≠
      201 := by
    rw [h_call]
    simp [Response.error]
  unfold Classifies
  rw [contributeFingerprintIndexed_of_ne h_status, h_call]
  exact
    { status := Or.inr (Or.inl rfl)
      badRequest := ⟨fun _ => Or.inl h, fun _ => rfl⟩
      unchanged := fun _ => rfl
      hexHashes := id
      sameRow := fun _ h_status => absurd rfl h_status }

/-- and so is one that can be stored, whichever of the two answers it gets. -/
theorem Classified.of_storable (h_write : Scope.write ∈ c.scopes) (h : Valid get)
    (h_storable : Storable fits get) : Classifies gcm ring fits nonces c get nowMs s := by
  obtain ⟨a, h_a, h_call⟩ := @contributeFingerprint_of_sendable get gcm ring nonces c nowMs s
    h_write h h_storable.toSendableTexts
  have h_hex : HexHashes s → HexHashes (s.contribute (encryptWith gcm ring nonces) a).2 :=
    fun h_hex => h_hex.contribute (isHash_of_phashHex h_a.phashHex)
  have h_valid : ¬ (¬ Valid get ∨ ¬ Storable fits get) := by
    rintro (h_not | h_not)
    · exact h_not h
    · exact h_not h_storable
  -- refused for a live row, or written
  unfold Classifies
  rw [contributeFingerprintIndexed_of_storable h_storable, h_call]
  rcases contribute_answer h_a with
    ⟨r, h_found, h_live, h_same⟩ | ⟨r, body, h_written, h_answer, h_id⟩
  · -- a live row is in the way, and is the one every later request meets
    obtain ⟨h_row, h_owned⟩ := Store.row_of_findOwned h_found
    obtain ⟨h_hash, h_consumer⟩ := key_of_contributes h_a h_owned
    rw [h_same]
    exact
      { status := Or.inr (Or.inr rfl)
        badRequest := ⟨fun h_status => absurd h_status (by simp [contributeResponse, duplicate]),
          fun h_not => absurd h_not h_valid⟩
        unchanged := fun _ => rfl
        hexHashes := id
        sameRow := fun h_wf _ => ⟨r, h_row, h_live, h_consumer, h_hash, rfl,
          contributeFingerprint_of_sameHash h_wf h_write h_row h_live h_consumer h_hash⟩ }
  · rw [h_written, h_answer]
    refine
      { status := Or.inl rfl
        badRequest := ⟨fun h_status => absurd h_status (by simp), fun h_not => absurd h_not h_valid⟩
        unchanged := fun h_status => absurd rfl h_status
        hexHashes := h_hex
        sameRow := fun h_wf _ => ?_ }
    -- the row that was written is the live row of its key
    rcases h_wf.contribute_outcome (encryptWith gcm ring nonces) a with
      ⟨r', -, -, -, h_existing⟩ | ⟨-, r', h_written', h_created, h_active⟩
    · exact absurd (h_written.symm.trans (congrArg Prod.fst h_existing)) (by simp)
    · obtain rfl : r = r' := by simpa using h_written.symm.trans h_written'
      have h_live : r.Live := by
        rw [Fingerprint.Live, h_active]
        decide
      obtain ⟨h_hash, h_consumer⟩ := key_of_contributes h_a h_created.owned
      have h_wf' := h_wf.step (.contribute (encryptWith gcm ring nonces) a)
      exact ⟨r, h_created.row, h_live, h_consumer, h_hash, h_id,
        contributeFingerprint_of_sameHash h_wf' h_write h_created.row h_live h_consumer h_hash⟩

/-- **Contributions are classified**, all but those that are valid and hold a text that cannot be
stored. No store the service reaches holds anything but hashes.

`fits` says for which triples `idx_fingerprints_compat` has room. It is a property of the
database, which compresses an entry and then compares its length with that of a page, and may be
anything here: nothing is said of it but that the statement that writes a row asks it.

The condition is on the body alone. That it is necessary is said for every store and every
keyring: no store makes a valid body that cannot be stored one of the three kinds. -/
theorem contributeFingerprint_classifies (gcm : AesGcm) (config : ServiceConfig)
    (fits : Triple → Bool) :
    (∀ t, IndexedReaches gcm config fits .start t → HexHashes t.store) ∧
    ∀ ring nonces c get nowMs s, Scope.write ∈ c.scopes →
      (Classifies gcm ring fits nonces c get nowMs s ↔ ¬ (Valid get ∧ ¬ Storable fits get)) := by
  refine ⟨fun t h => h.hexHashes.2, fun ring nonces c get nowMs s h_write => ?_⟩
  constructor
  · -- it would have to be answered 400
    rintro h ⟨h_valid, h_not⟩
    exact contributeFingerprint_of_unstorable h_write h_valid h_not
      (h.badRequest.mpr (Or.inr h_not))
  · intro h
    -- invalid, or valid and storable
    by_cases h_valid : Valid get
    · have h_storable : Storable fits get := by
        by_contra h_not
        exact h ⟨h_valid, h_not⟩
      exact .of_storable h_write h_valid h_storable
    · exact .of_invalid h_write h_valid

end Result

/-- The fields of an object. -/
def fieldsOf (fields : List (String × Value)) (key : String) : Option Value :=
  (fields.find? (fun f => f.1 = key)).map Prod.snd

/-- A contribution of an image as `scam`, to `kick`, under an algorithm. -/
def sampleUnder (algorithm : PyStr) : String → Option Value :=
  fieldsOf [("phash_hex", .str (PyStr.ofString " 00000000000000AA")),
    ("category", .str (PyStr.ofString "scam")), ("action", .str (PyStr.ofString "kick")),
    ("algorithm", .str algorithm)]

/-- An index that has room for short entries. -/
def sampleFits (triple : Triple) : Bool :=
  triple.algorithm.length + triple.algorithmVersion.length + triple.normalizationVersion.length ≤
    2600

/-- A contribution that names its own algorithm, and has the defaults otherwise, is classified. -/
theorem contributeFingerprint_classifies_sample :
    Classifies FieldEncryption.sampleGcm FieldEncryption.sampleRing sampleFits
      (fun _ => FieldEncryption.sampleNonce) ⟨1, [.write]⟩ (sampleUnder (PyStr.ofString "dhash")) 10
      .empty := by
  have h_triple : triple? (sampleUnder (PyStr.ofString "dhash")) =
      some ⟨"dhash", "imagehash.phash", "alpha_white_v1"⟩ := by decide +kernel
  refine ((contributeFingerprint_classifies FieldEncryption.sampleGcm .default sampleFits).2
    _ _ _ _ _ _ (List.mem_singleton_self _)).mpr (fun h => h.2 ⟨sendableTexts_iff.mpr ?_, ?_⟩)
  · exact ⟨⟨none, none, none⟩, _, "manual_staff", rfl, h_triple, by decide +kernel⟩
  · intro triple h_some
    obtain rfl := Option.some.inj (h_triple.symm.trans h_some)
    decide +kernel

/-- **A contribution is answered 500**: its algorithm ends in `U+0000`. All four fields that the
handler checks are valid. -/
theorem contributeFingerprint_raises :
    let get := sampleUnder (PyStr.ofString "p" ++ [0])
    Valid get ∧
      (contributeFingerprintIndexed FieldEncryption.sampleGcm FieldEncryption.sampleRing sampleFits
        (fun _ => FieldEncryption.sampleNonce) ⟨1, [.write]⟩ (.object get) 10 .empty).1.status =
          500 ∧
      ¬ Classifies FieldEncryption.sampleGcm FieldEncryption.sampleRing sampleFits
        (fun _ => FieldEncryption.sampleNonce) ⟨1, [.write]⟩ get 10 .empty := by
  intro get
  have h_status : (contributeFingerprintIndexed FieldEncryption.sampleGcm
      FieldEncryption.sampleRing sampleFits (fun _ => FieldEncryption.sampleNonce) ⟨1, [.write]⟩
      (.object get) 10 .empty).1.status = 500 := by decide +kernel
  -- each of the four fields is read
  refine ⟨valid_iff.mpr ⟨"00000000000000aa", .scam, .kick, false, ?_, ?_, ?_, rfl⟩, h_status, ?_⟩
  · decide +kernel
  · decide +kernel
  · decide +kernel
  · intro h
    have h_classified := h.status
    rw [h_status] at h_classified
    exact absurd h_classified (by decide)

end Api
end FingerprintHub
