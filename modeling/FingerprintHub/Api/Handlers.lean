import FingerprintHub.Api.Http
import FingerprintHub.Crypto.FieldEncryption
import FingerprintHub.Store.Spec

/-!
# The handlers of `api/fingerprints.py`

Each handler as a function of the request, the authenticated consumer and the
store: a reading handler returns the response, a writing one the response and the
store its transaction leaves. `delete_fingerprint` is two functions, since its
ownership check and its `soft_delete` are transactions of their own.

The keyring and the AEAD are parameters; a writing handler also takes the nonces of
its `encrypt_text` calls and the value of `utc_now_ms()`.
-/

namespace FingerprintHub
namespace Api

open FieldEncryption (AesGcm Keyring Nonce DecryptError)

variable (gcm : AesGcm) (ring : Keyring)

/-! ### Presenters -/

/-- `_can_see_secrets`: the owner of a row and every admin. This is the only place where a handler
decides about the private columns. -/
def canSeeSecrets (c : Consumer) (row : Fingerprint) : Bool :=
  c.isAdmin || row.consumerId = c.id

/-- `_decrypt`. A `FieldDecryptionError` is answered by `None`, so that one unreadable text does
not hide the rest of the row. The `UnicodeDecodeError` is no such error and escapes: it is the
outer `none`, and the request ends in a 500. -/
def decrypt (value : Option String) : Option (Option String) :=
  match value with
  | none => some none
  | some v =>
    match FieldEncryption.decryptText gcm ring v with
    | .ok text => some (some text)
    | .error (.field _) => some none
    | .error .unicodeDecode => none

/-- `_peer_fp`: the record every consumer with read scope may see. It has neither the counters nor
the private texts. -/
def peerFp (row : SyncRow) : Json :=
  .obj [("id", .int row.id), ("sync_seq", .int row.syncSeq), ("phash_hex", .str row.phashHex),
    ("algorithm", .str row.triple.algorithm),
    ("algorithm_version", .str row.triple.algorithmVersion),
    ("normalization_version", .str row.triple.normalizationVersion),
    ("category", .str row.category.text), ("action", .str row.action.text),
    ("status", .str row.status.text)]

/-- The full record of `_detail_fp`, with its decrypted texts, in the order in which the source
writes the fields. -/
def fullFp (row : Fingerprint) (sourceGuildId reason sourceUrl : Option String) : Json :=
  .obj [("id", .int row.id), ("sync_seq", .int row.syncSeq), ("phash_hex", .str row.phashHex),
    ("algorithm", .str row.triple.algorithm),
    ("algorithm_version", .str row.triple.algorithmVersion),
    ("normalization_version", .str row.triple.normalizationVersion),
    ("category", .str row.category.text), ("action", .str row.action.text),
    ("consumer_id", .int row.consumerId), ("source_guild_id", .ofStr? sourceGuildId),
    ("added_at_ms", .int row.addedAtMs), ("updated_at_ms", .int row.updatedAtMs),
    ("hit_count", .int row.hitCount), ("last_hit_at_ms", .ofInt? row.lastHitAtMs),
    ("auto_added", .bool row.autoAdded), ("provenance", .str row.provenance),
    ("status", .str row.status.text), ("flag_count", .int row.flagCount),
    ("reason", .ofStr? reason), ("source_url", .ofStr? sourceUrl)]

/-- `_detail_fp`: the full record for the owner and for an admin, the peer record for anyone else.
It is `none` when one of the three texts makes `_decrypt` raise. -/
def detailFp (c : Consumer) (row : Fingerprint) : Option Json :=
  if canSeeSecrets c row then
    match decrypt gcm ring row.sourceGuildId, decrypt gcm ring row.reason,
        decrypt gcm ring row.sourceUrl with
    | some sourceGuildId, some reason, some sourceUrl =>
      some (fullFp row sourceGuildId reason sourceUrl)
    | _, _, _ => none
  else some (peerFp row.syncColumns)

/-! ### Reading handlers -/

/-- An integer query parameter with its default. `none` is the `ValueError` of `int`, which each
handler answers with a 400 of its own. -/
def intParam (q : Query) (name : String) (default : ℤ) : Option ℤ :=
  match q name with
  | some t => PyStr.int t
  | none => some default

/-- The compatibility filter of a sync request. A blank text sets no filter, and `none` says that
one of the texts cannot be sent to PostgreSQL. -/
def syncFilter (q : Query) : Option SyncFilter :=
  match sqlText? (strOrNone (q "algorithm")), sqlText? (strOrNone (q "algorithm_version")),
      sqlText? (strOrNone (q "normalization_version")) with
  | some algorithm, some algorithmVersion, some normalizationVersion =>
    some ⟨algorithm, algorithmVersion, normalizationVersion⟩
  | _, _, _ => none

/-- The body of a sync answer. -/
def syncBody (page : List SyncRow × ℕ × Bool) : Json :=
  .obj [("fingerprints", .arr (page.1.map peerFp)), ("next_since", .int page.2.1),
    ("has_more", .bool page.2.2)]

/-- `sync_fingerprints`. The cursor and the limit are read before the filter, the limit is
clamped, and a negative cursor counts as 0. The store reads one row more than the limit, which is
why `limit + 1` has to fit. -/
def syncFingerprints (config : ServiceConfig) (c : Consumer) (q : Query) (s : Store) : Response :=
  requireScope c .read id <|
    match intParam q "since" 0 with
    | none => .error 400 "since must be an integer"
    | some since =>
      match intParam q "limit" config.defaultSyncLimit with
      | none => .error 400 "limit must be an integer"
      | some limit =>
        let limit := max 1 (min limit config.maxSyncLimit)
        match syncFilter q with
        | none => .internalServerError
        | some filter =>
          if fitsBigint (limit + 1) then
            .ok (syncBody (s.sync c.id (max 0 since).toNat limit.toNat filter))
          else .internalServerError

/-- `get_fingerprint`. A tombstone is never shown, and a hidden row only to those who may see its
secrets; for the others it is as if there were no such row. -/
def getFingerprint (c : Consumer) (segment : PyStr) (s : Store) : Response :=
  requireScope c .read id <|
    match pathId segment with
    | none => .invalidId
    | some id =>
      match s.get id with
      | none => .notFound
      | some row =>
        -- the status comes before the owner, an admin does not see tombstones either
        if row.status = .deleted then .notFound
        else if row.status = .hidden ∧ canSeeSecrets c row = false then .notFound
        else
          match detailFp gcm ring c row with
          | some body => .ok body
          | none => .internalServerError

/-- The owner a list request is limited to: everyone but an admin only lists their
own. -/
def listOwner (c : Consumer) (q : Query) : Except Response (Option ℤ) :=
  match q "consumer_id" with
  | none => .ok (if c.isAdmin then none else some c.id)
  | some t =>
    match PyStr.int t with
    | none => .error (.error 400 "consumer_id must be an integer")
    | some owner =>
      if c.isAdmin then .ok (some owner)
      else if owner ≠ c.id then
        .error (.error 403 "consumer_id filtering is limited to your own records")
      else .ok (some c.id)

/-- `include_hidden`, before the admin check. Any other text counts as false. -/
def includeHidden (q : Query) : Bool :=
  PyStr.lower ((q "include_hidden").getD []) ∈
    [PyStr.ofString "1", PyStr.ofString "true", PyStr.ofString "yes"]

/-- The body of a list answer. -/
def listBody (rows : List Json) : Json :=
  .obj [("fingerprints", .arr rows), ("count", .int rows.length)]

/-- `list_fingerprints`. The parameters are checked in the order of the source: limit and offset,
the owner, and last the two filters, which only fail in the statement. One row whose texts are no
UTF-8 makes the whole answer a 500. -/
def listFingerprints (config : ServiceConfig) (c : Consumer) (q : Query) (s : Store) : Response :=
  requireScope c .read id <|
    match intParam q "limit" 50, intParam q "offset" 0 with
    | some limit, some offset =>
      let limit := max 1 (min limit config.maxListLimit)
      let offset := max 0 offset
      match listOwner c q with
      | .error response => response
      | .ok owner =>
        match sqlText? (strOrNone (q "category")), sqlText? (strOrNone (q "algorithm")) with
        | some category, some algorithm =>
          -- psycopg sends `LIMIT` and `OFFSET` as `bigint`
          if fitsBigint limit && fitsBigint offset then
            let rows := s.listFingerprints category algorithm owner (includeHidden q && c.isAdmin)
              limit.toNat offset.toNat
            match rows.mapM (detailFp gcm ring c) with
            | some bodies => .ok (listBody bodies)
            | none => .internalServerError
          else .internalServerError
        | _, _ => .internalServerError
    | _, _ => .error 400 "limit/offset must be integers"

/-! ### Contributions -/

/-- `[0-9a-f]`. -/
def isHex (c : CodePoint) : Bool :=
  (0x30 ≤ c.val && c.val ≤ 0x39) || (0x61 ≤ c.val && c.val ≤ 0x66)

/-- The normalised `phash_hex` of a body, when it matches `_PHASH_RE`: sixteen hexadecimal digits
once it is stripped and lowered. -/
def phashHex (value : Option Value) : Option String :=
  let t := PyStr.lower (Value.stripped value)
  if t.length = 16 ∧ t.all isHex = true then PyStr.encode t else none

/-- The category of a body, when it is in `VALID_CATEGORIES`. The text is stripped and not
lowered. -/
def category? (value : Option Value) : Option Category :=
  [Category.scam, .nsfw, .crypto, .phishing, .other].find?
    (fun c => PyStr.ofString c.text = Value.stripped value)

/-- The action of a body, when it is in `VALID_ACTIONS`. It is compared like the category. -/
def action? (value : Option Value) : Option Action :=
  [Action.kick, .timeout].find? (fun a => PyStr.ofString a.text = Value.stripped value)

/-- `_str_or_none(value) or default`. What is no text, and a blank one, gives the default. -/
def textOr (value : Option Value) (default : String) : PyStr :=
  (Value.strOrNone value).getD (PyStr.ofString default)

/-- The three private texts of a contribution: `none` where `encrypt_text` raises. -/
structure PrivateTexts where
  sourceGuildId : Option String
  reason : Option String
  sourceUrl : Option String

/-- The private texts of a body. -/
def privateTexts (get : String → Option Value) : Option PrivateTexts :=
  match plaintext? (Value.strOrNone (get "reason")),
      plaintext? (Value.strOrNone (get "source_url")),
      plaintext? (Value.strOrNone (get "source_guild_id")) with
  | some reason, some sourceUrl, some sourceGuildId => some ⟨sourceGuildId, reason, sourceUrl⟩
  | _, _, _ => none

/-- The triple of a body, with its defaults: `none` where psycopg raises. -/
def triple? (get : String → Option Value) : Option Triple :=
  match sqlText (textOr (get "algorithm") "phash"),
      sqlText (textOr (get "algorithm_version") "imagehash.phash"),
      sqlText (textOr (get "normalization_version") "alpha_white_v1") with
  | some algorithm, some algorithmVersion, some normalizationVersion =>
    some ⟨algorithm, algorithmVersion, normalizationVersion⟩
  | _, _, _ => none

/-- The provenance of a body, with its default: `none` where psycopg raises. -/
def provenance? (get : String → Option Value) : Option String :=
  sqlText (textOr (get "provenance") "manual_staff")

/-- The answer to a contribution that a live row refuses. -/
def duplicate (existingId : ℤ) : Response :=
  ⟨409, some (.obj [("error", .str "duplicate fingerprint for this consumer"),
    ("existing_id", .int existingId)])⟩

/-- The calls of `encrypt_text` in a request that draws these nonces. -/
def encryptWith (nonces : ℕ → Nonce) : EncryptText :=
  fun i text => FieldEncryption.encryptText gcm ring (nonces i) text

/-- What `contribute_fingerprint` answers for what `contribute` returned. A row that was not
created is answered 409 whatever its status is, and the last case, no row at all, is an
`AttributeError`. -/
def contributeResponse (c : Consumer) (result : ContributeResult) : Response :=
  match result with
  | (some (.existing id _), false) => duplicate id
  | (some (.written row), false) => duplicate row.id
  | (some (.written row), true) =>
    match detailFp gcm ring c row with
    | some body => ⟨201, some body⟩
    | none => .internalServerError
  | _ => .internalServerError

/-- `contribute_fingerprint` once the body is known to be an object and its hash,
category, action and flag are valid. A text that psycopg cannot send only raises
where a statement uses it: a live row of the key is found first. -/
def contributeValid (nonces : ℕ → Nonce) (c : Consumer) (get : String → Option Value)
    (phashHex : String) (category : Category) (action : Action) (autoAdded : Bool) (nowMs : ℤ)
    (s : Store) : Response × Store :=
  -- the texts are encrypted before the store is asked anything
  match privateTexts get with
  | none => (.internalServerError, s)
  | some texts =>
    match triple? get, provenance? get with
    | some triple, some provenance =>
      let (result, s') := s.contribute (encryptWith gcm ring nonces)
        { consumerId := c.id, phashHex := phashHex, triple := triple, category := category
          action := action, sourceGuildId := texts.sourceGuildId, reason := texts.reason
          sourceUrl := texts.sourceUrl, autoAdded := autoAdded, provenance := provenance
          nowMs := nowMs }
      (contributeResponse gcm ring c result, s')
    | _, _ =>
      -- the first statement of `contribute` does not use the texts
      match s.findOwned (phashHex, c.id) with
      | some existing =>
        if existing.status ≠ .deleted then (duplicate existing.id, s)
        else (.internalServerError, s)
      | none => (.internalServerError, s)

/-- `contribute_fingerprint`. The body is checked field by field in the order of the source, and
the first field that is wrong names itself in the answer. All of it happens before the
transaction, so that these answers leave the store as it was. -/
def contributeFingerprint (nonces : ℕ → Nonce) (c : Consumer) (body : Body) (nowMs : ℤ)
    (s : Store) : Response × Store :=
  requireScope c .write (·, s) <|
    -- `parse_json_body` returns an object or an answer, or it raises
    match body with
    | .raises => (.internalServerError, s)
    | .invalid details =>
      (⟨400, some (.obj [("error", .str "Invalid JSON"), ("details", .str details)])⟩, s)
    | .notObject => (.error 400 "JSON body must be an object", s)
    | .object get =>
      -- the checks of the single fields
      match phashHex (get "phash_hex") with
      | none => (.error 400 "phash_hex must be 16 lowercase hex characters", s)
      | some phashHex =>
        match category? (get "category") with
        | none =>
          (.error 400
            "category must be one of ['crypto', 'nsfw', 'other', 'phishing', 'scam']", s)
        | some category =>
          match action? (get "action") with
          | none => (.error 400 "action must be one of ['kick', 'timeout']", s)
          | some action =>
            match Value.boolOrNone (get "auto_added") with
            | none => (.error 400 "auto_added must be a boolean", s)
            | some autoAdded =>
              contributeValid gcm ring nonces c get phashHex category action autoAdded nowMs s

/-- The index takes the triple of the body. A body without a triple never reaches it. -/
def fitsIndex (fits : Triple → Bool) : Body → Bool
  | .object get => (triple? get).all fits
  | _ => true

/-- `contribute_fingerprint` on a database whose `idx_fingerprints_compat` has room for the
entries of the triples that `fits`, and of no others. For another triple the statement that
writes the row raises an `OperationalError`: the transaction is undone, but what it drew from the
sequences is not given out again. -/
def contributeFingerprintIndexed (fits : Triple → Bool) (nonces : ℕ → Nonce) (c : Consumer)
    (body : Body) (nowMs : ℤ) (s : Store) : Response × Store :=
  let (answer, s') := contributeFingerprint gcm ring nonces c body nowMs s
  if answer.status = 201 ∧ fitsIndex fits body = false then
    (.databaseUnavailable, { s with syncSeq := s'.syncSeq, lastId := s'.lastId })
  else (answer, s')

/-! ### Hits and flags -/

/-- The fields of an optional body: one that is no JSON object counts as empty, and
`none` is an exception that escapes. -/
def optionalBody (body : Body) : Option (String → Option Value) :=
  match body with
  | .raises => none
  | .invalid _ => some fun _ => none
  | .notObject => some fun _ => none
  | .object get => some get

/-- `int(distance_raw)` with its `except (TypeError, ValueError)`: the outer `none` is
the `OverflowError` that escapes. -/
def distance? (value : Option Value) : Option (Option ℤ) :=
  match value with
  | none => some none
  | some .null => some none
  | some (.bool b) => some (some b.toInt)
  | some (.int n) => some (some n)
  | some (.float _ .nan) => some none
  | some (.float _ .infinite) => none
  | some (.float _ (.finite n)) => some (some n)
  | some (.str t) => some (PyStr.int t)
  | some (.list _) => some none
  | some (.dict _) => some none

/-- The answer of `report_hit`: the new count, or 404 when the row is not there or is a tombstone.
-/
def hitResponse (id : ℤ) (hitCount : Option ℕ) : Response :=
  match hitCount with
  | none => .notFound
  | some n => .ok (.obj [("id", .int id), ("hit_count", .int n)])

/-- `report_hit`. The guild id is encrypted and the hit inserted only once the row is known to be
live, so that a body with a bad text is answered 404 for a row that is not. -/
def reportHit (nonces : ℕ → Nonce) (c : Consumer) (segment : PyStr) (body : Body) (nowMs : ℤ)
    (s : Store) : Response × Store :=
  requireScope c .write (·, s) <|
    match pathId segment with
    | none => (.invalidId, s)
    | some id =>
      match optionalBody body with
      | none => (.internalServerError, s)
      | some get =>
        match distance? (get "distance") with
        | none => (.internalServerError, s)
        | some distance =>
          match plaintext? (Value.strOrNone (get "guild_id")), distance.all fitsInteger with
          | some guildId, true =>
            -- both can be stored
            let (hitCount, s') := s.reportHit (encryptWith gcm ring nonces)
              { fingerprintId := id, consumerId := c.id, guildId := guildId, distance := distance
                nowMs := nowMs }
            (hitResponse id hitCount, s')
          | _, _ =>
            -- one cannot: the first statement of `report_hit` still looks for the row
            match s.get id with
            | none => (.notFound, s)
            | some row =>
              if row.status = .deleted then (.notFound, s) else (.internalServerError, s)

/-- The answer of `flag_fingerprint`: the count, the status and whether the row is hidden now, or
404. -/
def flagResponse (id : ℤ) (result : Option FlagResult) : Response :=
  match result with
  | none => .notFound
  | some r => .ok (.obj [("id", .int id), ("flag_count", .int r.flagCount),
      ("status", .str r.status.text), ("hidden", .bool r.hidden)])

/-- `flag_fingerprint`. The reason is encrypted only once the row is known to be live, and the
threshold that hides the row is the one of the configuration. -/
def flagFingerprint (config : ServiceConfig) (nonces : ℕ → Nonce) (c : Consumer) (segment : PyStr)
    (body : Body) (nowMs : ℤ) (s : Store) : Response × Store :=
  requireScope c .write (·, s) <|
    match pathId segment with
    | none => (.invalidId, s)
    | some id =>
      match optionalBody body with
      | none => (.internalServerError, s)
      | some get =>
        match plaintext? (Value.strOrNone (get "reason")) with
        | some reason =>
          let (result, s') := s.flag (encryptWith gcm ring nonces)
            { fingerprintId := id, consumerId := c.id, reason := reason, nowMs := nowMs
              autoHideThreshold := config.autoHideFlagThreshold }
          (flagResponse id result, s')
        | none =>
          -- a reason that cannot be encrypted only raises for a live row
          match s.get id with
          | none => (.notFound, s)
          | some row =>
            if row.status = .deleted then (.notFound, s) else (.internalServerError, s)

/-! ### Deletion -/

/-- `delete_fingerprint` up to its `soft_delete`: an answer that ends the request, or the id whose
deletion was allowed. The row may change before the second transaction runs, which does not look
at its owner again. -/
def deleteCheck (c : Consumer) (segment : PyStr) (s : Store) : Except Response ℤ :=
  requireScope c .write .error <|
    match pathId segment with
    | none => .error .invalidId
    | some id =>
      match s.get id with
      | none => .error .notFound
      | some row =>
        if row.status = .deleted then .error .notFound
        else if row.consumerId = c.id ∨ c.isAdmin = true then .ok id
        else
          .error (.error 403
            "only the owning consumer or an admin may delete; use /flag instead")

/-- The answer once `soft_delete` ran, whatever it found. -/
def deleted : Response := ⟨204, none⟩

end Api

end FingerprintHub
