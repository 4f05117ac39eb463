import FingerprintHub.Api.Authority
import FingerprintHub.Store.Contribute
import FingerprintHub.Store.Retention

/-!
# What an owner reads back

A run of the service whose keyring may be replaced: `Deployment` adds the keyring to the
state, with every key that was ever active. A new keyring has to keep those.

`standing` is what the run is about, and nothing the service stores: the body of the
latest contribution that was answered 201, for each hash and owner, as long as its row is
not deleted. `contributions_read_back` says that the standing contributions are exactly
the live rows, and that GET shows each to its owner and to every admin as it was sent.
-/

namespace FingerprintHub

/-- A field of a JSON object. -/
def Json.field (name : String) : Json → Option Json
  | .obj fields => (fields.find? (fun f => f.1 = name)).map Prod.snd
  | _ => none

namespace Api

open FieldEncryption (AesGcm Key KeyId Keyring Nonce Sealed)

/-! ### What is shown -/

/-- A text in a response: `null` for none, and no answer for a text that has no UTF-8. -/
def shownText (t : Option PyStr) : Option Json :=
  match t with
  | none => some .null
  | some t => (PyStr.encode t).map .str

/-- The object shows the contribution of a body: every text as it was sent, up to the whitespace
around it, and every default where nothing was sent. -/
structure Shows (body : Json) (get : String → Option Value) : Prop where
  category : body.field "category" = shownText (some (Value.stripped (get "category")))
  action : body.field "action" = shownText (some (Value.stripped (get "action")))
  algorithm : body.field "algorithm" = shownText (some (textOr (get "algorithm") "phash"))
  algorithmVersion : body.field "algorithm_version" =
    shownText (some (textOr (get "algorithm_version") "imagehash.phash"))
  normalizationVersion : body.field "normalization_version" =
    shownText (some (textOr (get "normalization_version") "alpha_white_v1"))
  autoAdded : body.field "auto_added" = (Value.boolOrNone (get "auto_added")).map .bool
  provenance : body.field "provenance" = shownText (some (textOr (get "provenance") "manual_staff"))
  sourceGuildId : body.field "source_guild_id" = shownText (Value.strOrNone (get "source_guild_id"))
  reason : body.field "reason" = shownText (Value.strOrNone (get "reason"))
  sourceUrl : body.field "source_url" = shownText (Value.strOrNone (get "source_url"))

/-! ### Runs with rotations -/

/-- The service with its keyring. The last two fields are what the result is about, and no part of
the service. -/
structure Deployment where
  service : Service
  ring : Keyring
  /-- Every key that was active so far. -/
  activated : List (KeyId × Key)
  /-- The body of the latest contribution answered 201, until its row is deleted. -/
  standing : String × ℤ → Option (String → Option Value)

/-- The service on an empty database. -/
def Deployment.start (ring : Keyring) : Deployment :=
  ⟨.start, ring, [(ring.activeId, ring.activeKey)], fun _ => none⟩

/-- The keyring the event is handled with. -/
def Event.UsesRing (ring : Keyring) : Event → Prop
  | .contribute r _ _ _ _ => r = ring
  | .reportHit r _ _ _ _ _ => r = ring
  | .flag r _ _ _ _ _ => r = ring
  | _ => True

/-- What stands after an event: a contribution answered 201 takes the place of the one before
under its key, and a deletion of a live row takes it down. No other event changes it. -/
def standingAfter (gcm : AesGcm) (s : Store)
    (standing : String × ℤ → Option (String → Option Value)) :
    Event → String × ℤ → Option (String → Option Value)
  | .contribute ring nonces c body nowMs =>
    match body with
    | .object get =>
      match phashHex (get "phash_hex") with
      | some hash =>
        if (contributeFingerprint gcm ring nonces c body nowMs s).1.status = 201
        then Function.update standing (hash, c.id) (some get)
        else standing
      | none => standing
    | _ => standing
  | .softDelete _ id _ =>
    match s.row id with
    | some r => if r.Live then Function.update standing r.owned none else standing
    | none => standing
  | _ => standing

/-- A transaction, or a new keyring that keeps every key that was active. -/
inductive DeploymentStep (gcm : AesGcm) (config : ServiceConfig) : Deployment → Deployment → Prop
  | transaction {d : Deployment} {e : Event} {t : Service} (h_ring : e.UsesRing d.ring)
      (h_step : Step gcm config d.service e t) :
      DeploymentStep gcm config d
        { d with
          service := t
          standing := standingAfter gcm d.service.store d.standing e }
  | rotate {d : Deployment} (ring : Keyring)
      (h_keeps : ∀ k ∈ d.activated, ring.get k.1.text = some k.2) :
      DeploymentStep gcm config d
        { d with
          ring := ring
          activated := (ring.activeId, ring.activeKey) :: d.activated }

/-- What a deployment is to show: the standing contributions, all of them and no others. -/
structure ReadsBack (gcm : AesGcm) (d : Deployment) : Prop where
  /-- A standing contribution has a live row, and its owner and every admin read it back. -/
  shown : ∀ key get, d.standing key = some get →
    ∃ r, d.service.store.row r.id = some r ∧ r.owned = key ∧ r.Live ∧
      ∀ c segment, Scope.read ∈ c.scopes → (c.id = key.2 ∨ c.isAdmin = true) →
        pathId segment = some r.id →
        ∃ body, getFingerprint gcm d.ring c segment d.service.store = .ok body ∧ Shows body get
  /-- Every live row is that of a standing contribution. -/
  standing : ∀ r, d.service.store.row r.id = some r → r.Live → d.standing r.owned ≠ none

/-! ### What a row holds of a contribution -/

/-- The row holds the contribution of a body, its private texts under one of the keys. Which key
it is may differ from text to text. -/
structure Holds (gcm : AesGcm) (keys : List (KeyId × Key)) (get : String → Option Value)
    (r : Fingerprint) : Prop where
  category : category? (get "category") = some r.category
  action : action? (get "action") = some r.action
  triple : triple? get = some r.triple
  autoAdded : Value.boolOrNone (get "auto_added") = some r.autoAdded
  provenance : provenance? get = some r.provenance
  texts : ∃ texts, privateTexts get = some texts ∧
    Sealed gcm keys r.sourceGuildId texts.sourceGuildId ∧ Sealed gcm keys r.reason texts.reason ∧
    Sealed gcm keys r.sourceUrl texts.sourceUrl

variable {gcm : AesGcm} {config : ServiceConfig} {keys keys' : List (KeyId × Key)}
  {get : String → Option Value} {r r' : Fingerprint} {ring : Keyring}

/-- More keys hold no less. -/
theorem Holds.mono (h_keys : ∀ k ∈ keys, k ∈ keys') (h : Holds gcm keys get r) :
    Holds gcm keys' get r := by
  obtain ⟨texts, h_texts, h_guild, h_reason, h_url⟩ := h.texts
  exact { h with
    texts := ⟨texts, h_texts, h_guild.mono h_keys, h_reason.mono h_keys, h_url.mono h_keys⟩ }

/-- Only the columns of the contribution matter, so that counters and times may change. -/
theorem Holds.of_contributed (h_eq : r'.contributed = r.contributed) (h : Holds gcm keys get r) :
    Holds gcm keys get r' := by
  obtain ⟨texts, h_texts, h_guild, h_reason, h_url⟩ := h.texts
  unfold Fingerprint.contributed Fingerprint.sourceTexts at h_eq
  injection h_eq with h_category h_action h_triple h_auto h_provenance h_source
  obtain ⟨h_eq_guild, h_eq_reason, h_eq_url⟩ := Prod.mk.inj h_source |>.imp id Prod.mk.inj
  refine ⟨h_category ▸ h.category, h_action ▸ h.action, h_triple ▸ h.triple, h_auto ▸ h.autoAdded,
    h_provenance ▸ h.provenance, texts, h_texts, ?_, ?_, ?_⟩
  · rw [h_eq_guild]; exact h_guild
  · rw [h_eq_reason]; exact h_reason
  · rw [h_eq_url]; exact h_url

/-- The row of a contribution holds it: its texts are sealed under the active key. -/
theorem Holds.of_contributes {nonces : ℕ → Nonce} {c : Consumer} {nowMs : ℤ} {a : ContributeArgs}
    (h_active : (ring.activeId, ring.activeKey) ∈ keys) (h : Contributes c get nowMs a)
    (h_eq : r.contributed = a.contributed (encryptWith gcm ring nonces)) :
    Holds gcm keys get r := by
  unfold Fingerprint.contributed Fingerprint.sourceTexts ContributeArgs.contributed
    ContributeArgs.sourceTexts at h_eq
  injection h_eq with h_category h_action h_triple h_auto h_provenance h_source
  obtain ⟨h_guild, h_reason, h_url⟩ := Prod.mk.inj h_source |>.imp id Prod.mk.inj
  refine ⟨h_category ▸ h.category, h_action ▸ h.action, h_triple ▸ h.triple, h_auto ▸ h.autoAdded,
    h_provenance ▸ h.provenance, _, h.texts, ?_, ?_, ?_⟩
  · rw [h_guild]; exact .encryptText h_active _ _
  · rw [h_reason]; exact .encryptText h_active _ _
  · rw [h_url]; exact .encryptText h_active _ _

/-! ### Reading it back -/

/-- What is sealed under its keys the keyring decrypts, whichever is active now. -/
theorem decrypt_sealed (h_keys : ∀ k ∈ keys, ring.get k.1.text = some k.2)
    {stored plaintext : Option String} (h : Sealed gcm keys stored plaintext) :
    decrypt gcm ring stored = some plaintext := by
  cases stored with
  | none =>
    cases h with
    | null => rfl
  | some value =>
    obtain ⟨t, rfl, h_text⟩ := h.decryptText h_keys
    simp only [decrypt, h_text]

/-- A text that was encrypted is shown as it is, -/
theorem shownText_of_plaintext {t : Option PyStr} {p : Option String} (h : plaintext? t = some p) :
    shownText t = some (.ofStr? p) := by
  cases t with
  | none =>
    obtain rfl := Option.some.inj h
    rfl
  | some t =>
    change (PyStr.encode t).map some = some p at h
    obtain ⟨text, h_text, rfl⟩ := Option.map_eq_some_iff.mp h
    show (PyStr.encode t).map Json.str = _
    rw [h_text]
    rfl

/-- one that psycopg took as well, -/
theorem shownText_of_sqlText {t : PyStr} {text : String} (h : sqlText t = some text) :
    shownText (some t) = some (.str text) := by
  obtain ⟨text', h_text, h_if⟩ := Option.bind_eq_some_iff.mp h
  split at h_if
  · exact absurd h_if (by simp)
  · obtain rfl := Option.some.inj h_if
    show (PyStr.encode t).map Json.str = _
    rw [h_text]
    rfl

/-- and so is one that a handler has compared with a text of its own, -/
theorem shownText_of_ofString {t : PyStr} {text : String} (h : PyStr.ofString text = t) :
    shownText (some t) = some (.str text) := by
  rw [← h]
  show (PyStr.encode (PyStr.ofString text)).map Json.str = _
  rw [PyStr.encode_ofString]
  rfl

/-- like a category -/
theorem shownText_of_category {value : Option Value} {c : Category} (h : category? value = some c) :
    shownText (some (Value.stripped value)) = some (.str c.text) :=
  shownText_of_ofString (by simpa using List.find?_some h)

/-- or an action. -/
theorem shownText_of_action {value : Option Value} {a : Action} (h : action? value = some a) :
    shownText (some (Value.stripped value)) = some (.str a.text) :=
  shownText_of_ofString (by simpa using List.find?_some h)

/-- A triple is three texts that can be sent. -/
theorem triple?_eq_some {t : Triple} (h : triple? get = some t) :
    sqlText (textOr (get "algorithm") "phash") = some t.algorithm ∧
      sqlText (textOr (get "algorithm_version") "imagehash.phash") = some t.algorithmVersion ∧
      sqlText (textOr (get "normalization_version") "alpha_white_v1") =
        some t.normalizationVersion := by
  unfold triple? at h
  split at h
  · next algorithm algorithmVersion normalizationVersion h_a h_av h_nv =>
    obtain rfl := Option.some.inj h
    exact ⟨h_a, h_av, h_nv⟩
  · exact absurd h (by simp)

/-- The private texts of a body are three texts that can be encrypted. -/
theorem privateTexts_eq_some {texts : PrivateTexts} (h : privateTexts get = some texts) :
    plaintext? (Value.strOrNone (get "reason")) = some texts.reason ∧
      plaintext? (Value.strOrNone (get "source_url")) = some texts.sourceUrl ∧
      plaintext? (Value.strOrNone (get "source_guild_id")) = some texts.sourceGuildId := by
  unfold privateTexts at h
  split at h
  · next reason sourceUrl sourceGuildId h_reason h_url h_guild =>
    obtain rfl := Option.some.inj h
    exact ⟨h_reason, h_url, h_guild⟩
  · exact absurd h (by simp)

/-- **Who may see the row sees the contribution.** The record is complete, since every text of the
row decrypts. -/
theorem Holds.shows (h : Holds gcm keys get r)
    (h_keys : ∀ k ∈ keys, ring.get k.1.text = some k.2) {c : Consumer}
    (h_sees : canSeeSecrets c r = true) :
    ∃ body, detailFp gcm ring c r = some body ∧ Shows body get := by
  obtain ⟨texts, h_texts, h_guild, h_reason, h_url⟩ := h.texts
  obtain ⟨h_reason', h_url', h_guild'⟩ := privateTexts_eq_some h_texts
  obtain ⟨h_a, h_av, h_nv⟩ := triple?_eq_some h.triple
  -- the record is the row with its private texts opened; the rest is one field after the other
  refine ⟨fullFp r texts.sourceGuildId texts.reason texts.sourceUrl, ?_, ?_⟩
  · simp only [detailFp, h_sees, if_true, decrypt_sealed h_keys h_guild,
      decrypt_sealed h_keys h_reason, decrypt_sealed h_keys h_url]
  · constructor
    · rw [shownText_of_category h.category]
      simp [Json.field, fullFp]
    · rw [shownText_of_action h.action]
      simp [Json.field, fullFp]
    · rw [shownText_of_sqlText h_a]
      simp [Json.field, fullFp]
    · rw [shownText_of_sqlText h_av]
      simp [Json.field, fullFp]
    · rw [shownText_of_sqlText h_nv]
      simp [Json.field, fullFp]
    · rw [h.autoAdded]
      simp [Json.field, fullFp]
    · rw [shownText_of_sqlText h.provenance]
      simp [Json.field, fullFp]
    · rw [shownText_of_plaintext h_guild']
      simp [Json.field, fullFp]
    · rw [shownText_of_plaintext h_reason']
      simp [Json.field, fullFp]
    · rw [shownText_of_plaintext h_url']
      simp [Json.field, fullFp]

/-- GET answers who may see a live row with its details. -/
theorem getFingerprint_of_sees {s : Store} {c : Consumer} {segment : PyStr} {id : ℤ}
    (h_read : Scope.read ∈ c.scopes) (h_id : pathId segment = some id) (h_row : s.row id = some r)
    (h_live : r.Live) (h_sees : canSeeSecrets c r = true) {body : Json}
    (h_body : detailFp gcm ring c r = some body) :
    getFingerprint gcm ring c segment s = .ok body := by
  have h_get : s.get id = some r := h_row
  have h_deleted : ¬ r.status = .deleted := h_live
  simp only [getFingerprint, requireScope, if_pos h_read, h_id, h_get, if_neg h_deleted, h_sees,
    h_body]
  simp

/-! ### The invariant -/

/-- The standing contributions are the live rows, and the keyring opens them. The invariant of a
run with rotations: the keys are those that were active at some time. -/
structure Standing (gcm : AesGcm) (d : Deployment) : Prop where
  wf : d.service.store.Wf
  opens : ∀ k ∈ d.activated, d.ring.get k.1.text = some k.2
  active : (d.ring.activeId, d.ring.activeKey) ∈ d.activated
  /-- A live row holds the standing contribution of its key. -/
  holds : ∀ r, d.service.store.row r.id = some r → r.Live →
    ∃ get, d.standing r.owned = some get ∧ Holds gcm d.activated get r
  /-- A standing contribution has a live row. -/
  row : ∀ key get, d.standing key = some get →
    ∃ r, d.service.store.row r.id = some r ∧ r.owned = key ∧ r.Live

/-- The empty database has nothing that stands. -/
theorem Standing.start (ring : Keyring) : Standing gcm (.start ring) where
  wf := .empty
  opens := by
    intro k h_k
    obtain rfl := List.mem_singleton.mp h_k
    exact ring.get_active
  active := List.mem_singleton_self _
  holds := fun _ h_row =>
    absurd h_row (by simp [Deployment.start, Service.start, Store.row, Store.empty])
  row := fun _ _ h => absurd h (by simp [Deployment.start])

/-- A new keyring opens what the old one opened, since it keeps every key that was active. -/
theorem Standing.rotate {d : Deployment} (h : Standing gcm d)
    (h_keeps : ∀ k ∈ d.activated, ring.get k.1.text = some k.2) :
    Standing gcm { d with
      ring := ring
      activated := (ring.activeId, ring.activeKey) :: d.activated } where
  wf := h.wf
  opens := by
    intro k h_k
    rcases List.mem_cons.mp h_k with rfl | h_k
    · exact ring.get_active
    · exact h_keeps k h_k
  active := List.mem_cons_self
  holds := by
    intro r h_row h_live
    obtain ⟨get, h_get, h_holds⟩ := h.holds r h_row h_live
    exact ⟨get, h_get, h_holds.mono fun k h_k => List.mem_cons_of_mem _ h_k⟩
  row := h.row

/-! ### Transactions -/

section Rows

variable {st : Store} {op : Op}

/-- A row that is live after a call other than `contribute` was live before, with the same
contribution. -/
theorem was_live (h_wf : st.Wf) (h_op : ∀ enc a, op ≠ .contribute enc a)
    (h_row : (op.apply st).row r'.id = some r') (h_live : r'.Live) :
    ∃ r, st.row r.id = some r ∧ r.Live ∧ r.id = r'.id ∧ r.owned = r'.owned ∧
      r'.contributed = r.contributed := by
  have h_step := Op.rowStep h_wf.fresh op r'.id
  rw [h_row] at h_step
  cases h_old : st.row r'.id with
  | none =>
    rw [h_old] at h_step
    generalize r'.id = id at h_step
    -- only a contribution makes a row appear
    cases h_step with
    | insert _ _ => exact absurd rfl (h_op _ _)
  | some r =>
    have h_id := Store.id_of_row h_old
    rw [h_old] at h_step
    refine ⟨r, h_id ▸ h_old, ?_⟩
    -- the other calls leave the columns of the contribution
    rcases h_step.row_cases with rfl | ⟨enc, a, rfl, -⟩ | ⟨enc, a, -, -, h_r, rfl⟩ |
      ⟨enc, a, -, -, h_active, -, rfl⟩ | ⟨enc, a, -, -, h_r, rfl⟩ | ⟨nowMs, -, -, rfl⟩ |
      ⟨p, nowMs, -, h_due, rfl⟩
    · exact ⟨h_live, rfl, rfl, rfl⟩
    · exact absurd rfl (h_op enc a)
    · exact ⟨h_r, rfl, rfl, rfl⟩
    · exact ⟨fun h_deleted => Status.noConfusion (h_active.symm.trans h_deleted), rfl, rfl, rfl⟩
    · exact ⟨h_r, rfl, rfl, rfl⟩
    -- a deletion or a redaction leaves a tombstone
    · exact absurd rfl h_live
    · exact absurd (RetentionPolicy.anonymizes_iff.mp h_due).1.1 h_live

/-- A live row that is not deleted by the call, nor contributed to, stays live. -/
theorem stays_live (h_wf : st.Wf) (h_op : ∀ enc a, op ≠ .contribute enc a)
    (h_delete : ∀ nowMs, op ≠ .softDelete r.id nowMs) (h_row : st.row r.id = some r)
    (h_live : r.Live) :
    ∃ r', (op.apply st).row r'.id = some r' ∧ r'.owned = r.owned ∧ r'.Live := by
  have h_step := Op.rowStep h_wf.fresh op r.id
  rw [h_row] at h_step
  cases h_new : (op.apply st).row r.id with
  | none =>
    rw [h_new] at h_step
    generalize r.id = id at h_step
    cases h_step with
    -- retention purges tombstones only
    | purge _ h_due => exact absurd (RetentionPolicy.purges_iff.mp h_due).1 h_live
  | some r' =>
    have h_id := Store.id_of_row h_new
    rw [h_new] at h_step
    refine ⟨r', h_id ▸ h_new, ?_⟩
    -- no other call takes a live row out of service
    rcases h_step.row_cases with rfl | ⟨enc, a, rfl, -⟩ | ⟨enc, a, -, -, -, rfl⟩ |
      ⟨enc, a, -, -, -, -, rfl⟩ | ⟨enc, a, -, -, -, rfl⟩ | ⟨nowMs, h_op', -, -⟩ |
      ⟨p, nowMs, -, h_due, -⟩
    · exact ⟨rfl, h_live⟩
    · exact absurd rfl (h_op enc a)
    · exact ⟨rfl, h_live⟩
    · exact ⟨rfl, fun h_deleted => Status.noConfusion h_deleted⟩
    · exact ⟨rfl, h_live⟩
    · exact absurd h_op' (h_delete nowMs)
    · exact absurd (RetentionPolicy.anonymizes_iff.mp h_due).1.1 h_live

end Rows

section Transactions

variable {d : Deployment} {t : Service}

/-- Nothing is written, and nothing stands anew. -/
theorem Standing.of_same (h : Standing gcm d) (h_t : t.store = d.service.store) :
    Standing gcm { d with service := t } where
  wf := h_t ▸ h.wf
  opens := h.opens
  active := h.active
  holds := fun r h_row => h.holds r (h_t ▸ h_row)
  row := by
    intro key get h_get
    obtain ⟨r, h_row, h_r⟩ := h.row key get h_get
    exact ⟨r, (congrArg (Store.row · r.id) h_t).trans h_row, h_r⟩

/-- A call that neither contributes nor deletes leaves what stands. It may hide a row, or count on
it. -/
theorem Standing.of_op (h : Standing gcm d) (op : Op) (h_op : ∀ enc a, op ≠ .contribute enc a)
    (h_delete : ∀ id nowMs, op ≠ .softDelete id nowMs)
    (h_t : t.store = op.apply d.service.store) : Standing gcm { d with service := t } where
  wf := by
    show t.store.Wf
    rw [h_t]
    exact h.wf.step op
  opens := h.opens
  active := h.active
  holds := by
    intro r' h_row' h_live'
    change t.store.row r'.id = some r' at h_row'
    rw [h_t] at h_row'
    -- the row was live before, with the same contribution
    obtain ⟨r, h_row, h_live, -, h_owned, h_eq⟩ := was_live h.wf h_op h_row' h_live'
    obtain ⟨get, h_get, h_holds⟩ := h.holds r h_row h_live
    exact ⟨get, h_owned ▸ h_get, h_holds.of_contributed h_eq⟩
  row := by
    intro key get h_get
    obtain ⟨r, h_row, h_owned, h_live⟩ := h.row key get h_get
    -- the row stays live
    obtain ⟨r', h_row', h_owned', h_live'⟩ := stays_live h.wf h_op (h_delete r.id) h_row h_live
    refine ⟨r', ?_, h_owned'.trans h_owned, h_live'⟩
    show t.store.row r'.id = some r'
    rw [h_t]
    exact h_row'

/-- A contribution that creates its row stands. The other keys have the rows they had. -/
theorem Standing.of_created (h : Standing gcm d) {enc : EncryptText} {a : ContributeArgs}
    (h_t : t.store = (d.service.store.contribute enc a).2)
    (h_created : d.service.store.Created enc a t.store r) (h_active : r.status = .active)
    (h_holds : Holds gcm d.activated get r) :
    Standing gcm
      { d with service := t, standing := Function.update d.standing a.owned (some get) } where
  wf := by
    show t.store.Wf
    rw [h_t]
    exact h.wf.step (.contribute enc a)
  opens := h.opens
  active := h.active
  holds := by
    intro r' h_row' h_live'
    by_cases h_key : r'.owned = a.owned
    · -- it is the row of the contribution
      have h_id := h_created.unique r'.id r' h_row' h_key
      rw [h_id] at h_row'
      obtain rfl := Option.some.inj (h_row'.symm.trans h_created.row)
      refine ⟨get, ?_, h_holds⟩
      show Function.update d.standing a.owned (some get) r'.owned = some get
      rw [h_key, Function.update_self]
    · obtain ⟨get', h_get', h_holds'⟩ :=
        h.holds r' ((h_created.others r'.id r' h_key).mp h_row') h_live'
      exact ⟨get', (Function.update_of_ne h_key _ _).trans h_get', h_holds'⟩
  row := by
    intro key get' h_get'
    by_cases h_key : key = a.owned
    · subst h_key
      refine ⟨r, h_created.row, h_created.owned, ?_⟩
      rw [Fingerprint.Live, h_active]
      exact fun h_eq => Status.noConfusion h_eq
    · change Function.update d.standing a.owned (some get) key = some get' at h_get'
      rw [Function.update_of_ne h_key] at h_get'
      obtain ⟨r', h_row', rfl, h_live'⟩ := h.row key get' h_get'
      -- the rows of other keys are where they were
      exact ⟨r', (h_created.others r'.id r' h_key).mpr h_row', rfl, h_live'⟩

/-- A contribution keeps what stands, or takes its place. -/
theorem Standing.contribute (h : Standing gcm d) (nonces : ℕ → Nonce) (c : Consumer) (body : Body)
    (nowMs : ℤ)
    (h_t : t.store = (contributeFingerprint gcm d.ring nonces c body nowMs d.service.store).2) :
    Standing gcm { d with
      service := t
      standing := standingAfter gcm d.service.store d.standing
        (.contribute d.ring nonces c body nowMs) } := by
  rcases contributeFingerprint_cases gcm d.ring nonces c body nowMs d.service.store with
    ⟨h_status, h_same⟩ | ⟨get, a, rfl, h_valid, h_call⟩
  · -- nothing is answered 201, and nothing stands anew
    have h_standing : standingAfter gcm d.service.store d.standing
        (.contribute d.ring nonces c body nowMs) = d.standing := by
      simp only [standingAfter]
      split
      · split
        · exact if_neg h_status
        · rfl
      · rfl
    rw [h_standing]
    exact h.of_same (h_t.trans h_same)
  -- the store is called, and the answer tells whether it wrote
  · have h_owned : (a.phashHex, c.id) = a.owned := by rw [← h_valid.consumerId]; rfl
    have h_standing : standingAfter gcm d.service.store d.standing
        (.contribute d.ring nonces c (.object get) nowMs) =
        if (contributeResponse gcm d.ring c
          (d.service.store.contribute (encryptWith gcm d.ring nonces) a).1).status = 201
        then Function.update d.standing a.owned (some get) else d.standing := by
      simp only [standingAfter, h_valid.phashHex, h_call, h_owned]
    rw [h_standing]
    rw [h_call] at h_t
    rcases h.wf.contribute_outcome (encryptWith gcm d.ring nonces) a with
      ⟨r, -, -, -, h_refused⟩ | ⟨-, r, h_result, h_created, h_active⟩
    · rw [h_refused] at h_t ⊢
      rw [if_neg (by simp [contributeResponse, duplicate])]
      exact h.of_same h_t
    -- a row that is written is shown to its owner, so that the answer is 201
    · have h_holds : Holds gcm d.activated get r :=
        .of_contributes h.active h_valid h_created.asInserted.contributed
      have h_owner : r.consumerId = c.id :=
        (congrArg Prod.snd h_created.owned).trans h_valid.consumerId
      have h_sees : canSeeSecrets c r = true := by simp [canSeeSecrets, h_owner]
      obtain ⟨shown, h_shown, -⟩ := h_holds.shows h.opens h_sees
      rw [h_result, if_pos (by simp [contributeResponse, h_shown])]
      change t.store = (d.service.store.contribute _ a).2 at h_t
      rw [← h_t] at h_created
      exact h.of_created h_t h_created h_active h_holds

/-- A deletion takes down what stands under the key of the row. -/
theorem Standing.of_deleted (h : Standing gcm d) {id nowMs : ℤ}
    (h_row : d.service.store.row id = some r)
    (h_call : d.service.store.softDelete id nowMs = (true, d.service.store.nextSeq.updateRow id
      (deleteRow (d.service.store.syncSeq + 1) nowMs) (deleteRow_id _ nowMs)))
    (h_t : t.store = (d.service.store.softDelete id nowMs).2) :
    Standing gcm
      { d with service := t, standing := Function.update d.standing r.owned none } where
  wf := by
    show t.store.Wf
    rw [h_t]
    exact h.wf.step (.softDelete id nowMs)
  opens := h.opens
  active := h.active
  holds := by
    intro r' h_row' h_live'
    change t.store.row r'.id = some r' at h_row'
    rw [h_t] at h_row'
    have h_op : ∀ enc a, Op.softDelete id nowMs ≠ .contribute enc a := fun _ _ h => Op.noConfusion h
    obtain ⟨q, h_q, h_q_live, h_q_id, h_q_owned, h_eq⟩ := was_live h.wf h_op h_row' h_live'
    have h_ne : r'.owned ≠ r.owned := by
      intro h_owned
      -- the row of the key is the one that is deleted
      have h_same := h.wf.owned_inj q.id id q r h_q h_row (h_q_owned.trans h_owned)
      rw [h_call, ← h_q_id, h_same, Store.row_updateRow, if_pos rfl, Store.row_nextSeq, h_row]
        at h_row'
      rw [← Option.some.inj h_row'] at h_live'
      exact h_live' rfl
    obtain ⟨get, h_get, h_holds⟩ := h.holds q h_q h_q_live
    refine ⟨get, ?_, h_holds.of_contributed h_eq⟩
    show Function.update d.standing r.owned none r'.owned = some get
    rw [Function.update_of_ne h_ne, ← h_q_owned]
    exact h_get
  row := by
    intro key get h_get
    change Function.update d.standing r.owned none key = some get at h_get
    have h_ne : key ≠ r.owned := by
      rintro rfl
      rw [Function.update_self] at h_get
      exact absurd h_get (by simp)
    rw [Function.update_of_ne h_ne] at h_get
    obtain ⟨q, h_q, rfl, h_q_live⟩ := h.row key get h_get
    -- the deletion is of another id, since it is of another key
    have h_delete : ∀ nowMs', Op.softDelete id nowMs ≠ .softDelete q.id nowMs' := by
      intro nowMs' h_eq
      injection h_eq with h_id'
      rw [← h_id', h_row] at h_q
      exact h_ne (congrArg Fingerprint.owned (Option.some.inj h_q)).symm
    have h_op : ∀ enc a, Op.softDelete id nowMs ≠ .contribute enc a := fun _ _ h => Op.noConfusion h
    obtain ⟨q', h_q', h_owned', h_live'⟩ := stays_live h.wf h_op h_delete h_q h_q_live
    refine ⟨q', ?_, h_owned', h_live'⟩
    show t.store.row q'.id = some q'
    rw [h_t]
    exact h_q'

/-- A deletion that finds a live row takes it down, and any other does nothing. -/
theorem Standing.softDelete (h : Standing gcm d) (c : Consumer) (id nowMs : ℤ)
    (h_t : t.store = (d.service.store.softDelete id nowMs).2) :
    Standing gcm { d with
      service := t
      standing := standingAfter gcm d.service.store d.standing (.softDelete c id nowMs) } := by
  rcases d.service.store.softDelete_cases id nowMs with
    ⟨h_gone, h_same⟩ | ⟨r, h_row, h_live, h_call⟩
  · -- a row that is gone stands no more already
    have h_standing : standingAfter gcm d.service.store d.standing (.softDelete c id nowMs)
        = d.standing := by
      simp only [standingAfter]
      split
      · next r h_row => exact if_neg (not_not.mpr (h_gone r h_row))
      · rfl
    rw [h_standing]
    exact h.of_same (h_t.trans (congrArg Prod.snd h_same))
  · have h_standing : standingAfter gcm d.service.store d.standing (.softDelete c id nowMs)
        = Function.update d.standing r.owned none := by
      simp only [standingAfter, h_row, if_pos h_live]
    rw [h_standing]
    exact h.of_deleted h_row h_call h_t

/-- A transaction keeps what stands standing, with the ring of the deployment. -/
theorem Standing.transaction (h : Standing gcm d) {e : Event} (h_ring : e.UsesRing d.ring)
    (h_step : Step gcm config d.service e t) :
    Standing gcm { d with
      service := t
      standing := standingAfter gcm d.service.store d.standing e } := by
  cases h_step with
  | contribute ring nonces c body nowMs =>
    obtain rfl : ring = d.ring := h_ring
    exact h.contribute nonces c body nowMs rfl
  -- hits, flags and retention neither contribute nor delete
  | reportHit ring nonces c segment body nowMs =>
    rcases reportHit_cases gcm ring nonces c segment body nowMs d.service.store with
      h_same | ⟨a, -, -, -, -, h_call⟩
    · exact h.of_same h_same
    · exact h.of_op (.reportHit _ a) (fun _ _ h => Op.noConfusion h)
        (fun _ _ h => Op.noConfusion h) (congrArg Prod.snd h_call)
  | flag ring nonces c segment body nowMs =>
    rcases flagFingerprint_cases gcm ring nonces config c segment body nowMs d.service.store with
      h_same | ⟨a, -, -, -, -, -, h_call⟩
    · exact h.of_same h_same
    · exact h.of_op (.flag _ a) (fun _ _ h => Op.noConfusion h)
        (fun _ _ h => Op.noConfusion h) (congrArg Prod.snd h_call)
  | deleteRefused h_check => exact h.of_same rfl
  | deleteAllowed h_check => exact h.of_same rfl
  -- what stands is taken down by the second transaction
  | softDelete h_allowed nowMs => exact h.softDelete _ _ nowMs rfl
  | retention p nowMs dryRun =>
    exact h.of_op (.applyRetention p nowMs dryRun) (fun _ _ h => Op.noConfusion h)
      (fun _ _ h => Op.noConfusion h) rfl

end Transactions

/-! ### Every run -/

/-- In every run with rotations what stands is live. -/
theorem Standing.reaches {d : Deployment}
    (h : Relation.ReflTransGen (DeploymentStep gcm config) (.start ring) d) : Standing gcm d := by
  induction h with
  | refl => exact .start ring
  | tail _ h_step ih =>
    cases h_step with
    | transaction h_ring h_step => exact ih.transaction h_ring h_step
    | rotate ring' h_keeps => exact ih.rotate h_keeps

/-- **Contributions are read back** through every run and every rotation: what stands is live and
shown to its owner and to every admin as it was sent, and what is live stands. Nothing is said of
what a peer is shown. -/
theorem contributions_read_back (gcm : AesGcm) (config : ServiceConfig) (ring : Keyring)
    (d : Deployment) (h : Relation.ReflTransGen (DeploymentStep gcm config) (.start ring) d) :
    ReadsBack gcm d := by
  have h_standing : Standing gcm d := .reaches h
  refine ⟨fun key get h_get => ?_, fun r h_row h_live => ?_⟩
  · obtain ⟨r, h_row, rfl, h_live⟩ := h_standing.row key get h_get
    refine ⟨r, h_row, rfl, h_live, fun c segment h_read h_who h_id => ?_⟩
    -- the row holds what stands under its key
    obtain ⟨get', h_get', h_holds⟩ := h_standing.holds r h_row h_live
    obtain rfl := Option.some.inj (h_get.symm.trans h_get')
    -- the owner sees its row, and so does an admin
    have h_sees : canSeeSecrets c r = true := by
      rcases h_who with h_owner | h_admin
      · simp [canSeeSecrets, h_owner, Fingerprint.owned]
      · simp [canSeeSecrets, h_admin]
    obtain ⟨body, h_body, h_shows⟩ := h_holds.shows h_standing.opens h_sees
    exact ⟨body, getFingerprint_of_sees h_read h_id h_row h_live h_sees h_body, h_shows⟩
  · obtain ⟨get, h_get, -⟩ := h_standing.holds r h_row h_live
    rw [h_get]
    exact Option.some_ne_none get

/-- The keyring of the sample with a second key, which is the active one. -/
def sampleRotated : Keyring where
  entries := [(FieldEncryption.sampleRing.activeId, FieldEncryption.sampleKey),
    (⟨['b'], rfl⟩, ⟨List.replicate 32 1, rfl⟩)]
  nodup_ids := by
    refine List.nodup_cons.mpr ⟨fun h_mem => ?_, List.nodup_singleton _⟩
    exact absurd (congrArg KeyId.text (List.mem_singleton.mp h_mem))
      (by simp [FieldEncryption.sampleRing])
  nodup_keys := by
    refine List.nodup_cons.mpr ⟨fun h_mem => ?_, List.nodup_singleton _⟩
    have h_head := congrArg (fun key => key.bytes.head?) (List.mem_singleton.mp h_mem)
    exact absurd (Option.some.inj h_head) (by decide)
  activeId := ⟨['b'], rfl⟩
  activeKey := ⟨List.replicate 32 1, rfl⟩
  get_active := rfl

/-- The fields of the sample body, with a reason. -/
def sampleFields (key : String) : Option Value :=
  if key = "reason" then some (.str (PyStr.ofString " x "))
  else if key = "phash_hex" then some (.str (PyStr.ofString "00000000000000aa"))
  else if key = "category" then some (.str (PyStr.ofString "scam"))
  else if key = "action" then some (.str (PyStr.ofString "kick"))
  else none

/-- The contribution of `sampleFields`. -/
def sampleRequest : Response × Store :=
  contributeFingerprint FieldEncryption.sampleGcm FieldEncryption.sampleRing
    (fun _ => FieldEncryption.sampleNonce) sampleWriter (.object sampleFields) 10 .empty

/-- A contribution with a reason, read back by its owner after a rotation: the key that sealed it
is no longer the active one. -/
theorem contributions_read_back_rotated :
    ∃ (d : Deployment) (body : Json), d.ring = sampleRotated ∧
      d.service.store = sampleRequest.2 ∧
      getFingerprint FieldEncryption.sampleGcm d.ring ⟨1, [.read]⟩ (PyStr.ofString "1")
        d.service.store = .ok body ∧
      Shows body sampleFields ∧ body.field "reason" = some (.str "x") := by
  have h_contribute : Step FieldEncryption.sampleGcm .default .start
      (.contribute FieldEncryption.sampleRing (fun _ => FieldEncryption.sampleNonce) sampleWriter
        (.object sampleFields) 10) ⟨sampleRequest.2, []⟩ := .contribute _ _ _ _ _
  have h_ring : (Event.contribute FieldEncryption.sampleRing (fun _ => FieldEncryption.sampleNonce)
      sampleWriter (.object sampleFields) 10).UsesRing FieldEncryption.sampleRing := rfl
  have h_run := Relation.ReflTransGen.single
    (@DeploymentStep.transaction _ _ (.start FieldEncryption.sampleRing) _ _ h_ring h_contribute)
  have h_keeps : ∀ k ∈ (Deployment.start FieldEncryption.sampleRing).activated,
      sampleRotated.get k.1.text = some k.2 := by
    intro k h_k
    obtain rfl := List.mem_singleton.mp h_k
    rfl
  have h_run := h_run.tail (.rotate sampleRotated h_keeps)
  obtain ⟨h_shown, -⟩ := contributions_read_back _ _ _ _ h_run
  have h_status : sampleRequest.1.status = 201 := by decide +kernel
  have h_hash : phashHex (sampleFields "phash_hex") = some "00000000000000aa" := by decide +kernel
  obtain ⟨r, h_row, h_owned, -, h_read⟩ := h_shown ("00000000000000aa", 1) sampleFields (by
    simp only [standingAfter, h_hash]
    exact (congrFun (if_pos h_status) _).trans (Function.update_self _ _ _))
  -- it is the first row
  have h_first : (sampleRequest.2.row 1).map Fingerprint.owned = some ("00000000000000aa", 1) := by
    decide +kernel
  obtain ⟨q, h_q, h_q_owned⟩ := Option.map_eq_some_iff.mp h_first
  have h_id : r.id = 1 :=
    (Standing.reaches h_run).wf.owned_inj r.id 1 r q h_row h_q (h_owned.trans h_q_owned.symm)
  have h_path : pathId (PyStr.ofString "1") = some r.id := by
    rw [h_id]
    decide +kernel
  obtain ⟨body, h_body, h_shows⟩ := h_read ⟨1, [.read]⟩ _ (by decide) (Or.inl rfl) h_path
  have h_reason : Value.strOrNone (sampleFields "reason") = some (PyStr.ofString "x") := by
    decide +kernel
  refine ⟨_, body, rfl, rfl, h_body, h_shows, ?_⟩
  rw [h_shows.reason, h_reason]
  exact shownText_of_ofString rfl

end Api
end FingerprintHub
