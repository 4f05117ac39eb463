import FingerprintHub.Api.ReadPaths
import FingerprintHub.Crypto.Migration
import FingerprintHub.Store.Redact
import FingerprintHub.Store.SyncSeq

/-!
# What a consumer learns by reading

A consumer without scope `admin` reads by `sync_fingerprints`, `get_fingerprint` and
`list_fingerprints`. All three answer from what is `seen`: of each row of another
consumer its nine peer fields, and of each own row its details (`SameAnswers.of_seen`).

`Twins` are the stores of two runs that make the same calls at the same times, up to what
`Op.redact` takes away, and in which hits on rows of others may be added. They differ only
in what `Store.redact` takes away, and that is not seen.
-/

namespace FingerprintHub
namespace Api

open FieldEncryption (AesGcm Keyring Nonce meaning Opens AtRest encryptedCall plainCall)

/-! ### What is seen -/

variable (gcm : AesGcm) (ring : Keyring) (c : Consumer)

/-- What a row shows to a consumer: its peer fields, and its details if it is the consumer's own.
The details may fail to be shown, and that shows too. -/
def seenRow (r : Fingerprint) : SyncRow × Option (Option Json) :=
  (r.syncColumns, if r.consumerId = c.id then some (detailFp gcm ring c r) else none)

/-- What a store shows to a consumer, row by row. -/
def seen (s : Store) : List (SyncRow × Option (Option Json)) :=
  s.fingerprints.rows.map (seenRow gcm ring c)

/-- The reading handlers answer alike, whatever the query. -/
structure SameAnswers (s s' : Store) : Prop where
  sync : ∀ config q, syncFingerprints config c q s = syncFingerprints config c q s'
  get : ∀ segment, getFingerprint gcm ring c segment s = getFingerprint gcm ring c segment s'
  list : ∀ config q,
    listFingerprints gcm ring config c q s = listFingerprints gcm ring config c q s'

section Seen

variable {gcm ring c} {s s' : Store}

/-- Whether a row is the consumer's own is part of what it shows. -/
theorem isSome_seenRow (r : Fingerprint) :
    (seenRow gcm ring c r).2.isSome = decide (r.consumerId = c.id) := by
  unfold seenRow
  split
  · next h => simp [h]
  · next h => simp [h]

/-- The sync handler answers from what is seen. -/
theorem sync_of_seen (h : seen gcm ring c s = seen gcm ring c s') (since limit : ℕ)
    (filter : SyncFilter) : s.sync c.id since limit filter = s'.sync c.id since limit filter := by
  -- which rows are selected, and their order, depend on what they show
  refine Store.sync_of_view (seenRow gcm ring c) Prod.fst
    (fun v => !v.2.isSome && filter.accepts v.1.triple) (fun _ => rfl) (fun r => ?_) h since limit
  rw [isSome_seenRow, ← decide_not]
  rfl

/-- The row of an id shows the same. -/
theorem row_of_seen (h : seen gcm ring c s = seen gcm ring c s') (id : ℤ) :
    (s.row id).map (seenRow gcm ring c) = (s'.row id).map (seenRow gcm ring c) := by
  have h_find : ∀ t : Store, (t.row id).map (seenRow gcm ring c)
      = (seen gcm ring c t).find? (fun v => v.1.id = id) := by
    intro t
    rw [seen, List.find?_map]
    rfl
  rw [h_find, h_find, h]

/-- What the handler answers for a row depends on what the row shows. -/
theorem get_of_seen (h_admin : c.isAdmin = false) (h : seen gcm ring c s = seen gcm ring c s')
    (segment : PyStr) :
    getFingerprint gcm ring c segment s = getFingerprint gcm ring c segment s' := by
  cases h_id : pathId segment with
  | none => simp only [getFingerprint, h_id]
  | some id =>
    have h_row := row_of_seen h id
    cases h_s : s.row id with
    | none =>
      rw [h_s, Option.map_none] at h_row
      have h_s' : s'.row id = none := Option.map_eq_none_iff.mp h_row.symm
      simp only [getFingerprint, h_id, Store.get, h_s, h_s']
    | some r =>
      rw [h_s, Option.map_some] at h_row
      obtain ⟨r', h_s', h_same⟩ := Option.map_eq_some_iff.mp h_row.symm
      have h_columns : r'.syncColumns = r.syncColumns := congrArg Prod.fst h_same
      have h_status : r'.status = r.status := congrArg SyncRow.status h_columns
      -- who sees the details shows in whether the row has a second part
      have h_sees : canSeeSecrets c r' = canSeeSecrets c r := by
        rw [canSeeSecrets_eq h_admin, canSeeSecrets_eq h_admin, ← isSome_seenRow,
          ← isSome_seenRow, h_same]
      -- an own row shows its record, and any other one its sync columns
      have h_detail : detailFp gcm ring c r' = detailFp gcm ring c r := by
        by_cases h_own : r.consumerId = c.id
        · have h_own' : r'.consumerId = c.id := by
            rw [canSeeSecrets_eq h_admin, canSeeSecrets_eq h_admin] at h_sees
            simpa [h_own] using h_sees
          have h_shown := congrArg Prod.snd h_same
          unfold seenRow at h_shown
          rw [if_pos h_own, if_pos h_own'] at h_shown
          exact Option.some.inj h_shown
        · have h_hidden : canSeeSecrets c r = false := by
            rw [canSeeSecrets_eq h_admin]
            exact decide_eq_false h_own
          rw [detailFp, detailFp, h_sees, h_hidden, h_columns]
          rfl
      simp only [getFingerprint, h_id, Store.get, h_s, h_s', h_status, h_sees, h_detail]

/-- Computations that agree on a list agree on it as a whole. -/
theorem mapM_congr {α β : Type} {f g : α → Option β} {l : List α} (h : ∀ a ∈ l, f a = g a) :
    l.mapM f = l.mapM g := by
  apply Option.ext
  intro bodies
  rw [mapM_eq_some, mapM_eq_some, List.map_congr_left h]

/-- Who is no admin lists its own rows. -/
theorem listOwner_eq (h_admin : c.isAdmin = false) {q : Query} {owner : Option ℤ}
    (h : listOwner c q = .ok owner) : owner = some c.id := by
  unfold listOwner at h
  simp only [h_admin, Bool.false_eq_true, if_false] at h
  split at h
  · exact (Except.ok.inj h).symm
  · split at h
    · exact absurd h (by simp)
    · split at h
      · exact absurd h (by simp)
      · exact (Except.ok.inj h).symm

/-- The list handler answers from what is seen. -/
theorem list_of_seen (h_admin : c.isAdmin = false) (h : seen gcm ring c s = seen gcm ring c s')
    (config : ServiceConfig) (q : Query) :
    listFingerprints gcm ring config c q s = listFingerprints gcm ring config c q s' := by
  -- the rows of a page are own rows, and show their details
  have h_bodies : ∀ (t : Store) category algorithm includeHidden limit offset,
      (t.listFingerprints category algorithm (some c.id) includeHidden limit offset).mapM
          (detailFp gcm ring c)
        = (((((seen gcm ring c t).filter (fun v => (if includeHidden then v.1.status ≠ .deleted
            else v.1.status = .active) && clause category v.1.category.text
              && clause algorithm v.1.triple.algorithm && v.2.isSome)).insertionSort
            (fun v v' => v'.1.id ≤ v.1.id)).drop offset).take limit).mapM
          (fun v => v.2.getD none) := by
    intro t category algorithm includeHidden limit offset
    rw [seen, ← Keyset.map_sorted_filter (seenRow gcm ring c) (fun r => ?_) (fun r r' => Iff.rfl),
      ← List.map_drop, ← List.map_take, List.mapM_map]
    · refine mapM_congr (fun r h_r => ?_)
      have h_mem := (List.mem_insertionSort _).mp (List.mem_of_mem_drop (List.mem_of_mem_take h_r))
      -- the clause of the query keeps own rows only
      have h_own : r.consumerId = c.id := by
        have h_where := (List.mem_filter.mp h_mem).2
        simp only [Store.listWhere, Bool.and_eq_true, decide_eq_true_eq] at h_where
        exact h_where.2
      show detailFp gcm ring c r = (seenRow gcm ring c r).2.getD none
      rw [seenRow, if_pos h_own]
      rfl
    · rw [isSome_seenRow]
      rfl
  cases h_owner : listOwner c q with
  | error response => simp only [listFingerprints, h_owner]
  | ok owner =>
    obtain rfl := listOwner_eq h_admin h_owner
    simp only [listFingerprints, h_owner, h_bodies, h]

/-- **The reading handlers answer from what is seen.** The nonces and the texts of others are not
part of it. -/
theorem SameAnswers.of_seen (h_admin : c.isAdmin = false)
    (h : seen gcm ring c s = seen gcm ring c s') : SameAnswers gcm ring c s s' where
  sync := by
    intro config q
    simp only [syncFingerprints, sync_of_seen h]
  get := get_of_seen h_admin h
  list := list_of_seen h_admin h

end Seen

/-! ### Two runs -/

/-- The stores of two runs, at points where both have made the same calls up to what
`Op.redact` takes away, with nonces of their own, and up to hits on rows that are not of
`me`. -/
inductive Twins (gcm : AesGcm) (ring : Keyring) (me : ℤ) : Store → Store → Prop
  | start : Twins gcm ring me .empty .empty
  | call {s s' : Store} (h_twins : Twins gcm ring me s s') {a a' : (ℕ → Nonce) × Op}
      (h_same : (plainCall a).redact me = (plainCall a').redact me) :
      Twins gcm ring me ((encryptedCall gcm ring a).apply s) ((encryptedCall gcm ring a').apply s')
  | hit {s s' : Store} (h_twins : Twins gcm ring me s s') (nonces : ℕ → Nonce) (a : HitArgs)
      (h_foreign : ∀ r, s.row a.fingerprintId = some r → r.consumerId ≠ me) :
      Twins gcm ring me ((Op.reportHit (encryptWith gcm ring nonces) a).apply s) s'
  | otherHit {s s' : Store} (h_twins : Twins gcm ring me s s') (nonces : ℕ → Nonce) (a : HitArgs)
      (h_foreign : ∀ r, s'.row a.fingerprintId = some r → r.consumerId ≠ me) :
      Twins gcm ring me s ((Op.reportHit (encryptWith gcm ring nonces) a).apply s')

section Twins

variable {gcm ring c} {s s' p p' : Store} {me : ℤ}

/-- The plain stores behind the stores of two runs agree in what `me` may know. Each store is
compared with the plain store of its own run, and the two plain stores with each other. -/
structure Alike (gcm : AesGcm) (ring : Keyring) (me : ℤ) (s s' p p' : Store) : Prop where
  left : AtRest gcm ring s p
  right : AtRest gcm ring s' p'
  redact_eq : p.redact me = p'.redact me

/-- It does not matter which run is the first. -/
theorem Alike.symm (h : Alike gcm ring me s s' p p') : Alike gcm ring me s' s p' p :=
  ⟨h.right, h.left, h.redact_eq.symm⟩

/-- The empty database is at rest: there is no text in it. -/
theorem atRest_empty : AtRest gcm ring .empty .empty where
  opens := by
    intro v h_v
    cases h_v with
    | fingerprint h_row _ => exact absurd h_row List.not_mem_nil
    | hit h_row _ => exact absurd h_row List.not_mem_nil
    | flag h_row _ => exact absurd h_row List.not_mem_nil
  plain := rfl

/-- Calls that are the same up to what is taken away keep the stores alike. -/
theorem Alike.call (h : Alike gcm ring me s s' p p') {a a' : (ℕ → Nonce) × Op}
    (h_same : (plainCall a).redact me = (plainCall a').redact me) :
    Alike gcm ring me ((encryptedCall gcm ring a).apply s) ((encryptedCall gcm ring a').apply s')
      ((plainCall a).apply p) ((plainCall a').apply p') where
  left := h.left.run [a]
  right := h.right.run [a']
  redact_eq :=
    calc ((plainCall a).apply p).redact me
        = (((plainCall a).redact me).apply (p.redact me)).redact me := Op.apply_redact me p _
      _ = (((plainCall a').redact me).apply (p'.redact me)).redact me := by
          rw [h_same, h.redact_eq]
      _ = ((plainCall a').apply p').redact me := (Op.apply_redact me p' _).symm

/-- A hit on a row of another consumer keeps the stores alike. -/
theorem Alike.hit (h : Alike gcm ring me s s' p p') (nonces : ℕ → Nonce) (a : HitArgs)
    (h_foreign : ∀ r, s.row a.fingerprintId = some r → r.consumerId ≠ me) :
    Alike gcm ring me ((Op.reportHit (encryptWith gcm ring nonces) a).apply s) s'
      ((Op.reportHit (fun _ text => text) a).apply p) p' where
  left := h.left.run [(nonces, .reportHit (fun _ text => text) a)]
  right := h.right
  redact_eq := by
    have h_plain : ∀ r, p.row a.fingerprintId = some r → r.consumerId ≠ me := by
      intro r h_row
      rw [← h.left.plain, Store.row_mapTexts] at h_row
      obtain ⟨r', h_row', rfl⟩ := Option.map_eq_some_iff.mp h_row
      exact h_foreign r' h_row'
    calc ((Op.reportHit (fun _ text => text) a).apply p).redact me
        = p.redact me := reportHit_redact me p _ a h_plain
      _ = p'.redact me := h.redact_eq

/-- **Twins are alike**: the plain stores are those of the same two runs without encryption. -/
theorem Twins.alike (h : Twins gcm ring me s s') : ∃ p p', Alike gcm ring me s s' p p' := by
  induction h with
  | start => exact ⟨.empty, .empty, atRest_empty, atRest_empty, rfl⟩
  | call _ h_same ih =>
    obtain ⟨p, p', h_alike⟩ := ih
    exact ⟨_, _, h_alike.call h_same⟩
  -- a hit in one of the runs only
  | hit _ nonces a h_foreign ih =>
    obtain ⟨p, p', h_alike⟩ := ih
    exact ⟨_, _, h_alike.hit nonces a h_foreign⟩
  | otherHit _ nonces a h_foreign ih =>
    obtain ⟨p, p', h_alike⟩ := ih
    exact ⟨_, _, (h_alike.symm.hit nonces a h_foreign).symm⟩

/-! ### Alike stores show the same -/

/-- An opened value is shown as its meaning. -/
theorem decrypt_of_opens {value : Option String} (h : ∀ v, value = some v → Opens gcm ring v) :
    decrypt gcm ring value = some (value.map (meaning gcm ring)) := by
  cases value with
  | none => rfl
  | some v =>
    obtain ⟨text, h_text⟩ := h v rfl
    simp only [decrypt, h_text, Option.map_some, FieldEncryption.meaning_of_ok h_text]

/-- What a plain row shows: the texts of an own row as they are. -/
def plainRow (c : Consumer) (r : Fingerprint) : SyncRow × Option (Option Json) :=
  (r.syncColumns,
    if r.consumerId = c.id then some (some (fullFp r r.sourceGuildId r.reason r.sourceUrl))
    else none)

/-- A row at rest shows what is left of the plain row. -/
theorem seenRow_of_opens {r : Fingerprint}
    (h_opens : ∀ v, some v ∈ r.texts → Opens gcm ring v) :
    seenRow gcm ring c r = plainRow c ((r.mapTexts (meaning gcm ring)).redact c.id) := by
  have h_columns : ((r.mapTexts (meaning gcm ring)).redact c.id).syncColumns = r.syncColumns :=
    Fingerprint.redact_syncColumns c.id _
  have h_owner : ((r.mapTexts (meaning gcm ring)).redact c.id).consumerId = r.consumerId :=
    Fingerprint.redact_consumerId c.id _
  unfold seenRow plainRow
  rw [h_columns, h_owner]
  split
  · next h_own =>
    have h_sees : canSeeSecrets c r = true := by simp [canSeeSecrets, h_own]
    -- each private text opens to its meaning, which is what the plain row has
    have h_text : ∀ o ∈ r.texts, decrypt gcm ring o = some (o.map (meaning gcm ring)) :=
      fun o h_o => decrypt_of_opens (fun v h_v => h_opens v (h_v ▸ h_o))
    rw [Fingerprint.redact_of_eq c.id (r := r.mapTexts (meaning gcm ring)) h_own, detailFp,
      if_pos h_sees, h_text r.sourceGuildId (by simp [Fingerprint.texts]),
      h_text r.reason (by simp [Fingerprint.texts]),
      h_text r.sourceUrl (by simp [Fingerprint.texts])]
    rfl
  · rfl

/-- What a store at rest shows is what is left of the plain store. -/
theorem seen_of_atRest (h : AtRest gcm ring s p) :
    seen gcm ring c s = (p.redact c.id).fingerprints.rows.map (plainRow c) := by
  -- the plain store has the same rows, so that the two lists are compared row by row
  rw [← h.plain]
  show s.fingerprints.rows.map _ = ((s.fingerprints.rows.map _).map _).map _
  rw [List.map_map, List.map_map]
  exact List.map_congr_left (fun r h_r =>
    seenRow_of_opens (fun v h_v => h.opens v (.fingerprint h_r h_v)))

/-- Twins show the same. -/
theorem Twins.seen_eq (h : Twins gcm ring c.id s s') : seen gcm ring c s = seen gcm ring c s' := by
  obtain ⟨p, p', h_alike⟩ := h.alike
  calc seen gcm ring c s
      = (p.redact c.id).fingerprints.rows.map (plainRow c) := seen_of_atRest h_alike.left
    _ = (p'.redact c.id).fingerprints.rows.map (plainRow c) := by rw [h_alike.redact_eq]
    _ = seen gcm ring c s' := (seen_of_atRest h_alike.right).symm

variable (gcm ring) in
/-- **Reading is isolated.** In two runs that are the same but for what others keep private and
for hits on their rows, a consumer that is no admin gets the same answers to all it may read, at
every point. The answers depend on what is seen of the store only, and a row of others that is
hidden reads like one that was never there. -/
theorem reads_isolated (h_read : Scope.read ∈ c.scopes) (h_admin : c.isAdmin = false) :
    (∀ s s', Twins gcm ring c.id s s' → SameAnswers gcm ring c s s') ∧
    (∀ s s', seen gcm ring c s = seen gcm ring c s' → SameAnswers gcm ring c s s') ∧
    ∀ s segment id r, pathId segment = some id → s.row id = some r → r.consumerId ≠ c.id →
      r.status = .hidden → ∀ t segment' id', pathId segment' = some id' → t.row id' = none →
        getFingerprint gcm ring c segment s = getFingerprint gcm ring c segment' t := by
  refine ⟨fun s s' h => .of_seen h_admin h.seen_eq, fun s s' h => .of_seen h_admin h, ?_⟩
  intro s segment id r h_id h_row h_foreign h_hidden t segment' id' h_id' h_none
  -- a foreign row that is hidden is answered as one that is not there
  have h_not : ¬ r.status = .active := by
    rw [h_hidden]
    exact fun h_eq => Status.noConfusion h_eq
  calc getFingerprint gcm ring c segment s
      = if r.status = .active then .ok (peerFp r.syncColumns) else .notFound :=
        getFingerprint_of_foreign h_read h_admin h_id h_row h_foreign
    _ = .notFound := if_neg h_not
    _ = getFingerprint gcm ring c segment' t := (getFingerprint_of_none h_read h_id' h_none).symm

/-- Two contributions of consumer 2 with different reasons, and a hit in one of the runs: consumer
1 is answered alike. -/
theorem reads_isolated_hit :
    let gcm := FieldEncryption.sampleGcm
    let ring := FieldEncryption.sampleRing
    let nonces : ℕ → Nonce := fun _ => FieldEncryption.sampleNonce
    let a : ContributeArgs := { sampleContribution "00ff" with consumerId := 2 }
    let contributed (reason : String) := (encryptedCall gcm ring
      (nonces, .contribute (fun _ t => t) { a with reason := some reason })).apply .empty
    SameAnswers gcm ring ⟨1, [.read]⟩
      ((Op.reportHit (encryptWith gcm ring nonces) ⟨1, 3, none, none, 20⟩).apply
        (contributed "spam")) (contributed "scam") := by
  intro gcm ring nonces a contributed
  have h_same : ((contributed "spam").row 1).map Fingerprint.consumerId = some 2 := by
    decide +kernel
  refine (reads_isolated gcm ring (c := ⟨1, [.read]⟩) (by decide) (by decide)).1 _ _
    -- the contributions differ in what is redacted, and the hit is on a foreign row
    (.hit (.call .start ?_) nonces _ (fun r h_row => ?_))
  · rfl
  · rw [h_row] at h_same
    rw [Option.some.inj h_same]
    decide

end Twins

end Api
end FingerprintHub
