import FingerprintHub.Api.ReadBack
import FingerprintHub.Crypto.Decryption
import FingerprintHub.Sync.Paging

/-!
# The three ways of reading

A consumer reads the rows of others from its sync feed, its own from its list, and any
row by its id. The three handlers select and show rows on their own. Here they are put
side by side, for a consumer with scope `read` and without scope `admin`.

`Feed` and `Listed` are the answers of the sync and of the list handler, page after page,
in pages of any sizes. A complete feed is the scan of all rows of others
(`Feed.eq_scan`), a complete list shows the own active rows, newest first
(`Listed.eq_listing`). So what GET answers for an id is decided by where the row of the
id is found: `FeedAgrees` and `ListAgrees` say how for one of the two, and `ReadPathsAgree`
for both.
-/

namespace FingerprintHub
namespace Api

open FieldEncryption (AesGcm Keyring)

/-- An error is not a page. -/
theorem error_ne_ok {status : ℕ} (h : status ≠ 200) (message : String) (body : Json) :
    Response.error status message ≠ .ok body :=
  fun h_eq => h (congrArg Response.status h_eq)

/-! ### Page after page -/

/-- The body of a sync page. -/
def feedPage (objects : List Json) (next : ℕ) (more : Bool) : Json :=
  .obj [("fingerprints", .arr objects), ("next_since", .int next), ("has_more", .bool more)]

/-- A sync query with a cursor, of any page size and without filter. The limit may be absent, or
anything. -/
structure FeedQuery (q : Query) (since : ℕ) : Prop where
  since : intParam q "since" 0 = some (since : ℤ)
  algorithm : strOrNone (q "algorithm") = none
  algorithmVersion : strOrNone (q "algorithm_version") = none
  normalizationVersion : strOrNone (q "normalization_version") = none

/-- A list query with an offset, of any page size and without filter, for the own rows. -/
structure ListQuery (c : Consumer) (q : Query) (offset : ℕ) : Prop where
  offset : intParam q "offset" 0 = some (offset : ℤ)
  category : strOrNone (q "category") = none
  algorithm : strOrNone (q "algorithm") = none
  owner : listOwner c q = .ok (some c.id)

/-- The objects of the feed from a cursor on: each page is asked for with the
`next_since` of the one before it, up to the first that announces no more. -/
inductive Feed (config : ServiceConfig) (c : Consumer) (s : Store) : ℕ → List Json → Prop
  | last {q : Query} {since next : ℕ} {objects : List Json} (h_query : FeedQuery q since)
      (h_page : syncFingerprints config c q s = .ok (feedPage objects next false)) :
      Feed config c s since objects
  | more {q : Query} {since next : ℕ} {objects rest : List Json} (h_query : FeedQuery q since)
      (h_page : syncFingerprints config c q s = .ok (feedPage objects next true))
      (h_rest : Feed config c s next rest) : Feed config c s since (objects ++ rest)

/-- The objects of the list from an offset on, up to the first empty page. -/
inductive Listed (gcm : AesGcm) (ring : Keyring) (config : ServiceConfig) (c : Consumer)
    (s : Store) : ℕ → List Json → Prop
  | last {q : Query} {offset : ℕ} (h_query : ListQuery c q offset)
      (h_page : listFingerprints gcm ring config c q s = .ok (listBody [])) :
      Listed gcm ring config c s offset []
  | more {q : Query} {offset : ℕ} {objects rest : List Json} (h_query : ListQuery c q offset)
      (h_page : listFingerprints gcm ring config c q s = .ok (listBody objects))
      (h_rest : Listed gcm ring config c s (offset + objects.length) rest) :
      Listed gcm ring config c s offset (objects ++ rest)

/-! ### The feed -/

section Feed

variable {config : ServiceConfig} {c : Consumer} {s : Store} {q : Query} {since : ℕ}

/-- Without filter every triple is accepted. -/
theorem syncFilter_of_query (h : FeedQuery q since) : syncFilter q = some .all := by
  rw [syncFilter, h.algorithm, h.algorithmVersion, h.normalizationVersion]
  rfl

/-- What the sync handler answers to such a query. -/
theorem syncFingerprints_eq (h_read : Scope.read ∈ c.scopes) (h : FeedQuery q since) {limit : ℤ}
    (h_limit : intParam q "limit" config.defaultSyncLimit = some limit) :
    syncFingerprints config c q s =
      if fitsBigint (max 1 (min limit config.maxSyncLimit) + 1) then
        .ok (syncBody (s.sync c.id since (max 1 (min limit config.maxSyncLimit)).toNat .all))
      else .internalServerError := by
  have h_since : (max 0 (since : ℤ)).toNat = since := by omega
  simp only [syncFingerprints, requireScope, if_pos h_read, h.since, syncFilter_of_query h, h_limit]
  rw [h_since]

/-- A sync page holds the rows of `sync` after the cursor. -/
theorem syncFingerprints_of_query (h_read : Scope.read ∈ c.scopes) (h : FeedQuery q since)
    {objects : List Json} {next : ℕ} {more : Bool}
    (h_page : syncFingerprints config c q s = .ok (feedPage objects next more)) :
    ∃ limit, 1 ≤ limit ∧ objects = (s.sync c.id since limit .all).1.map peerFp ∧
      next = (s.sync c.id since limit .all).2.1 ∧
      more = (s.sync c.id since limit .all).2.2 := by
  cases h_limit : intParam q "limit" config.defaultSyncLimit with
  | none =>
    -- a limit that is no integer is answered 400, which is no page
    simp only [syncFingerprints, requireScope, if_pos h_read, h.since, h_limit] at h_page
    exact absurd h_page (error_ne_ok (by decide) _ _)
  | some limit =>
    rw [syncFingerprints_eq h_read h h_limit] at h_page
    split at h_page
    · refine ⟨(max 1 (min limit config.maxSyncLimit)).toNat, by omega, ?_⟩
      have h_body := Option.some.inj (congrArg Response.body h_page)
      simp only [syncBody, feedPage, Json.obj.injEq, List.cons.injEq, Prod.mk.injEq,
        Json.arr.injEq, Json.int.injEq, Json.bool.injEq, true_and, and_true, Nat.cast_inj] at h_body
      exact ⟨h_body.1.symm, h_body.2.1.symm, h_body.2.2.symm⟩
    · exact absurd h_page (error_ne_ok (by decide) _ _)

/-- The rows of others above a cursor, in the order of the feed, tombstones and hidden ones
included. -/
def foreignRows (c : Consumer) (s : Store) (since : ℕ) : List Fingerprint :=
  Keyset.scan Fingerprint.syncSeq (Store.syncWhere c.id .all) s.fingerprints.rows since

/-- **A complete feed is one scan**, in pages of whatever sizes it was read. Its cursor at the end
is above every row. -/
theorem Feed.eq_scan (h_valid : s.Valid) (h_read : Scope.read ∈ c.scopes) {objects : List Json}
    (h : Feed config c s since objects) :
    objects = (foreignRows c s since).map (fun r => peerFp r.syncColumns) := by
  have h_distinct := Store.nodup_syncSeq_of_inj h_valid.syncSeq_inj
  induction h with
  | last h_query h_page =>
    obtain ⟨limit, -, rfl, -, h_more⟩ := syncFingerprints_of_query h_read h_query h_page
    rw [Store.sync_eq_pull] at h_more ⊢
    -- `has_more` is false, so that nothing is above the cursor
    have h_nil := Keyset.scan_next_eq_nil h_distinct h_more.symm
    rw [foreignRows, Keyset.scan_eq_append h_distinct, h_nil, List.append_nil, List.map_map]
    rfl
  | more h_query h_page _ ih =>
    obtain ⟨limit, -, rfl, rfl, -⟩ := syncFingerprints_of_query h_read h_query h_page
    rw [ih, Store.sync_eq_pull]
    show _ = (Keyset.scan _ _ _ _).map _
    -- the page is the beginning of the scan, and the rest goes on at its cursor
    rw [Keyset.scan_eq_append h_distinct, List.map_append, List.map_map]
    rfl

end Feed

/-! ### The list -/

section Listed

variable {gcm : AesGcm} {ring : Keyring} {config : ServiceConfig} {c : Consumer} {s : Store}
  {q : Query} {offset : ℕ}

/-- The own active rows, in the order of the list. -/
def listing (c : Consumer) (s : Store) : List Fingerprint :=
  (s.fingerprints.select (Store.listWhere none none (some c.id) false)).insertionSort
    (fun r r' => r'.id ≤ r.id)

/-- They are the own active rows. -/
theorem mem_listing {r : Fingerprint} :
    r ∈ listing c s ↔ s.row r.id = some r ∧ r.consumerId = c.id ∧ r.status = .active := by
  rw [listing, List.mem_insertionSort, Table.mem_select]
  simp [Store.listWhere, clause, and_comm]

/-- A computation for each element of a list gives what it gives for each. -/
theorem mapM_eq_some {α β : Type} {f : α → Option β} {l : List α} {bodies : List β} :
    l.mapM f = some bodies ↔ l.map f = bodies.map some := by
  induction l generalizing bodies with
  | nil => cases bodies <;> simp
  | cons a l ih =>
    rw [List.mapM_cons, List.map_cons]
    cases bodies with
    | nil =>
      cases f a <;> cases l.mapM f <;> simp
    | cons b bodies =>
      rw [List.map_cons, List.cons.injEq, ← ih]
      -- the list fails as soon as one element does
      cases h_f : f a <;> cases h_l : l.mapM f <;> simp

/-- What the list handler answers to such a query. -/
theorem listFingerprints_eq (h_read : Scope.read ∈ c.scopes) (h_admin : c.isAdmin = false)
    (h : ListQuery c q offset) {limit : ℤ} (h_limit : intParam q "limit" 50 = some limit) :
    listFingerprints gcm ring config c q s =
      if fitsBigint (max 1 (min limit config.maxListLimit)) && fitsBigint offset then
        match (((listing c s).drop offset).take
            (max 1 (min limit config.maxListLimit)).toNat).mapM (detailFp gcm ring c) with
        | some bodies => .ok (listBody bodies)
        | none => .internalServerError
      else .internalServerError := by
  have h_offset : max 0 (offset : ℤ) = offset := by omega
  have h_hidden : (includeHidden q && c.isAdmin) = false := by rw [h_admin, Bool.and_false]
  simp only [listFingerprints, requireScope, if_pos h_read, h.offset, h.owner, h.category,
    h.algorithm, sqlText?, h_limit, h_hidden]
  rw [h_offset, Int.toNat_natCast]
  rfl

/-- A list page shows the next rows of the listing. If one of them cannot be shown, there is no
page. -/
theorem listFingerprints_of_query (h_read : Scope.read ∈ c.scopes) (h_admin : c.isAdmin = false)
    (h : ListQuery c q offset) {objects : List Json}
    (h_page : listFingerprints gcm ring config c q s = .ok (listBody objects)) :
    ∃ limit, 1 ≤ limit ∧
      (((listing c s).drop offset).take limit).mapM (detailFp gcm ring c) = some objects := by
  cases h_limit : intParam q "limit" 50 with
  | none =>
    simp only [listFingerprints, requireScope, if_pos h_read, h.offset, h_limit] at h_page
    exact absurd h_page (error_ne_ok (by decide) _ _)
  | some limit =>
    rw [listFingerprints_eq h_read h_admin h h_limit] at h_page
    split at h_page
    · refine ⟨(max 1 (min limit config.maxListLimit)).toNat, by omega, ?_⟩
      split at h_page
      · next bodies h_bodies =>
        have h_body := Option.some.inj (congrArg Response.body h_page)
        simp only [listBody, Json.obj.injEq, List.cons.injEq, Prod.mk.injEq, Json.arr.injEq,
          true_and] at h_body
        rw [h_bodies, h_body.1]
      · exact absurd h_page (error_ne_ok (by decide) _ _)
    · exact absurd h_page (error_ne_ok (by decide) _ _)

/-- **A complete list shows the listing**, each row with its details. -/
theorem Listed.eq_listing (h_read : Scope.read ∈ c.scopes) (h_admin : c.isAdmin = false)
    {objects : List Json} (h : Listed gcm ring config c s offset objects) :
    ((listing c s).drop offset).map (detailFp gcm ring c) = objects.map some := by
  induction h with
  | last h_query h_page =>
    obtain ⟨limit, h_limit, h_bodies⟩ := listFingerprints_of_query h_read h_admin h_query h_page
    have h_nil := List.map_eq_nil_iff.mp (mapM_eq_some.mp h_bodies)
    -- a page of at least one row is empty only at the end
    rcases List.take_eq_nil_iff.mp h_nil with h_zero | h_rest
    · omega
    · rw [h_rest]
      rfl
  | @more q offset objects rest h_query h_page _ ih =>
    obtain ⟨limit, -, h_bodies⟩ := listFingerprints_of_query h_read h_admin h_query h_page
    have h_map := mapM_eq_some.mp h_bodies
    -- the client goes on behind the objects it got
    have h_length : (((listing c s).drop offset).take limit).length = objects.length := by
      have h_eq := congrArg List.length h_map
      rwa [List.length_map, List.length_map] at h_eq
    have h_split : ((listing c s).drop offset).take limit ++ (listing c s).drop
        (offset + objects.length) = (listing c s).drop offset := by
      rw [← List.drop_drop, ← h_length]
      exact List.prefix_iff_eq_append.mp (List.take_prefix limit _)
    calc ((listing c s).drop offset).map (detailFp gcm ring c)
        = (((listing c s).drop offset).take limit).map (detailFp gcm ring c)
            ++ ((listing c s).drop (offset + objects.length)).map (detailFp gcm ring c) := by
          rw [← List.map_append, h_split]
      _ = objects.map some ++ rest.map some := by rw [h_map, ih]
      _ = (objects ++ rest).map some := List.map_append.symm

end Listed

/-! ### What the objects show -/

/-- The object shows a row of the id with the status. -/
structure Displays (object : Json) (id : ℤ) (status : Status) : Prop where
  id : object.field "id" = some (.int id)
  status : object.field "status" = some (.str status.text)

section Displays

variable {gcm : AesGcm} {ring : Keyring} {c : Consumer} {r : Fingerprint} {id : ℤ}
  {status : Status} {object : Json}

/-- The peer record shows its row, -/
theorem displays_peerFp (r : Fingerprint) : Displays (peerFp r.syncColumns) r.id r.status where
  id := rfl
  status := rfl

/-- and so does the full one. -/
theorem displays_fullFp (r : Fingerprint) (sourceGuildId reason sourceUrl : Option String) :
    Displays (fullFp r sourceGuildId reason sourceUrl) r.id r.status where
  id := by simp [Json.field, fullFp]
  status := by simp [Json.field, fullFp]

/-- An object shows one id and one status. -/
theorem Displays.eq {id' : ℤ} {status' : Status} (h : Displays object id status)
    (h' : Displays object id' status') : id = id' ∧ status = status' := by
  constructor
  · exact Json.int.inj (Option.some.inj (h.id.symm.trans h'.id))
  · have h_text := Json.str.inj (Option.some.inj (h.status.symm.trans h'.status))
    revert h_text
    cases status <;> cases status' <;> decide

/-- The details of a row show its id and status. -/
theorem displays_detailFp (h : detailFp gcm ring c r = some object) :
    Displays object r.id r.status := by
  unfold detailFp at h
  split at h
  · split at h
    · obtain rfl := Option.some.inj h
      exact displays_fullFp r _ _ _
    · exact absurd h (by simp)
  · obtain rfl := Option.some.inj h
    exact displays_peerFp r

/-! ### Where a row is found -/

variable {config : ServiceConfig} {s : Store} {feed list : List Json}

/-- The feed has the rows of others, and no object besides. A `sync_seq` is positive, so that none
is below the first cursor. -/
theorem mem_feed (h_valid : s.Valid) (h_pos : ∀ id r, s.row id = some r → 0 < r.syncSeq)
    (h_read : Scope.read ∈ c.scopes) (h : Feed config c s 0 feed) :
    object ∈ feed ↔
      ∃ r, s.row r.id = some r ∧ r.consumerId ≠ c.id ∧ peerFp r.syncColumns = object := by
  rw [h.eq_scan h_valid h_read, List.mem_map]
  simp only [foreignRows, Keyset.mem_scan, Store.syncWhere_iff, SyncFilter.accepts_all, and_true,
    Table.mem_rows]
  constructor
  · rintro ⟨r, ⟨h_row, -, h_foreign⟩, h_eq⟩
    exact ⟨r, h_row, h_foreign, h_eq⟩
  · rintro ⟨r, h_row, h_foreign, h_eq⟩
    exact ⟨r, ⟨h_row, h_pos r.id r h_row, h_foreign⟩, h_eq⟩

/-- An id is in the feed with the status of its row, if the row is of another consumer. -/
theorem displays_feed_iff (h_valid : s.Valid)
    (h_pos : ∀ id r, s.row id = some r → 0 < r.syncSeq) (h_read : Scope.read ∈ c.scopes)
    (h : Feed config c s 0 feed) : (∃ o ∈ feed, Displays o id status) ↔
      ∃ r, s.row id = some r ∧ r.consumerId ≠ c.id ∧ r.status = status := by
  constructor
  · rintro ⟨o, h_o, h_displays⟩
    obtain ⟨r, h_row, h_foreign, rfl⟩ := (mem_feed h_valid h_pos h_read h).mp h_o
    obtain ⟨rfl, rfl⟩ := (displays_peerFp r).eq h_displays
    exact ⟨r, h_row, h_foreign, rfl⟩
  · rintro ⟨r, h_row, h_foreign, rfl⟩
    obtain rfl := Store.id_of_row h_row
    exact ⟨_, (mem_feed h_valid h_pos h_read h).mpr ⟨r, h_row, h_foreign, rfl⟩, displays_peerFp r⟩

/-- The list has the details of the own active rows, and no object besides. -/
theorem mem_list (h_read : Scope.read ∈ c.scopes) (h_admin : c.isAdmin = false)
    (h : Listed gcm ring config c s 0 list) :
    object ∈ list ↔ ∃ r, s.row r.id = some r ∧ r.consumerId = c.id ∧ r.status = .active ∧
      detailFp gcm ring c r = some object := by
  have h_map : (listing c s).map (detailFp gcm ring c) = list.map some :=
    h.eq_listing h_read h_admin
  have h_mem : object ∈ list ↔ some object ∈ list.map some := by simp
  rw [h_mem, ← h_map, List.mem_map]
  simp only [mem_listing, and_assoc]

/-- An id is in the list if its row is an own active row. -/
theorem displays_list_iff (h_read : Scope.read ∈ c.scopes) (h_admin : c.isAdmin = false)
    (h : Listed gcm ring config c s 0 list) : (∃ o ∈ list, Displays o id .active) ↔
      ∃ r, s.row id = some r ∧ r.consumerId = c.id ∧ r.status = .active := by
  constructor
  · rintro ⟨o, h_o, h_displays⟩
    obtain ⟨r, h_row, h_own, h_active, h_detail⟩ := (mem_list h_read h_admin h).mp h_o
    obtain ⟨rfl, -⟩ := (displays_detailFp h_detail).eq h_displays
    exact ⟨r, h_row, h_own, h_active⟩
  · -- an own active row has an object in it
    rintro ⟨r, h_row, h_own, h_active⟩
    have h_map : (listing c s).map (detailFp gcm ring c) = list.map some :=
      h.eq_listing h_read h_admin
    obtain rfl := Store.id_of_row h_row
    -- no page was refused, so the row has details
    have h_detail : detailFp gcm ring c r ∈ list.map some := by
      rw [← h_map]
      exact List.mem_map_of_mem (mem_listing.mpr ⟨h_row, h_own, h_active⟩)
    obtain ⟨o, h_o, h_eq⟩ := List.mem_map.mp h_detail
    refine ⟨o, h_o, ?_⟩
    have h_displays := displays_detailFp h_eq.symm
    rwa [h_active] at h_displays

/-- The objects of the list are about different rows. -/
theorem nodup_list (h_read : Scope.read ∈ c.scopes) (h_admin : c.isAdmin = false)
    (h : Listed gcm ring config c s 0 list) : (list.map (Json.field "id")).Nodup := by
  have h_map : (listing c s).map (detailFp gcm ring c) = list.map some :=
    h.eq_listing h_read h_admin
  -- the ids shown are those of the listing, which are different
  have h_ids : list.map (Json.field "id")
      = ((listing c s).map Fingerprint.id).map (fun id => some (Json.int id)) :=
    calc list.map (Json.field "id")
        = (list.map some).map (fun o => o.bind (Json.field "id")) := by
          rw [List.map_map]
          rfl
      _ = (listing c s).map (fun r => (detailFp gcm ring c r).bind (Json.field "id")) := by
          rw [← h_map, List.map_map]
          rfl
      _ = (listing c s).map (fun r => some (Json.int r.id)) := by
          refine List.map_congr_left (fun r h_r => ?_)
          have h_detail : detailFp gcm ring c r ∈ list.map some := by
            rw [← h_map]
            exact List.mem_map_of_mem h_r
          obtain ⟨o, -, h_eq⟩ := List.mem_map.mp h_detail
          rw [← h_eq]
          exact (displays_detailFp h_eq.symm).id
      _ = ((listing c s).map Fingerprint.id).map (fun id => some (Json.int id)) := by
          rw [List.map_map]
          rfl
  have h_listing : ((listing c s).map Fingerprint.id).Nodup :=
    (((List.perm_insertionSort _ _).map Fingerprint.id).nodup_iff).mpr
      (s.fingerprints.nodup_map_filter _)
  rw [h_ids]
  exact h_listing.map (fun id id' h_eq => Json.int.inj (Option.some.inj h_eq))

/-! ### What GET answers -/

variable {segment : PyStr}

/-- Whoever is no admin sees the secrets of its own rows, and of no others. -/
theorem canSeeSecrets_eq (h_admin : c.isAdmin = false) (r : Fingerprint) :
    canSeeSecrets c r = decide (r.consumerId = c.id) := by
  rw [canSeeSecrets, h_admin, Bool.false_or]

/-- GET does not find an id without a row. -/
theorem getFingerprint_of_none (h_read : Scope.read ∈ c.scopes) (h_id : pathId segment = some id)
    (h_row : s.row id = none) : getFingerprint gcm ring c segment s = .notFound := by
  have h_get : s.get id = none := h_row
  simp only [getFingerprint, requireScope, if_pos h_read, h_id, h_get]

/-- GET answers a peer with the peer record of an active row, and with nothing else. -/
theorem getFingerprint_of_foreign (h_read : Scope.read ∈ c.scopes) (h_admin : c.isAdmin = false)
    (h_id : pathId segment = some id) {r : Fingerprint} (h_row : s.row id = some r)
    (h_foreign : r.consumerId ≠ c.id) : getFingerprint gcm ring c segment s =
      if r.status = .active then .ok (peerFp r.syncColumns) else .notFound := by
  have h_get : s.get id = some r := h_row
  have h_sees : canSeeSecrets c r = false := by
    rw [canSeeSecrets_eq h_admin, decide_eq_false_iff_not]
    exact h_foreign
  -- the record of a peer has no text, so that it can always be shown
  have h_detail : detailFp gcm ring c r = some (peerFp r.syncColumns) := by
    rw [detailFp, h_sees]
    rfl
  simp only [getFingerprint, requireScope, if_pos h_read, h_id, h_get, h_sees, h_detail]
  cases h_status : r.status with
  | active => rfl
  | hidden => rfl
  | deleted => rfl

end Displays

/-! ### Agreement -/

/-- What a consumer reads by its feed and by id is the same. The premise on an id is that no
row of the consumer's own is under it. -/
structure FeedAgrees (gcm : AesGcm) (ring : Keyring) (c : Consumer) (s : Store)
    (feed : List Json) : Prop where
  /-- What the feed shows as active, GET answers with 200, and nothing else of others, -/
  active_iff : ∀ id segment, pathId segment = some id →
    (∀ r, s.row id = some r → r.consumerId ≠ c.id) →
    ((∃ o ∈ feed, Displays o id .active) ↔ (getFingerprint gcm ring c segment s).status = 200)
  /-- with the object of the feed. -/
  active_eq : ∀ o ∈ feed, ∀ id segment, pathId segment = some id → Displays o id .active →
    getFingerprint gcm ring c segment s = .ok o
  /-- What the feed shows as hidden or deleted is there, and GET does not find it. -/
  gone_iff : ∀ id segment, pathId segment = some id →
    (∀ r, s.row id = some r → r.consumerId ≠ c.id) →
    ((∃ o ∈ feed, Displays o id .hidden ∨ Displays o id .deleted) ↔
      (∃ r, s.row id = some r) ∧ (getFingerprint gcm ring c segment s).status = 404)
  /-- The active rows in the feed are those of others. -/
  active_foreign : ∀ r, s.row r.id = some r → r.status = .active →
    ((∃ o ∈ feed, Displays o r.id .active) ↔ r.consumerId ≠ c.id)

/-- What a consumer reads by its list and by id is the same. -/
structure ListAgrees (gcm : AesGcm) (ring : Keyring) (c : Consumer) (s : Store)
    (list : List Json) : Prop where
  /-- The list shows the details of the own active rows, -/
  mem_list : ∀ o, o ∈ list ↔ ∃ r, s.row r.id = some r ∧ r.consumerId = c.id ∧
    r.status = .active ∧ detailFp gcm ring c r = some o
  /-- of all of them, -/
  own_active : ∀ r, s.row r.id = some r → r.consumerId = c.id → r.status = .active →
    ∃ o ∈ list, Displays o r.id .active
  /-- and each once. -/
  nodup_list : (list.map (Json.field "id")).Nodup
  /-- GET answers what is listed with the object of the list. -/
  list_eq : ∀ o ∈ list, ∀ id segment, pathId segment = some id → o.field "id" = some (.int id) →
    getFingerprint gcm ring c segment s = .ok o

/-- What a consumer reads by its feed, by its list and by id is the same. -/
structure ReadPathsAgree (gcm : AesGcm) (ring : Keyring) (c : Consumer) (s : Store)
    (feed list : List Json) : Prop extends FeedAgrees gcm ring c s feed,
    ListAgrees gcm ring c s list where
  /-- Every active row is in exactly one of feed and list. -/
  one : ∀ r, s.row r.id = some r → r.status = .active →
    ((∃ o ∈ feed, Displays o r.id .active) ↔ ¬ ∃ o ∈ list, Displays o r.id .active)

section Agreement

variable {gcm : AesGcm} {ring : Keyring} {config : ServiceConfig} {c : Consumer} {s : Store}

/-- A complete feed agrees with GET, whatever the texts of the own rows are: the rows of others
are shown without theirs. -/
theorem feed_agrees (h_valid : s.Valid)
    (h_pos : ∀ id r, s.row id = some r → 0 < r.syncSeq) (h_read : Scope.read ∈ c.scopes)
    (h_admin : c.isAdmin = false) {feed : List Json} (h_feed : Feed config c s 0 feed) :
    FeedAgrees gcm ring c s feed where
  active_iff := by
    intro id segment h_id h_foreign
    rw [displays_feed_iff h_valid h_pos h_read h_feed]
    cases h_row : s.row id with
    | none =>
      rw [getFingerprint_of_none h_read h_id h_row]
      simp [Response.notFound, Response.error]
    | some r =>
      rw [getFingerprint_of_foreign h_read h_admin h_id h_row (h_foreign r h_row)]
      split
      · next h_active => exact iff_of_true ⟨r, rfl, h_foreign r h_row, h_active⟩ rfl
      · next h_active =>
        refine iff_of_false ?_ (by simp [Response.notFound, Response.error])
        rintro ⟨r', h_r', -, h_active'⟩
        obtain rfl := Option.some.inj h_r'
        exact h_active h_active'
  active_eq := by
    intro o h_o id segment h_id h_displays
    obtain ⟨r, h_row, h_foreign, rfl⟩ := (mem_feed h_valid h_pos h_read h_feed).mp h_o
    obtain ⟨rfl, h_active⟩ := (displays_peerFp r).eq h_displays
    rw [getFingerprint_of_foreign h_read h_admin h_id h_row h_foreign, if_pos h_active]
  gone_iff := by
    intro id segment h_id h_foreign
    -- the feed has tombstones and hidden rows, and GET answers both with 404
    have h_or : (∃ o ∈ feed, Displays o id .hidden ∨ Displays o id .deleted) ↔
        ∃ r, s.row id = some r ∧ r.consumerId ≠ c.id ∧
          (r.status = .hidden ∨ r.status = .deleted) := by
      have h_hidden : (∃ o ∈ feed, Displays o id .hidden) ↔ _ :=
        displays_feed_iff h_valid h_pos h_read h_feed
      have h_deleted : (∃ o ∈ feed, Displays o id .deleted) ↔ _ :=
        displays_feed_iff h_valid h_pos h_read h_feed
      simp only [and_or_left, exists_or, h_hidden, h_deleted]
    rw [h_or]
    cases h_row : s.row id with
    | none => simp
    | some r =>
      rw [getFingerprint_of_foreign h_read h_admin h_id h_row (h_foreign r h_row)]
      cases h_status : r.status <;>
        simp [h_status, h_foreign r h_row, Response.notFound, Response.error, Response.ok]
  active_foreign := by
    intro r h_row h_active
    rw [displays_feed_iff h_valid h_pos h_read h_feed, h_row]
    simp [h_active]

/-- A complete list agrees with GET. That it is complete means that every own active row can be
shown. -/
theorem list_agrees (h_read : Scope.read ∈ c.scopes) (h_admin : c.isAdmin = false)
    {list : List Json} (h_list : Listed gcm ring config c s 0 list) :
    ListAgrees gcm ring c s list where
  mem_list := fun o => mem_list h_read h_admin h_list
  own_active := by
    intro r h_row h_own h_active
    exact (displays_list_iff h_read h_admin h_list).mpr ⟨r, h_row, h_own, h_active⟩
  nodup_list := nodup_list h_read h_admin h_list
  list_eq := by
    intro o h_o id segment h_id h_field
    obtain ⟨r, h_row, h_own, h_active, h_detail⟩ := (mem_list h_read h_admin h_list).mp h_o
    -- the id in the record is the id that is asked for
    have h_same := (displays_detailFp h_detail).id
    obtain rfl := Json.int.inj (Option.some.inj (h_same.symm.trans h_field))
    have h_live : r.Live := by
      rw [Fingerprint.Live, h_active]
      exact fun h_eq => Status.noConfusion h_eq
    refine getFingerprint_of_sees h_read h_id h_row h_live ?_ h_detail
    rw [canSeeSecrets_eq h_admin, h_own, decide_eq_true rfl]

/-- Only what can be shown is in a complete list, and all own active rows are. -/
theorem shown_of_listed (h_read : Scope.read ∈ c.scopes) (h_admin : c.isAdmin = false)
    {list : List Json} (h_list : Listed gcm ring config c s 0 list) {r : Fingerprint}
    (h_r : r ∈ listing c s) : (detailFp gcm ring c r).isSome = true := by
  have h_map : (listing c s).map (detailFp gcm ring c) = list.map some :=
    h_list.eq_listing h_read h_admin
  have h_detail : detailFp gcm ring c r ∈ list.map some := by
    rw [← h_map]
    exact List.mem_map_of_mem h_r
  obtain ⟨o, -, h_eq⟩ := List.mem_map.mp h_detail
  rw [← h_eq]
  rfl

/-- Every `BIGINT` has few enough digits for `int`. -/
theorem bigint_lt_digits : 2 ^ 63 < 10 ^ PyStr.maxStrDigits :=
  calc 2 ^ 63 < 10 ^ 19 := by norm_num
    _ ≤ 10 ^ PyStr.maxStrDigits := Nat.pow_le_pow_right (by norm_num) (by decide)

/-- The query of a client that pulls one row at a time: a cursor, and a limit of 1. -/
def stepQuery (cursorName : String) (cursor : ℕ) (name : String) : Option PyStr :=
  if name = cursorName then some (PyStr.ofInt cursor)
  else if name = "limit" then some (PyStr.ofInt 1)
  else none

/-- It has the cursor, which `int` reads back, -/
theorem intParam_stepQuery {cursorName : String} {cursor : ℕ}
    (h_cursor : cursor < 10 ^ PyStr.maxStrDigits) (default : ℤ) :
    intParam (stepQuery cursorName cursor) cursorName default = some (cursor : ℤ) := by
  unfold intParam stepQuery
  rw [if_pos rfl]
  exact PyStr.int_ofInt h_cursor

/-- and the limit, -/
theorem intParam_stepQuery_limit {cursorName : String} (h_name : "limit" ≠ cursorName)
    (cursor : ℕ) (default : ℤ) :
    intParam (stepQuery cursorName cursor) "limit" default = some 1 := by
  unfold intParam stepQuery
  rw [if_neg h_name, if_pos rfl]
  rfl

/-- and nothing else. -/
theorem stepQuery_of_ne {cursorName name : String} (cursor : ℕ) (h_name : name ≠ cursorName)
    (h_limit : name ≠ "limit") : stepQuery cursorName cursor name = none := by
  rw [stepQuery, if_neg h_name, if_neg h_limit]

/-- Such a query asks for the feed from its cursor on. -/
theorem feedQuery_stepQuery {cursor : ℕ} (h_cursor : cursor < 10 ^ PyStr.maxStrDigits) :
    FeedQuery (stepQuery "since" cursor) cursor := by
  have h_none : ∀ {name : String}, name ≠ "since" → name ≠ "limit" →
      strOrNone (stepQuery "since" cursor name) = none := by
    intro name h_name h_limit
    rw [stepQuery_of_ne _ h_name h_limit]
    rfl
  exact ⟨intParam_stepQuery h_cursor 0, h_none (by decide) (by decide),
    h_none (by decide) (by decide), h_none (by decide) (by decide)⟩

/-- It is answered with one row. -/
theorem syncFingerprints_stepQuery (h_read : Scope.read ∈ c.scopes) {cursor : ℕ}
    (h_cursor : cursor < 10 ^ PyStr.maxStrDigits) :
    syncFingerprints config c (stepQuery "since" cursor) s
      = .ok (syncBody (s.sync c.id cursor 1 .all)) := by
  have h_limit : max 1 (min 1 config.maxSyncLimit) = 1 := by omega
  rw [syncFingerprints_eq h_read (feedQuery_stepQuery h_cursor)
    (intParam_stepQuery_limit (by decide) _ _), h_limit]
  rfl

/-- A cursor is the first one or that of a row. -/
theorem cursor_lt (h_seq : ∀ id r, s.row id = some r → r.syncSeq < 10 ^ PyStr.maxStrDigits)
    (k : ℕ) : s.cursor c.id .all 0 (fun _ => 1) k < 10 ^ PyStr.maxStrDigits := by
  induction k with
  | zero => exact (Nat.zero_le _).trans_lt bigint_lt_digits
  | succ k ih =>
    rcases s.sync_next_cases c.id (s.cursor c.id .all 0 (fun _ => 1) k) 1 .all with
      h | ⟨id, r, h_row, -, h⟩
    · exact h.trans_lt ih
    · exact h.symm.trans_lt (h_seq id r h_row)

/-- A feed can be pulled to its end, one row at a time: after finitely many pages one announces no
more. -/
theorem exists_feed (h_valid : s.Valid)
    (h_seq : ∀ id r, s.row id = some r → r.syncSeq < 10 ^ PyStr.maxStrDigits)
    (h_read : Scope.read ∈ c.scopes) : ∃ feed, Feed config c s 0 feed := by
  have h_distinct := Store.nodup_syncSeq_of_inj h_valid.syncSeq_inj
  have h_query : ∀ k, FeedQuery (stepQuery "since" (s.cursor c.id .all 0 (fun _ => 1) k))
      (s.cursor c.id .all 0 (fun _ => 1) k) := fun k => feedQuery_stepQuery (cursor_lt h_seq k)
  have h_page : ∀ k, syncFingerprints config c
      (stepQuery "since" (s.cursor c.id .all 0 (fun _ => 1) k)) s
        = .ok (feedPage ((s.page c.id .all 0 (fun _ => 1) k).1.map peerFp)
            (s.cursor c.id .all 0 (fun _ => 1) (k + 1))
            (s.page c.id .all 0 (fun _ => 1) k).2.2) :=
    fun k => syncFingerprints_stepQuery h_read (cursor_lt h_seq k)
  obtain ⟨n, h_last⟩ := @Keyset.exists_last_page _ _ _ Fingerprint.syncSeq
    (Store.syncWhere c.id .all) s.fingerprints.rows 0 h_distinct (fun _ => 1) (fun _ => le_rfl)
  have h_last : (s.page c.id .all 0 (fun _ => 1) n).2.2 = false := by
    rw [Store.page_eq]
    exact h_last
  -- by induction on the pages that are left before the last one
  have h_from : ∀ m k, k + m = n → ∃ feed,
      Feed config c s (s.cursor c.id .all 0 (fun _ => 1) k) feed := by
    intro m
    induction m with
    | zero =>
      intro k h_k
      have h_end := h_page k
      rw [show k = n from h_k, h_last] at h_end
      rw [show k = n from h_k]
      exact ⟨_, .last (h_query n) h_end⟩
    | succ m ih =>
      intro k h_k
      obtain ⟨rest, h_rest⟩ := ih (k + 1) (by omega)
      have h_here := h_page k
      cases h_more : (s.page c.id .all 0 (fun _ => 1) k).2.2 with
      | true =>
        rw [h_more] at h_here
        exact ⟨_, .more (h_query k) h_here h_rest⟩
      | false =>
        rw [h_more] at h_here
        exact ⟨_, .last (h_query k) h_here⟩
  exact h_from n 0 (Nat.zero_add n)

/-- Such a query asks for the list from its offset on. -/
theorem listQuery_stepQuery (h_admin : c.isAdmin = false) {offset : ℕ}
    (h_offset : offset < 2 ^ 63) : ListQuery c (stepQuery "offset" offset) offset := by
  have h_owner : listOwner c (stepQuery "offset" offset) = .ok (some c.id) := by
    rw [listOwner, stepQuery_of_ne offset (by decide) (by decide), h_admin]
    rfl
  refine ⟨intParam_stepQuery (h_offset.trans bigint_lt_digits) 0, ?_, ?_, h_owner⟩
  · rw [stepQuery_of_ne offset (by decide) (by decide)]
    rfl
  · rw [stepQuery_of_ne offset (by decide) (by decide)]
    rfl

/-- It is answered with one row, or with none at the end. -/
theorem listFingerprints_stepQuery (h_read : Scope.read ∈ c.scopes) (h_admin : c.isAdmin = false)
    {offset : ℕ} (h_offset : offset < 2 ^ 63) {objects : List Json}
    (h_objects : (((listing c s).drop offset).take 1).map (detailFp gcm ring c)
      = objects.map some) :
    listFingerprints gcm ring config c (stepQuery "offset" offset) s = .ok (listBody objects) := by
  have h_limit : max 1 (min 1 config.maxListLimit) = 1 := by omega
  have h_fits : (fitsBigint 1 && fitsBigint (offset : ℤ)) = true := by
    simp only [fitsBigint, Bool.and_eq_true, decide_eq_true_eq]
    omega
  rw [listFingerprints_eq h_read h_admin (listQuery_stepQuery h_admin h_offset)
    (intParam_stepQuery_limit (by decide) _ _), h_limit, if_pos h_fits]
  show (match (((listing c s).drop offset).take 1).mapM (detailFp gcm ring c) with
    | some bodies => Response.ok (listBody bodies)
    | none => Response.internalServerError) = _
  rw [mapM_eq_some.mpr h_objects]

/-- A list whose rows can be shown can be pulled to its end, one row at a time and with an empty
page last. -/
theorem exists_list (h_read : Scope.read ∈ c.scopes) (h_admin : c.isAdmin = false)
    (h_rows : (listing c s).length < 2 ^ 63)
    (h_shown : ∀ r ∈ listing c s, (detailFp gcm ring c r).isSome = true) :
    ∃ list, Listed gcm ring config c s 0 list := by
  have h_bound : ∀ {k}, k ≤ (listing c s).length → k < 2 ^ 63 := fun h_k => h_k.trans_lt h_rows
  -- by induction on the rows that are left
  have h_from : ∀ m k, k + m = (listing c s).length → ∃ list,
      Listed gcm ring config c s k list := by
    intro m
    induction m with
    | zero =>
      intro k h_k
      have h_k : k = (listing c s).length := h_k
      have h_query := listQuery_stepQuery h_admin (h_bound h_k.le)
      refine ⟨[], .last h_query (listFingerprints_stepQuery h_read h_admin (h_bound h_k.le) ?_)⟩
      rw [List.drop_of_length_le h_k.ge]
      rfl
    | succ m ih =>
      intro k h_k
      have h_lt : k < (listing c s).length := by omega
      have h_query := listQuery_stepQuery h_admin (h_bound h_lt.le)
      obtain ⟨rest, h_rest⟩ := ih (k + 1) (by omega)
      obtain ⟨o, h_o⟩ := Option.isSome_iff_exists.mp (h_shown _ (List.getElem_mem h_lt))
      have h_page : (((listing c s).drop k).take 1).map (detailFp gcm ring c) = [o].map some := by
        rw [List.drop_eq_getElem_cons h_lt]
        show [detailFp gcm ring c (listing c s)[k]] = [some o]
        rw [h_o]
      exact ⟨[o] ++ rest, .more h_query
        (listFingerprints_stepQuery h_read h_admin (h_bound h_lt.le) h_page) h_rest⟩
  exact h_from _ 0 (Nat.zero_add _)

variable (gcm ring config) in
/-- **The read paths agree.**

Feed and list are read page after page, in pages of any sizes, and the feed can always be read to
its end. What it shows is compared with GET on its own (`FeedAgrees`). The list can be read to its
end just when every own active row can be shown: one whose texts decrypt to bytes that are not
UTF-8 makes the page with it fail. Then feed, list and GET agree (`ReadPathsAgree`). -/
theorem read_paths_agree (h_valid : s.Valid)
    (h_pos : ∀ id r, s.row id = some r → 0 < r.syncSeq) (h_read : Scope.read ∈ c.scopes)
    (h_admin : c.isAdmin = false) :
    ((∀ id r, s.row id = some r → r.syncSeq < 2 ^ 63) → ∃ feed, Feed config c s 0 feed) ∧
    (∀ feed, Feed config c s 0 feed → FeedAgrees gcm ring c s feed) ∧
    ((listing c s).length < 2 ^ 63 →
      ((∃ list, Listed gcm ring config c s 0 list) ↔
        ∀ r ∈ listing c s, (detailFp gcm ring c r).isSome = true)) ∧
    ∀ feed list, Feed config c s 0 feed → Listed gcm ring config c s 0 list →
      ReadPathsAgree gcm ring c s feed list := by
  refine ⟨fun h_seq => ?_, fun feed h_feed => feed_agrees h_valid h_pos h_read h_admin h_feed,
    fun h_rows => ⟨?_, exists_list h_read h_admin h_rows⟩, fun feed list h_feed h_list => ?_⟩
  · exact exists_feed h_valid (fun id r h_row => (h_seq id r h_row).trans bigint_lt_digits) h_read
  · rintro ⟨list, h_list⟩ r h_r
    exact shown_of_listed h_read h_admin h_list h_r
  · refine ⟨feed_agrees h_valid h_pos h_read h_admin h_feed,
      list_agrees h_read h_admin h_list, fun r h_row h_active => ?_⟩
    rw [displays_feed_iff h_valid h_pos h_read h_feed, displays_list_iff h_read h_admin h_list,
      h_row]
    simp [h_active]

/-- The feed and the list of consumer 1, next to a fingerprint of consumer 2: both are complete,
and agree. -/
theorem read_paths_agree_pair :
    let s := Store.empty.run [.contribute (fun _ t => t) (sampleContribution "00ff"),
      .contribute (fun _ t => t) { sampleContribution "00fe" with consumerId := 2 }]
    let c : Consumer := ⟨1, [.read]⟩
    ∃ feed list, Feed .default c s 0 feed ∧
      Listed FieldEncryption.sampleGcm FieldEncryption.sampleRing .default c s 0 list ∧
      ReadPathsAgree FieldEncryption.sampleGcm FieldEncryption.sampleRing c s feed list := by
  intro s c
  have h_wf : s.Wf := Store.Wf.empty.run _
  obtain ⟨h_feed, -, h_list, h_agree⟩ := read_paths_agree FieldEncryption.sampleGcm
    FieldEncryption.sampleRing .default (c := c) h_wf.valid h_wf.syncSeq_pos (by decide) (by decide)
  obtain ⟨feed, h_feed⟩ := h_feed
    (fun id r h_row => (h_wf.syncSeq_le id r h_row).trans_lt (by decide))
  obtain ⟨list, h_list⟩ := (h_list (by decide +kernel)).mpr (by decide +kernel)
  exact ⟨feed, list, h_feed, h_list, h_agree feed list h_feed h_list⟩

/-- A fingerprint of consumer 1 whose reason decrypts to the byte `0xff`. -/
def sampleUnshown : Store :=
  Store.empty.run [.contribute (fun _ t => t) { sampleContribution "00ff" with
    reason := some "enc:v1:a:AAAAAAAAAAAAAAAA:MTZjY9TQuaBjYILyx/sDiVo=" }]

/-- **A row that cannot be shown**: the store is one of the schema, its one row is active and an
own one, and there is no complete list that could contain it. GET on its id fails as well. -/
theorem read_paths_unshown :
    let c : Consumer := ⟨1, [.read]⟩
    sampleUnshown.Valid ∧ (∀ id r, sampleUnshown.row id = some r → 0 < r.syncSeq) ∧
    (∃ r, sampleUnshown.row 1 = some r ∧ r.consumerId = c.id ∧ r.status = .active) ∧
    (getFingerprint FieldEncryption.byteGcm FieldEncryption.sampleRing c (PyStr.ofInt 1)
      sampleUnshown).status = 500 ∧
    ∀ config, ¬ ∃ list, Listed FieldEncryption.byteGcm FieldEncryption.sampleRing config c
      sampleUnshown 0 list := by
  intro c
  have h_wf : sampleUnshown.Wf := Store.Wf.empty.run _
  refine ⟨h_wf.valid, h_wf.syncSeq_pos, ⟨_, rfl, rfl, rfl⟩, by decide +kernel, ?_⟩
  rintro config ⟨list, h_list⟩
  -- the reason of the row is not UTF-8
  have h_shown : ¬ ∀ r ∈ listing c sampleUnshown, (detailFp FieldEncryption.byteGcm
      FieldEncryption.sampleRing c r).isSome = true := by decide +kernel
  exact h_shown (fun r h_r => shown_of_listed (by decide) (by decide) h_list h_r)

end Agreement

end Api
end FingerprintHub
