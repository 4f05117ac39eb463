import FingerprintHub.Store.SyncSeq

/-!
# The pages of the sync feed

What one page of `sync` holds, and what page after page holds. A client that passes
`next_since` back as `since` until `has_more` is false gets the rows of one scan: every
matching row above its first cursor, once, in the order of `sync_seq`. The general part
is the keyset scan of the library; here it is read on the rows of a store.
-/

namespace FingerprintHub

/-! ### The rows of a page -/

namespace Store

variable {s : Store} {requester : ℤ} {since limit : ℕ} {filter : SyncFilter}

/-- Each row of a page is a matching row between the two cursors. -/
theorem mem_sync {x : SyncRow} (h : x ∈ (s.sync requester since limit filter).1) :
    ∃ r, s.row x.id = some r ∧ r.syncColumns = x ∧ syncWhere requester filter r = true ∧
      since < r.syncSeq ∧ r.syncSeq ≤ (s.sync requester since limit filter).2.1 := by
  rw [sync_eq_pull] at h ⊢
  obtain ⟨r, hr, rfl⟩ := List.mem_map.mp h
  obtain ⟨h_mem, h_where, h_lt, h_le⟩ := Keyset.mem_pull_rows hr
  exact ⟨r, (Table.mem_rows _).mp h_mem, rfl, h_where, h_lt, h_le⟩

/-- Every matching row between the two cursors is in the page. -/
theorem sync_complete (h_distinct : (s.fingerprints.rows.map Fingerprint.syncSeq).Nodup) {id : ℤ}
    {r : Fingerprint} (h_row : s.row id = some r)
    (h_where : syncWhere requester filter r = true) (h_lt : since < r.syncSeq)
    (h_le : r.syncSeq ≤ (s.sync requester since limit filter).2.1) :
    r.syncColumns ∈ (s.sync requester since limit filter).1 := by
  rw [sync_eq_pull] at h_le ⊢
  exact List.mem_map.mpr ⟨r, Keyset.pull_complete h_distinct (Table.mem_of_get? h_row)
    h_where h_lt h_le, rfl⟩

/-- A page that announces no more leaves no matching row above its cursor. -/
theorem syncSeq_le_of_sync (h_wf : s.Wf)
    (h_more : (s.sync requester since limit filter).2.2 = false) {id : ℤ} {r : Fingerprint}
    (h_row : s.row id = some r)
    (h_where : syncWhere requester filter r = true) :
    r.syncSeq ≤ (s.sync requester since limit filter).2.1 := by
  rw [sync_eq_pull] at h_more ⊢
  by_contra h_lt
  -- a matching row above the cursor would have been announced
  have h : (Keyset.pull Fingerprint.syncSeq (syncWhere requester filter) s.fingerprints.rows since
      limit).more = true :=
    (Keyset.pull_more_iff h_wf.nodup_syncSeq).mpr
      ⟨r, Table.mem_of_get? h_row, h_where, not_le.mp h_lt⟩
  exact absurd (h.symm.trans h_more) (by simp)

/-- The cursor of a page is the old one or one that a matching row holds. -/
theorem sync_next_cases (s : Store) (requester : ℤ) (since limit : ℕ) (filter : SyncFilter) :
    (s.sync requester since limit filter).2.1 = since ∨
    ∃ id r, s.row id = some r ∧ syncWhere requester filter r = true ∧
      r.syncSeq = (s.sync requester since limit filter).2.1 := by
  rw [sync_eq_pull]
  have h_cases : (Keyset.pull Fingerprint.syncSeq (syncWhere requester filter)
      s.fingerprints.rows since limit).next = since ∨ _ := Keyset.next_eq_or_mem
  -- an empty page leaves the cursor, and another moves it to its last row
  rcases h_cases with h | ⟨r, hr, h_eq⟩
  · exact Or.inl h
  · obtain ⟨h_mem, h_where, -, -⟩ := Keyset.mem_pull_rows hr
    exact Or.inr ⟨r.id, r, (Table.mem_rows _).mp h_mem, h_where, h_eq⟩

/-- Fewer than `limit` matching rows lie between the old cursor and a matching row that
the page gets to. -/
theorem sync_short (h_distinct : (s.fingerprints.rows.map Fingerprint.syncSeq).Nodup) {id : ℤ}
    {r : Fingerprint} (h_row : s.row id = some r) (h_where : syncWhere requester filter r = true)
    (h_lt : since < r.syncSeq) (h_le : r.syncSeq ≤ (s.sync requester since limit filter).2.1) :
    s.fingerprints.rows.countP (fun r' => decide (r'.syncSeq < r.syncSeq) &&
      (decide (since < r'.syncSeq) && syncWhere requester filter r')) < limit := by
  rw [sync_eq_pull] at h_le
  exact Keyset.countP_lt_of_mem_pull h_distinct
    (Keyset.pull_complete h_distinct (Table.mem_of_get? h_row) h_where h_lt h_le)

/-- A row is for a client if it is another's, and passes the filter. -/
theorem syncWhere_iff {r : Fingerprint} : syncWhere requester filter r = true ↔
    r.consumerId ≠ requester ∧ filter.accepts r.triple = true := by
  rw [syncWhere, Bool.and_eq_true, decide_eq_true_eq]

/-- The filter looks only at what the feed shows. -/
theorem syncWhere_congr {r r' : Fingerprint} (h : r'.feedColumns = r.feedColumns) :
    syncWhere requester filter r' = syncWhere requester filter r := by
  have h_consumer : r'.consumerId = r.consumerId := congrArg Prod.fst h
  have h_triple : r'.triple = r.triple := congrArg (fun c : ℤ × SyncRow => c.2.triple) h
  unfold syncWhere
  rw [h_consumer, h_triple]

end Store

/-! ### Page after page -/

namespace Store

section Pages

variable (s : Store) (requester : ℤ) (filter : SyncFilter) (since : ℕ) (limits : ℕ → ℕ)

/-- The cursor of a client after `n` pulls: it passes `next_since` back as `since`. -/
def cursor : ℕ → ℕ
  | 0 => since
  | n + 1 => (s.sync requester (cursor n) (limits n) filter).2.1

/-- What its pull `n` returns. -/
def page (n : ℕ) : List SyncRow × ℕ × Bool :=
  s.sync requester (s.cursor requester filter since limits n) (limits n) filter

/-- The rows of its pulls `0` to `n`. -/
def pages (n : ℕ) : List SyncRow :=
  (List.range (n + 1)).flatMap (fun k => (s.page requester filter since limits k).1)

/-- The cursors and the pages are those of the keyset scan, -/
theorem cursor_eq (n : ℕ) : s.cursor requester filter since limits n
    = Keyset.cursor Fingerprint.syncSeq (syncWhere requester filter) s.fingerprints.rows since
        limits n := by
  induction n with
  | zero => rfl
  | succ n ih =>
    rw [cursor, Keyset.cursor, ← ih, sync_eq_pull]

/-- on the rows of the table, with the columns of the feed. -/
theorem page_eq (n : ℕ) : s.page requester filter since limits n =
    let page := Keyset.pull Fingerprint.syncSeq (syncWhere requester filter) s.fingerprints.rows
      (Keyset.cursor Fingerprint.syncSeq (syncWhere requester filter) s.fingerprints.rows since
        limits n) (limits n)
    (page.rows.map (·.syncColumns), page.next, page.more) := by
  rw [page, sync_eq_pull, cursor_eq]

/-- The pages up to one that announces no more are the whole scan. -/
theorem pages_eq_scan (h_distinct : (s.fingerprints.rows.map Fingerprint.syncSeq).Nodup) {n : ℕ}
    (h_last : (s.page requester filter since limits n).2.2 = false) :
    s.pages requester filter since limits n =
      (Keyset.scan Fingerprint.syncSeq (syncWhere requester filter) s.fingerprints.rows since).map
        (·.syncColumns) := by
  rw [page_eq] at h_last
  have h_nil : Keyset.scan Fingerprint.syncSeq (syncWhere requester filter) s.fingerprints.rows
      (Keyset.cursor Fingerprint.syncSeq (syncWhere requester filter) s.fingerprints.rows since
        limits (n + 1)) = [] := Keyset.scan_next_eq_nil h_distinct h_last
  -- the pages in order, and nothing is left behind the last
  symm
  calc (Keyset.scan Fingerprint.syncSeq (syncWhere requester filter) s.fingerprints.rows since).map
        (·.syncColumns)
      = ((List.range (n + 1)).flatMap fun k => (Keyset.pull Fingerprint.syncSeq
          (syncWhere requester filter) s.fingerprints.rows (Keyset.cursor Fingerprint.syncSeq
            (syncWhere requester filter) s.fingerprints.rows since limits k) (limits k)).rows).map
          (·.syncColumns) := by
        rw [Keyset.scan_eq_pages h_distinct limits (n + 1), h_nil, List.append_nil]
    _ = s.pages requester filter since limits n := by
        rw [List.map_flatMap, pages]
        simp only [page_eq]

end Pages

variable {s : Store}

/-- What one page says of the rows between its two cursors, and of those above. -/
theorem page_exact (h_distinct : (s.fingerprints.rows.map Fingerprint.syncSeq).Nodup)
    (requester : ℤ) (filter : SyncFilter) (since limit : ℕ) :
    since ≤ (s.sync requester since limit filter).2.1 ∧
    (∀ r ∈ s.fingerprints.rows, r.consumerId ≠ requester → filter.accepts r.triple = true →
      since < r.syncSeq → r.syncSeq ≤ (s.sync requester since limit filter).2.1 →
      r.syncColumns ∈ (s.sync requester since limit filter).1) ∧
    ((s.sync requester since limit filter).2.2 = true ↔
      ∃ r ∈ s.fingerprints.rows, r.consumerId ≠ requester ∧ filter.accepts r.triple = true ∧
        (s.sync requester since limit filter).2.1 < r.syncSeq) := by
  refine ⟨?_, fun r h_mem h_foreign h_filter h_lt h_le => ?_, ?_⟩
  · rw [sync_eq_pull]
    exact Keyset.since_le_next
  · have h_where : syncWhere requester filter r = true :=
      syncWhere_iff.mpr ⟨h_foreign, h_filter⟩
    exact sync_complete h_distinct ((Table.mem_rows _).mp h_mem) h_where h_lt h_le
  · rw [sync_eq_pull]
    show (Keyset.pull _ _ _ _ _).more = true ↔ _
    rw [Keyset.pull_more_iff h_distinct]
    simp only [syncWhere_iff, and_assoc]

/-- **Paging equals one scan.**

For every sequence of positive limits there is a first page that announces no more, and the pages
up to it hold each matching row above the first cursor once, in the order of `sync_seq`. Each page
by itself is complete between its two cursors, and announces more just when there is more. -/
theorem pages_equal_scan (h_valid : s.Valid) (requester : ℤ) (filter : SyncFilter) (since : ℕ)
    (limits : ℕ → ℕ) (h_limits : ∀ k, 1 ≤ limits k) :
    (∃ n, (∀ k < n, (s.page requester filter since limits k).2.2 = true) ∧
      (s.page requester filter since limits n).2.2 = false ∧
      (s.pages requester filter since limits n).Pairwise (fun x y => x.syncSeq < y.syncSeq) ∧
      ∀ x, x ∈ s.pages requester filter since limits n ↔
        ∃ r ∈ s.fingerprints.rows, r.syncColumns = x ∧ since < r.syncSeq ∧
          r.consumerId ≠ requester ∧ filter.accepts r.triple = true) ∧
    ∀ since limit, 1 ≤ limit →
      since ≤ (s.sync requester since limit filter).2.1 ∧
      (∀ r ∈ s.fingerprints.rows, r.consumerId ≠ requester → filter.accepts r.triple = true →
        since < r.syncSeq → r.syncSeq ≤ (s.sync requester since limit filter).2.1 →
        r.syncColumns ∈ (s.sync requester since limit filter).1) ∧
      ((s.sync requester since limit filter).2.2 = true ↔
        ∃ r ∈ s.fingerprints.rows, r.consumerId ≠ requester ∧ filter.accepts r.triple = true ∧
          (s.sync requester since limit filter).2.1 < r.syncSeq) := by
  have h_distinct := nodup_syncSeq_of_inj h_valid.syncSeq_inj
  refine ⟨?_, fun since limit _ => page_exact h_distinct requester filter since limit⟩
  have h_stops : ∃ n, (s.page requester filter since limits n).2.2 = false := by
    -- a page that announces more takes at least one row
    obtain ⟨n, h_n⟩ := @Keyset.exists_last_page _ _ _ Fingerprint.syncSeq
      (syncWhere requester filter) s.fingerprints.rows since h_distinct limits h_limits
    refine ⟨n, ?_⟩
    rw [page_eq]
    exact h_n
  -- the first page that announces no more
  have h_last := Nat.find_spec h_stops
  have h_pages := s.pages_eq_scan requester filter since limits h_distinct h_last
  refine ⟨Nat.find h_stops, fun k h_k => ?_, h_last, ?_, fun x => ?_⟩
  · exact Bool.eq_true_of_not_eq_false (Nat.find_min h_stops h_k)
  · rw [h_pages, List.pairwise_map]
    exact Keyset.scan_pairwise_lt h_distinct
  · rw [h_pages, List.mem_map]
    simp only [Keyset.mem_scan, syncWhere_iff]
    constructor
    · rintro ⟨r, ⟨h_mem, h_lt, h_foreign, h_filter⟩, rfl⟩
      exact ⟨r, h_mem, rfl, h_lt, h_foreign, h_filter⟩
    · rintro ⟨r, h_mem, rfl, h_lt, h_foreign, h_filter⟩
      exact ⟨r, ⟨h_mem, h_lt, h_foreign, h_filter⟩, rfl⟩

/-- Two fingerprints of consumer 1, one on a page. -/
theorem pages_equal_scan_pair :
    let s := Store.empty.run [.contribute (fun _ t => t) (sampleContribution "00ff"),
      .contribute (fun _ t => t) (sampleContribution "00fe")]
    ∃ n, (s.page 9 .all 0 (fun _ => 1) n).2.2 = false ∧
      ∀ r ∈ s.fingerprints.rows, r.syncColumns ∈ s.pages 9 .all 0 (fun _ => 1) n := by
  intro s
  have h_valid : s.Valid := (Wf.empty.run _).valid
  obtain ⟨⟨n, -, h_last, -, h_rows⟩, -⟩ :=
    pages_equal_scan h_valid 9 .all 0 (fun _ => 1) (fun _ => le_rfl)
  refine ⟨n, h_last, fun r h_mem => (h_rows _).mpr ⟨r, h_mem, rfl, ?_⟩⟩
  have h_each : ∀ r ∈ s.fingerprints.rows, 0 < r.syncSeq ∧ r.consumerId ≠ 9 := by decide
  exact ⟨(h_each r h_mem).1, (h_each r h_mem).2, rfl⟩

end Store

end FingerprintHub
