import FingerprintHub.Api.Consumers
import FingerprintHub.Store.Totals

/-!
# `stats`

The totals of `fingerprint_store.stats`, read from one state of the database, and the handler
that shows them to an admin.

`stats_agree` compares them with each other and with what an admin lists page by page, and
`stats_balance` with the answers of every call of a run: a row is live for each contribution
that was answered `created`, but for those that were deleted.
-/

namespace FingerprintHub
namespace Api

/-- What `stats` returns. A dictionary is the list of its items, whose order says nothing. -/
structure Stats where
  totalActive : ℕ
  totalHidden : ℕ
  totalDeleted : ℕ
  totalHits : ℤ
  byCategory : List (Category × ℕ)
  byProvenance : List (String × ℕ)
  activeConsumers : ℕ

/-- `stats`: the totals of one state. The hits are those that the rows have counted, of tombstones
as well, and the consumers are those that are enabled. -/
def stats (s : Store) (cs : Consumers) : Stats where
  totalActive := s.fingerprints.count (hasStatus .active)
  totalHidden := s.fingerprints.count (hasStatus .hidden)
  totalDeleted := s.fingerprints.count (hasStatus .deleted)
  totalHits := s.fingerprints.tally (fun r => r.hitCount)
  byCategory := s.fingerprints.groupCount (hasStatus .active) (fun r => r.category)
  byProvenance := s.fingerprints.groupCount (hasStatus .active) (fun r => r.provenance)
  activeConsumers := cs.table.count (fun r => r.enabled)

/-- The body of the answer. -/
def Stats.body (st : Stats) : Json :=
  .obj [("total_active", .int st.totalActive), ("total_hidden", .int st.totalHidden),
    ("total_deleted", .int st.totalDeleted), ("total_hits", .int st.totalHits),
    ("by_category", .obj (st.byCategory.map (fun g => (g.1.text, .int g.2)))),
    ("by_provenance", .obj (st.byProvenance.map (fun g => (g.1, .int g.2)))),
    ("active_consumers", .int st.activeConsumers)]

/-- The handler `stats`. -/
def getStats (c : Consumer) (s : Store) (cs : Consumers) : Response :=
  requireScope c .admin id (.ok (stats s cs).body)

/-! ### Agreement -/

/-- The pages of a list, one after another, are its beginning. -/
theorem flatMap_pages {α : Type} (l : List α) (limit n : ℕ) :
    (List.range n).flatMap (fun k => (l.drop (k * limit)).take limit) = l.take (n * limit) := by
  induction n with
  | zero => simp
  | succ n ih =>
    rw [List.range_succ, List.flatMap_append, ih, List.flatMap_singleton, Nat.succ_mul,
      List.take_add]

/-- All pages of `list_fingerprints` together are as long as the rows that are listed, whatever
the filters and the size of a page. -/
theorem length_listPages (s : Store) (category algorithm : Option String)
    (consumerId : Option ℤ) (includeHidden : Bool) {limit n : ℕ}
    (h : s.fingerprints.rows.length ≤ n * limit) :
    ((List.range n).flatMap (fun k =>
        s.listFingerprints category algorithm consumerId includeHidden limit (k * limit))).length =
      s.fingerprints.count (Store.listWhere category algorithm consumerId includeHidden) := by
  have h_le : (s.fingerprints.select
      (Store.listWhere category algorithm consumerId includeHidden)).length ≤ n * limit :=
    (List.filter_sublist.length_le).trans h
  unfold Store.listFingerprints
  -- enough pages take the whole list
  rw [flatMap_pages, List.length_take, List.length_insertionSort, min_eq_right h_le,
    Table.count, List.countP_eq_length_filter]
  rfl

/-- The clause of a category selects its rows. -/
theorem clause_category (c c' : Category) : clause (some c.text) c'.text = decide (c' = c) := by
  cases c <;> cases c' <;> decide

/-- The totals agree with each other, and with the lists of an admin who reads as many pages as it
takes. A category has its total just when it has an active row. -/
structure StatsAgree (s : Store) (st : Stats) : Prop where
  rows : st.totalActive + st.totalHidden + st.totalDeleted = s.fingerprints.rows.length
  categories : (st.byCategory.map Prod.snd).sum = st.totalActive
  provenances : (st.byProvenance.map Prod.snd).sum = st.totalActive
  /-- A key of a dictionary comes once, and has rows. -/
  keys : (st.byCategory.map Prod.fst).Nodup ∧ (st.byProvenance.map Prod.fst).Nodup ∧
    (∀ g ∈ st.byCategory, 0 < g.2) ∧ ∀ g ∈ st.byProvenance, 0 < g.2
  active : ∀ limit n, s.fingerprints.rows.length ≤ n * limit →
    ((List.range n).flatMap (fun k =>
      s.listFingerprints none none none false limit (k * limit))).length = st.totalActive
  hidden : ∀ limit n, s.fingerprints.rows.length ≤ n * limit →
    ((List.range n).flatMap (fun k =>
      s.listFingerprints none none none true limit (k * limit))).length =
        st.totalActive + st.totalHidden
  category : ∀ limit n, s.fingerprints.rows.length ≤ n * limit → ∀ c m,
    ((c, m) ∈ st.byCategory ↔ 0 < m ∧
      ((List.range n).flatMap (fun k =>
        s.listFingerprints (some c.text) none none false limit (k * limit))).length = m)

/-- A row has one of the three statuses. -/
theorem count_statuses (s : Store) :
    s.fingerprints.count (hasStatus .active) + s.fingerprints.count (hasStatus .hidden) +
      s.fingerprints.count (hasStatus .deleted) = s.fingerprints.rows.length := by
  unfold Table.count
  induction s.fingerprints.rows with
  | nil => rfl
  | cons r rows ih =>
    simp only [List.countP_cons, List.length_cons]
    cases h : r.status <;> simp [hasStatus, h] <;> omega

/-- **The totals agree**, for every state of the tables. -/
theorem stats_agree (s : Store) (cs : Consumers) : StatsAgree s (stats s cs) where
  rows := count_statuses s
  categories := Table.sum_groupCount _ _ _
  provenances := Table.sum_groupCount _ _ _
  keys := ⟨Table.nodup_groupCount _ _ _, Table.nodup_groupCount _ _ _,
    fun _ h => (Table.mem_groupCount _ _ _ |>.mp h).1,
    fun _ h => (Table.mem_groupCount _ _ _ |>.mp h).1⟩
  active := by
    intro limit n h
    rw [length_listPages s none none none false h]
    -- without filters the list of an admin has every active row
    refine List.countP_congr (fun r _ => ?_)
    simp [Store.listWhere, hasStatus, clause]
  hidden := by
    intro limit n h
    rw [length_listPages s none none none true h]
    show s.fingerprints.count _ = s.fingerprints.count _ + s.fingerprints.count _
    unfold Table.count
    -- with hidden rows it has the active ones and the hidden ones
    induction s.fingerprints.rows with
    | nil => rfl
    | cons r rows ih =>
      simp only [List.countP_cons, ih]
      cases h : r.status <;> simp [Store.listWhere, hasStatus, clause, h] <;> omega
  category := by
    intro limit n h c m
    rw [length_listPages s (some c.text) none none false h]
    show (c, m) ∈ s.fingerprints.groupCount _ _ ↔ _
    rw [Table.mem_groupCount]
    -- the rows of a group are those that the filter of the list selects
    have h_count : s.fingerprints.count (Store.listWhere (some c.text) none none false) =
        s.fingerprints.count (fun r => hasStatus .active r && decide (r.category = c)) := by
      refine List.countP_congr (fun r _ => ?_)
      rw [Store.listWhere, clause_category]
      simp [hasStatus, clause]
    rw [h_count]
    exact and_congr_right (fun _ => eq_comm)

/-! ### The answers of a run -/

/-- A live row is an active or a hidden one. -/
theorem total_live (s : Store) (cs : Consumers) :
    s.fingerprints.tally Store.live = (stats s cs).totalActive + (stats s cs).totalHidden := by
  show _ = ((s.fingerprints.count _ : ℕ) : ℤ) + ((s.fingerprints.count _ : ℕ) : ℤ)
  rw [Table.count_eq_tally, Table.count_eq_tally, ← Table.tally_add]
  refine Table.tally_congr (fun r _ => ?_)
  cases h : r.status <;> simp [Store.live, Table.one, hasStatus, h]

/-- **The totals are what the answers of a run add up to.** After every run on an empty database
there is a live row for each contribution that was answered `created`, less the deletions that
were answered `True`; the tombstones are no more than these deletions less the tombstones that
retention reported; and the hits are those that were answered with a count, if nothing was
purged, and no more otherwise. -/
theorem stats_balance (ops : List Op) (cs : Consumers) :
    (stats (Store.empty.run ops) cs).totalActive + (stats (Store.empty.run ops) cs).totalHidden +
        Store.empty.total Op.deleted ops = Store.empty.total Op.created ops ∧
      (stats (Store.empty.run ops) cs).totalDeleted + Store.empty.total Op.purged ops ≤
        Store.empty.total Op.deleted ops ∧
      (stats (Store.empty.run ops) cs).totalHits ≤ Store.empty.total Op.reported ops ∧
      (Store.empty.total Op.purged ops = 0 →
        (stats (Store.empty.run ops) cs).totalHits = Store.empty.total Op.reported ops) := by
  -- every call of the run balances
  have h := Balance.run Store.Wf.empty ops
  have h_live := h.live
  have h_dead := h.dead
  have h_hits_le := h.hits_le
  -- an empty database has no totals
  have h_zero : ∀ w : Fingerprint → ℤ, Store.empty.fingerprints.tally w = 0 :=
    fun w => Table.tally_empty w
  rw [h_zero, total_live _ cs] at h_live
  rw [h_zero, zero_add] at h_dead
  have h_start : Store.empty.totalHits = 0 := h_zero _
  have h_total : (stats (Store.empty.run ops) cs).totalHits = (Store.empty.run ops).totalHits := rfl
  refine ⟨by omega, ?_, by omega, fun h_purged => ?_⟩
  · show ((Table.count _ _ : ℕ) : ℤ) + _ ≤ _
    rw [Table.count_eq_tally]
    exact h_dead
  · have h_hits := h.hits h_purged
    omega

end Api
end FingerprintHub
