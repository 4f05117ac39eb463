import Mathlib.Logic.Function.Basic
import FingerprintHub.Sync.Paging

/-!
# A client of the sync feed

The client of `docs/CLIENT_INTEGRATION.md`: it pulls a page, applies its rows one
by one, persists `next_since`, and goes on. It may crash at any moment; what it
applied and what it persisted survive, the page in flight does not. Between any
two of its steps the store may serve any call of any consumer.

`Feed` is what holds of store and client in every state. Its centre is `Synced`:
for each row at or below the watermark the mirror holds what the row is now, for
a row that is not for this client it holds nothing, and for a row above the
watermark it may hold something old. It is kept against the current store, and
against the store the page in flight was read from, whose rows may have moved on
since.

A page lists the rows that match the filter now. The invariant therefore needs
that no row the client holds stops matching while it is out of sight, which
`Step.Keeps` says of a step.
-/

namespace FingerprintHub

/-- A row that is not for this client comes into its feed, or leaves it, only by a
resurrection under another triple. -/
theorem RowStep.where_cases {s : Store} (requester : ℤ) (filter : SyncFilter) {op : Op}
    {id : ℤ} {r r' : Fingerprint}
    (h : RowStep s op id (some r) (some r')) :
    Store.syncWhere requester filter r' = Store.syncWhere requester filter r ∨
    ∃ enc a, op = .contribute enc a ∧ s.findOwned a.owned = some r ∧ r.status = .deleted ∧
      r.id = id ∧ r' = resurrectRow enc a (s.syncSeq + 1) r := by
  cases h with
  | keep => exact Or.inl rfl
  | resurrect h_found h_deleted _ => exact Or.inr ⟨_, _, rfl, h_found, h_deleted, rfl, rfl⟩
  | hit _ => exact Or.inl rfl
  | hide _ _ _ => exact Or.inl rfl
  | count _ _ => exact Or.inl rfl
  | delete _ _ => exact Or.inl rfl
  | anonymize _ _ => exact Or.inl rfl

/-! ### The client -/

namespace Sync

/-- What applying a row leaves under its id: an active row is upserted, a hidden or deleted one
removed. The client applies a tombstone it has never seen like any other. -/
def view (x : SyncRow) : Option SyncRow :=
  if x.status = .active then some x else none

/-- A page the client has fetched: the rows it has not applied yet, `next_since`
and `has_more`. The store it was read from, and when, are kept for the
specification. -/
structure Page where
  rest : List SyncRow
  nextSince : ℕ
  hasMore : Bool
  store : Store
  readAt : ℤ

/-- The store, and a client of its feed: the rows it mirrors by hub id, the watermark it
persisted, and the page in flight. Of the client's state the mirror and the watermark survive a
crash. -/
structure Config where
  store : Store
  mirror : ℤ → Option SyncRow
  watermark : ℕ
  page : Option Page

/-- A client that has nothing yet. -/
def Config.start (s : Store) : Config where
  store := s
  mirror := fun _ => none
  watermark := 0
  page := none

/-- A step of the whole: a call of any consumer on the store, or a step of the
client. -/
inductive Step where
  | call (op : Op)
  | pull (now : ℤ) (limit : ℕ)
  | apply (now : ℤ)
  | persist (now : ℤ)
  | crash (now : ℤ)

/-- When a step happens. -/
def Step.time : Step → ℤ
  | .call op => op.nowMs
  | .pull now _ => now
  | .apply now => now
  | .persist now => now
  | .crash now => now

section

variable (me : ℤ) (filter : SyncFilter)

/-- The client fetches the page after its watermark, unless it has one in flight. -/
def Config.pull (c : Config) (now : ℤ) (limit : ℕ) : Config :=
  match c.page with
  | some _ => c
  | none =>
    let (rows, nextSince, hasMore) := c.store.sync me c.watermark limit filter
    { c with page := some ⟨rows, nextSince, hasMore, c.store, now⟩ }

/-- The client applies the next row of its page. -/
def Config.apply (c : Config) : Config :=
  match c.page with
  | some p =>
    match p.rest with
    | x :: rest =>
      { c with
        mirror := Function.update c.mirror x.id (view x)
        page := some { p with rest := rest } }
    | [] => c
  | none => c

/-- The client persists `next_since` once the page is applied. If it crashes before, it will fetch
the same rows again. -/
def Config.persist (c : Config) : Config :=
  match c.page with
  | some p => if p.rest = [] then { c with watermark := p.nextSince, page := none } else c
  | none => c

/-- What a step does. A step the client cannot take does nothing. -/
def step (c : Config) : Step → Config
  | .call op => { c with store := op.apply c.store }
  | .pull now limit => c.pull me filter now limit
  | .apply _ => c.apply
  | .persist _ => c.persist
  | .crash _ => { c with page := none }

/-- The state after a list of steps. -/
def run (c : Config) (steps : List Step) : Config :=
  steps.foldl (step me filter) c

/-- What the mirror should hold for a store: the active rows that are not the client's own and
pass its filter. The specification of the feed, and computed from one store only: the client does
not know it, nor how the store came to be. -/
def peers (s : Store) (id : ℤ) : Option SyncRow :=
  (s.row id).bind (fun r => if Store.syncWhere me filter r then view r.syncColumns else none)

/-- The client has the row active, in its mirror or in what it has still to apply. -/
def Config.Holds (c : Config) (id : ℤ) : Prop :=
  (∃ x, c.mirror id = some x) ∨
    ∃ p, c.page = some p ∧ ∃ x ∈ p.rest, x.id = id ∧ x.status = .active

/-- The step does not move a row the client holds out of its filter: it is not a
resurrection of a tombstone that passes the filter under a triple that does not. -/
def Step.Keeps (c : Config) : Step → Prop
  | .call (.contribute _ a) => ∀ r, c.store.findOwned a.owned = some r → r.status = .deleted →
      r.consumerId ≠ me → filter.accepts r.triple = true → filter.accepts a.triple = false →
      ¬ c.Holds r.id
  | _ => True

/-- Every step of a run keeps what the client holds in its filter. For a client without a filter
this is true of every run. -/
def RunKeeps : Config → List Step → Prop
  | _, [] => True
  | c, st :: steps => st.Keeps me filter c ∧ RunKeeps (step me filter c st) steps

/-- The page is applied in full, and announced no more. -/
def Page.Complete (p : Page) : Prop := p.rest = [] ∧ p.hasMore = false

instance (p : Page) : Decidable p.Complete := inferInstanceAs (Decidable (_ ∧ _))

/-! ### The invariant -/

/-- What the mirror knows of a store at a watermark. Of a row above the watermark it may hold
anything the row has ever been. -/
structure Synced (mirror : ℤ → Option SyncRow) (watermark : ℕ) (s : Store) : Prop where
  /-- A row that is not for this client is not in its mirror. -/
  foreign : ∀ id r, s.row id = some r → Store.syncWhere me filter r = false → mirror id = none
  /-- A row at or below the watermark is in the mirror as it is now. -/
  current : ∀ id r, s.row id = some r → Store.syncWhere me filter r = true →
    r.syncSeq ≤ watermark → mirror id = view r.syncColumns

/-- What holds while a page is in flight. -/
structure InFlight (c : Config) (p : Page) : Prop where
  wf : p.store.Wf
  /-- The store has moved on from the one that was read. -/
  evolves : ∃ ops, c.store = p.store.run ops
  /-- The mirror is as good for the store that was read as it was when it was read. -/
  synced : Synced me filter c.mirror c.watermark p.store
  /-- What is no longer waiting to be applied has been applied. -/
  pulled : ∃ limit done, p.store.sync me c.watermark limit filter
      = (done ++ p.rest, p.nextSince, p.hasMore) ∧ ∀ x ∈ done, c.mirror x.id = view x
  /-- An active row still to be applied is still for this client. -/
  pending : ∀ x ∈ p.rest, x.status = .active → ∀ r, c.store.row x.id = some r →
    Store.syncWhere me filter r = true

/-- What holds of store and client in every state: the invariant of all runs, with the mirror
coupled to the current store and to the one the page in flight was read from. -/
structure Feed (c : Config) : Prop where
  wf : c.store.Wf
  /-- The watermark was handed out by the sequence. -/
  watermark_le : c.watermark ≤ c.store.syncSeq
  /-- The mirror holds only ids the store has handed out. -/
  known : ∀ id x, c.mirror id = some x → id ≤ c.store.lastId
  synced : Synced me filter c.mirror c.watermark c.store
  page : ∀ p, c.page = some p → InFlight me filter c p

/-- A client that has nothing is synced at watermark 0, since no value is as low. -/
theorem Feed.start {s : Store} (h_wf : s.Wf) : Feed me filter (Config.start s) where
  wf := h_wf
  watermark_le := Nat.zero_le _
  known := fun _ _ h => absurd h (by simp [Config.start])
  synced := by
    refine ⟨fun _ _ _ _ => rfl, fun id r h_row _ h_le => ?_⟩
    exact absurd (h_wf.syncSeq_pos id r h_row) (not_lt.mpr h_le)
  page := fun _ h => absurd h (by simp [Config.start])

variable {me filter}

/-- A row still to be applied is a row of the page. -/
theorem InFlight.mem_rest {c : Config} {p : Page} (h : InFlight me filter c p) {x : SyncRow}
    (hx : x ∈ p.rest) : ∃ r, p.store.row x.id = some r ∧ r.syncColumns = x ∧
      Store.syncWhere me filter r = true ∧ c.watermark < r.syncSeq ∧ r.syncSeq ≤ p.nextSince := by
  obtain ⟨limit, done, h_sync, -⟩ := h.pulled
  have h_mem : x ∈ (p.store.sync me c.watermark limit filter).1 := by
    rw [h_sync]
    exact List.mem_append_right done hx
  have h_row := Store.mem_sync h_mem
  rw [h_sync] at h_row
  exact h_row

/-- The id of a row still to be applied was handed out. -/
theorem InFlight.id_le {c : Config} {p : Page} (h : InFlight me filter c p) {x : SyncRow}
    (hx : x ∈ p.rest) : x.id ≤ c.store.lastId := by
  obtain ⟨r, h_row, -⟩ := h.mem_rest hx
  obtain ⟨ops, h_ops⟩ := h.evolves
  rw [h_ops]
  exact (h.wf.id_le x.id r h_row).trans (Store.run_sequences_le p.store ops).2

/-- A row the client holds stays in its filter over a call that keeps it there. The requester is
no concern: a row never changes its owner. -/
theorem where_of_holds {c : Config} (h_wf : c.store.Wf) {op : Op}
    (h_keeps : (Step.call op).Keeps me filter c) {id : ℤ} {r r' : Fingerprint}
    (h_row : c.store.row id = some r) (h_row' : (op.apply c.store).row id = some r')
    (h_r : Store.syncWhere me filter r = true) (h_holds : c.Holds id) :
    Store.syncWhere me filter r' = true := by
  have h_step := Op.rowStep h_wf.fresh op id
  rw [h_row, h_row'] at h_step
  rcases h_step.where_cases me filter with h_same | ⟨enc, a, rfl, h_found, h_deleted, rfl, rfl⟩
  · rw [h_same]
    exact h_r
  · -- a resurrection: only the triple could take the row out of the filter
    unfold Store.syncWhere at h_r ⊢
    rw [Bool.and_eq_true, decide_eq_true_eq] at h_r ⊢
    refine ⟨h_r.1, ?_⟩
    by_contra h_not
    exact h_keeps r h_found h_deleted h_r.1 h_r.2 (Bool.eq_false_iff.mpr h_not) h_holds

/-- A call keeps the feed: what it changes takes a value above the watermark, and a row that
appears has an id the mirror does not know. -/
theorem Feed.call {c : Config} (h : Feed me filter c) (op : Op)
    (h_keeps : (Step.call op).Keeps me filter c) :
    Feed me filter (step me filter c (.call op)) where
  wf := h.wf.step op
  watermark_le := h.watermark_le.trans (op.sequences_le c.store).1
  known := fun id x h_x => (h.known id x h_x).trans (op.sequences_le c.store).2.1
  synced := by
    refine ⟨fun id r' h_row' h_false => ?_, fun id r' h_row' h_true h_le => ?_⟩
    · change c.mirror id = none
      have h_step := Op.rowStep h.wf.fresh op id
      rw [show (op.apply c.store).row id = some r' from h_row'] at h_step
      by_contra h_held
      obtain ⟨x, h_x⟩ := Option.ne_none_iff_exists'.mp h_held
      cases h_row : c.store.row id with
      | none =>
        -- a new row has an id the mirror cannot know
        rw [h_row] at h_step
        have h_known := h.known id x h_x
        rcases h_step.owned_cases with ⟨r, h_r, -⟩ | ⟨-, h_id, -⟩
        · exact absurd h_r (by simp)
        · omega
      | some r =>
        -- a mirrored row passed the filter, and still does
        have h_r : Store.syncWhere me filter r = true := by
          by_contra h_not
          exact h_held (h.synced.foreign id r h_row (Bool.eq_false_iff.mpr h_not))
        have h_r' := where_of_holds h.wf h_keeps h_row h_row' h_r (Or.inl ⟨x, h_x⟩)
        exact absurd (h_r'.symm.trans h_false) (by simp)
    · change c.mirror id = view r'.syncColumns
      have h_step := Op.rowStep h.wf.fresh op id
      rw [show (op.apply c.store).row id = some r' from h_row'] at h_step
      have h_mark := h.watermark_le
      replace h_le : r'.syncSeq ≤ c.watermark := h_le
      cases h_row : c.store.row id with
      | none =>
        rw [h_row] at h_step
        -- a new row is above the watermark
        have h_seq := h_step.syncSeq_of_insert
        omega
      | some r =>
        rw [h_row] at h_step
        -- the row is as it was, or above the watermark
        rcases h_step.feed_cases with h_feed | ⟨h_seq, -, -⟩
        · have h_columns : r'.syncColumns = r.syncColumns := congrArg Prod.snd h_feed
          have h_seq : r'.syncSeq = r.syncSeq := congrArg SyncRow.syncSeq h_columns
          rw [h_columns]
          refine h.synced.current id r h_row ?_ (h_seq ▸ h_le)
          rw [← Store.syncWhere_congr h_feed]
          exact h_true
        · omega
  page := by
    intro p h_p
    have h_page : InFlight me filter c p := h.page p h_p
    -- the store that was read stays behind by one call more
    obtain ⟨ops, h_ops⟩ := h_page.evolves
    refine ⟨h_page.wf, ⟨ops ++ [op], ?_⟩, h_page.synced, h_page.pulled,
      fun x hx h_active r' h_row' => ?_⟩
    · rw [Store.run_concat, ← h_ops]
      rfl
    · cases h_row : c.store.row x.id with
      | none =>
        have h_none := Store.row_none_stable h.wf op (h_page.id_le hx) h_row
        exact absurd (h_none.symm.trans h_row') (by simp)
      | some r =>
        exact where_of_holds h.wf h_keeps h_row h_row' (h_page.pending x hx h_active r h_row)
          (Or.inr ⟨p, h_p, x, hx, rfl, h_active⟩)

/-- A page is read from the current store, which has then not moved on at all. -/
theorem Feed.pull {c : Config} (h : Feed me filter c) (now : ℤ) (limit : ℕ) :
    Feed me filter (c.pull me filter now limit) := by
  unfold Config.pull
  split
  · exact h
  · next h_none =>
    refine ⟨h.wf, h.watermark_le, h.known, h.synced, fun p h_p => ?_⟩
    obtain rfl := Option.some.inj h_p
    -- nothing of it is applied yet, and each of its rows passes the filter
    refine ⟨h.wf, ⟨[], rfl⟩, h.synced, ⟨limit, [], rfl, fun x hx => absurd hx List.not_mem_nil⟩,
      fun x hx _ r h_row => ?_⟩
    obtain ⟨q, h_q, -, h_where, -⟩ := Store.mem_sync hx
    obtain rfl : q = r := Option.some.inj (h_q.symm.trans h_row)
    exact h_where

/-- Applying a row touches no row at or below the watermark of a store that has
evolved from the page's. -/
theorem Synced.apply {mirror : ℤ → Option SyncRow} {watermark : ℕ} {s : Store} {x : SyncRow}
    (h : Synced me filter mirror watermark s)
    (h_above : ∀ r, s.row x.id = some r → watermark < r.syncSeq)
    (h_where : x.status = .active → ∀ r, s.row x.id = some r → Store.syncWhere me filter r = true) :
    Synced me filter (Function.update mirror x.id (view x)) watermark s where
  foreign := by
    intro id r h_row h_false
    by_cases h_id : id = x.id
    · subst h_id
      rw [Function.update_self, view, if_neg]
      intro h_active
      exact absurd ((h_where h_active r h_row).symm.trans h_false) (by simp)
    · rw [Function.update_of_ne h_id]
      exact h.foreign id r h_row h_false
  current := by
    intro id r h_row h_true h_le
    have h_id : id ≠ x.id := by
      rintro rfl
      exact absurd (h_above r h_row) (not_lt.mpr h_le)
    rw [Function.update_of_ne h_id]
    exact h.current id r h_row h_true h_le

/-- Applying a row keeps the feed: its id is known, and its row is above the watermark both now
and in the store that was read. -/
theorem Feed.apply {c : Config} (h : Feed me filter c) : Feed me filter c.apply := by
  unfold Config.apply
  split
  · next p h_p =>
    split
    · next x rest h_rest =>
      have h_page := h.page p h_p
      have h_x : x ∈ p.rest := h_rest ▸ List.mem_cons_self
      obtain ⟨r₀, h_row₀, h_cols, h_where₀, h_lt₀, -⟩ := h_page.mem_rest h_x
      obtain ⟨ops, h_ops⟩ := h_page.evolves
      -- the row may have moved on since the page was read, but only upwards
      have h_above : ∀ r, c.store.row x.id = some r → c.watermark < r.syncSeq := by
        intro r h_row
        rw [h_ops] at h_row
        rcases Store.run_feed h_page.wf ops h_row₀ h_row with h_feed | h_lt
        · have h_seq : r.syncSeq = r₀.syncSeq :=
            congrArg (fun d : ℤ × SyncRow => d.2.syncSeq) h_feed
          omega
        · have := h_page.wf.syncSeq_le x.id r₀ h_row₀
          omega
      -- the mirror against the current store
      refine ⟨h.wf, h.watermark_le, ?_, h.synced.apply h_above (h_page.pending x h_x), ?_⟩
      · intro id y h_y
        by_cases h_id : id = x.id
        · rw [h_id]
          exact h_page.id_le h_x
        · refine h.known id y ?_
          rw [← h_y]
          exact (Function.update_of_ne h_id _ _).symm
      · intro p' h_p'
        obtain rfl := Option.some.inj h_p'
        -- and against the store that was read, of which one row more is applied
        refine ⟨h_page.wf, h_page.evolves, ?_, ?_, fun y hy => ?_⟩
        · refine h_page.synced.apply (fun r h_row => ?_) (fun _ r h_row => ?_)
          · obtain rfl : r₀ = r := Option.some.inj (h_row₀.symm.trans h_row)
            exact h_lt₀
          · obtain rfl : r₀ = r := Option.some.inj (h_row₀.symm.trans h_row)
            exact h_where₀
        · obtain ⟨limit, done, h_sync, h_done⟩ := h_page.pulled
          refine ⟨limit, done ++ [x], ?_, fun y hy => ?_⟩
          · rw [h_sync, h_rest, List.append_assoc]
            rfl
          · change Function.update c.mirror x.id (view x) y.id = view y
            by_cases h_id : y.id = x.id
            · -- one row of the store that was read carries the id
              have h_mem : y ∈ (p.store.sync me c.watermark limit filter).1 := by
                rw [h_sync, h_rest]
                simp only [List.mem_append, List.mem_cons, List.not_mem_nil, or_false] at hy ⊢
                tauto
              obtain ⟨q, h_q, rfl, -⟩ := Store.mem_sync h_mem
              rw [h_id, h_row₀] at h_q
              obtain rfl := Option.some.inj h_q
              rw [h_id, Function.update_self, h_cols]
            · rw [Function.update_of_ne h_id]
              refine h_done y ((List.mem_append.mp hy).resolve_right (fun h_y => h_id ?_))
              rw [List.mem_singleton.mp h_y]
        · exact h_page.pending y (h_rest ▸ List.mem_cons_of_mem x hy)
    · exact h
  · exact h

/-- Persisting keeps the feed: the watermark moves to the end of a page all of whose rows are
applied, and a row up to there that is not on the page has not changed since it was read. -/
theorem Feed.persist {c : Config} (h : Feed me filter c) : Feed me filter c.persist := by
  unfold Config.persist
  split
  · next p h_p =>
    split
    · next h_rest =>
      have h_page := h.page p h_p
      obtain ⟨limit, done, h_sync, h_done⟩ := h_page.pulled
      obtain ⟨ops, h_ops⟩ := h_page.evolves
      -- the new watermark was handed out too
      have h_next : p.nextSince = c.watermark ∨ p.nextSince ≤ p.store.syncSeq := by
        rcases p.store.sync_next_cases me c.watermark limit filter with
          h_eq | ⟨id, r, h_row, -, h_eq⟩
        · rw [h_sync] at h_eq
          exact Or.inl h_eq
        · rw [h_sync] at h_eq
          have h_le := h_page.wf.syncSeq_le id r h_row
          rw [h_eq] at h_le
          exact Or.inr h_le
      have h_mono := (Store.run_sequences_le p.store ops).1
      rw [← h_ops] at h_mono
      refine ⟨h.wf, ?_, h.known, ⟨h.synced.foreign, ?_⟩, fun p' h_p' => absurd h_p' (by simp)⟩
      · change p.nextSince ≤ c.store.syncSeq
        have := h.watermark_le
        omega
      · intro id r h_row h_true h_le
        change r.syncSeq ≤ p.nextSince at h_le
        by_cases h_old : r.syncSeq ≤ c.watermark
        · exact h.synced.current id r h_row h_true h_old
        · -- the row was in the page, and has not changed since
          have h_le' : r.syncSeq ≤ p.store.syncSeq := by omega
          rw [h_ops] at h_row
          obtain ⟨r₀, h_row₀, h_feed⟩ := Store.run_row_of_le h_page.wf ops h_row h_le'
          have h_columns : r.syncColumns = r₀.syncColumns := congrArg Prod.snd h_feed
          have h_seq : r.syncSeq = r₀.syncSeq := congrArg SyncRow.syncSeq h_columns
          have h_mem : r₀.syncColumns ∈ (p.store.sync me c.watermark limit filter).1 := by
            refine Store.sync_complete h_page.wf.nodup_syncSeq h_row₀ ?_ (by omega) ?_
            · rw [← Store.syncWhere_congr h_feed]
              exact h_true
            · rw [h_sync]
              change r₀.syncSeq ≤ p.nextSince
              omega
          rw [h_sync, h_rest, List.append_nil] at h_mem
          rw [h_columns, ← h_done _ h_mem]
          exact congrArg c.mirror (Store.id_of_row h_row₀).symm
    · exact h
  · exact h

/-- A crash loses the page, of which nothing was persisted. -/
theorem Feed.crash {c : Config} (h : Feed me filter c) (now : ℤ) :
    Feed me filter (step me filter c (.crash now)) where
  wf := h.wf
  watermark_le := h.watermark_le
  known := h.known
  synced := h.synced
  page := fun _ h_p => absurd h_p (by simp [step])

/-- **One step keeps the feed**, if it moves nothing the client holds out of its filter. -/
theorem Feed.step {c : Config} (h : Feed me filter c) (st : Step) (h_keeps : st.Keeps me filter c) :
    Feed me filter (step me filter c st) := by
  cases st with
  | call op => exact h.call op h_keeps
  | pull now limit => exact h.pull now limit
  | apply now => exact h.apply
  | persist now => exact h.persist
  | crash now => exact h.crash now

/-- A run keeps the feed. -/
theorem Feed.run {c : Config} (h : Feed me filter c) (steps : List Step)
    (h_keeps : RunKeeps me filter c steps) : Feed me filter (run me filter c steps) := by
  induction steps generalizing c with
  | nil => exact h
  | cons st steps ih => exact ih (h.step st h_keeps.1) h_keeps.2

/-- **A page applied in full, that announced no more, has brought the mirror up to
the store that was read**: under every id that store had a row for, the mirror holds
what it should. -/
theorem Feed.mirror_eq {c : Config} (h : Feed me filter c) {p : Page} (h_p : c.page = some p)
    (h_complete : p.Complete) {id : ℤ} (h_row : p.store.row id ≠ none) :
    c.mirror id = peers me filter p.store id := by
  have h_page := h.page p h_p
  obtain ⟨limit, done, h_sync, h_done⟩ := h_page.pulled
  obtain ⟨r, h_r⟩ := Option.ne_none_iff_exists'.mp h_row
  unfold peers
  rw [h_r, Option.bind_some]
  -- a matching row was in the mirror before the page, or came with it
  by_cases h_where : Store.syncWhere me filter r = true
  · rw [if_pos h_where]
    by_cases h_old : r.syncSeq ≤ c.watermark
    · exact h_page.synced.current id r h_r h_where h_old
    · have h_le : r.syncSeq ≤ (p.store.sync me c.watermark limit filter).2.1 := by
        refine Store.syncSeq_le_of_sync h_page.wf ?_ h_r h_where
        rw [h_sync]
        exact h_complete.2
      have h_mem := Store.sync_complete h_page.wf.nodup_syncSeq h_r h_where (not_le.mp h_old) h_le
      rw [h_sync, h_complete.1, List.append_nil] at h_mem
      rw [← h_done _ h_mem]
      exact congrArg c.mirror (Store.id_of_row h_r).symm
  · rw [if_neg h_where]
    exact h_page.synced.foreign id r h_r (Bool.eq_false_iff.mpr h_where)

end

end Sync

end FingerprintHub
