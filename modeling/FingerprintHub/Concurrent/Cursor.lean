import FingerprintHub.Concurrent.Sequences
import FingerprintHub.Sync.Client

/-!
# A sync cursor over concurrent writers

A client of the sync feed while transactions run side by side. It fetches a page, which
reads what is committed at that moment, and later accepts it, which moves its cursor to
`next_since`; in between, and at any other time, the transactions go on.

A transaction draws its `sync_seq` before it commits. `Session.pending` is the row a
session has drawn a value for and not committed yet. A page that ends above that value
takes the cursor past a row that nobody can see yet, and `sync` never looks below its
cursor again. `Subscription.Clear` says of a fetch that its page ends below all of these.
-/

namespace FingerprintHub
namespace Concurrent

/-! ### The row a session is about to commit -/

/-- The row a session has drawn a `sync_seq` for and not committed. Before the write it is what
the `UPDATE` or the `INSERT` will write if nothing changes, and after it what is drafted. -/
def Session.pending (db : Db) (s : Session) : Option Fingerprint :=
  match s.call, s.pc, s.drawn with
  | .contribute enc a, .insert (some id), some v => some (freshRow enc a id v)
  | .contribute enc a, .resurrect (some r), some v => some (resurrectRow enc a v r)
  | .contribute _ _, .finish (.contribute (some (.written row), true)), some _ => some row
  | .flag _ a, .finish (.flag (some result)), some v =>
    (db.row a.fingerprintId).map (hideRow result.flagCount v a.nowMs)
  | .softDelete _ nowMs, .delete (some r), some v => some (deleteRow v nowMs r)
  | .softDelete id nowMs, .finish (.softDelete true), some v =>
    (db.row id).map (deleteRow v nowMs)
  | _, _, _ => none

/-- A draft leaves what the feed shows as it is, or it is the row its session was about to commit:
only with a new `sync_seq` does anything change that a client is shown. -/
theorem Owns.feed_cases {db : Db} {s : Session} {i : ℤ} {r' : Fingerprint}
    (h : Owns s i (db.row i) (some (some r'))) :
    (∃ r, db.row i = some r ∧ r'.feedColumns = r.feedColumns) ∨ s.pending db = some r' := by
  generalize h_o : db.row i = o at h
  cases h with
  | insert _ => exact Or.inr rfl
  | resurrect _ => exact Or.inr rfl
  | hit _ _ _ h_row => exact Or.inl ⟨_, rfl, by rw [h_row]; rfl⟩
  -- a flag that hides and a deletion draw a value for the row they were made of
  | hide h_target _ _ h_row =>
    refine Or.inr ?_
    show (db.row _).map _ = _
    rw [h_target, h_o, h_row]
    rfl
  | keep _ _ _ _ h_row => exact Or.inl ⟨_, rfl, by rw [h_row]; rfl⟩
  | delete _ h_row =>
    refine Or.inr ?_
    show (db.row _).map _ = _
    rw [h_o, h_row]
    rfl
  | anonymize _ _ h_row => exact Or.inl ⟨_, rfl, by rw [h_row]; rfl⟩

/-- A row that is about to be committed was so before the statement, or has drawn the
next value in it. -/
theorem Exec.pending_cases {tx : ℕ} {db db' : Db} {s s' : Session} (h : Exec tx db s db' s')
    {q : Fingerprint} (h_q : s'.pending db' = some q) :
    s.pending db = some q ∨ q.syncSeq = db.syncSeq + 1 := by
  cases h with
  -- a value is drawn by one statement and written by the next
  | resurrectEval _ _ => exact Or.inr (by rw [← Option.some.inj h_q]; rfl)
  | resurrectWrite _ _ => exact Or.inl h_q
  | insertAllot => exact Or.inr (by rw [← Option.some.inj h_q]; rfl)
  | insertWrite _ _ => exact Or.inl h_q
  | hide _ _ =>
    obtain ⟨r, -, rfl⟩ := Option.map_eq_some_iff.mp h_q
    exact Or.inr rfl
  | deleteEval _ _ _ => exact Or.inr (by rw [← Option.some.inj h_q]; rfl)
  | @deleteWrite id nowMs r v h_free h_row _ =>
    -- the draft is written over the row it was made of
    refine Or.inl ?_
    obtain ⟨r', h_r', rfl⟩ := Option.map_eq_some_iff.mp h_q
    have h_same : ((db.rows.set id ((db.rows.cell id).write tx
        (some (deleteRow v nowMs r)))).cell id).committed = db.row id := by
      rw [Versioned.cell_set_self, Cell.committed_write]
    obtain rfl := Option.some.inj (h_r'.symm.trans (h_same.trans h_row))
    rfl
  | _ => exact absurd h_q (by simp [Session.pending])

/-- Only the row a session must hold matters for what it is about to commit. -/
theorem Session.pending_congr {db db' : Db} {s : Session}
    (h : ∀ i, s.target = some i → db'.row i = db.row i) : s.pending db' = s.pending db := by
  obtain ⟨call, pc, existing, drawn⟩ := s
  unfold Session.pending
  dsimp only
  split
  · rfl
  · rfl
  · rfl
  · rw [h _ rfl]
  · rfl
  · rw [h _ rfl]
  · rfl

section Step

variable {allowed : Op → Prop} {sys sys' : System}

/-- The value of a row about to be committed is the one its session has drawn. -/
theorem Locking.drawn_of_pending (h : Locking sys) {tx : ℕ} {s : Session} {q : Fingerprint}
    (h_run : sys.activity tx = .running s) (h_q : s.pending sys.db = some q) :
    s.drawn = some q.syncSeq := by
  obtain ⟨call, pc, existing, drawn⟩ := s
  unfold Session.pending at h_q
  dsimp only at h_q
  split at h_q
  · rw [← Option.some.inj h_q]; rfl
  · rw [← Option.some.inj h_q]; rfl
  · -- the row in the reply is the draft that the session holds
    obtain rfl := Option.some.inj h_q
    obtain ⟨l, -, -, h_owns⟩ := h.owns_of_held h_run (h.holds tx _ _ h_run rfl)
    generalize sys.db.row _ = o at h_owns
    generalize l.draft = d at h_owns
    cases h_owns with
    | insert h_row => rw [h_row]; rfl
    | resurrect h_row => rw [h_row]; rfl
  · obtain ⟨r, -, rfl⟩ := Option.map_eq_some_iff.mp h_q
    rfl
  · rw [← Option.some.inj h_q]; rfl
  · obtain ⟨r, -, rfl⟩ := Option.map_eq_some_iff.mp h_q
    rfl
  · exact absurd h_q (by simp)

/-- A row that is about to be committed was so before the step, or has drawn the next
value in it. -/
theorem Locking.pending_cases (h : Locking sys) (h_step : Step allowed sys sys') {tx : ℕ}
    {s' : Session} {q : Fingerprint} (h_run' : sys'.activity tx = .running s')
    (h_q : s'.pending sys'.db = some q) :
    (∃ s, sys.activity tx = .running s ∧ s.pending sys.db = some q) ∨
    q.syncSeq = sys.db.syncSeq + 1 := by
  have h_moves := h_step.moves tx
  rw [h_run'] at h_moves
  generalize h_a : sys.activity tx = act at h_moves
  -- another session has its row locked, so that it sees no difference
  cases h_moves with
  | other h_ne h_acts =>
    refine Or.inl ⟨s', rfl, ?_⟩
    rw [← h_q]
    refine (Session.pending_congr (fun i h_i => ?_)).symm
    exact congrArg Cell.committed (h.row_other h_acts h_ne (h.holds tx s' i h_a h_i))
  | @begin op _ _ =>
    have h_start : (Session.start op).pending sys'.db = none := by cases op <;> rfl
    exact absurd (h_start.symm.trans h_q) (by simp)
  | @exec s _ h_exec =>
    rcases h_exec.pending_cases h_q with h_old | h_new
    · exact Or.inl ⟨s, rfl, h_old⟩
    · exact Or.inr h_new

/-- A committed row shows the feed what it showed before, or somebody was about to commit it. So a
client that knows all committed rows and is below all that are pending misses nothing. -/
theorem Locking.feed_origin (h : Locking sys) (h_step : Step allowed sys sys') {i : ℤ}
    {r' : Fingerprint} (h_row' : sys'.db.row i = some r') :
    (∃ r, sys.db.row i = some r ∧ r'.feedColumns = r.feedColumns) ∨
    ∃ tx s, sys.activity tx = .running s ∧ s.pending sys.db = some r' := by
  rcases h.row_step h_step i with
    h_same | ⟨tx, op, reply, existing, drawn, d, h_run, -, -, -, h_owns, h_d⟩
  · exact Or.inl ⟨r', h_same.symm.trans h_row', rfl⟩
  · rw [← h_d, h_row'] at h_owns
    rcases h_owns.feed_cases with h_old | h_pending
    · exact Or.inl h_old
    · exact Or.inr ⟨tx, _, h_run, h_pending⟩

end Step

/-- The values of the committed rows are distinct. -/
theorem Sequenced.nodup_snapshot {sys : System} (h : Sequenced sys) (h_lock : Locking sys) :
    (sys.db.snapshot.fingerprints.rows.map Fingerprint.syncSeq).Nodup := by
  refine Store.nodup_syncSeq_of_inj (fun i i' r r' h_row h_row' h_eq => ?_)
  rw [h_lock.snapshot_row] at h_row h_row'
  exact h.committed_inj i i' r r' h_row h_row' h_eq

/-! ### The client -/

/-- The transactions, and a client of the sync feed: its cursor, the rows delivered to it, and the
page it has fetched and not accepted, with its `next_since`. Fetching and accepting are separate
steps, since the answer is on its way in between. -/
structure Subscription where
  sys : System
  cursor : ℕ
  delivered : List SyncRow
  page : Option (List SyncRow × ℕ)

namespace Subscription

/-- A client that starts at 0 on a database nobody is working on. -/
def start (s : Store) : Subscription := ⟨.quiet s, 0, [], none⟩

/-- How far the client will get without another fetch: the end of its page, or its cursor. -/
def reach (c : Subscription) : ℕ := (c.page.map Prod.snd).getD c.cursor

section

variable (allowed : Op → Prop) (me : ℤ) (filter : SyncFilter)

/-- The page of a fetch ends below every value that is drawn for a row of the feed and not
committed: of the committed rows of the feed, at least `limit` lie between the cursor and any that
is above such a value. It is a condition on the state before the fetch, and holds in particular
when nobody is writing. -/
def Clear (c : Subscription) (limit : ℕ) : Prop :=
  ∀ tx s q i r, c.sys.activity tx = .running s → s.pending c.sys.db = some q →
    Store.syncWhere me filter q = true → c.sys.db.row i = some r →
    Store.syncWhere me filter r = true → q.syncSeq < r.syncSeq →
    limit ≤ c.sys.db.snapshot.fingerprints.rows.countP (fun r' =>
      decide (r'.syncSeq < r.syncSeq) &&
        (decide (c.cursor < r'.syncSeq) && Store.syncWhere me filter r'))

/-- A step of a transaction, or one of the client: it fetches a page, accepts the one it has, or
loses it. A fetch meets a condition `ok`, which is `Clear` where the feed is right and `True`
where it is not. -/
inductive Step (ok : Subscription → ℕ → Prop) : Subscription → Subscription → Prop
  | store {c : Subscription} {sys : System} (h_step : Concurrent.Step allowed c.sys sys) :
      Step ok c { c with sys := sys }
  | fetch {c : Subscription} {limit : ℕ} (h_page : c.page = none) (h_ok : ok c limit) :
      Step ok c
        { c with
          page := some ((c.sys.db.snapshot.sync me c.cursor limit filter).1,
            (c.sys.db.snapshot.sync me c.cursor limit filter).2.1) }
  | accept {c : Subscription} {rows : List SyncRow} {next : ℕ}
      (h_page : c.page = some (rows, next)) :
      Step ok c ⟨c.sys, next, c.delivered ++ rows, none⟩
  | drop {c : Subscription} : Step ok c { c with page := none }

/-- What transactions and client can get to. -/
def Reaches (ok : Subscription → ℕ → Prop) (s : Store) (c : Subscription) : Prop :=
  Relation.ReflTransGen (Step allowed me filter ok) (start s) c

/-- Every committed row of the feed up to a value is among the rows, as it is committed now. -/
def Covers (sys : System) (v : ℕ) (rows : List SyncRow) : Prop :=
  ∀ i r, sys.db.row i = some r → Store.syncWhere me filter r = true → r.syncSeq ≤ v →
    r.syncColumns ∈ rows

/-- What holds of transactions and client while every fetch is clear. `ahead` is what the others
rest on: a transaction that commits changes nothing up to where the client is going. -/
structure Delivers (c : Subscription) : Prop where
  running : ∃ s, s.Reachable ∧ Concurrent.Reaches allowed s c.sys
  cursor_le : c.cursor ≤ c.reach
  reach_le : c.reach ≤ c.sys.db.syncSeq
  /-- What is about to be committed lies ahead of the client. -/
  ahead : ∀ tx s q, c.sys.activity tx = .running s → s.pending c.sys.db = some q →
    Store.syncWhere me filter q = true → c.reach < q.syncSeq
  covered : Covers me filter c.sys c.cursor c.delivered
  fetched : ∀ rows next, c.page = some (rows, next) →
    Covers me filter c.sys next (c.delivered ++ rows)

end

variable {allowed : Op → Prop} {me : ℤ} {filter : SyncFilter}

namespace Reaches

variable {ok : Subscription → ℕ → Prop} {s : Store} {c : Subscription}

/-- A run of the transactions before the client does anything. -/
theorem running {sys : System} (h : Concurrent.Reaches allowed s sys) :
    Reaches allowed me filter ok s ⟨sys, 0, [], none⟩ := by
  induction h with
  | refl => exact .refl
  | tail _ h_step ih => exact .tail ih (.store h_step)

/-- The run goes on with a step of a transaction. -/
theorem store (h : Reaches allowed me filter ok s c) {sys : System}
    (h_step : Concurrent.Step allowed c.sys sys) :
    Reaches allowed me filter ok s { c with sys := sys } := .tail h (.store h_step)

/-- The client fetches a page and accepts it at once. -/
theorem pull (h : Reaches allowed me filter ok s c) (limit : ℕ) (h_page : c.page = none)
    (h_ok : ok c limit) :
    Reaches allowed me filter ok s
      ⟨c.sys, (c.sys.db.snapshot.sync me c.cursor limit filter).2.1,
        c.delivered ++ (c.sys.db.snapshot.sync me c.cursor limit filter).1, none⟩ :=
  .tail (.tail h (.fetch h_page h_ok)) (.accept rfl)

end Reaches

/-- A client at 0 has nothing below its cursor: the sequence starts at one. -/
theorem Delivers.start {s : Store} (h_s : s.Reachable) :
    Delivers allowed me filter (start s) where
  running := ⟨s, h_s, .quiet⟩
  cursor_le := le_rfl
  reach_le := Nat.zero_le _
  ahead := fun _ _ _ h_run => Activity.noConfusion h_run
  covered := by
    intro i r h_row _ h_le
    -- values start at 1, so that nothing lies at or below the first cursor
    have h_committed : s.row i = some r := (System.row_quiet s i).symm.trans h_row
    exact absurd (h_s.wf.syncSeq_pos i r h_committed) (not_lt.mpr h_le)
  fetched := fun _ _ h => absurd h (by simp [Subscription.start])

/-- A step of a transaction commits nothing the client is past, so that what is covered stays
covered. -/
theorem Covers.store {sys sys' : System} (h_lock : Locking sys)
    (h_step : Concurrent.Step allowed sys sys') {v : ℕ} {rows : List SyncRow}
    (h_ahead : ∀ tx s q, sys.activity tx = .running s → s.pending sys.db = some q →
      Store.syncWhere me filter q = true → v < q.syncSeq)
    (h : Covers me filter sys v rows) : Covers me filter sys' v rows := by
  intro i r' h_row' h_where h_le
  rcases h_lock.feed_origin h_step h_row' with ⟨r, h_row, h_feed⟩ | ⟨tx, s, h_run, h_q⟩
  · have h_columns : r'.syncColumns = r.syncColumns := congrArg Prod.snd h_feed
    have h_seq : r'.syncSeq = r.syncSeq := congrArg SyncRow.syncSeq h_columns
    rw [h_columns]
    refine h i r h_row ?_ (h_seq ▸ h_le)
    rw [← Store.syncWhere_congr h_feed]
    exact h_where
  · exact absurd h_le (not_le.mpr (h_ahead tx s r' h_run h_q h_where))

/-- A step of a transaction. A value that is drawn in it is the next one, and beyond everybody. -/
theorem Delivers.store {c : Subscription} (h : Delivers allowed me filter c) {sys : System}
    (h_step : Concurrent.Step allowed c.sys sys) :
    Delivers allowed me filter { c with sys := sys } := by
  obtain ⟨s, h_s, h_run⟩ := h.running
  have h_lock := Locking.reaches h_s h_run
  refine ⟨⟨s, h_s, h_run.step h_step⟩, h.cursor_le, h.reach_le.trans h_step.syncSeq_le,
    fun tx s' q h_run' h_q h_where => ?_, ?_, fun rows next h_page => ?_⟩
  · show c.reach < q.syncSeq
    rcases h_lock.pending_cases h_step h_run' h_q with ⟨s₀, h_run₀, h_q₀⟩ | h_new
    · exact h.ahead tx s₀ q h_run₀ h_q₀ h_where
    -- a value that is drawn now is above all that were drawn
    · have h_le := h.reach_le
      omega
  -- what is committed lies ahead of the cursor, and of the page
  · refine Covers.store h_lock h_step (fun tx s' q h_run' h_q h_where => ?_) h.covered
    exact h.cursor_le.trans_lt (h.ahead tx s' q h_run' h_q h_where)
  · refine Covers.store h_lock h_step (fun tx s' q h_run' h_q h_where => ?_)
      (h.fetched rows next h_page)
    have h_reach : c.reach = next := by rw [reach, show c.page = _ from h_page]; rfl
    exact h_reach ▸ h.ahead tx s' q h_run' h_q h_where

/-- A page holds every committed row of the feed up to its `next_since`: the rows are in the order
of `sync_seq`, and a page that is cut ends at its last one. -/
theorem Covers.fetch {c : Subscription} (h_lock : Locking c.sys) (h_seq : Sequenced c.sys)
    (limit : ℕ) (h : Covers me filter c.sys c.cursor c.delivered) :
    Covers me filter c.sys (c.sys.db.snapshot.sync me c.cursor limit filter).2.1
      (c.delivered ++ (c.sys.db.snapshot.sync me c.cursor limit filter).1) := by
  intro i r h_row h_where h_le
  by_cases h_old : r.syncSeq ≤ c.cursor
  · exact List.mem_append_left _ (h i r h_row h_where h_old)
  · refine List.mem_append_right _ (Store.sync_complete (h_seq.nodup_snapshot h_lock)
      ((h_lock.snapshot_row i).trans h_row) h_where (not_le.mp h_old) h_le)

/-- A clear page ends below every row of the feed that is about to be committed: its last row
would otherwise be above one of the `limit` rows that come before. -/
theorem Clear.next_lt {c : Subscription} {limit : ℕ} (h_clear : Clear me filter c limit)
    (h_lock : Locking c.sys) (h_seq : Sequenced c.sys) {tx : ℕ} {s : Session} {q : Fingerprint}
    (h_run : c.sys.activity tx = .running s) (h_q : s.pending c.sys.db = some q)
    (h_where : Store.syncWhere me filter q = true) (h_ahead : c.cursor < q.syncSeq) :
    (c.sys.db.snapshot.sync me c.cursor limit filter).2.1 < q.syncSeq := by
  rcases c.sys.db.snapshot.sync_next_cases me c.cursor limit filter with
    h_same | ⟨i, r, h_row, h_r, h_next⟩
  · rw [h_same]
    exact h_ahead
  · by_contra h_le
    have h_committed := (h_lock.snapshot_row i).symm.trans h_row
    -- nobody else has the value, so the last row of the page lies above it
    have h_ne := h_seq.drawn_ne tx s q.syncSeq i r h_run (h_lock.drawn_of_pending h_run h_q)
      h_committed
    have h_lt : q.syncSeq < r.syncSeq := by omega
    have h_many := h_clear tx s q i r h_run h_q h_where h_committed h_r h_lt
    have h_few := Store.sync_short (h_seq.nodup_snapshot h_lock) h_row h_r (h_ahead.trans h_lt)
      h_next.le
    omega

/-- A fetch that is clear. -/
theorem Delivers.fetch {c : Subscription} (h : Delivers allowed me filter c) {limit : ℕ}
    (h_page : c.page = none) (h_clear : Clear me filter c limit) :
    Delivers allowed me filter
      { c with
        page := some ((c.sys.db.snapshot.sync me c.cursor limit filter).1,
          (c.sys.db.snapshot.sync me c.cursor limit filter).2.1) } := by
  obtain ⟨s, h_s, h_run⟩ := h.running
  have h_lock := Locking.reaches h_s h_run
  have h_seq := Sequenced.reaches h_s h_run
  have h_reach : c.reach = c.cursor := by rw [reach, h_page]; rfl
  have h_cursor : c.cursor ≤ c.sys.db.syncSeq := h_reach ▸ h.reach_le
  refine ⟨⟨s, h_s, h_run⟩, ?_, ?_, fun tx s' q h_run' h_q h_where => ?_, h.covered,
    fun rows next h_some => ?_⟩
  -- `next_since` is at least the cursor, and the value of a committed row at most
  · show c.cursor ≤ (c.sys.db.snapshot.sync me c.cursor limit filter).2.1
    rw [Store.sync_eq_pull]
    exact Keyset.since_le_next
  · show (c.sys.db.snapshot.sync me c.cursor limit filter).2.1 ≤ c.sys.db.syncSeq
    rcases c.sys.db.snapshot.sync_next_cases me c.cursor limit filter with
      h_same | ⟨i, r, h_row, -, h_next⟩
    · rw [h_same]
      exact h_cursor
    · rw [← h_next]
      exact h_seq.committed_le i r ((h_lock.snapshot_row i).symm.trans h_row)
  · have h_ahead := h.ahead tx s' q h_run' h_q h_where
    rw [h_reach] at h_ahead
    exact h_clear.next_lt h_lock h_seq h_run' h_q h_where h_ahead
  · obtain ⟨rfl, rfl⟩ := Prod.mk.inj (Option.some.inj h_some)
    exact h.covered.fetch h_lock h_seq limit

/-- The cursor goes to where the client was going. -/
theorem Delivers.accept {c : Subscription} (h : Delivers allowed me filter c)
    {rows : List SyncRow} {next : ℕ} (h_page : c.page = some (rows, next)) :
    Delivers allowed me filter ⟨c.sys, next, c.delivered ++ rows, none⟩ := by
  have h_reach : c.reach = next := by rw [reach, h_page]; rfl
  refine ⟨h.running, le_rfl, h_reach ▸ h.reach_le, fun tx s q h_run h_q h_where => ?_,
    h.fetched rows next h_page, fun _ _ h_some => absurd h_some (by simp)⟩
  show next < q.syncSeq
  exact h_reach ▸ h.ahead tx s q h_run h_q h_where

/-- A page that is lost is fetched again from the same cursor. -/
theorem Delivers.drop {c : Subscription} (h : Delivers allowed me filter c) :
    Delivers allowed me filter { c with page := none } where
  running := h.running
  cursor_le := le_rfl
  reach_le := h.cursor_le.trans h.reach_le
  ahead := fun tx s q h_run h_q h_where => h.cursor_le.trans_lt (h.ahead tx s q h_run h_q h_where)
  covered := h.covered
  fetched := fun _ _ h_some => absurd h_some (by simp)

/-- **Every step of a run whose fetches are clear delivers.** By induction along the run, with a
lemma for each kind of step. -/
theorem Delivers.reaches {s : Store} (h_s : s.Reachable) {c : Subscription}
    (h : Reaches allowed me filter (Clear me filter) s c) : Delivers allowed me filter c := by
  induction h with
  | refl => exact .start h_s
  | tail _ h_step ih =>
    cases h_step with
    | store h_store => exact ih.store h_store
    | fetch h_page h_clear => exact ih.fetch h_page h_clear
    | accept h_page => exact ih.accept h_page
    | drop => exact ih.drop

end Subscription

/-! ### Changes below a cursor -/

/-- **No committed change is lost below a cursor**, in any run of any calls in which every fetched
page ends below the values that are drawn for the feed and not committed.

The row is any that is committed in the state reached, with its columns as they are then: the
client has been given this very version, and not an older one. -/
theorem delivered_below_cursor (allowed : Op → Prop) (me : ℤ) (filter : SyncFilter) {s : Store}
    (h_s : s.Reachable) {c : Subscription}
    (h : Subscription.Reaches allowed me filter (Subscription.Clear me filter) s c) {i : ℤ}
    {r : Fingerprint} (h_row : c.sys.db.row i = some r) (h_foreign : r.consumerId ≠ me)
    (h_filter : filter.accepts r.triple = true) (h_le : r.syncSeq ≤ c.cursor) :
    r.syncColumns ∈ c.delivered := by
  refine (Subscription.Delivers.reaches h_s h).covered i r h_row ?_ h_le
  rw [Store.syncWhere, h_filter, Bool.and_true, decide_eq_true_eq]
  exact h_foreign

/-- A pull while a deletion has drawn the value above the row it gets. The fetch is clear, since
its only row is below. -/
theorem delivered_below_cursor_pull : ∃ (c : Subscription) (r : Fingerprint),
    c.sys.db.row 1 = some r ∧ r.syncSeq ≤ c.cursor ∧ r.syncColumns ∈ c.delivered := by
  have h_s : (Store.empty.run [sampleCall]).Reachable := ⟨[sampleCall], rfl⟩
  have h : Reaches (fun _ => True) (Store.empty.run [sampleCall])
      ⟨.ofStore (Store.empty.run [sampleCall]), fun _ => .idle⟩ := .quiet
  have h := h.begin 1 (.softDelete 1 20) rfl trivial
  have h := h.exec 1 rfl (.deleteEval rfl (by decide) nofun)
  have h_seq := Sequenced.reaches h_s h
  have h : Subscription.Reaches (fun _ => True) 9 .all (Subscription.Clear 9 .all) _ _ :=
    .running h
  have h := h.pull 10 rfl (fun tx s q i r h_run h_q _ h_row _ h_lt => by
    -- the value drawn is the last one, and no row is above it
    have h_le : r.syncSeq ≤ 2 := h_seq.committed_le i r h_row
    by_cases h_tx : tx = 1
    · subst h_tx
      obtain rfl := Activity.running.inj h_run
      have h_two : q.syncSeq = 2 := by rw [← Option.some.inj h_q]; rfl
      omega
    · change Function.update _ 1 _ tx = _ at h_run
      rw [Function.update_of_ne h_tx] at h_run
      change Function.update _ 1 _ tx = _ at h_run
      rw [Function.update_of_ne h_tx] at h_run
      exact Activity.noConfusion h_run)
  exact ⟨_, _, rfl, by decide,
    @delivered_below_cursor _ 9 .all _ h_s _ h 1 _ rfl (by decide) rfl (by decide)⟩

/-- The calls that draw a `sync_seq`. -/
def Renumbers : Op → Prop
  | .contribute _ _ | .flag _ _ | .softDelete _ _ => True
  | _ => False

/-- Two fingerprints of consumer 1. -/
def samplePair : Store :=
  Store.empty.run [sampleCall, .contribute (fun _ t => t) (sampleContribution "00fe")]

/-- **A committed change is lost below a cursor.** Transactions 1 and 2 delete the two
rows and draw 3 and 4. Transaction 2 commits first, and consumer 9 pulls: it gets the first
row as it was and the second tombstone, and its cursor goes to 4. Then 1 commits a tombstone
with `sync_seq` 3. -/
theorem lost_below_cursor : ∃ c r,
    Subscription.Reaches Renumbers 9 .all (fun _ _ => True) samplePair c ∧
    c.sys.db.row 1 = some r ∧ r.consumerId ≠ 9 ∧ r.status = .deleted ∧ r.syncSeq ≤ c.cursor ∧
    ∀ x ∈ c.delivered, x.id = r.id → x.syncSeq ≠ r.syncSeq := by
  have h : Reaches Renumbers samplePair ⟨.ofStore samplePair, fun _ => .idle⟩ := .quiet
  have h := h.begin 1 (.softDelete 1 20) rfl trivial
  have h := h.begin 2 (.softDelete 2 20) rfl trivial
  -- the values are drawn in one order
  have h := h.exec 1 rfl (.deleteEval rfl (by decide) nofun)
  have h := h.exec 2 rfl (.deleteEval rfl (by decide) nofun)
  -- and committed in the other, with a pull in between
  have h := h.exec 2 rfl (.deleteWrite rfl rfl (by decide))
  have h := h.commit 2 rfl
  have h : Subscription.Reaches Renumbers 9 .all (fun _ _ => True) samplePair _ := .running h
  have h := h.pull 10 rfl trivial
  have h := h.store (@Step.exec _ _ 1 _ _ _ rfl (.deleteWrite rfl rfl (by decide)))
  have h := h.store (@Step.commit _ _ 1 _ _ _ _ rfl)
  exact ⟨_, _, h, rfl, by decide, rfl, by decide, by decide⟩

end Concurrent
end FingerprintHub
