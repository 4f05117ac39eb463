import Mathlib.Data.List.Chain
import Mathlib.Data.Set.Basic
import FingerprintHub.Sync.Client

/-!
# Convergence of the mirror

`Feed.mirror_eq` leaves one question open: may the mirror hold a row the store no
longer has? Then no tombstone will ever remove it. There are two answers.

Without retention no row disappears, and the mirror of a filtered client is exact
whenever its filter keeps what it holds (`filtered_mirror`). A resurrection under
another triple can break that, and then the mirror is wrong
(`filtered_mirror_stale`).

With retention it depends on time. A client is *caught up* at the moment a page
reads the store that announces no more and that it goes on to apply in full.
`Dated` says that whatever the mirror held then and the store has tombstoned
since, it has tombstoned since then, so a purge that waits for at least the time
until the client is caught up again comes too late to hide it (`mirror_converges`).
What counts is the moment of the read: neither the moment at which the client
persists its watermark, nor whether it does, will do in its place
(`mirror_diverges`).
-/

namespace FingerprintHub
namespace Sync

variable {me : ℤ} {filter : SyncFilter}

/-- What the mirror should hold is active. -/
theorem active_of_peers {s : Store} {id : ℤ} {x : SyncRow} (h : peers me filter s id = some x) :
    ∃ r, s.row id = some r ∧ r.status = .active := by
  unfold peers at h
  obtain ⟨r, h_row, h_x⟩ := Option.bind_eq_some_iff.mp h
  refine ⟨r, h_row, ?_⟩
  by_contra h_status
  have h_view : view r.syncColumns = none := if_neg h_status
  rw [h_view] at h_x
  exact absurd h_x (by simp)

/-! ### Without retention -/

/-- No step of the run is retention. -/
def NoRetention (steps : List Step) : Prop :=
  ∀ p nowMs dryRun, Step.call (.applyRetention p nowMs dryRun) ∉ steps

/-- Nothing the mirror or the page knows has disappeared. -/
structure Rooted (c : Config) : Prop where
  store : ∀ id x, c.mirror id = some x → c.store.row id ≠ none
  page : ∀ p, c.page = some p → (∀ id x, c.mirror id = some x → p.store.row id ≠ none) ∧
    ∀ id, p.store.row id ≠ none → c.store.row id ≠ none

/-- A call that is not retention removes no row. -/
theorem row_ne_none_of_call {s : Store} (h_wf : s.Wf) {op : Op}
    (h_op : ∀ p nowMs dryRun, op ≠ .applyRetention p nowMs dryRun) {id : ℤ}
    (h_row : s.row id ≠ none) : (op.apply s).row id ≠ none := by
  intro h_none
  obtain ⟨r, h_r⟩ := Option.ne_none_iff_exists'.mp h_row
  obtain ⟨p, nowMs, h_eq, -⟩ := Op.purged_of_row_none h_wf.fresh h_r h_none
  exact h_op p nowMs false h_eq

/-- A step that is not retention keeps it: rows stay, and what is applied was read. -/
theorem Rooted.step {c : Config} (h : Rooted c) (h_feed : Feed me filter c) (st : Step)
    (h_st : ∀ p nowMs dryRun, st ≠ .call (.applyRetention p nowMs dryRun)) :
    Rooted (step me filter c st) := by
  cases st with
  | call op =>
    have h_op : ∀ p nowMs dryRun, op ≠ .applyRetention p nowMs dryRun :=
      fun p nowMs dryRun h_eq => h_st p nowMs dryRun (congrArg Step.call h_eq)
    -- rows stay in the current store, and the store that was read is what it was
    refine ⟨fun id x h_x => row_ne_none_of_call h_feed.wf h_op (h.store id x h_x),
      fun p h_p => ⟨(h.page p h_p).1, fun id h_id => ?_⟩⟩
    exact row_ne_none_of_call h_feed.wf h_op ((h.page p h_p).2 id h_id)
  | pull now limit =>
    show Rooted (c.pull me filter now limit)
    unfold Config.pull
    split
    · exact h
    · refine ⟨h.store, fun p h_p => ?_⟩
      obtain rfl := Option.some.inj h_p
      exact ⟨h.store, fun id h_id => h_id⟩
  | apply now =>
    show Rooted c.apply
    unfold Config.apply
    split
    · next p h_p =>
      split
      · next x rest h_rest =>
        have h_x : x ∈ p.rest := h_rest ▸ List.mem_cons_self
        obtain ⟨r, h_row, -⟩ := (h_feed.page p h_p).mem_rest h_x
        have h_read : p.store.row x.id ≠ none := Option.ne_none_iff_exists'.mpr ⟨r, h_row⟩
        -- an id of the mirror is an old one, or that of the row applied
        have h_ids : ∀ id y, Function.update c.mirror x.id (view x) id = some y →
            p.store.row id ≠ none := by
          intro id y h_y
          by_cases h_id : id = x.id
          · rw [h_id]
            exact h_read
          · rw [Function.update_of_ne h_id] at h_y
            exact (h.page p h_p).1 id y h_y
        refine ⟨fun id y h_y => (h.page p h_p).2 id (h_ids id y h_y), fun p' h_p' => ?_⟩
        obtain rfl := Option.some.inj h_p'
        exact ⟨h_ids, (h.page p h_p).2⟩
      · exact h
    · exact h
  | persist now =>
    show Rooted c.persist
    unfold Config.persist
    split
    · split
      · exact ⟨h.store, fun p h_p => absurd h_p (by simp)⟩
      · exact h
    · exact h
  | crash now => exact ⟨h.store, fun p h_p => absurd h_p (by simp [Sync.step])⟩

/-- So does a run without retention. -/
theorem Rooted.run {c : Config} (h : Rooted c) (h_feed : Feed me filter c) (steps : List Step)
    (h_keeps : RunKeeps me filter c steps) (h_no : NoRetention steps) :
    Rooted (run me filter c steps) := by
  induction steps generalizing c with
  | nil => exact h
  | cons st steps ih =>
    have h_st : ∀ p nowMs dryRun, st ≠ .call (.applyRetention p nowMs dryRun) :=
      fun p nowMs dryRun h_eq => h_no p nowMs dryRun (h_eq ▸ List.mem_cons_self)
    refine ih (h.step h_feed st h_st) (h_feed.step st h_keeps.1) h_keeps.2 ?_
    exact fun p nowMs dryRun h_mem => h_no p nowMs dryRun (List.mem_cons_of_mem st h_mem)

/-- **Filtered convergence.** In a run without retention, in which no row the client holds is
resurrected out of its filter, every page that was applied in full and announced no more leaves
the mirror exactly what the store it was read from prescribes.

Calls of any consumer may come between any two steps, the client may crash at any of them, and its
limits may vary. `filtered_mirror_stale` shows what the condition excludes. -/
theorem filtered_mirror (me : ℤ) (filter : SyncFilter) (ops : List Op) (steps : List Step)
    (h_no : NoRetention steps)
    (h_keeps : RunKeeps me filter (Config.start (Store.empty.run ops)) steps) :
    ∀ p, (run me filter (Config.start (Store.empty.run ops)) steps).page = some p → p.Complete →
      ∀ id, (run me filter (Config.start (Store.empty.run ops)) steps).mirror id
        = peers me filter p.store id := by
  intro p h_p h_complete id
  have h_start := Feed.start me filter (Store.Wf.empty.run ops)
  have h_feed := h_start.run steps h_keeps
  -- nothing has disappeared yet
  have h_rooted : Rooted (Config.start (Store.empty.run ops)) :=
    ⟨fun _ _ h => absurd h (by simp [Config.start]), fun _ h => absurd h (by simp [Config.start])⟩
  have h_rooted' := h_rooted.run h_start steps h_keeps h_no
  -- an id without a row is not in the mirror, and for the others the mirror is right
  by_cases h_row : p.store.row id = none
  · have h_peers : peers me filter p.store id = none := by
      unfold peers
      rw [h_row]
      rfl
    rw [h_peers]
    by_contra h_held
    obtain ⟨x, h_x⟩ := Option.ne_none_iff_exists'.mp h_held
    exact (h_rooted'.page p h_p).1 id x h_x h_row
  · exact h_feed.mirror_eq h_p h_complete h_row

/-- A triple other than the one of `sampleContribution`. -/
def otherTriple : Triple := ⟨"phash", "1", "1"⟩

/-- The filter for the triple of `sampleContribution`. -/
def sampleFilter : SyncFilter := ⟨some "pdq", some "1", some "1"⟩

/-- Consumer 2 mirrors a row of its triple; the row is deleted and contributed again
under another triple, and consumer 2 pulls. -/
def staleRun : List Step :=
  [.call (.contribute (fun _ t => t) (sampleContribution "00ff")), .pull 20 5, .apply 20,
    .persist 20, .call (.softDelete 1 30),
    .call (.contribute (fun _ t => t) { sampleContribution "00ff" with triple := otherTriple }),
    .pull 50 5]

/-- The page of the last pull is empty and announces no more, and the mirror still
holds the row. -/
theorem filtered_mirror_stale :
    NoRetention staleRun ∧
    ∃ p, (run 2 sampleFilter (Config.start .empty) staleRun).page = some p ∧ p.Complete ∧
      ((run 2 sampleFilter (Config.start .empty) staleRun).mirror 1).isSome ∧
      peers 2 sampleFilter p.store 1 = none := by
  refine ⟨by simp [NoRetention, staleRun], _, rfl, by decide, by decide, by decide⟩

/-- The same run, with the second contribution under the first triple. -/
def revivedRun : List Step :=
  [.call (.contribute (fun _ t => t) (sampleContribution "00ff")), .pull 20 5, .apply 20,
    .persist 20, .call (.softDelete 1 30),
    .call (.contribute (fun _ t => t) (sampleContribution "00ff")), .pull 50 5, .apply 50]

/-- The row comes back under its id, and the mirror follows. -/
theorem filtered_mirror_revivedRun :
    ∃ p, (run 2 sampleFilter (Config.start .empty) revivedRun).page = some p ∧ p.Complete ∧
      (peers 2 sampleFilter p.store 1).isSome ∧
      ∀ id, (run 2 sampleFilter (Config.start .empty) revivedRun).mirror id
        = peers 2 sampleFilter p.store id := by
  have h_keeps : RunKeeps 2 sampleFilter (Config.start (Store.empty.run [])) revivedRun :=
    ⟨fun _ _ _ _ _ h => absurd h (by decide), trivial, trivial, trivial, trivial,
      fun _ _ _ _ _ h => absurd h (by decide), trivial, trivial, trivial⟩
  refine ⟨_, rfl, by decide, by decide, ?_⟩
  exact filtered_mirror 2 sampleFilter [] revivedRun (by simp [NoRetention, revivedRun]) h_keeps _
    rfl (by decide)

/-! ### With retention -/

/-- The moment of the read, while a page is applied in full that announced no
more. -/
def Config.completedAt (c : Config) : Option ℤ :=
  match c.page with
  | some p => if p.Complete then some p.readAt else none
  | none => none

section

variable (me : ℤ) (filter : SyncFilter)

/-- The step completes a page: the client is caught up as of the moment at which the
page read the store. -/
def caughtUp (c : Config) (st : Step) : Option ℤ :=
  if c.completedAt.isSome then none else (step me filter c st).completedAt

/-- The step persists the watermark of a completed page. -/
def persisted (c : Config) : Step → Option ℤ
  | .persist now => if c.completedAt.isSome then some now else none
  | _ => none

/-- The moments a run marks, in order. -/
def moments (mark : Config → Step → Option ℤ) : Config → List Step → List ℤ
  | _, [] => []
  | c, st :: steps => (mark c st).toList ++ moments mark (step me filter c st) steps

end

/-- The tombstone periods of all calls of retention in a run. -/
def tombstonePeriods (steps : List Step) : Set ℤ :=
  {R | ∃ p nowMs dryRun, Step.call (.applyRetention p nowMs dryRun) ∈ steps ∧
    p.tombstoneRetentionMs = R}

/-- Every period is at least as long as the span between any two moments in
succession. -/
def Outlasts (periods : Set ℤ) (times : List ℤ) : Prop :=
  ∀ R ∈ periods, times.IsChain (fun t t' => t' - t ≤ R)

/-- A row that was live at a moment: if it is a tombstone now, it became one since, and
if it has been purged, then longer after that moment than some period. -/
structure LiveSince (periods : Set ℤ) (since clock : ℤ) (s : Store) (id : ℤ) : Prop where
  tombstone : ∀ r, s.row id = some r → r.status = .deleted → since ≤ r.updatedAtMs
  purged : s.row id = none → ∃ R ∈ periods, since + R < clock

variable {periods : Set ℤ} {since since' clock clock' : ℤ}

/-- A live row was live at any moment: nothing has become of it. -/
theorem LiveSince.of_live {s : Store} {id : ℤ} {r : Fingerprint} (h_row : s.row id = some r)
    (h_live : r.Live) : LiveSince periods since clock s id where
  tombstone := fun r' h_row' h_deleted => by
    obtain rfl : r = r' := Option.some.inj (h_row.symm.trans h_row')
    exact absurd h_deleted h_live
  purged := fun h_none => absurd (h_row.symm.trans h_none) (by simp)

/-- The moment may be put earlier, and the clock later. -/
theorem LiveSince.mono {s : Store} {id : ℤ} (h : LiveSince periods since clock s id)
    (h_since : since' ≤ since) (h_clock : clock ≤ clock') :
    LiveSince periods since' clock' s id where
  tombstone := fun r h_row h_deleted => h_since.trans (h.tombstone r h_row h_deleted)
  purged := fun h_none => by
    obtain ⟨R, h_R, h_lt⟩ := h.purged h_none
    exact ⟨R, h_R, by omega⟩

/-- **Tombstones are dated**: a call at or after the moment keeps `LiveSince`. A
deletion writes its own time, and a purge is later than that by its period. -/
theorem LiveSince.call {s : Store} {id : ℤ} (h : LiveSince periods since clock s id)
    (h_wf : s.Wf) {op : Op} (h_since : since ≤ op.nowMs) (h_clock : clock ≤ op.nowMs)
    (h_period : ∀ p nowMs dryRun, op = .applyRetention p nowMs dryRun →
      p.tombstoneRetentionMs ∈ periods) :
    LiveSince periods since op.nowMs (op.apply s) id where
  tombstone := by
    intro r' h_row' h_deleted
    have h_step := Op.rowStep h_wf.fresh op id
    rw [h_row'] at h_step
    generalize h_o : s.row id = o at h_step
    -- a tombstone is an old one, or is made by this call
    cases h_step with
    | keep => exact h.tombstone r' h_o h_deleted
    | insert _ _ => exact absurd h_deleted (by simp [freshRow])
    | resurrect _ _ _ => exact absurd h_deleted (by simp [resurrectRow])
    | hit h_live => exact absurd h_deleted h_live
    | hide _ _ _ => exact absurd h_deleted (by simp [hideRow])
    | count h_live _ => exact absurd h_deleted h_live
    | delete _ _ => exact h_since
    | anonymize _ _ =>
      have h_old := h.tombstone _ h_o
      exact h_old h_deleted
  purged := by
    intro h_none
    -- the row is gone already, or is purged by this call
    cases h_row : s.row id with
    | none =>
      obtain ⟨R, h_R, h_lt⟩ := h.purged h_row
      exact ⟨R, h_R, by omega⟩
    | some r =>
      obtain ⟨p, nowMs, rfl, -, h_purges⟩ := Op.purged_of_row_none h_wf.fresh h_row h_none
      unfold RetentionPolicy.purges at h_purges
      simp only [Bool.and_eq_true, decide_eq_true_eq] at h_purges
      have h_updated := h.tombstone r h_row h_purges.1
      refine ⟨p.tombstoneRetentionMs, h_period p nowMs false rfl, ?_⟩
      change since + p.tombstoneRetentionMs < nowMs
      omega

/-- What the dates say while a page is in flight. -/
structure PageDated (periods : Set ℤ) (since clock : ℤ) (c : Config) (p : Page) : Prop where
  since_le : since ≤ p.readAt
  le_clock : p.readAt ≤ clock
  /-- What was live when the page was read was live then. -/
  live : ∀ id r, p.store.row id = some r → r.Live → LiveSince periods p.readAt clock c.store id
  /-- If the mirror held a purged row when the page was read, a purge had come early. -/
  ghost : ∀ id x, c.mirror id = some x → p.store.row id = none →
    ∃ R ∈ periods, since + R < p.readAt

/-- The mirror holds only rows that were live when the client was last caught up: the invariant of
a run in which the client is caught up in time. -/
structure Dated (periods : Set ℤ) (since clock : ℤ) (c : Config) : Prop where
  since_le : since ≤ clock
  mirror : ∀ id x, c.mirror id = some x → LiveSince periods since clock c.store id
  page : ∀ p, c.page = some p → PageDated periods since clock c p

/-- An empty mirror is dated from the start. -/
theorem Dated.start {s : Store} {start : ℤ} : Dated periods start start (Config.start s) where
  since_le := le_refl _
  mirror := fun _ _ h => absurd h (by simp [Config.start])
  page := fun _ h => absurd h (by simp [Config.start])

/-- Time may pass. -/
theorem Dated.mono {c : Config} (h : Dated periods since clock c) (h_clock : clock ≤ clock') :
    Dated periods since clock' c where
  since_le := h.since_le.trans h_clock
  mirror := fun id x h_x => (h.mirror id x h_x).mono le_rfl h_clock
  page := fun p h_p =>
    { since_le := (h.page p h_p).since_le
      le_clock := (h.page p h_p).le_clock.trans h_clock
      live := fun id r h_row h_live => ((h.page p h_p).live id r h_row h_live).mono le_rfl h_clock
      ghost := (h.page p h_p).ghost }

/-- Before it is asked whether the client is caught up, a step keeps the dates. -/
theorem Dated.step {c : Config} (h : Dated periods since clock c) (h_feed : Feed me filter c)
    (st : Step) (h_time : clock ≤ st.time)
    (h_period : ∀ p nowMs dryRun, st = .call (.applyRetention p nowMs dryRun) →
      p.tombstoneRetentionMs ∈ periods) :
    Dated periods since st.time (step me filter c st) := by
  have h_mono : Dated periods since st.time c := h.mono h_time
  cases st with
  | call op =>
    have h_op : ∀ p nowMs dryRun, op = .applyRetention p nowMs dryRun →
        p.tombstoneRetentionMs ∈ periods :=
      fun p nowMs dryRun h_eq => h_period p nowMs dryRun (congrArg Step.call h_eq)
    have h_since : since ≤ op.nowMs := h.since_le.trans h_time
    refine ⟨h_since, fun id x h_x => (h.mirror id x h_x).call h_feed.wf h_since h_time h_op,
      fun p h_p => ?_⟩
    -- for the page the moment is that of its own read
    have h_page := h.page p h_p
    refine ⟨h_page.since_le, h_page.le_clock.trans h_time, fun id r h_row h_live => ?_,
      h_page.ghost⟩
    exact (h_page.live id r h_row h_live).call h_feed.wf (h_page.le_clock.trans h_time) h_time h_op
  | pull now limit =>
    show Dated periods since now (c.pull me filter now limit)
    unfold Config.pull
    split
    · exact h_mono
    · refine ⟨h_mono.since_le, h_mono.mirror, fun p h_p => ?_⟩
      obtain rfl := Option.some.inj h_p
      -- what was live when the page is read is live now
      refine ⟨h.since_le.trans h_time, le_rfl, fun id r h_row h_live => .of_live h_row h_live,
        fun id x h_x h_none => ?_⟩
      obtain ⟨R, h_R, h_lt⟩ := (h.mirror id x h_x).purged h_none
      exact ⟨R, h_R, lt_of_lt_of_le h_lt h_time⟩
  | apply now =>
    show Dated periods since now c.apply
    unfold Config.apply
    split
    · next p h_p =>
      split
      · next x rest h_rest =>
        have h_page := h_mono.page p h_p
        have h_x : x ∈ p.rest := h_rest ▸ List.mem_cons_self
        obtain ⟨r, h_row, h_cols, -⟩ := (h_feed.page p h_p).mem_rest h_x
        -- an id of the mirror is an old one, or that of an active row of the page
        have h_ids : ∀ id y, Function.update c.mirror x.id (view x) id = some y →
            (id = x.id ∧ r.status = .active) ∨ c.mirror id = some y := by
          intro id y h_y
          by_cases h_id : id = x.id
          · rw [h_id, Function.update_self, view] at h_y
            split at h_y
            · next h_active =>
              rw [← h_cols] at h_active
              exact Or.inl ⟨h_id, h_active⟩
            · exact absurd h_y (by simp)
          · rw [Function.update_of_ne h_id] at h_y
            exact Or.inr h_y
        refine ⟨h_mono.since_le, fun id y h_y => ?_, fun p' h_p' => ?_⟩
        · -- a row of the page was active when it was read
          rcases h_ids id y h_y with ⟨rfl, h_active⟩ | h_old
          · have h_live : r.Live := by
              rw [Fingerprint.Live, h_active]
              decide
            exact (h_page.live x.id r h_row h_live).mono h_page.since_le le_rfl
          · exact h_mono.mirror id y h_old
        · obtain rfl := Option.some.inj h_p'
          refine ⟨h_page.since_le, h_page.le_clock, h_page.live, fun id y h_y h_none => ?_⟩
          rcases h_ids id y h_y with ⟨rfl, -⟩ | h_old
          · exact absurd (h_row.symm.trans h_none) (by simp)
          · exact h_page.ghost id y h_old h_none
      · exact h_mono
    · exact h_mono
  | persist now =>
    show Dated periods since now c.persist
    unfold Config.persist
    split
    · split
      · exact ⟨h_mono.since_le, h_mono.mirror, fun p h_p => absurd h_p (by simp)⟩
      · exact h_mono
    · exact h_mono
  | crash now =>
    exact ⟨h_mono.since_le, h_mono.mirror, fun p h_p => absurd h_p (by simp [Sync.step])⟩

/-- A completed page has no ghosts: the mirror holds no row the store it was read
from did not have. -/
def Exact (c : Config) : Prop :=
  ∀ p, c.page = some p → p.Complete → ∀ id x, c.mirror id = some x → p.store.row id ≠ none

/-- When a page completes within every period, nothing was purged unseen, and the
dates start again from the moment of its read. -/
theorem Dated.settle {c : Config} (h : Dated periods since clock c) (h_feed : Feed me filter c)
    {p : Page} (h_p : c.page = some p) (h_complete : p.Complete)
    (h_span : ∀ R ∈ periods, p.readAt - since ≤ R) :
    Dated periods p.readAt clock c ∧ Exact c := by
  have h_page := h.page p h_p
  have h_rows : ∀ id x, c.mirror id = some x → p.store.row id ≠ none := by
    intro id x h_x h_none
    obtain ⟨R, h_R, h_lt⟩ := h_page.ghost id x h_x h_none
    have := h_span R h_R
    omega
  refine ⟨⟨h_page.le_clock, fun id x h_x => ?_, fun p' h_p' => ?_⟩, fun p' h_p' _ => ?_⟩
  · -- the mirror is now what was active when the page was read
    have h_eq := h_feed.mirror_eq h_p h_complete (h_rows id x h_x)
    obtain ⟨r, h_row, h_active⟩ := active_of_peers (h_eq.symm.trans h_x)
    refine h_page.live id r h_row ?_
    rw [Fingerprint.Live, h_active]
    decide
  · obtain rfl : p = p' := Option.some.inj (h_p.symm.trans h_p')
    exact ⟨le_rfl, h_page.le_clock, h_page.live,
      fun id x h_x h_none => absurd h_none (h_rows id x h_x)⟩
  · obtain rfl : p = p' := Option.some.inj (h_p.symm.trans h_p')
    exact h_rows

/-- A page is completed at the moment it was read. -/
theorem completedAt_eq_some {c : Config} {t : ℤ} :
    c.completedAt = some t ↔ ∃ p, c.page = some p ∧ p.Complete ∧ p.readAt = t := by
  unfold Config.completedAt
  cases h_p : c.page with
  | none => simp
  | some p =>
    by_cases h_complete : p.Complete
    · simp [h_complete]
    · simp [h_complete]

/-- A step from a completed page leaves page and mirror alone, or drops the page. -/
theorem step_of_complete (me : ℤ) (filter : SyncFilter) {c : Config} {p : Page}
    (h_p : c.page = some p) (h_complete : p.Complete) (st : Step) :
    ((step me filter c st).page = some p ∧ (step me filter c st).mirror = c.mirror) ∨
      (step me filter c st).page = none := by
  cases st with
  | call op => exact Or.inl ⟨h_p, rfl⟩
  | pull now limit =>
    refine Or.inl ?_
    simp [step, Config.pull, h_p]
  | apply now =>
    refine Or.inl ?_
    simp [step, Config.apply, h_p, h_complete.1]
  | persist now =>
    refine Or.inr ?_
    simp [step, Config.persist, h_p, h_complete.1]
  | crash now => exact Or.inr rfl

/-- One step, with the moment it may mark: either the dates go on, or they start again from the
read of the page that the step completes. -/
theorem Dated.advance {c : Config} (h : Dated periods since clock c) (h_exact : Exact c)
    (h_feed : Feed me filter c) (st : Step) (h_keeps : st.Keeps me filter c)
    (h_time : clock ≤ st.time)
    (h_period : ∀ p nowMs dryRun, st = .call (.applyRetention p nowMs dryRun) →
      p.tombstoneRetentionMs ∈ periods)
    (h_span : ∀ t, caughtUp me filter c st = some t → ∀ R ∈ periods, t - since ≤ R) :
    Dated periods ((caughtUp me filter c st).getD since) st.time (Sync.step me filter c st) ∧
      Exact (Sync.step me filter c st) := by
  have h_step := h.step h_feed st h_time h_period
  cases h_done : c.completedAt with
  | some t =>
    -- the moment of this page is already marked
    obtain ⟨p, h_p, h_complete, -⟩ := completedAt_eq_some.mp h_done
    have h_mark : caughtUp me filter c st = none := by
      rw [caughtUp, h_done]
      rfl
    rw [h_mark]
    refine ⟨h_step, fun p' h_p' h_c => ?_⟩
    rcases step_of_complete me filter h_p h_complete st with ⟨h_q, h_m⟩ | h_none
    · obtain rfl : p = p' := Option.some.inj (h_q.symm.trans h_p')
      rw [h_m]
      exact h_exact p h_p h_complete
    · exact absurd (h_none.symm.trans h_p') (by simp)
  | none =>
    have h_mark : caughtUp me filter c st = (Sync.step me filter c st).completedAt := by
      rw [caughtUp, h_done]
      rfl
    rw [h_mark] at h_span ⊢
    cases h_done' : (Sync.step me filter c st).completedAt with
    | none =>
      refine ⟨h_step, fun p h_p h_complete => ?_⟩
      have h_some := completedAt_eq_some.mpr ⟨p, h_p, h_complete, rfl⟩
      exact absurd (h_done'.symm.trans h_some) (by simp)
    | some t =>
      obtain ⟨p, h_p, h_complete, rfl⟩ := completedAt_eq_some.mp h_done'
      exact h_step.settle (h_feed.step st h_keeps) h_p h_complete (h_span _ h_done')

/-- A run in which every retention outlasts the spans has exact pages only. -/
theorem Dated.run {c : Config} (h : Dated periods since clock c) (h_exact : Exact c)
    (h_feed : Feed me filter c) (steps : List Step) (h_keeps : RunKeeps me filter c steps)
    (h_time : (clock :: steps.map Step.time).Pairwise (· ≤ ·))
    (h_period : tombstonePeriods steps ⊆ periods)
    (h_span : Outlasts periods (since :: moments me filter (caughtUp me filter) c steps)) :
    Exact (run me filter c steps) := by
  -- the moment since when the mirror is dated changes along the run
  induction steps generalizing c since clock with
  | nil => exact h_exact
  | cons st steps ih =>
    obtain ⟨h_clock, h_rest⟩ := List.pairwise_cons.mp h_time
    have h_span' : ∀ t, caughtUp me filter c st = some t → ∀ R ∈ periods, t - since ≤ R := by
      intro t h_t R h_R
      have h_chain := h_span R h_R
      rw [moments, h_t] at h_chain
      exact (List.isChain_cons_cons.mp h_chain).1
    have h_advance := h.advance h_exact h_feed st h_keeps.1 (h_clock _ List.mem_cons_self)
      (fun p nowMs dryRun h_eq => h_period ⟨p, nowMs, dryRun, h_eq ▸ List.mem_cons_self, rfl⟩)
      h_span'
    refine ih h_advance.1 h_advance.2 (h_feed.step st h_keeps.1) h_keeps.2 h_rest ?_ ?_
    · rintro R ⟨p, nowMs, dryRun, h_mem, h_R⟩
      exact h_period ⟨p, nowMs, dryRun, List.mem_cons_of_mem st h_mem, h_R⟩
    · intro R h_R
      have h_chain := h_span R h_R
      rw [moments] at h_chain
      -- the span that begins with a mark is one of the rest
      cases h_mark : caughtUp me filter c st with
      | none =>
        rw [h_mark] at h_chain
        exact h_chain
      | some t =>
        rw [h_mark] at h_chain
        exact (List.isChain_cons_cons.mp h_chain).2

/-- Without a filter nothing can leave it. -/
theorem runKeeps_all (me : ℤ) (c : Config) (steps : List Step) : RunKeeps me .all c steps := by
  induction steps generalizing c with
  | nil => exact trivial
  | cons st steps ih =>
    refine ⟨?_, ih _⟩
    cases st with
    | call op =>
      cases op with
      | contribute enc a => exact fun _ _ _ _ _ h => absurd h (by simp)
      | reportHit _ _ => exact trivial
      | flag _ _ => exact trivial
      | softDelete _ _ => exact trivial
      | applyRetention _ _ _ => exact trivial
    | pull _ _ => exact trivial
    | apply _ => exact trivial
    | persist _ => exact trivial
    | crash _ => exact trivial

/-- **Convergence.** A client without a filter starts at some moment on whatever store previous
calls have left. If every retention of the run keeps tombstones at least as long as every span
from the start, or from a moment the client is caught up, to the next, then after every page that
was applied in full and announced no more the mirror is exactly what the store it was read from
prescribes.

The moments are those of the reads. They can be told from the run alone, and the mirror at its end
says nothing about them; the last page of the run is one of them if it is completed. -/
theorem mirror_converges (me : ℤ) (ops : List Op) (start : ℤ) (steps : List Step)
    (h_time : (start :: steps.map Step.time).Pairwise (· ≤ ·))
    (h_retention : Outlasts (tombstonePeriods steps)
      (start :: moments me .all (caughtUp me .all) (Config.start (Store.empty.run ops)) steps)) :
    ∀ p, (run me .all (Config.start (Store.empty.run ops)) steps).page = some p → p.Complete →
      ∀ id, (run me .all (Config.start (Store.empty.run ops)) steps).mirror id
        = peers me .all p.store id := by
  intro p h_p h_complete id
  have h_start := Feed.start me .all (Store.Wf.empty.run ops)
  have h_keeps := runKeeps_all me (Config.start (Store.empty.run ops)) steps
  -- no page has a ghost
  have h_exact : Exact (run me .all (Config.start (Store.empty.run ops)) steps) :=
    Dated.start.run (fun _ h => absurd h (by simp [Config.start])) h_start steps h_keeps h_time
      (fun _ h => h) h_retention
  by_cases h_row : p.store.row id = none
  · have h_peers : peers me .all p.store id = none := by
      unfold peers
      rw [h_row]
      rfl
    rw [h_peers]
    by_contra h_held
    obtain ⟨x, h_x⟩ := Option.ne_none_iff_exists'.mp h_held
    exact h_exact p h_p h_complete id x h_x h_row
  · exact (h_start.run steps h_keeps).mirror_eq h_p h_complete h_row

/-- A retention policy that only keeps tombstones for a while. -/
def samplePolicy (tombstoneRetentionMs : ℤ) : RetentionPolicy where
  hitRetentionMs := 0
  flagReasonRetentionMs := 0
  tombstoneMetadataRetentionMs := 0
  tombstoneRetentionMs := tombstoneRetentionMs

/-- Consumer 2 mirrors a row and is caught up at 20; the row is deleted at 30 and purged
at 60, and the pull at 70 completes. -/
def purgedRun (tombstoneRetentionMs : ℤ) : List Step :=
  [.call (.contribute (fun _ t => t) (sampleContribution "00ff")), .pull 20 5, .apply 20,
    .persist 20, .call (.softDelete 1 30),
    .call (.applyRetention (samplePolicy tombstoneRetentionMs) 60 false), .pull 70 5]

/-- With a period of 50, the span from 20 to 70, the tombstone is still there. -/
theorem mirror_converges_purgedRun :
    ∃ p, (run 2 .all (Config.start .empty) (purgedRun 50 ++ [Step.apply 70])).page = some p ∧
      p.Complete ∧ p.store.row 1 ≠ none ∧
      ∀ id, (run 2 .all (Config.start .empty) (purgedRun 50 ++ [Step.apply 70])).mirror id
        = peers 2 .all p.store id := by
  have h_retention : Outlasts (tombstonePeriods (purgedRun 50 ++ [Step.apply 70]))
      (0 :: moments 2 .all (caughtUp 2 .all) (Config.start (Store.empty.run []))
        (purgedRun 50 ++ [Step.apply 70])) := by
    rintro R ⟨p, nowMs, dryRun, h_mem, rfl⟩
    obtain rfl : p = samplePolicy 50 := by
      simp [purgedRun] at h_mem
      exact h_mem.1
    decide
  refine ⟨_, rfl, by decide, by decide, ?_⟩
  exact mirror_converges 2 [] 0 _ (by decide) h_retention _ rfl (by decide)

/-- The same purge after a deletion between the read at 20 and the persisting at 40,
with a period of 40. -/
def lateDeleteRun : List Step :=
  [.call (.contribute (fun _ t => t) (sampleContribution "00ff")), .pull 20 5, .apply 20,
    .call (.softDelete 1 30), .persist 40,
    .call (.applyRetention (samplePolicy 40) 75 false), .pull 80 5]

/-- **Persisting is the wrong moment.** When spans are measured between the moments at
which a completed page is persisted, each period outlasts them in two runs that end on
a completed page with a purged row in the mirror: one whose last page is not persisted,
and one that measures the span from after the deletion. -/
theorem mirror_diverges :
    (Outlasts (tombstonePeriods (purgedRun 20))
        (0 :: moments 2 .all persisted (Config.start .empty) (purgedRun 20)) ∧
      ((0 : ℤ) :: (purgedRun 20).map Step.time).Pairwise (· ≤ ·) ∧
      ∃ p, (run 2 .all (Config.start .empty) (purgedRun 20)).page = some p ∧ p.Complete ∧
        (run 2 .all (Config.start .empty) (purgedRun 20)).mirror 1 ≠ peers 2 .all p.store 1) ∧
    (Outlasts (tombstonePeriods (lateDeleteRun ++ [Step.persist 80]))
        (0 :: moments 2 .all persisted (Config.start .empty) (lateDeleteRun ++ [Step.persist 80])) ∧
      ((0 : ℤ) :: (lateDeleteRun ++ [Step.persist 80]).map Step.time).Pairwise (· ≤ ·) ∧
      ∃ p, (run 2 .all (Config.start .empty) lateDeleteRun).page = some p ∧ p.Complete ∧
        (run 2 .all (Config.start .empty) lateDeleteRun).mirror 1 ≠ peers 2 .all p.store 1) := by
  refine ⟨⟨?_, by decide, _, rfl, by decide, by decide⟩,
    ⟨?_, by decide, _, rfl, by decide, by decide⟩⟩
  · rintro R ⟨p, nowMs, dryRun, h_mem, rfl⟩
    obtain rfl : p = samplePolicy 20 := by
      simp [purgedRun] at h_mem
      exact h_mem.1
    decide
  · rintro R ⟨p, nowMs, dryRun, h_mem, rfl⟩
    obtain rfl : p = samplePolicy 40 := by
      simp [lateDeleteRun] at h_mem
      exact h_mem.1
    decide

end Sync
end FingerprintHub
