import FingerprintHub.Concurrent.Resurrect
import FingerprintHub.Concurrent.Sequences
import FingerprintHub.Concurrent.Hits

/-!
# Flags, hits and deletions serialise

`flag`, `report_hit` and `soft_delete` on rows that are active at the start. Their
statements interleave, but a row changes only when one of them commits, and then as if
that call had run alone: `RowEvent` lists what a commit can do to a row, and `Outcome`
what the call then returns. `Contending.event` says that every step is such an event.

A statement about a whole run compares what all calls returned with the row it left.
`Tallied` is that comparison in every state: which flag hid the row, which deletion
deleted it, and which hit counts were returned. Each event keeps the tally in step with
the row, and so the tally of the last state is `Serialized`.

The threshold of a run is that of its own flags. The row it finds may have been flagged
under another, so that it may be active with as many flags as the threshold: the row is
`Reached` only when a flag of the run has seen it so.
-/

namespace FingerprintHub
namespace Concurrent

/-- The row of the id is there, and active. It is asked of the starting store alone: the calls of
the run may hide the row and delete it. -/
def ActiveIn (s : Store) (i : ℤ) : Prop := ∃ r, s.row i = some r ∧ r.status = .active

/-- The calls that contend: flags against one threshold, hits and deletions, on rows that are
active in the starting store. One process serves with one configuration, so the flags of a run
have one threshold in common. -/
def Contends (θ : ℕ) (s : Store) : Op → Prop
  | .flag _ a => a.autoHideThreshold = θ ∧ ActiveIn s a.fingerprintId
  | .reportHit _ a => ActiveIn s a.fingerprintId
  | .softDelete id _ => ActiveIn s id
  | _ => False

theorem Contends.noRetention {θ : ℕ} {s : Store} {op : Op} (h : Contends θ s op) :
    NoRetention op := by
  cases op <;> trivial

/-- What a call returned about a row it changed: `flag` that it hid the row or only counted,
`soft_delete` that it deleted it, and `report_hit` the new count. -/
inductive Outcome where
  | hidden
  | counted
  | deleted
  | hit (count : ℕ)

/-- The outcome of a call that is done, for the row of an id. A call that found no live row has
changed nothing and has no outcome, and neither has a call on another row. -/
def Activity.outcome (i : ℤ) : Activity → Option Outcome
  | .done (.flag _ a) (.flag (some ⟨_, _, hidden⟩)) =>
    if a.fingerprintId = i then some (if hidden then .hidden else .counted) else none
  | .done (.softDelete id _) (.softDelete true) => if id = i then some .deleted else none
  | .done (.reportHit _ a) (.reportHit (some n)) =>
    if a.fingerprintId = i then some (.hit n) else none
  | _ => none

/-- What a step does to a row, and what is returned about it. `count` is a flag that does not
hide: either the threshold is not reached, or the row is hidden already. `hide` and `delete` write
a value drawn from `fingerprint_sync_seq`, which is later than the one the row has. -/
inductive RowEvent (θ : ℕ) (r : Fingerprint) : Option Outcome → Fingerprint → Prop
  | same : RowEvent θ r none r
  | count {n : ℕ} {nowMs : ℤ} (h_live : r.Live) (h_keep : ¬ (θ ≤ n ∧ r.status = .active))
      (h_n : r.flagCount ≤ n) : RowEvent θ r (some .counted) (countFlagRow n nowMs r)
  | hide {n v : ℕ} {nowMs : ℤ} (h_active : r.status = .active) (h_n : θ ≤ n)
      (h_v : r.syncSeq < v) : RowEvent θ r (some .hidden) (hideRow n v nowMs r)
  | delete {v : ℕ} {nowMs : ℤ} (h_live : r.Live) (h_v : r.syncSeq < v) :
      RowEvent θ r (some .deleted) (deleteRow v nowMs r)
  | hit {nowMs : ℤ} (h_live : r.Live) :
      RowEvent θ r (some (.hit (r.hitCount + 1))) (hitRow nowMs r)

/-- One transaction returns the outcome, or none returns any. The rest of the activities have the
outcomes they had. -/
def Records (i : ℤ) (act act' : ℕ → Activity) : Option Outcome → Prop
  | none => ∀ tx, (act' tx).outcome i = (act tx).outcome i
  | some o => ∃ tx, (act tx).outcome i = none ∧ (act' tx).outcome i = some o ∧
      ∀ tx', tx' ≠ tx → (act' tx').outcome i = (act tx').outcome i

/-- A transaction that had returned nothing about the row records what its new activity returns.
-/
theorem records_update {i : ℤ} {act : ℕ → Activity} {tx : ℕ} (a : Activity)
    (h_none : (act tx).outcome i = none) :
    Records i act (Function.update act tx a) (a.outcome i) := by
  cases h_o : a.outcome i with
  | none =>
    intro tx'
    by_cases h_tx : tx' = tx
    · subst h_tx
      rw [Function.update_self, h_o, h_none]
    · rw [Function.update_of_ne h_tx]
  | some o =>
    refine ⟨tx, h_none, ?_, fun tx' h_tx => ?_⟩
    · rw [Function.update_self, h_o]
    · rw [Function.update_of_ne h_tx]

/-- Whoever returns something about a row holds it: the id in its arguments is that of the row,
and it is only done after it has locked the row of its arguments. -/
theorem target_of_outcome {i : ℤ} {op : Op} {reply : Reply} {o : Outcome} {existing : Option ℤ}
    {drawn : Option ℕ} (h : (Activity.done op reply).outcome i = some o) :
    (⟨op, .finish reply, existing, drawn⟩ : Session).target = some i := by
  unfold Activity.outcome at h
  split at h
  · next h_eq =>
    obtain ⟨rfl, rfl⟩ := Activity.done.inj h_eq
    split at h
    · next h_i => exact congrArg some h_i
    · exact absurd h (by simp)
  · next h_eq =>
    obtain ⟨rfl, rfl⟩ := Activity.done.inj h_eq
    split at h
    · next h_i => exact congrArg some h_i
    · exact absurd h (by simp)
  · next h_eq =>
    obtain ⟨rfl, rfl⟩ := Activity.done.inj h_eq
    split at h
    · next h_i => exact congrArg some h_i
    · exact absurd h (by simp)
  · exact absurd h (by simp)

/-! ### One step -/

/-- A state of a run of contending calls, with the invariants of its parts: who holds which row,
rows and flags in agreement, whose flag is committed, and the order of the drawn values. -/
structure Contending (θ : ℕ) (s : Store) (sys : System) : Prop where
  calls : ∀ tx c, sys.activity tx = .running c → Contends θ s c.call
  lock : Locking sys
  tidy : Tidy sys
  flags : FlagLocks sys
  seq : Sequenced sys

/-- Every state reached is such a state. Nothing here contributes, so that every step is
exclusive, as `Tidy` asks. -/
theorem Reaches.contending {θ : ℕ} {s : Store} (h_s : s.Reachable) {sys : System}
    (h : Reaches (Contends θ s) s sys) : Contending θ s sys := by
  have h_by : ReachesBy NoRetention Exclusive s sys := by
    induction h with
    | refl => exact .refl
    | tail h_run h_step ih =>
      refine ih.tail ⟨h_step.mono (fun _ => Contends.noRetention), ?_⟩
      intro tx tx' enc enc' a a' reply pc i drawn drawn' h_tx _ _
      exact (Reaches.allowed_call h_run tx h_tx).elim
  obtain ⟨h_tidy, h_flags⟩ := Tidy.reaches h_s h_by
  exact ⟨fun tx c => h.allowed_call tx, Locking.reaches h_s h, h_tidy, h_flags,
    Sequenced.reaches h_s h⟩

/-- The flaggers of a fingerprint are finitely many. -/
theorem Db.flaggers_finite (db : Db) (i : ℤ) : (db.flaggers i).Finite := by
  have h_sub : db.flaggers i ⊆ Prod.snd '' {k | k ∈ db.flags.entries.rows.map Prod.fst} := by
    rintro c ⟨f, h_f⟩
    have h_cell : db.flags.cell (i, c) ≠ .empty := by
      intro h_empty
      rw [h_empty] at h_f
      exact absurd h_f (by simp [Cell.empty])
    exact ⟨(i, c), List.mem_map.mpr ⟨_, Versioned.entry_of_cell h_cell, rfl⟩, rfl⟩
  exact ((List.finite_toSet _).image _).subset h_sub

section Event

variable {θ : ℕ} {s : Store} {x y : System}

/-- Nobody discards a flag. -/
theorem Contending.flaggers_mono (h : Contending θ s x) (h_step : Step (Contends θ s) x y)
    (i : ℤ) : x.db.flaggers i ⊆ y.db.flaggers i := by
  rintro c ⟨f, h_f⟩
  rcases h.flags.flag_step h_step (i, c) with
    h_same | ⟨tx, op, reply, existing, drawn, d, h_run, -, -, h_owns, -⟩
  · exact ⟨f, h_same.trans h_f⟩
  · rw [h_f] at h_owns
    cases h_owns with
    | clear _ => exact (h.calls tx _ h_run).elim

/-- A draft that carries a drawn value carries a later one than its row: drafts never go back, and
a value that is still to be written is on no row. -/
theorem Contending.drawn_lt (h : Contending θ s x) {tx : ℕ} {c : Session} {v : ℕ} {i : ℤ}
    {l : RowLock Fingerprint} {r r' : Fingerprint} (h_run : x.activity tx = .running c)
    (h_drawn : c.drawn = some v) (h_row : x.db.row i = some r)
    (h_l : (x.db.rows.cell i).lock = some l) (h_d : l.draft = some (some r'))
    (h_v : r'.syncSeq = v) : r.syncSeq < v := by
  have h_le := h.seq.draft_le i l r r' h_row h_l h_d
  have h_ne := h.seq.drawn_ne tx c v i r h_run h_drawn h_row
  omega

/-- **What a commit does to a row**, and what it returns about it. The commit makes the draft of
the transaction the row, if it holds the row, and `Owns` says for each kind of call what that
draft is. -/
theorem Contending.commit_event (h : Contending θ s x) (h_step : Step (Contends θ s) x y)
    {tx : ℕ} {op : Op} {reply : Reply} {existing : Option ℤ} {drawn : Option ℕ}
    (h_run : x.activity tx = .running ⟨op, .finish reply, existing, drawn⟩)
    (h_db : y.db = endOf tx op x.db) {i : ℤ} {r : Fingerprint} (h_row : x.db.row i = some r) :
    ∃ r', y.db.row i = some r' ∧ RowEvent θ r ((Activity.done op reply).outcome i) r' := by
  have h_call := h.calls tx _ h_run
  have h_end : endOf tx op x.db = x.db.commit tx := by
    unfold endOf
    cases op <;> first | rfl | exact h_call.elim
  have h_row' : y.db.row i = (x.db.rows.cell i).view tx := by
    rw [h_db, h_end]
    show ((x.db.rows.commit tx).cell i).committed = _
    rw [Versioned.cell_commit, Cell.committed_commit]
  -- the draft of the committing transaction becomes the row, or the row stays
  by_cases h_held : (x.db.rows.cell i).Held tx
  · obtain ⟨⟨holder, draft⟩, h_l, rfl, h_owns⟩ := h.lock.owns_of_held h_run h_held
    rw [Cell.view_of_lock h_l rfl] at h_row'
    change y.db.row i = draft.getD (x.db.row i) at h_row'
    have h_drawn : ∀ v r', drawn = some v → draft = some (some r') → r'.syncSeq = v →
        r.syncSeq < v :=
      fun v r' h_v h_d => h.drawn_lt h_run h_v h_row h_l h_d
    rw [h_row] at h_owns h_row'
    cases h_owns with
    | resurrect _ => exact h_call.elim
    -- the calls that found no live row have drafted nothing
    | hitGone _ _ => exact ⟨r, h_row', .same⟩
    | hit h_target h_live h_n h_eq =>
      refine ⟨_, h_row', ?_⟩
      rw [h_eq, h_n]
      simp only [Activity.outcome, h_target, if_true]
      exact .hit h_live
    | flagGone _ _ => exact ⟨r, h_row', .same⟩
    | hide h_target h_active h_n h_eq =>
      have h_v := h_drawn _ _ rfl rfl (by rw [h_eq]; rfl)
      refine ⟨_, h_row', ?_⟩
      rw [h_eq]
      simp only [Activity.outcome, h_target, if_true]
      exact .hide h_active (h_call.1 ▸ h_n) h_v
    | @keep enc a _ _ _ status n h_target h_live h_status h_keep h_eq =>
      -- it has counted the flags that were there, and perhaps its own
      have h_n : r.flagCount ≤ n := by
        have h_after := h.tidy.step_flagCount h.lock h.flags
          (h_step.mono (fun _ => Contends.noRetention)) i _ h_row'
        rw [h_eq] at h_after
        change n = _ at h_after
        rw [h.tidy.flagCount i r h_row, h_after]
        exact Set.ncard_le_ncard (h.flaggers_mono h_step i) (y.db.flaggers_finite i)
      refine ⟨_, h_row', ?_⟩
      rw [h_eq]
      rw [h_call.1, ← h_status] at h_keep
      simp only [Activity.outcome, h_target, if_true, Bool.false_eq_true, if_false]
      exact .count h_live h_keep h_n
    | delete h_live h_eq =>
      have h_v := h_drawn _ _ rfl rfl (by rw [h_eq]; rfl)
      refine ⟨_, h_row', ?_⟩
      rw [h_eq]
      simp only [Activity.outcome, if_true]
      exact .delete h_live h_v
    | purge _ _ => exact h_call.elim
    | anonymize _ _ _ => exact h_call.elim
  · rw [Cell.view_of_not_held h_held] at h_row'
    -- without the lock of the row there is nothing to record for it
    have h_none : (Activity.done op reply).outcome i = none := by
      cases h_o : (Activity.done op reply).outcome i with
      | none => rfl
      | some o => exact absurd (h.lock.holds tx _ i h_run (target_of_outcome h_o)) h_held
    rw [h_none]
    exact ⟨r, h_row'.trans h_row, .same⟩

/-- **Every step is an event** for the row of every id. A statement works on drafts and an abort
discards them, so that the row stays as it is until a commit. -/
theorem Contending.event (h : Contending θ s x) (h_step : Step (Contends θ s) x y) {i : ℤ}
    {r : Fingerprint} (h_row : x.db.row i = some r) :
    ∃ e r', y.db.row i = some r' ∧ RowEvent θ r e r' ∧ Records i x.activity y.activity e := by
  have h_step' := h_step
  cases h_step with
  | begin h_idle _ =>
    refine ⟨none, r, h_row, .same, records_update (.running _) ?_⟩
    rw [h_idle]
    rfl
  | exec h_run h_exec =>
    refine ⟨none, r, (h.lock.row_exec h_run h_exec i).trans h_row, .same,
      records_update (.running _) ?_⟩
    rw [h_run]
    rfl
  -- only a commit is an event of the row
  | @commit tx op reply existing drawn h_run =>
    obtain ⟨r', h_row', h_event⟩ := h.commit_event h_step' h_run rfl h_row
    refine ⟨_, r', h_row', h_event, records_update (.done op reply) ?_⟩
    rw [h_run]
    rfl
  | @abort tx c h_run =>
    refine ⟨none, r, ?_, .same, records_update (.aborted c.call) ?_⟩
    · show ((x.db.rows.rollback tx).cell i).committed = _
      rw [Versioned.committed_cell_rollback]
      exact h_row
    · rw [h_run]
      rfl

end Event

/-! ### The tally of a row -/

/-- The outcome has been returned by one transaction if the condition holds, and by none if it
does not. The condition is read off the row, so that `Once` says that the row shows what was
returned. -/
structure Once (i : ℤ) (act : ℕ → Activity) (o : Outcome) (p : Prop) : Prop where
  one : p → ∃! tx, (act tx).outcome i = some o
  none : ¬ p → ∀ tx, (act tx).outcome i ≠ some o

section Once

variable {i : ℤ} {act act' : ℕ → Activity} {o : Outcome} {p p' : Prop}

/-- Only who has returned the outcome matters, and the condition only up to equivalence. -/
theorem Once.congr (h : Once i act o p)
    (h_act : ∀ tx, (act' tx).outcome i = some o ↔ (act tx).outcome i = some o) (h_p : p' ↔ p) :
    Once i act' o p' where
  one := by
    intro h_p'
    simp only [h_act]
    exact h.one (h_p.mp h_p')
  none := by
    intro h_p' tx h_tx
    exact h.none (fun h' => h_p' (h_p.mpr h')) tx ((h_act tx).mp h_tx)

/-- A step that returns something else changes nothing here. -/
theorem Once.other (h : Once i act o p) {e : Option Outcome} (h_rec : Records i act act' e)
    (h_e : e ≠ some o) (h_p : p' ↔ p) : Once i act' o p' := by
  refine h.congr (fun tx => ?_) h_p
  cases e with
  | none => rw [h_rec tx]
  | some o' =>
    obtain ⟨tx₀, h_before, h_after, h_rest⟩ := h_rec
    by_cases h_tx : tx = tx₀
    · subst h_tx
      rw [h_before, h_after]
      exact ⟨fun h_eq => absurd h_eq h_e, fun h_eq => absurd h_eq (by simp)⟩
    · rw [h_rest tx h_tx]

/-- The one step that returns it: the condition did not hold before, so nobody had returned it. -/
theorem Once.record (h : Once i act o p) (h_rec : Records i act act' (some o)) (h_p : ¬ p)
    (h_p' : p') : Once i act' o p' where
  one := by
    intro _
    obtain ⟨tx, -, h_after, h_rest⟩ := h_rec
    refine ⟨tx, h_after, fun tx' h_tx' => ?_⟩
    by_contra h_ne
    exact h.none h_p tx' ((h_rest tx' h_ne).symm.trans h_tx')
  none := fun h_not => absurd h_p' h_not

end Once

/-- A flag of the row of an id has returned a result. -/
def Flagged (i : ℤ) (act : ℕ → Activity) : Prop :=
  ∃ tx, (act tx).outcome i = some .hidden ∨ (act tx).outcome i = some .counted

/-- Only a flag that returns a result is one more: what any other step records, the outcomes of
flags are those there were. -/
theorem Records.flagged_iff {i : ℤ} {act act' : ℕ → Activity} {e : Option Outcome}
    (h : Records i act act' e) :
    Flagged i act' ↔ Flagged i act ∨ e = some .hidden ∨ e = some .counted := by
  cases e with
  | none =>
    unfold Flagged
    simp only [h _]
    simp
  | some o =>
    -- one transaction has a new outcome, and the others have theirs
    obtain ⟨tx, h_before, h_after, h_rest⟩ := h
    constructor
    · rintro ⟨tx', h_tx'⟩
      by_cases h_tx : tx' = tx
      · subst h_tx
        rw [h_after] at h_tx'
        exact Or.inr h_tx'
      · rw [h_rest tx' h_tx] at h_tx'
        exact Or.inl ⟨tx', h_tx'⟩
    · rintro (⟨tx', h_tx'⟩ | h_o)
      · have h_tx : tx' ≠ tx := by
          rintro rfl
          rw [h_before] at h_tx'
          exact absurd h_tx' (by simp)
        rw [← h_rest tx' h_tx] at h_tx'
        exact ⟨tx', h_tx'⟩
      · exact ⟨tx, h_after.symm ▸ h_o⟩

/-- The threshold is reached, and a flag of the run has seen to it. A row with as many flags as
the threshold but no flag in the run is not reached, since no call looks at its count. -/
def Reached (θ : ℕ) (i : ℤ) (r : Fingerprint) (act : ℕ → Activity) : Prop :=
  θ ≤ r.flagCount ∧ Flagged i act

/-- The outcomes so far are those the row shows, where `r₀` is the row at the start. An active row
is not reached and a hidden one is; a deleted row may be either, as it was when it was deleted.
The hit counts returned are those between the count at the start and the count now. -/
structure Tallied (θ : ℕ) (r₀ : Fingerprint) (i : ℤ) (r : Fingerprint) (act : ℕ → Activity) :
    Prop where
  active : r.status = .active → ¬ Reached θ i r act
  hidden : r.status = .hidden → Reached θ i r act
  hides : Once i act .hidden (Reached θ i r act)
  unflagged : ¬ Flagged i act → r.flagCount = r₀.flagCount
  deletes : Once i act .deleted (r.status = .deleted)
  hits_le : r₀.hitCount ≤ r.hitCount
  hits : ∀ n, Once i act (.hit n) (r₀.hitCount < n ∧ n ≤ r.hitCount)

section Tallied

variable {θ : ℕ} {i : ℤ} {r₀ r r' : Fingerprint} {act act' : ℕ → Activity} {e : Option Outcome}

/-- A flag that does not hide its row finds it hidden if the threshold is reached, and
finds it active if it is not. -/
theorem Tallied.count_iff (h : Tallied θ r₀ i r act) {n : ℕ} (h_live : r.Live)
    (h_keep : ¬ (θ ≤ n ∧ r.status = .active)) (h_n : r.flagCount ≤ n) :
    θ ≤ n ↔ Reached θ i r act := by
  refine ⟨fun h_le => ?_, fun h_reached => h_reached.1.trans h_n⟩
  cases h_status : r.status with
  | active => exact absurd ⟨h_le, h_status⟩ h_keep
  | hidden => exact h.hidden h_status
  | deleted => exact absurd h_status h_live

/-- A step that is no flag of the row leaves it reached or not. -/
theorem Records.reached_iff (h : Records i act act' e) (h_e : e ≠ some .hidden)
    (h_e' : e ≠ some .counted) (h_count : r'.flagCount = r.flagCount) :
    Reached θ i r' act' ↔ Reached θ i r act := by
  have h_flagged : Flagged i act' ↔ Flagged i act := by
    rw [h.flagged_iff]
    exact ⟨fun h' => h'.resolve_right (fun h'' => h''.elim h_e h_e'), Or.inl⟩
  rw [Reached, Reached, h_count, h_flagged]

/-- **An event keeps the tally in step with the row.** Each clause is about one kind of outcome.
The event that returns it moves the row across the condition of the clause, and every other event
leaves the condition as it is. -/
theorem Tallied.step (h : Tallied θ r₀ i r act) (h_event : RowEvent θ r e r')
    (h_rec : Records i act act' e) : Tallied θ r₀ i r' act' := by
  -- an outcome that is not recorded now is recorded as before
  have h_other : ∀ {o p}, Once i act o p → e ≠ some o → Once i act' o p :=
    fun h_once h_e => h_once.other h_rec h_e Iff.rfl
  have h_flagged := h_rec.flagged_iff
  cases h_event with
  | same =>
    have h_iff : Reached θ i r act' ↔ Reached θ i r act := h_rec.reached_iff nofun nofun rfl
    exact ⟨fun h_active => mt h_iff.mp (h.active h_active),
      fun h_hidden => h_iff.mpr (h.hidden h_hidden), h.hides.other h_rec nofun h_iff,
      fun h_not => h.unflagged (fun h' => h_not (h_flagged.mpr (Or.inl h'))),
      h_other h.deletes nofun, h.hits_le, fun n => h_other (h.hits n) nofun⟩
  -- a row that is not hidden is below the threshold before and after, a hidden one had reached it
  | @count n nowMs h_live h_keep h_n =>
    have h_now : Flagged i act' := h_flagged.mpr (Or.inr (Or.inr rfl))
    have h_iff : Reached θ i (countFlagRow n nowMs r) act' ↔ Reached θ i r act :=
      (and_iff_left h_now).trans (h.count_iff h_live h_keep h_n)
    exact ⟨fun h_active h_reached => h_keep ⟨h_reached.1, h_active⟩,
      fun h_hidden => h_iff.mpr (h.hidden h_hidden), h.hides.other h_rec nofun h_iff,
      fun h_not => absurd h_now h_not, h_other h.deletes nofun, h.hits_le,
      fun n => h_other (h.hits n) nofun⟩
  -- the first flag that finds an active row at the threshold
  | @hide n v nowMs h_active h_n h_v =>
    have h_now : Flagged i act' := h_flagged.mpr (Or.inr (Or.inl rfl))
    refine ⟨nofun, fun _ => ⟨h_n, h_now⟩, h.hides.record h_rec (h.active h_active) ⟨h_n, h_now⟩,
      fun h_not => absurd h_now h_not, h.deletes.other h_rec nofun ?_, h.hits_le,
      fun n => h_other (h.hits n) nofun⟩
    rw [h_active]
    exact ⟨nofun, nofun⟩
  -- a live row was not deleted, so this is the only deletion
  | @delete v nowMs h_live h_v =>
    have h_iff : Reached θ i (deleteRow v nowMs r) act' ↔ Reached θ i r act :=
      h_rec.reached_iff nofun nofun rfl
    exact ⟨nofun, nofun, h.hides.other h_rec nofun h_iff,
      fun h_not => h.unflagged (fun h' => h_not (h_flagged.mpr (Or.inl h'))),
      h.deletes.record h_rec h_live rfl, h.hits_le, fun n => h_other (h.hits n) nofun⟩
  | @hit nowMs h_live =>
    have h_iff : Reached θ i (hitRow nowMs r) act' ↔ Reached θ i r act :=
      h_rec.reached_iff nofun nofun rfl
    refine ⟨fun h_active => mt h_iff.mp (h.active h_active),
      fun h_hidden => h_iff.mpr (h.hidden h_hidden), h.hides.other h_rec nofun h_iff,
      fun h_not => h.unflagged (fun h' => h_not (h_flagged.mpr (Or.inl h'))),
      h_other h.deletes nofun, h.hits_le.trans (Nat.le_succ _), fun n => ?_⟩
    change Once i act' (.hit n) (r₀.hitCount < n ∧ n ≤ r.hitCount + 1)
    -- the count reached now is recorded now, and every lower one was before
    by_cases h_n : n = r.hitCount + 1
    · subst h_n
      refine (h.hits _).record h_rec (fun h' => absurd h'.2 (by omega)) ⟨?_, le_rfl⟩
      exact Nat.lt_succ_of_le h.hits_le
    · refine (h.hits n).other h_rec (fun h_eq => ?_) ?_
      · exact h_n (Outcome.hit.inj (Option.some.inj h_eq)).symm
      · omega

end Tallied

/-- Before the run nobody has flagged. -/
theorem not_flagged_quiet (s : Store) (i : ℤ) : ¬ Flagged i (System.quiet s).activity :=
  fun ⟨_, h_tx⟩ => h_tx.elim nofun nofun

/-- The tally of a row that is active at the start, in every state. It is empty at first, and
every step is an event. -/
theorem Contending.tallied {θ : ℕ} {s : Store} (h_s : s.Reachable) {i : ℤ} {r₀ : Fingerprint}
    (h_row₀ : s.row i = some r₀) (h_active₀ : r₀.status = .active)
    {sys : System} (h : Reaches (Contends θ s) s sys) :
    ∃ r, sys.db.row i = some r ∧ Tallied θ r₀ i r sys.activity := by
  induction h with
  | refl =>
    have h_not : ¬ Flagged i (System.quiet s).activity := not_flagged_quiet s i
    refine ⟨r₀, ?_, fun _ h_reached => h_not h_reached.2, fun h_hidden => ?_,
      ⟨fun h_reached => absurd h_reached.2 h_not, fun _ _ => nofun⟩, fun _ => rfl,
      ⟨fun h_deleted => ?_, fun _ _ => nofun⟩, le_rfl, fun n => ⟨fun h_n => ?_, fun _ _ => nofun⟩⟩
    · exact (System.row_quiet s i).trans h_row₀
    · exact absurd (h_active₀.symm.trans h_hidden) (by simp)
    · exact absurd (h_active₀.symm.trans h_deleted) (by simp)
    · exact absurd h_n.2 (not_le.mpr h_n.1)
  | tail h_run h_step ih =>
    obtain ⟨r, h_row, h_tally⟩ := ih
    obtain ⟨e, r', h_row', h_event, h_rec⟩ := (Reaches.contending h_s h_run).event h_step h_row
    exact ⟨r', h_row', h_tally.step h_event h_rec⟩

/-! ### Counting the steps of a run -/

/-- The step turns the row of an id from one version into another that is so related to it. -/
def Turns (i : ℤ) (P : Fingerprint → Fingerprint → Prop) (x y : System) : Prop :=
  ∃ r r', x.db.row i = some r ∧ y.db.row i = some r' ∧ P r r'

/-- A run, with the number of its steps of a kind. The number belongs to the run and not to the
state: that it is the same for all runs to a state is what has to be shown. -/
inductive Passes (allowed : Op → Prop) (kind : System → System → Prop) (s : Store) :
    ℕ → System → Prop
  | quiet : Passes allowed kind s 0 (.quiet s)
  | skip {n : ℕ} {x y : System} (h : Passes allowed kind s n x) (h_step : Step allowed x y)
      (h_not : ¬ kind x y) : Passes allowed kind s n y
  | pass {n : ℕ} {x y : System} (h : Passes allowed kind s n x) (h_step : Step allowed x y)
      (h_kind : kind x y) : Passes allowed kind s (n + 1) y

theorem Passes.reaches {allowed : Op → Prop} {kind : System → System → Prop} {s : Store} {n : ℕ}
    {sys : System} (h : Passes allowed kind s n sys) : Reaches allowed s sys := by
  induction h with
  | quiet => exact .quiet
  | skip _ h_step _ ih => exact ih.step h_step
  | pass _ h_step _ ih => exact ih.step h_step

/-- The row is hidden, and gets a later cursor value. -/
def IsHide (r r' : Fingerprint) : Prop :=
  r.status = .active ∧ r'.status = .hidden ∧ r.syncSeq < r'.syncSeq

/-- The row is deleted, and gets a later cursor value. -/
def IsDeletion (r r' : Fingerprint) : Prop :=
  r.Live ∧ r'.status = .deleted ∧ r.syncSeq < r'.syncSeq

/-- The row gets another cursor value, and clients that sync will see it again. -/
def IsRenumbering (r r' : Fingerprint) : Prop := r'.syncSeq ≠ r.syncSeq

open Classical in
/-- How often a row has been hidden, read off the tally, -/
noncomputable def hidesOf (θ : ℕ) (i : ℤ) (r : Fingerprint) (act : ℕ → Activity) : ℕ :=
  if Reached θ i r act then 1 else 0

/-- and how often deleted, read off the row. -/
def deletionsOf (r : Fingerprint) : ℕ := if r.status = .deleted then 1 else 0

/-- The outcome is a hide, -/
def isHidden : Option Outcome → Bool
  | some .hidden => true
  | _ => false

/-- or a deletion. -/
def isDeleted : Option Outcome → Bool
  | some .deleted => true
  | _ => false

section Events

variable {θ : ℕ} {i : ℤ} {r₀ r r' : Fingerprint} {act act' : ℕ → Activity} {e : Option Outcome}

theorem hidesOf_congr (h : Reached θ i r' act' ↔ Reached θ i r act) :
    hidesOf θ i r' act' = hidesOf θ i r act := by
  classical
  exact if_congr h rfl rfl

/-- A hide is counted, -/
theorem Tallied.hidesOf_event (h : Tallied θ r₀ i r act) (h_event : RowEvent θ r e r')
    (h_rec : Records i act act' e) :
    hidesOf θ i r' act' = hidesOf θ i r act + (isHidden e).toNat := by
  cases h_event with
  | same => exact hidesOf_congr (h_rec.reached_iff nofun nofun rfl)
  | @count n nowMs h_live h_keep h_n =>
    have h_now : Flagged i act' := h_rec.flagged_iff.mpr (Or.inr (Or.inr rfl))
    exact hidesOf_congr ((and_iff_left h_now).trans (h.count_iff h_live h_keep h_n))
  | @hide n v nowMs h_active h_n _ =>
    have h_now : Reached θ i (hideRow n v nowMs r) act' :=
      ⟨h_n, h_rec.flagged_iff.mpr (Or.inr (Or.inl rfl))⟩
    unfold hidesOf
    rw [if_pos h_now, if_neg (h.active h_active)]
    rfl
  | delete _ _ => exact hidesOf_congr (h_rec.reached_iff nofun nofun rfl)
  | hit _ => exact hidesOf_congr (h_rec.reached_iff nofun nofun rfl)

/-- and so is a deletion. -/
theorem RowEvent.deletionsOf_event (h_event : RowEvent θ r e r') :
    deletionsOf r' = deletionsOf r + (isDeleted e).toNat := by
  cases h_event with
  | same => rfl
  | count _ _ _ => rfl
  | hide h_active _ _ =>
    show 0 = (if r.status = .deleted then 1 else 0) + 0
    rw [h_active]
    rfl
  | delete h_live _ =>
    show 1 = (if r.status = .deleted then 1 else 0) + 1
    rw [if_neg h_live]
  | hit _ => rfl

/-- What a step does to the row is what is returned about it. -/
theorem RowEvent.isHide_iff (h_event : RowEvent θ r e r') : IsHide r r' ↔ isHidden e = true := by
  cases h_event with
  | same => exact ⟨fun h' => absurd h'.2.2 (lt_irrefl _), nofun⟩
  | count _ _ _ => exact ⟨fun h' => absurd h'.2.2 (lt_irrefl _), nofun⟩
  | hide h_active _ h_v => exact ⟨fun _ => rfl, fun _ => ⟨h_active, rfl, h_v⟩⟩
  | delete _ _ => exact ⟨fun h' => Status.noConfusion h'.2.1, nofun⟩
  | hit _ => exact ⟨fun h' => absurd h'.2.2 (lt_irrefl _), nofun⟩

theorem RowEvent.isDeletion_iff (h_event : RowEvent θ r e r') :
    IsDeletion r r' ↔ isDeleted e = true := by
  cases h_event with
  | same => exact ⟨fun h' => absurd h'.2.2 (lt_irrefl _), nofun⟩
  | count _ _ _ => exact ⟨fun h' => absurd h'.2.2 (lt_irrefl _), nofun⟩
  | hide _ _ _ => exact ⟨fun h' => Status.noConfusion h'.2.1, nofun⟩
  | delete h_live h_v => exact ⟨fun _ => rfl, fun _ => ⟨h_live, rfl, h_v⟩⟩
  | hit _ => exact ⟨fun h' => absurd h'.2.2 (lt_irrefl _), nofun⟩

theorem RowEvent.isRenumbering_iff (h_event : RowEvent θ r e r') :
    IsRenumbering r r' ↔ (isHidden e || isDeleted e) = true := by
  cases h_event with
  | same => exact ⟨fun h' => absurd rfl h', nofun⟩
  | count _ _ _ => exact ⟨fun h' => absurd rfl h', nofun⟩
  | hide _ _ h_v => exact ⟨fun _ => rfl, fun _ => h_v.ne'⟩
  | delete _ h_v => exact ⟨fun _ => rfl, fun _ => h_v.ne'⟩
  | hit _ => exact ⟨fun h' => absurd rfl h', nofun⟩

/-- **Steps are counted event by event.** `P` is a kind of change of the row, `q` tells it by what
is returned, and `f` is a count read off the state. If `f` grows by one just with the events that
are of the kind, the number of such steps of a run is `f` in its last state. -/
theorem Passes.count {s : Store} (h_s : s.Reachable) {r₀ : Fingerprint}
    (h_row₀ : s.row i = some r₀) (h_active₀ : r₀.status = .active)
    {P : Fingerprint → Fingerprint → Prop} {f : Fingerprint → (ℕ → Activity) → ℕ}
    {q : Option Outcome → Bool} (h_zero : f r₀ (System.quiet s).activity = 0)
    (h_P : ∀ {r r' e}, RowEvent θ r e r' → (P r r' ↔ q e = true))
    (h_f : ∀ {r r' e act act'}, Tallied θ r₀ i r act → RowEvent θ r e r' →
      Records i act act' e → f r' act' = f r act + (q e).toNat)
    {n : ℕ} {sys : System} (h : Passes (Contends θ s) (Turns i P) s n sys)
    (h_row : sys.db.row i = some r) : n = f r sys.activity := by
  -- the step to `y`, as an event
  have h_event : ∀ {x y : System} {r' : Fingerprint}, Reaches (Contends θ s) s x →
      Step (Contends θ s) x y → y.db.row i = some r' →
      ∃ e r₁, x.db.row i = some r₁ ∧ (P r₁ r' ↔ q e = true) ∧
        f r' y.activity = f r₁ x.activity + (q e).toNat := by
    intro x y r' h_x h_step h_r'
    obtain ⟨r₁, h_r₁, h_tally⟩ := Contending.tallied h_s h_row₀ h_active₀ h_x
    obtain ⟨e, r₂, h_r₂, h_ev, h_rec⟩ := (Reaches.contending h_s h_x).event h_step h_r₁
    obtain rfl := Option.some.inj (h_r₂.symm.trans h_r')
    exact ⟨e, r₁, h_r₁, h_P h_ev, h_f h_tally h_ev h_rec⟩
  induction h generalizing r with
  | quiet =>
    rw [System.row_quiet] at h_row
    rw [← Option.some.inj (h_row₀.symm.trans h_row), h_zero]
  | @skip n x y h h_step h_not ih =>
    obtain ⟨e, r₁, h_r₁, h_iff, h_eq⟩ := h_event h.reaches h_step h_row
    have h_q : q e = false := by
      by_contra h_q
      exact h_not ⟨r₁, r, h_r₁, h_row, h_iff.mpr (by simpa using h_q)⟩
    rw [ih h_r₁, h_eq, h_q]
    rfl
  | @pass n x y h h_step h_kind ih =>
    obtain ⟨e, r₁, h_r₁, h_iff, h_eq⟩ := h_event h.reaches h_step h_row
    obtain ⟨r₂, r₃, h_r₂, h_r₃, h_turn⟩ := h_kind
    obtain rfl := Option.some.inj (h_r₁.symm.trans h_r₂)
    obtain rfl := Option.some.inj (h_row.symm.trans h_r₃)
    rw [ih h_r₁, h_eq, h_iff.mp h_turn]
    rfl

end Events

/-! ### The result -/

/-- What a run of contending calls has done to the rows that were active before it. The first two
clauses are about the rows alone. The others set what was returned, and how many steps of a kind
the run has, beside the row at the end, each of them as exactly once or not at all. Transactions
may be running still: what they have drafted is neither returned nor in the snapshot. -/
structure Serialized (θ : ℕ) (s : Store) (sys : System) : Prop where
  /-- `flag_count` is the number of distinct consumers with a flag. -/
  flagCount : ∀ i r, sys.db.snapshot.row i = some r →
    r.flagCount = sys.db.snapshot.countFlaggers i
  /-- Every row is still there. -/
  present : ∀ i, ActiveIn s i → ∃ r, sys.db.snapshot.row i = some r
  /-- One flag returned `hidden = True` if the threshold is reached and some flag of the row
  returned a result, else none; -/
  hides : ∀ i r, ActiveIn s i → sys.db.snapshot.row i = some r →
    Once i sys.activity .hidden (Reached θ i r sys.activity)
  /-- and of a row that was short of the threshold a flag did return one if it is reached. -/
  reached : ∀ i r₀ r, s.row i = some r₀ → r₀.status = .active → r₀.flagCount < θ →
    sys.db.snapshot.row i = some r → (Reached θ i r sys.activity ↔ θ ≤ r.flagCount)
  /-- One step, or none, hid the row; -/
  hideSteps : ∀ i r n, ActiveIn s i → sys.db.snapshot.row i = some r →
    Passes (Contends θ s) (Turns i IsHide) s n sys → n = hidesOf θ i r sys.activity
  /-- `soft_delete` returned `True` once if the row is deleted, else never; -/
  deletes : ∀ i r, ActiveIn s i → sys.db.snapshot.row i = some r →
    Once i sys.activity .deleted (r.status = .deleted)
  /-- one step, or none, deleted the row; -/
  deletionSteps : ∀ i r n, ActiveIn s i → sys.db.snapshot.row i = some r →
    Passes (Contends θ s) (Turns i IsDeletion) s n sys → n = deletionsOf r
  /-- and no other step gave it another cursor value. -/
  renumberings : ∀ i r n, ActiveIn s i → sys.db.snapshot.row i = some r →
    Passes (Contends θ s) (Turns i IsRenumbering) s n sys →
      n = hidesOf θ i r sys.activity + deletionsOf r
  /-- The hit counts returned are the numbers from the old count to the new one, once
  each. -/
  hits : ∀ i r₀ r n, s.row i = some r₀ → r₀.status = .active → sys.db.snapshot.row i = some r →
    Once i sys.activity (.hit n) (r₀.hitCount < n ∧ n ≤ r.hitCount)
  /-- In every step, a flag or a hit of a deleted row was there before. -/
  noneLate : ∀ x y i r, Reaches (Contends θ s) s x → Step (Contends θ s) x y →
    x.db.row i = some r → r.status = .deleted →
    (∀ c f, (y.db.flags.cell (i, c)).committed = some f →
      (x.db.flags.cell (i, c)).committed = some f) ∧
    ∀ k hit, hit.fingerprintId = i → (y.db.hits.cell k).committed = some hit →
      (x.db.hits.cell k).committed = some hit

/-- **Concurrent flags, hits and deletions serialise.** In whatever order their statements run,
the rows and the answers are those of calls made one after the other: a row is hidden once and
deleted once, one caller is told of it, and no hit is lost or counted twice.

The store may be any that is reachable, so it may have been built with other thresholds than the
one the flags of the run use. A row that a lowered threshold finds at it, and active, is hidden by
the first flag that comes, whoever it is of, and stays active while none does: this is why `hides`
asks for a flag. Of every other row `reached` says that the threshold alone decides. -/
theorem contending_calls_serialize (θ : ℕ) (s : Store) (h_s : s.Reachable) (sys : System)
    (h : Reaches (Contends θ s) s sys) : Serialized θ s sys := by
  have h_inv := Reaches.contending h_s h
  have h_tally : ∀ {i r₀ r}, s.row i = some r₀ → r₀.status = .active →
      sys.db.row i = some r → Tallied θ r₀ i r sys.activity := by
    intro i r₀ r h_row₀ h_active₀ h_row
    obtain ⟨r', h_row', h_tally⟩ := Contending.tallied h_s h_row₀ h_active₀ h
    obtain rfl := Option.some.inj (h_row'.symm.trans h_row)
    exact h_tally
  have h_hidden₀ : ∀ i r, hidesOf θ i r (System.quiet s).activity = 0 :=
    fun i _ => if_neg (fun h_reached => not_flagged_quiet s i h_reached.2)
  have h_deleted₀ : ∀ {r : Fingerprint}, r.status = .active → deletionsOf r = 0 := by
    intro r h_active
    unfold deletionsOf
    rw [h_active]
    rfl
  have h_row : ∀ i, sys.db.snapshot.row i = sys.db.row i := h_inv.lock.snapshot_row
  -- each clause is one of the tally, or a count of the steps that change it
  refine ⟨fun i r h_r => ?_, ?_, ?_, ?_, ?_, ?_, ?_, ?_, ?_, ?_⟩
  · rw [h_row] at h_r
    rw [Store.countFlaggers_eq_ncard]
    simp only [h_inv.flags.flagged_snapshot]
    exact h_inv.tidy.flagCount i r h_r
  · rintro i ⟨r₀, h_row₀, h_active₀⟩
    obtain ⟨r, h_r, -⟩ := Contending.tallied h_s h_row₀ h_active₀ h
    exact ⟨r, (h_row i).trans h_r⟩
  · rintro i r ⟨r₀, h_row₀, h_active₀⟩ h_r
    exact (h_tally h_row₀ h_active₀ ((h_row i).symm.trans h_r)).hides
  · intro i r₀ r h_row₀ h_active₀ h_short h_r
    have h_t := h_tally h_row₀ h_active₀ ((h_row i).symm.trans h_r)
    refine ⟨And.left, fun h_le => ⟨h_le, by_contra fun h_not => ?_⟩⟩
    -- without a flag the count is the one at the start
    exact absurd (h_t.unflagged h_not ▸ h_le) (not_le.mpr h_short)
  · rintro i r n ⟨r₀, h_row₀, h_active₀⟩ h_r h_n
    exact h_n.count h_s h_row₀ h_active₀ (h_hidden₀ i r₀) RowEvent.isHide_iff
      Tallied.hidesOf_event ((h_row i).symm.trans h_r)
  · rintro i r ⟨r₀, h_row₀, h_active₀⟩ h_r
    exact (h_tally h_row₀ h_active₀ ((h_row i).symm.trans h_r)).deletes
  · rintro i r n ⟨r₀, h_row₀, h_active₀⟩ h_r h_n
    exact h_n.count (f := fun r _ => deletionsOf r) h_s h_row₀ h_active₀ (h_deleted₀ h_active₀)
      RowEvent.isDeletion_iff (fun _ h_event _ => h_event.deletionsOf_event)
      ((h_row i).symm.trans h_r)
  · rintro i r n ⟨r₀, h_row₀, h_active₀⟩ h_r h_n
    refine h_n.count (f := fun r act => hidesOf θ i r act + deletionsOf r) h_s h_row₀ h_active₀ ?_
      RowEvent.isRenumbering_iff (fun h_t h_event h_rec => ?_) ((h_row i).symm.trans h_r)
    · rw [h_hidden₀ i r₀, h_deleted₀ h_active₀]
    · rw [h_t.hidesOf_event h_event h_rec, h_event.deletionsOf_event]
      cases h_event <;> simp [isHidden, isDeleted] <;> omega
  · intro i r₀ r n h_row₀ h_active₀ h_r
    exact (h_tally h_row₀ h_active₀ ((h_row i).symm.trans h_r)).hits n
  · intro x y i r h_x h_step h_r h_deleted
    -- no flag and no hit outlives the row it is for: its transaction holds the row
    have h_x_inv := Reaches.contending h_s h_x
    refine ⟨fun c f => h_x_inv.flags.flag_kept h_x_inv.lock h_step ⟨r, h_r, h_deleted⟩,
      fun k hit h_i => ?_⟩
    have h_hits : HitLocks x := HitLocks.reaches (fun _ => Contends.noRetention) h_s h_x
    exact h_hits.hit_kept h_x_inv.lock h_step ⟨r, h_r, h_deleted⟩ h_i

/-! ### Two runs -/

/-- Two flags of different consumers race to a threshold of two, with a hit between them and a
deletion after both. The second flag waits for the first one's row lock, counts both and hides the
row. -/
theorem contending_calls_serialize_race : ∃ sys,
    Reaches (Contends 2 (Store.empty.run [sampleCall])) (Store.empty.run [sampleCall]) sys ∧
    sys.activity 2 =
      .done (.flag (fun _ t => t) (sampleFlag 1 3)) (.flag (some ⟨2, .hidden, true⟩)) ∧
    Serialized 2 (Store.empty.run [sampleCall]) sys := by
  have h : Reaches (Contends 2 (Store.empty.run [sampleCall])) (Store.empty.run [sampleCall])
      ⟨.ofStore (Store.empty.run [sampleCall]), fun _ => .idle⟩ := .quiet
  have h_active : ActiveIn (Store.empty.run [sampleCall]) 1 := ⟨_, rfl, rfl⟩
  have h := h.begin 1 (.flag (fun _ t => t) (sampleFlag 1 2)) rfl ⟨rfl, h_active⟩
  have h := h.begin 2 (.flag (fun _ t => t) (sampleFlag 1 3)) rfl ⟨rfl, h_active⟩
  have h := h.begin 3 (.reportHit (fun _ t => t) ⟨1, 2, none, none, 25⟩) rfl h_active
  have h := h.begin 4 (.softDelete 1 30) rfl h_active
  -- the first flag holds the row while the deletion evaluates its values
  have h := h.exec 1 rfl (.flagLock rfl rfl (by decide))
  have h := h.exec 4 rfl (.deleteEval rfl (by decide) (by decide))
  have h := h.exec 1 rfl (.insertFlag (fun _ => nofun) rfl)
  have h := h.exec 1 rfl .count
  have h := h.exec 1 rfl (.keep (by decide) rfl)
  have h := h.commit 1 rfl
  have h := h.exec 3 rfl (.hitLock rfl rfl (by decide))
  have h := h.exec 3 rfl .insertHit
  have h := h.exec 3 rfl (.bumpHit rfl)
  have h := h.commit 3 rfl
  -- the second flag counts both
  have h := h.exec 2 rfl (.flagLock rfl rfl (by decide))
  have h := h.exec 2 rfl (.insertFlag (fun _ => nofun) rfl)
  have h := h.exec 2 rfl .count
  have h := h.exec 2 rfl (.hide (by decide) rfl)
  have h := h.commit 2 rfl
  -- the deletion finds a newer version than the one it had evaluated its values on
  have h := h.exec 4 rfl (.deleteEval rfl (by decide) (by decide))
  have h := h.exec 4 rfl (.deleteWrite rfl rfl (by decide))
  have h := h.commit 4 rfl
  exact ⟨_, h, rfl, contending_calls_serialize 2 _ ⟨[sampleCall], rfl⟩ _ h⟩

/-- A row that was flagged once under a threshold of two. -/
def sampleOnceFlagged : Store := Store.empty.run [sampleCall, .flag (fun _ t => t) (sampleFlag 1 2)]

/-- **The threshold alone does not decide**: it is lowered to one, a hit is reported, and no flag
returns `hidden = True` although the flags are as many as the threshold. -/
theorem threshold_lowered :
    ¬ ∀ (θ : ℕ) (s : Store) (sys : System), 1 ≤ θ → s.Reachable → Reaches (Contends θ s) s sys →
      (∀ tx c, sys.activity tx ≠ .running c) → ∀ i r, ActiveIn s i →
        sys.db.snapshot.row i = some r → Once i sys.activity .hidden (θ ≤ r.flagCount) := by
  have h_active : ActiveIn sampleOnceFlagged 1 := ⟨_, rfl, by decide⟩
  have h : Reaches (Contends 1 sampleOnceFlagged) sampleOnceFlagged
      ⟨.ofStore sampleOnceFlagged, fun _ => .idle⟩ := .quiet
  have h := h.begin 3 (.reportHit (fun _ t => t) ⟨1, 2, none, none, 25⟩) rfl h_active
  have h := h.exec 3 rfl (.hitLock rfl rfl (by decide))
  have h := h.exec 3 rfl .insertHit
  have h := h.exec 3 rfl (.bumpHit rfl)
  have h := h.commit 3 rfl
  intro h_all
  have h_once := h_all 1 _ _ le_rfl ⟨_, rfl⟩ h (fun tx c h_tx => ?_) 1 _ h_active rfl
  · obtain ⟨tx, h_tx, -⟩ := h_once.one (by decide)
    by_cases h_3 : tx = 3
    · subst h_3
      exact nomatch (show some (Outcome.hit 1) = some .hidden from h_tx)
    · simp [Function.update_of_ne h_3, Activity.outcome] at h_tx
  · by_cases h_3 : tx = 3
    · subst h_3
      exact Activity.noConfusion h_tx
    · simp [Function.update_of_ne h_3] at h_tx

end Concurrent
end FingerprintHub
