import FingerprintHub.Concurrent.Locking

/-!
# The cursor values of concurrent writers

`nextval` hands out a value at once, and the row that is to carry it is committed
later or not at all. `Sequenced` is what holds of the values in between. A value that
a session has drawn is its own: no row carries it and no other session has it. The
draft of a row never falls behind the row.
-/

namespace FingerprintHub
namespace Concurrent

/-- The version of the row the `SET` list of an `UPDATE` was evaluated on. The value drawn for it
may be written only over this version. -/
def Pc.seen : Pc → Option Fingerprint
  | .resurrect seen => seen
  | .delete seen => seen
  | _ => none

/-- Cursor values are handed out once and in order. The clauses set the values of committed rows,
of drafts and of sessions beside one another; `seen_lt` says that a value drawn for a version is
later than the version's own. -/
structure Sequenced (sys : System) : Prop where
  committed_le : ∀ i r, sys.db.row i = some r → r.syncSeq ≤ sys.db.syncSeq
  committed_inj : ∀ i i' r r', sys.db.row i = some r → sys.db.row i' = some r' →
    r.syncSeq = r'.syncSeq → i = i'
  drawn_le : ∀ tx s v, sys.activity tx = .running s → s.drawn = some v → v ≤ sys.db.syncSeq
  drawn_ne : ∀ tx s v i r, sys.activity tx = .running s → s.drawn = some v →
    sys.db.row i = some r → r.syncSeq ≠ v
  drawn_inj : ∀ tx tx' s s' v, sys.activity tx = .running s → sys.activity tx' = .running s' →
    s.drawn = some v → s'.drawn = some v → tx = tx'
  seen_lt : ∀ tx s v r, sys.activity tx = .running s → s.drawn = some v → s.pc.seen = some r →
    r.syncSeq < v
  draft_le : ∀ i l r r', sys.db.row i = some r → (sys.db.rows.cell i).lock = some l →
    l.draft = some (some r') → r.syncSeq ≤ r'.syncSeq

/-! ### What a statement draws -/

/-- A value a session has after a statement it had before, or it is the next one. A value that is
drawn again, for a newer version, takes the place of the one before, which nobody will ever write.
-/
theorem Exec.drawn_cases {tx : ℕ} {db db' : Db} {s s' : Session} (h : Exec tx db s db' s') {v : ℕ}
    (h_v : s'.drawn = some v) :
    (s.drawn = some v ∧ ∀ r, s'.pc.seen = some r → s.pc.seen = some r) ∨
    (v = db.syncSeq + 1 ∧ db'.syncSeq = db.syncSeq + 1 ∧
      ∀ r, s'.pc.seen = some r → ∃ i, db.row i = some r) := by
  have h_none : ∀ {P : Fingerprint → Prop} (r : Fingerprint), none = some r → P r :=
    fun _ h_r => absurd h_r (by simp)
  cases h with
  -- `nextval` runs in the statements that evaluate; those that write keep the value
  | resurrectEval h_row _ =>
    refine Or.inr ⟨(Option.some.inj h_v).symm, rfl, fun r h_r => ?_⟩
    exact ⟨_, h_row.trans h_r⟩
  | resurrectWrite _ _ => exact Or.inl ⟨h_v, h_none⟩
  | insertAllot => exact Or.inr ⟨(Option.some.inj h_v).symm, rfl, h_none⟩
  | insertWrite _ _ => exact Or.inl ⟨h_v, h_none⟩
  | hide _ _ => exact Or.inr ⟨(Option.some.inj h_v).symm, rfl, h_none⟩
  | deleteEval h_row _ _ =>
    refine Or.inr ⟨(Option.some.inj h_v).symm, rfl, fun r h_r => ?_⟩
    exact ⟨_, h_row.trans h_r⟩
  | deleteWrite _ _ _ => exact Or.inl ⟨h_v, h_none⟩
  | _ => exact absurd h_v (by simp)

/-- A draft carries the value of its row, or one its session has drawn: hits, counting flags and
retention leave `sync_seq` alone. -/
theorem Owns.syncSeq_cases {s : Session} {i : ℤ} {o : Option Fingerprint} {r' : Fingerprint}
    (h : Owns s i o (some (some r'))) :
    (∃ r, o = some r ∧ r'.syncSeq = r.syncSeq) ∨ s.drawn = some r'.syncSeq := by
  cases h with
  | insert h_row => rw [h_row]; exact Or.inr rfl
  | resurrect h_row => rw [h_row]; exact Or.inr rfl
  | hit _ _ _ h_row => exact Or.inl ⟨_, rfl, by rw [h_row]; rfl⟩
  | hide _ _ _ h_row => rw [h_row]; exact Or.inr rfl
  | keep _ _ _ _ h_row => exact Or.inl ⟨_, rfl, by rw [h_row]; rfl⟩
  | delete _ h_row => rw [h_row]; exact Or.inr rfl
  | anonymize _ _ h_row => exact Or.inl ⟨_, rfl, by rw [h_row]; rfl⟩

/-- A session that has drawn a value writes one row. -/
theorem Owns.unique {s : Session} {i i' : ℤ} {o o' : Option Fingerprint}
    {d d' : Option (Option Fingerprint)} {v : ℕ} (h_v : s.drawn = some v) (h : Owns s i o d)
    (h' : Owns s i' o' d') : i = i' := by
  cases h with
  | insert h_row =>
    cases h' with
    | insert h_row' => exact congrArg Fingerprint.id (h_row.symm.trans h_row')
  | resurrect _ =>
    cases h' with
    | resurrect _ => rfl
  | hide h_target _ _ _ =>
    cases h' with
    | hide h_target' _ _ _ => exact h_target.symm.trans h_target'
  | delete _ _ =>
    cases h' with
    | delete _ _ => rfl
  | _ => exact absurd h_v (by simp)

/-! ### Where a value comes from -/

section Origin

variable {allowed : Op → Prop} {sys sys' : System}

/-- The sequence only goes up, also when a transaction rolls back. -/
theorem Step.syncSeq_le (h : Step allowed sys sys') : sys.db.syncSeq ≤ sys'.db.syncSeq := by
  have h_end : ∀ tx op, (endOf tx op sys.db).syncSeq = sys.db.syncSeq := by
    intro tx op
    unfold endOf
    split <;> rfl
  obtain ⟨tx, h_acts⟩ := h.acts
  cases h_acts with
  | begin h_db => rw [h_db]
  | exec _ h_exec => exact h_exec.sequences_le.1
  | commit _ _ h_db => rw [h_db, h_end]
  | abort h_db => rw [h_db]; exact le_rfl

/-- A step changes what one transaction does, and leaves the others where they are. -/
theorem Step.changed_unique (h : Step allowed sys sys') {tx tx' : ℕ}
    (h_tx : sys'.activity tx ≠ sys.activity tx) (h_tx' : sys'.activity tx' ≠ sys.activity tx') :
    tx = tx' := by
  have h_update : ∀ (t : ℕ) (a : Activity), sys'.activity = Function.update sys.activity t a →
      tx = tx' := by
    intro t a h_eq
    rw [h_eq] at h_tx h_tx'
    -- a step changes the activity of its own transaction only
    have h_t : ∀ {u}, Function.update sys.activity t a u ≠ sys.activity u → u = t := by
      intro u h_u
      by_contra h_ne
      exact h_u (Function.update_of_ne h_ne _ _)
    rw [h_t h_tx, h_t h_tx']
  cases h with
  | begin _ _ => exact h_update _ _ rfl
  | exec _ _ => exact h_update _ _ rfl
  | commit _ => exact h_update _ _ rfl
  | abort _ => exact h_update _ _ rfl

/-- A drawn value was drawn before, or by this very step. -/
theorem Step.drawn_origin (h : Step allowed sys sys') {tx : ℕ} {s' : Session} {v : ℕ}
    (h_run' : sys'.activity tx = .running s') (h_v : s'.drawn = some v) :
    (∃ s, sys.activity tx = .running s ∧ s.drawn = some v ∧
      ∀ r, s'.pc.seen = some r → s.pc.seen = some r) ∨
    (v = sys.db.syncSeq + 1 ∧ sys'.db.syncSeq = sys.db.syncSeq + 1 ∧
      ∀ r, s'.pc.seen = some r → ∃ i, sys.db.row i = some r) := by
  have h_moves := h.moves tx
  rw [h_run'] at h_moves
  generalize h_a : sys.activity tx = act at h_moves
  cases h_moves with
  | other _ _ => exact Or.inl ⟨s', rfl, h_v, fun _ h_r => h_r⟩
  | @begin op _ _ =>
    exact absurd ((Session.start_drawn op).symm.trans h_v) (by simp)
  | @exec s _ h_exec =>
    rcases h_exec.drawn_cases h_v with ⟨h_s, h_seen⟩ | h_new
    · exact Or.inl ⟨s, rfl, h_s, h_seen⟩
    · exact Or.inr h_new

/-- The value of a committed row was there before, or its session has drawn it and is done now. So
a value goes from the sequence to one session, and from it to one row. -/
theorem Locking.value_origin (h_lock : Locking sys) (h : Step allowed sys sys') {i : ℤ}
    {r' : Fingerprint} (h_row' : sys'.db.row i = some r') :
    (∃ r, sys.db.row i = some r ∧ r'.syncSeq = r.syncSeq) ∨
    ∃ tx s d, sys.activity tx = .running s ∧ s.drawn = some r'.syncSeq ∧
      Owns s i (sys.db.row i) d ∧ ∀ s', sys'.activity tx ≠ .running s' := by
  rcases h_lock.row_step h i with
    h_same | ⟨tx, op, reply, existing, drawn, d, h_run, h_eq, -, -, h_owns, h_d⟩
  · exact Or.inl ⟨r', h_same.symm.trans h_row', rfl⟩
  · rw [← h_d, h_row'] at h_owns
    rcases h_owns.syncSeq_cases with h_old | h_drawn
    · exact Or.inl h_old
    · refine Or.inr ⟨tx, _, _, h_run, h_drawn, h_owns, fun s' h_run' => ?_⟩
      rw [h_eq] at h_run'
      exact Activity.noConfusion ((Function.update_self tx _ sys.activity).symm.trans h_run')

end Origin

/-! ### The invariant -/

/-- At the start nothing is drawn, and the rows of a well-formed store have values of their own.
-/
theorem Sequenced.quiet {s : Store} (h_wf : s.Wf) : Sequenced (.quiet s) := by
  have h_row := System.row_quiet s
  refine ⟨fun i r h_r => ?_, fun i i' r r' h_r h_r' => ?_, fun _ _ _ h_run => ?_,
    fun _ _ _ _ _ h_run => ?_, fun _ _ _ _ _ h_run => ?_, fun _ _ _ _ h_run => ?_,
    fun i l r r' _ h_l => ?_⟩
  · exact h_wf.syncSeq_le i r ((h_row i).symm.trans h_r)
  · exact h_wf.syncSeq_inj i i' r r' ((h_row i).symm.trans h_r) ((h_row i').symm.trans h_r')
  · exact Activity.noConfusion h_run
  · exact Activity.noConfusion h_run
  · exact Activity.noConfusion h_run
  · exact Activity.noConfusion h_run
  · exact (Versioned.ownedBy_ofTable s.fingerprints i (fun _ _ _ => False) l h_l).elim

section Step

variable {allowed : Op → Prop} {sys sys' : System}

/-- The clause `drawn_ne`: a row that carries the value was written by the session that had drawn
it, which is done. -/
theorem Sequenced.step_drawn_ne (h : Sequenced sys) (h_lock : Locking sys)
    (h_step : Step allowed sys sys') (tx : ℕ) (s' : Session) (v : ℕ) (i : ℤ) (r' : Fingerprint)
    (h_run' : sys'.activity tx = .running s') (h_v : s'.drawn = some v)
    (h_row' : sys'.db.row i = some r') : r'.syncSeq ≠ v := by
  rcases h_lock.value_origin h_step h_row' with
    ⟨r, h_row, h_eq⟩ | ⟨tx₀, s₀, d, h_run₀, h_drawn₀, -, h_done⟩
  · rw [h_eq]
    rcases h_step.drawn_origin h_run' h_v with ⟨s, h_run, h_s, -⟩ | ⟨h_new, -, -⟩
    · exact h.drawn_ne tx s v i r h_run h_s h_row
    · have h_le := h.committed_le i r h_row
      omega
  · rcases h_step.drawn_origin h_run' h_v with ⟨s, h_run, h_s, -⟩ | ⟨h_new, -, -⟩
    · -- one session has drawn it, and that one is done
      rintro rfl
      obtain rfl := h.drawn_inj tx tx₀ s s₀ _ h_run h_run₀ h_s h_drawn₀
      exact h_done s' h_run'
    · have h_le := h.drawn_le tx₀ s₀ _ h_run₀ h_drawn₀
      omega

/-- The clause `drawn_inj`: of two sessions at most one has drawn in this step. -/
theorem Sequenced.step_drawn_inj (h : Sequenced sys) (h_step : Step allowed sys sys')
    (tx tx' : ℕ) (s s' : Session) (v : ℕ) (h_run : sys'.activity tx = .running s)
    (h_run' : sys'.activity tx' = .running s') (h_v : s.drawn = some v)
    (h_v' : s'.drawn = some v) : tx = tx' := by
  rcases h_step.drawn_origin h_run h_v with ⟨s₀, h_run₀, h_s₀, -⟩ | ⟨h_new, -, -⟩ <;>
    rcases h_step.drawn_origin h_run' h_v' with ⟨s₁, h_run₁, h_s₁, -⟩ | ⟨h_new', -, -⟩
  · exact h.drawn_inj tx tx' s₀ s₁ v h_run₀ h_run₁ h_s₀ h_s₁
  · have h_le := h.drawn_le tx s₀ v h_run₀ h_s₀
    omega
  · have h_le := h.drawn_le tx' s₁ v h_run₁ h_s₁
    omega
  · -- both have drawn it in this step
    have h_changed : ∀ t c, sys'.activity t = .running c → c.drawn = some v →
        sys'.activity t ≠ sys.activity t := by
      intro t c h_c h_d h_eq
      have h_le := h.drawn_le t c v (h_eq.symm.trans h_c) h_d
      omega
    exact h_step.changed_unique (h_changed tx s h_run h_v) (h_changed tx' s' h_run' h_v')

/-- The clause `committed_inj`: two rows that carry a value have it from where it was before. -/
theorem Sequenced.step_committed_inj (h : Sequenced sys) (h_lock : Locking sys)
    (h_step : Step allowed sys sys') (i i' : ℤ) (r r' : Fingerprint)
    (h_row : sys'.db.row i = some r) (h_row' : sys'.db.row i' = some r')
    (h_eq : r.syncSeq = r'.syncSeq) : i = i' := by
  rcases h_lock.value_origin h_step h_row with
      ⟨r₀, h_r₀, h_eq₀⟩ | ⟨tx₀, s₀, d₀, h_run₀, h_drawn₀, h_owns₀, -⟩ <;>
    rcases h_lock.value_origin h_step h_row' with
      ⟨r₁, h_r₁, h_eq₁⟩ | ⟨tx₁, s₁, d₁, h_run₁, h_drawn₁, h_owns₁, -⟩
  · exact h.committed_inj i i' r₀ r₁ h_r₀ h_r₁ (h_eq₀.symm.trans (h_eq.trans h_eq₁))
  · exact absurd (h_eq₀.symm.trans h_eq) (h.drawn_ne tx₁ s₁ _ i r₀ h_run₁ h_drawn₁ h_r₀)
  · exact absurd (h_eq₁.symm.trans h_eq.symm) (h.drawn_ne tx₀ s₀ _ i' r₁ h_run₀ h_drawn₀ h_r₁)
  · rw [← h_eq] at h_drawn₁
    obtain rfl := h.drawn_inj tx₀ tx₁ s₀ s₁ _ h_run₀ h_run₁ h_drawn₀ h_drawn₁
    obtain rfl := Activity.running.inj (h_run₀.symm.trans h_run₁)
    exact h_owns₀.unique h_drawn₀ h_owns₁

/-- A draft that a statement writes carries the value of the row, or a later one. -/
theorem Sequenced.exec_draft_le (h : Sequenced sys) {tx : ℕ} {s s' : Session} {db : Db}
    (h_run : sys.activity tx = .running s) (h_exec : Exec tx sys.db s db s') {i : ℤ}
    {r r' : Fingerprint} (h_row : sys.db.row i = some r)
    (h_owns : Owns s' i (some r) (some (some r'))) : r.syncSeq ≤ r'.syncSeq := by
  have h_le := h.committed_le i r h_row
  cases h_owns with
  -- the drafts that keep the value, and those that have a new one
  | hit _ _ _ h_r' => rw [h_r']; exact le_rfl
  | keep _ _ _ _ h_r' => rw [h_r']; exact le_rfl
  | anonymize _ _ h_r' => rw [h_r']; exact le_rfl
  | resurrect h_r' =>
    rw [h_r']
    cases h_exec with
    | resurrectWrite h_free h_row' =>
      obtain rfl := Option.some.inj (h_row.symm.trans h_row')
      exact (h.seen_lt tx _ _ _ h_run rfl rfl).le
  | hide _ _ _ h_r' =>
    rw [h_r']
    cases h_exec with
    | hide _ _ => exact h_le.trans (Nat.le_succ _)
  | delete _ h_r' =>
    rw [h_r']
    cases h_exec with
    | deleteWrite _ h_row' _ =>
      obtain rfl := Option.some.inj (h_row.symm.trans h_row')
      exact (h.seen_lt tx _ _ _ h_run rfl rfl).le

/-- The clause `draft_le`: while a row is locked nobody else commits it, so that only its own
session can move the draft. -/
theorem Sequenced.step_draft_le (h : Sequenced sys) (h_lock : Locking sys)
    (h_step : Step allowed sys sys') (i : ℤ) (l : RowLock Fingerprint) (r r' : Fingerprint)
    (h_row : sys'.db.row i = some r) (h_l : (sys'.db.rows.cell i).lock = some l)
    (h_d : l.draft = some (some r')) : r.syncSeq ≤ r'.syncSeq := by
  -- a lock that is left was there before, on the same row
  have h_ends : ∀ tx, (sys.db.rows.cell i).Ends tx (sys'.db.rows.cell i) →
      r.syncSeq ≤ r'.syncSeq := by
    intro tx h_ends
    obtain ⟨h_l₀, h_ne⟩ := (h_ends.lock l).mp h_l
    have h_same := h_ends.same (Cell.not_held_of_lock h_l₀ h_ne)
    exact h.draft_le i l r r' ((congrArg Cell.committed h_same).symm.trans h_row) h_l₀ h_d
  obtain ⟨tx, h_acts⟩ := h_step.acts
  cases h_acts with
  | begin h_db =>
    rw [h_db] at h_row h_l
    exact h.draft_le i l r r' h_row h_l h_d
  | exec h_run h_exec =>
    have h_move := h_lock.rowMove h_run h_exec i
    have h_row₀ : sys.db.row i = some r := h_move.committed.symm.trans h_row
    generalize sys'.db.rows.cell i = c at h_move h_l
    cases h_move with
    | same _ => exact h.draft_le i l r r' h_row₀ h_l h_d
    | taken _ h_owns =>
      obtain rfl := Option.some.inj h_l
      obtain rfl : _ = some (some r') := h_d
      rw [show (sys.db.rows.cell i).committed = some r from h_row₀] at h_owns
      exact h.exec_draft_le h_run h_exec h_row₀ h_owns
    | written _ h_owns =>
      obtain rfl := Option.some.inj h_l
      obtain rfl : _ = some (some r') := h_d
      rw [show (sys.db.rows.cell i).committed = some r from h_row₀] at h_owns
      exact h.exec_draft_le h_run h_exec h_row₀ h_owns
  | commit _ _ h_db => exact h_ends tx (h_db ▸ rows_endOf _ _ _ i)
  | abort h_db => exact h_ends tx (h_db ▸ rows_rollback _ _ i)

/-- **Every step hands out values once and in order**, clause by clause. -/
theorem Sequenced.step (h : Sequenced sys) (h_lock : Locking sys)
    (h_step : Step allowed sys sys') : Sequenced sys' where
  committed_le := by
    intro i r' h_row'
    refine le_trans ?_ h_step.syncSeq_le
    rcases h_lock.value_origin h_step h_row' with ⟨r, h_row, h_eq⟩ | ⟨tx, s, d, h_run, h_v, -, -⟩
    · exact h_eq.trans_le (h.committed_le i r h_row)
    · exact h.drawn_le tx s _ h_run h_v
  committed_inj := h.step_committed_inj h_lock h_step
  drawn_le := by
    intro tx s' v h_run' h_v
    rcases h_step.drawn_origin h_run' h_v with ⟨s, h_run, h_s, -⟩ | ⟨h_new, h_seq, -⟩
    · exact (h.drawn_le tx s v h_run h_s).trans h_step.syncSeq_le
    · omega
  drawn_ne := h.step_drawn_ne h_lock h_step
  drawn_inj := h.step_drawn_inj h_step
  seen_lt := by
    intro tx s' v r h_run' h_v h_seen'
    rcases h_step.drawn_origin h_run' h_v with ⟨s, h_run, h_s, h_seen⟩ | ⟨h_new, -, h_seen⟩
    · exact h.seen_lt tx s v r h_run h_s (h_seen r h_seen')
    -- the row it has read is committed, and the value it draws is new
    · obtain ⟨i, h_row⟩ := h_seen r h_seen'
      have h_le := h.committed_le i r h_row
      omega
  draft_le := h.step_draft_le h_lock h_step

end Step

/-- **The values of every run**, of any mix of calls, retention included. -/
theorem Sequenced.reaches {allowed : Op → Prop} {s : Store} (h_s : s.Reachable) {sys : System}
    (h : Reaches allowed s sys) : Sequenced sys := by
  induction h with
  | refl => exact .quiet h_s.wf
  | tail h_run h_step ih => exact ih.step (Locking.reaches h_s h_run) h_step

end Concurrent
end FingerprintHub
